import ArkheKernel.PrefixCode

/-!
# Reading codes back

A reader takes a value off the front of a byte string. All readers are built from
single bytes by sequencing, and so is the proof of what they read: one rule for
sequencing carries every format over to its reader. The readers decode the wire
format that postcard documents, with its bounds on the length of a varint.
-/

set_option autoImplicit false

namespace PrefixCode

abbrev Reader (α : Type*) := Bytes → Option (α × Bytes)

variable {α β : Type*}

/-- The encodings of good values are read back whatever follows, what was read is
read again when more bytes follow, and only good values are ever read. -/
structure Reads (R : Reader α) (encode : α → Bytes) (good : α → Prop) : Prop where
  back : ∀ a rest, good a → R (encode a ++ rest) = some (a,rest)
  more : ∀ bs a rest more, R bs = some (a,rest) → R (bs ++ more) = some (a,rest ++ more)
  good : ∀ bs a rest, R bs = some (a,rest) → good a

namespace Reader

def pure (a : α) : Reader α := fun bs => some (a,bs)

def fail : Reader α := fun _ => none

def andThen (R : Reader α) (S : α → Reader β) : Reader β := fun bs =>
  (R bs).bind (fun p => S p.1 p.2)

def pair (R : Reader α) (S : Reader β) : Reader (α × β) :=
  R.andThen (fun a => S.andThen (fun b => pure (a,b)))

def map (R : Reader α) (f : α → Option β) : Reader β := R.andThen (fun a => (f a).elim fail pure)

end Reader

def readByte : Reader UInt8
  | [] => none
  | b::bs => some (b,bs)

namespace Reads
variable {R : Reader α} {e : α → Bytes} {f : β → Bytes} {p : α → Prop} {q : β → Prop}

/-- A proper beginning of an encoding is not read as anything. -/
theorem torn (h : Reads R e p) {a : α} (ha : p a) {bs : Bytes} (hb : bs <+: e a) (hne : bs ≠ e a) :
    R bs = none := by
  obtain ⟨more,hmore⟩ := hb
  cases hr : R bs with
  | none => rfl
  | some x =>
    have hread := h.more bs x.1 x.2 more hr
    have hall := h.back a [] ha
    rw [List.append_nil,← hmore,hread,Option.some.injEq,Prod.mk.injEq] at hall
    obtain ⟨-,rfl⟩ := List.append_eq_nil_iff.mp hall.2
    exact absurd (by rw [← hmore,List.append_nil]) hne

theorem congr (h : Reads R e p) {p' : α → Prop} (hp : ∀ a, p' a ↔ p a) : Reads R e p' where
  back a rest ha := h.back a rest ((hp a).mp ha)
  more := h.more
  good bs a rest hr := (hp a).mpr (h.good bs a rest hr)

theorem pure {a : α} (he : e a = []) (hp : ∀ b, p b ↔ b = a) : Reads (Reader.pure a) e p where
  back b rest hb := by
    rw [(hp b).mp hb,he]
    rfl
  more bs b rest more h := by
    cases h
    rfl
  good bs b rest h := by
    cases h
    exact (hp a).mpr rfl

theorem fail (e : α → Bytes) : Reads Reader.fail e (fun _ => False) where
  back _ _ h := h.elim
  more _ _ _ _ h := nomatch h
  good _ _ _ h := nomatch h

theorem andThen (hR : Reads R e p) {S : α → Reader β} {f : α → β → Bytes} {q : α → β → Prop}
    (hS : ∀ a, Reads (S a) (f a) (q a)) {g : β → Bytes} {r : β → Prop}
    (hback : ∀ b, r b → ∃ a, p a ∧ q a b ∧ g b = e a ++ f a b)
    (hgood : ∀ a b, p a → q a b → r b) : Reads (R.andThen S) g r where
  back b rest hb := by
    obtain ⟨a,ha,hq,hg⟩ := hback b hb
    rw [hg,List.append_assoc,Reader.andThen,hR.back a _ ha]
    exact (hS a).back b rest hq
  more bs b rest more h := by
    obtain ⟨x,hx,hs⟩ := Option.bind_eq_some_iff.mp h
    rw [Reader.andThen,hR.more bs x.1 x.2 more hx]
    exact (hS x.1).more x.2 b rest more hs
  good bs b rest h := by
    obtain ⟨x,hx,hs⟩ := Option.bind_eq_some_iff.mp h
    exact hgood x.1 b (hR.good bs x.1 x.2 hx) ((hS x.1).good x.2 b rest hs)

theorem pair {S : Reader β} (hR : Reads R e p) (hS : Reads S f q) :
    Reads (R.pair S) (fun x => e x.1 ++ f x.2) (fun x => p x.1 ∧ q x.2) := by
  have hs (a : α) : Reads (S.andThen (fun b => Reader.pure (a,b))) (fun x => f x.2)
      (fun x => x.1 = a ∧ q x.2) := by
    refine hS.andThen (fun b => pure (e := fun _ => []) rfl (fun x => Iff.rfl)) ?_ ?_
    · rintro x ⟨rfl,hq⟩
      exact ⟨x.2,hq,rfl,(List.append_nil _).symm⟩
    · rintro b x hq rfl
      exact ⟨rfl,hq⟩
  refine hR.andThen hs ?_ ?_
  · intro x hx
    exact ⟨x.1,hx.1,⟨rfl,hx.2⟩,rfl⟩
  · rintro a x ha ⟨rfl,hq⟩
    exact ⟨ha,hq⟩

theorem map (hR : Reads R e p) {g : α → Option β}
    (hback : ∀ b, q b → ∃ a, p a ∧ e a = f b ∧ g a = some b)
    (hgood : ∀ a b, p a → g a = some b → q b) : Reads (R.map g) f q := by
  have hs (a : α) : Reads ((g a).elim Reader.fail Reader.pure) (fun _ : β => [])
      (fun b => g a = some b) := by
    cases hg : g a with
    | none => exact (fail _).congr (fun b => ⟨fun h => (nomatch h),False.elim⟩)
    | some c => exact pure rfl (fun b => ⟨fun h => (Option.some.inj h).symm,fun h => h ▸ rfl⟩)
  refine hR.andThen hs ?_ hgood
  intro b hb
  obtain ⟨a,ha,he,hg⟩ := hback b hb
  exact ⟨a,ha,hg,he.symm.trans (List.append_nil _).symm⟩

end Reads

theorem readByte_reads : Reads readByte byte.encode (fun _ => True) where
  back _ _ _ := rfl
  more bs b rest more h := by
    cases bs with
    | nil => cases h
    | cons _ _ => cases h; rfl
  good _ _ _ _ := trivial

theorem Reads.comap {R : Reader α} {A : Code α} {p : α → Prop} (hR : Reads R A.encode p) {f : β → α}
    {hf : Function.Injective f} {g : α → β} (hgf : ∀ b, g (f b) = b) (hfg : ∀ a, f (g a) = a) :
    Reads (R.map (fun a => some (g a))) (PrefixCode.comap A f hf).encode (fun b => p (f b)) := by
  refine hR.map (fun b hb => ⟨f b,hb,rfl,congrArg some (hgf b)⟩) ?_
  intro a b ha h
  cases h
  rwa [hfg]

/-- At most `f+1` groups of seven bits. The last of them has room for fewer than
seven bits, and is at most `top`. -/
def readVarint (top : ℕ) : ℕ → Reader ℕ
  | 0 => readByte.map (fun b => if b.toNat ≤ top then some b.toNat else none)
  | f+1 => readByte.andThen (fun b =>
      if b.toNat < 128 then .pure b.toNat
      else (readVarint top f).map (fun n => some (b.toNat-128+128*n)))

theorem varintFuel_eq (f g n : ℕ) (hf : n ≤ f) (hg : n ≤ g) : varintFuel f n = varintFuel g n := by
  induction f generalizing g n with
  | zero =>
    obtain rfl : n = 0 := by omega
    rw [varint_last (by decide),varint_last (by decide)]
  | succ f ih =>
    by_cases h : n < 128
    · rw [varint_last h,varint_last h]
    · obtain ⟨g,rfl⟩ : ∃ k, g = k+1 := ⟨g-1,by omega⟩
      rw [varint_more h,varint_more h,ih g (n/128) (by omega) (by omega)]

theorem varint_encode_last {n : ℕ} (h : n < 128) : varint.encode n = [UInt8.ofNat n] := varint_last h

theorem varint_encode_more {n : ℕ} (h : ¬n < 128) :
    varint.encode n = UInt8.ofNat (n%128+128) :: varint.encode (n/128) := by
  obtain ⟨f,rfl⟩ : ∃ k, n = k+1 := ⟨n-1,by omega⟩
  change varintFuel (f+1) (f+1) = _ :: varintFuel ((f+1)/128) ((f+1)/128)
  rw [varint_more h,varintFuel_eq f ((f+1)/128) ((f+1)/128) (by omega) (le_refl _)]

theorem ofNat_toNat {n : ℕ} (h : n < 256) : (UInt8.ofNat n).toNat = n := by simp; omega

/-- The high bit of the first group decides whether another one follows. -/
theorem readVarint_reads (top f : ℕ) (htop : top < 128) :
    Reads (readVarint top f) varint.encode (fun n => n < (top+1)*128^f) := by
  induction f with
  | zero =>
    refine readByte_reads.map ?_ ?_
    · intro n hn
      have hb : (UInt8.ofNat n).toNat = n := ofNat_toNat (by omega)
      exact ⟨UInt8.ofNat n,trivial,(varint_encode_last (by omega)).symm,by rw [hb,if_pos (by omega)]⟩
    · intro b n _ h
      split at h
      · cases h
        omega
      · cases h
  | succ f ih =>
    have hs (b : UInt8) : Reads (if b.toNat < 128 then .pure b.toNat
        else (readVarint top f).map (fun n => some (b.toNat-128+128*n)))
        (fun n => if b.toNat < 128 then [] else varint.encode (n/128))
        (fun n => if b.toNat < 128 then n = b.toNat
          else n%128 = b.toNat-128 ∧ n/128 < (top+1)*128^f) := by
      have hlt := b.toNat_lt
      by_cases h : b.toNat < 128
      · simp only [if_pos h]
        exact .pure rfl (fun n => Iff.rfl)
      · simp only [if_neg h]
        refine ih.map ?_ ?_
        · rintro n ⟨hm,hn⟩
          refine ⟨n/128,hn,rfl,?_⟩
          rw [← hm,Nat.mod_add_div]
        · intro m n hm hn
          cases hn
          exact ⟨by omega,by omega⟩
    refine readByte_reads.andThen hs ?_ ?_
    · intro n hn
      by_cases h : n < 128
      · have hb : (UInt8.ofNat n).toNat = n := ofNat_toNat (by omega)
        refine ⟨UInt8.ofNat n,trivial,?_,?_⟩
        · rw [hb,if_pos h]
        · rw [hb,if_pos h,varint_encode_last h]
          rfl
      · have hb : (UInt8.ofNat (n%128+128)).toNat = n%128+128 := ofNat_toNat (by omega)
        refine ⟨UInt8.ofNat (n%128+128),trivial,?_,?_⟩
        · rw [hb,if_neg (by omega)]
          refine ⟨by omega,?_⟩
          rw [Nat.div_lt_iff_lt_mul (by decide),Nat.mul_assoc,← pow_succ]
          exact hn
        · rw [hb,if_neg (by omega),varint_encode_more h]
          rfl
    · intro b n _ hn
      have hpos : 1 ≤ 128^f := Nat.one_le_pow _ _ (by decide)
      rw [pow_succ,← Nat.mul_assoc]
      split at hn
      · have hle : 1 ≤ (top+1)*128^f := Nat.mul_le_mul (Nat.le_add_left 1 top) hpos
        omega
      · exact (Nat.div_lt_iff_lt_mul (by decide)).mp hn.2

def readU16 : Reader ℕ := readVarint 3 2

def readU32 : Reader ℕ := readVarint 15 4

def readU64 : Reader ℕ := readVarint 1 9

def readU128 : Reader ℕ := readVarint 3 18

theorem readU16_reads : Reads readU16 varint.encode (fun n => n < 2^16) :=
  readVarint_reads 3 2 (by decide)

theorem readU32_reads : Reads readU32 varint.encode (fun n => n < 2^32) :=
  readVarint_reads 15 4 (by decide)

theorem readU64_reads : Reads readU64 varint.encode (fun n => n < 2^64) :=
  readVarint_reads 1 9 (by decide)

theorem readU128_reads : Reads readU128 varint.encode (fun n => n < 2^128) :=
  readVarint_reads 3 18 (by decide)

def Reader.option (R : Reader α) : Reader (Option α) := readByte.andThen (fun b =>
  if b = 0 then .pure none else if b = 1 then R.map (fun a => some (some a)) else .fail)

def readMany (R : Reader α) : ℕ → Reader (List α)
  | 0 => .pure []
  | n+1 => R.andThen (fun a => (readMany R n).map (fun as => some (a::as)))

def Reader.list (count : Reader ℕ) (R : Reader α) : Reader (List α) := count.andThen (readMany R)

def Reader.enum (tag : Reader ℕ) (variant : ℕ → Option (Reader α)) : Reader α :=
  tag.andThen (fun n => (variant n).getD .fail)

def readFixed (n : ℕ) : Reader (List.Vector UInt8 n) :=
  (readMany readByte n).map (fun bs => if h : bs.length = n then some ⟨bs,h⟩ else none)

section
variable {R : Reader α} {A : Code α} {e : α → Bytes} {p : α → Prop}

theorem Reads.option (hR : Reads R A.encode p) :
    Reads R.option (PrefixCode.option A).encode (fun o => ∀ a ∈ o, p a) := by
  have hs (b : UInt8) : Reads (if b = 0 then .pure none
      else if b = 1 then R.map (fun a => some (some a)) else .fail)
      (fun o => o.elim [] A.encode)
      (fun o : Option α => if b = 0 then o = none else b = 1 ∧ ∃ a, o = some a ∧ p a) := by
    by_cases h0 : b = 0
    · simp only [if_pos h0]
      exact pure rfl (fun o => Iff.rfl)
    · by_cases h1 : b = 1
      · simp only [if_neg h0,if_pos h1]
        refine hR.map ?_ ?_
        · rintro _ ⟨-,a,rfl,ha⟩
          exact ⟨a,ha,rfl,rfl⟩
        · intro a o ha ho
          exact ⟨h1,a,(Option.some.inj ho).symm,ha⟩
      · simp only [if_neg h0,if_neg h1]
        exact (fail _).congr (fun o => ⟨fun h => h1 h.1,False.elim⟩)
  refine readByte_reads.andThen hs ?_ ?_
  · intro o ho
    cases o with
    | none => exact ⟨0,trivial,(if_pos rfl).mpr rfl,rfl⟩
    | some a => exact ⟨1,trivial,(if_neg (by decide)).mpr ⟨rfl,a,rfl,ho a rfl⟩,rfl⟩
  · intro b o _ ho a ha
    split at ho
    · rw [ho] at ha
      cases ha
    · obtain ⟨-,a',rfl,hp⟩ := ho
      cases ha
      exact hp

theorem readMany_reads (hR : Reads R e p) (n : ℕ) : Reads (readMany R n) (fun as => as.flatMap e)
    (fun as => as.length = n ∧ ∀ a ∈ as, p a) := by
  induction n with
  | zero =>
    refine .pure rfl (fun as => ⟨fun h => List.length_eq_zero_iff.mp h.1,?_⟩)
    rintro rfl
    exact ⟨rfl,fun a ha => (nomatch ha)⟩
  | succ n ih =>
    have hs (a : α) : Reads ((readMany R n).map (fun as => some (a::as)))
        (fun as => as.tail.flatMap e)
        (fun as => ∃ rest, as = a::rest ∧ rest.length = n ∧ ∀ b ∈ rest, p b) := by
      refine ih.map ?_ ?_
      · rintro _ ⟨rest,rfl,hrest⟩
        exact ⟨rest,hrest,rfl,rfl⟩
      · intro rest as hrest has
        exact ⟨rest,(Option.some.inj has).symm,hrest⟩
    refine hR.andThen hs ?_ ?_
    · rintro as ⟨hl,hp⟩
      cases as with
      | nil => cases hl
      | cons a rest =>
        exact ⟨a,hp a List.mem_cons_self,
          ⟨rest,rfl,Nat.succ.inj hl,fun b hb => hp b (List.mem_cons_of_mem _ hb)⟩,rfl⟩
    · rintro a _ ha ⟨rest,rfl,hl,hp⟩
      refine ⟨congrArg Nat.succ hl,?_⟩
      intro b hb
      rcases List.mem_cons.mp hb with rfl | hb
      · exact ha
      · exact hp b hb

theorem Reads.sequence {count : Reader ℕ} {fits : ℕ → Prop} (hc : Reads count varint.encode fits)
    (hR : Reads R e p) : Reads (Reader.list count R)
      (fun as => varint.encode as.length ++ as.flatMap e) (fun as => fits as.length ∧ ∀ a ∈ as, p a) := by
  refine hc.andThen (readMany_reads hR) ?_ ?_
  · rintro as ⟨hl,hp⟩
    exact ⟨as.length,hl,⟨rfl,hp⟩,rfl⟩
  · rintro n as hn ⟨rfl,hp⟩
    exact ⟨hn,hp⟩

theorem Reads.list {count : Reader ℕ} {fits : ℕ → Prop} (hc : Reads count varint.encode fits)
    (hR : Reads R A.encode p) :
    Reads (Reader.list count R) (PrefixCode.list A).encode (fun as => fits as.length ∧ ∀ a ∈ as, p a) :=
  hc.sequence hR

/-- Every variant reads the payloads of its own tag. -/
theorem Reads.enum {tag : Reader ℕ} {fits : ℕ → Prop} (ht : Reads tag varint.encode fits)
    {t : α → ℕ} {d : α → Bytes} (he : ∀ a, e a = varint.encode (t a) ++ d a)
    {variant : ℕ → Option (Reader α)} (hfit : ∀ a, fits (t a) ∧ (variant (t a)).isSome)
    (hv : ∀ n R, variant n = some R → Reads R d (fun a => p a ∧ t a = n)) :
    Reads (Reader.enum tag variant) e p := by
  have hs (n : ℕ) : Reads ((variant n).getD .fail) d
      (fun a => (variant n).isSome ∧ p a ∧ t a = n) := by
    cases hn : variant n with
    | none => exact (fail d).congr (fun a => ⟨fun h => Bool.false_ne_true h.1,False.elim⟩)
    | some R => exact (hv n R hn).congr (fun a => ⟨And.right,fun h => ⟨rfl,h⟩⟩)
  refine ht.andThen hs ?_ ?_
  · intro a ha
    exact ⟨t a,(hfit a).1,⟨(hfit a).2,ha,rfl⟩,he a⟩
  · rintro n a - ⟨-,ha,-⟩
    exact ha

theorem readFixed_reads (n : ℕ) : Reads (readFixed n) (fixed n).encode (fun _ => True) := by
  refine (readMany_reads readByte_reads n).map ?_ (fun _ _ _ _ => trivial)
  intro v _
  have hl : v.toList.length = n := v.toList_length
  exact ⟨v.toList,⟨hl,fun _ _ => trivial⟩,List.flatMap_singleton' _,by rw [dif_pos hl]; rfl⟩

end

end PrefixCode
