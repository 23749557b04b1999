import Mathlib

/-!
# Self-delimiting byte codes

A code carries the proof that its words delimit themselves: whatever follows
an encoded value, the value and the rest are determined by the bytes. Codes
compose by concatenation, so a record is encoded field after field without
separators, and injectivity never has to be proved for a composite again. The
codes of integers, options, sequences and sums follow the documented wire format
of postcard: varints, a length before the elements, a tag before the payload.
-/

set_option autoImplicit false

namespace PrefixCode

abbrev Bytes := List UInt8

structure Code (α : Type*) where
  encode : α → Bytes
  delimits : ∀ a b r s, encode a ++ r = encode b ++ s → a = b ∧ r = s

variable {α β : Type*}

theorem Code.injective (C : Code α) : Function.Injective C.encode := by
  intro a b h
  exact (C.delimits a b [] [] (by rw [h])).1

noncomputable def Code.invert (C : Code α) (bytes : Bytes) : Except String α :=
  open Classical in
  if h : ∃ a, C.encode a = bytes then .ok h.choose else .error "not an encoding"

theorem Code.invert_encode (C : Code α) (a : α) : C.invert (C.encode a) = .ok a := by
  have h : ∃ b, C.encode b = C.encode a := ⟨a,rfl⟩
  rw [Code.invert,dif_pos h,C.injective h.choose_spec]

def byte : Code UInt8 where
  encode b := [b]
  delimits a b r s h := by simpa using h

/-- Little-endian groups of seven bits, the high bit marking a continuation.
The fuel is the value itself, which every division by 128 undercuts. -/
def varintFuel : ℕ → ℕ → Bytes
  | 0, n => [UInt8.ofNat n]
  | f+1, n => if n < 128 then [UInt8.ofNat n]
      else UInt8.ofNat (n%128+128) :: varintFuel f (n/128)

theorem byte_inj {m n : ℕ} (hm : m < 256) (hn : n < 256)
    (h : UInt8.ofNat m = UInt8.ofNat n) : m = n := by
  have ht := congrArg UInt8.toNat h
  simpa [Nat.mod_eq_of_lt hm, Nat.mod_eq_of_lt hn] using ht

theorem varint_last {f n : ℕ} (h : n < 128) : varintFuel f n = [UInt8.ofNat n] := by
  cases f with
  | zero => rfl
  | succ f => simp [varintFuel, h]

theorem varint_more {f n : ℕ} (h : ¬ n < 128) :
    varintFuel (f+1) n = UInt8.ofNat (n%128+128) :: varintFuel f (n/128) := by
  simp [varintFuel, h]

theorem varint_delimits (f g m n : ℕ) (hf : m ≤ f) (hg : n ≤ g) (r s : Bytes)
    (h : varintFuel f m ++ r = varintFuel g n ++ s) : m = n ∧ r = s := by
  induction f generalizing g m n with
  | zero =>
    obtain rfl : m = 0 := by omega
    by_cases hn : n < 128
    · rw [varint_last (by decide), varint_last hn] at h
      simp only [List.cons_append, List.nil_append, List.cons.injEq] at h
      exact ⟨byte_inj (by decide) (by omega) h.1,h.2⟩
    · obtain ⟨g,rfl⟩ : ∃ k, g = k+1 := ⟨g-1,by omega⟩
      rw [varint_last (by decide), varint_more hn] at h
      have := byte_inj (by decide) (by omega) (List.cons.inj h).1
      omega
  | succ f ih =>
    by_cases hm : m < 128
    · by_cases hn : n < 128
      · rw [varint_last hm, varint_last hn] at h
        simp only [List.cons_append, List.nil_append, List.cons.injEq] at h
        exact ⟨byte_inj (by omega) (by omega) h.1,h.2⟩
      · obtain ⟨g,rfl⟩ : ∃ k, g = k+1 := ⟨g-1,by omega⟩
        rw [varint_last hm, varint_more hn] at h
        have := byte_inj (by omega) (by omega) (List.cons.inj h).1
        omega
    · obtain ⟨g,rfl⟩ | hn : (∃ k, g = k+1) ∨ n < 128 := by
        rcases g with _ | g
        · exact Or.inr (by omega)
        · exact Or.inl ⟨g,rfl⟩
      · by_cases hn : n < 128
        · rw [varint_more hm, varint_last hn] at h
          have := byte_inj (by omega) (by omega) (List.cons.inj h).1
          omega
        · rw [varint_more hm, varint_more hn] at h
          obtain ⟨hb,ht⟩ := List.cons.inj h
          have hlow := byte_inj (by omega) (by omega) hb
          obtain ⟨hhigh,hrest⟩ := ih g (m/128) (n/128) (by omega) (by omega) ht
          exact ⟨by omega,hrest⟩
      · rw [varint_more hm, varint_last hn] at h
        have := byte_inj (by omega) (by omega) (List.cons.inj h).1
        omega

def varint : Code ℕ where
  encode n := varintFuel n n
  delimits m n r s h := varint_delimits m n m n (le_refl _) (le_refl _) r s h

def pair (A : Code α) (B : Code β) : Code (α × β) where
  encode p := A.encode p.1 ++ B.encode p.2
  delimits p q r s h := by
    simp only [List.append_assoc] at h
    obtain ⟨h1,hrest⟩ := A.delimits _ _ _ _ h
    obtain ⟨h2,hend⟩ := B.delimits _ _ _ _ hrest
    exact ⟨Prod.ext h1 h2,hend⟩

def comap (A : Code β) (f : α → β) (hf : Function.Injective f) : Code α where
  encode a := A.encode (f a)
  delimits a b r s h := by
    obtain ⟨he,hr⟩ := A.delimits _ _ _ _ h
    exact ⟨hf he,hr⟩

def enum (tag : α → ℕ) (payload : α → Bytes)
    (hp : ∀ a b r s, tag a = tag b → payload a ++ r = payload b ++ s → a = b ∧ r = s) :
    Code α where
  encode a := varint.encode (tag a) ++ payload a
  delimits a b r s h := by
    simp only [List.append_assoc] at h
    obtain ⟨ht,hrest⟩ := varint.delimits _ _ _ _ h
    exact hp a b r s ht hrest

def option (A : Code α) : Code (Option α) where
  encode
    | none => [0]
    | some a => 1 :: A.encode a
  delimits a b r s h := by
    cases a with
    | none =>
      cases b with
      | none => simpa using h
      | some b => simp at h
    | some a =>
      cases b with
      | none => simp at h
      | some b =>
        simp only [List.cons_append, List.cons.injEq, true_and] at h
        obtain ⟨he,hr⟩ := A.delimits _ _ _ _ h
        exact ⟨congrArg some he,hr⟩

theorem flatMap_delimits (A : Code α) (xs ys : List α) (hl : xs.length = ys.length) (r s : Bytes)
    (h : xs.flatMap A.encode ++ r = ys.flatMap A.encode ++ s) : xs = ys ∧ r = s := by
  induction xs generalizing ys with
  | nil =>
    obtain rfl : ys = [] := List.length_eq_zero_iff.mp hl.symm
    exact ⟨rfl,by simpa using h⟩
  | cons x xs ih =>
    cases ys with
    | nil => simp at hl
    | cons y ys =>
      simp only [List.flatMap_cons, List.append_assoc] at h
      obtain ⟨hxy,hrest⟩ := A.delimits _ _ _ _ h
      obtain ⟨hs,hend⟩ := ih ys (by simpa using hl) hrest
      exact ⟨by rw [hxy,hs],hend⟩

def list (A : Code α) : Code (List α) where
  encode xs := varint.encode xs.length ++ xs.flatMap A.encode
  delimits xs ys r s h := by
    simp only [List.append_assoc] at h
    obtain ⟨hl,hrest⟩ := varint.delimits _ _ _ _ h
    exact flatMap_delimits A xs ys hl r s hrest

def bytes : Code Bytes := list byte

def fixed (n : ℕ) : Code (List.Vector UInt8 n) where
  encode v := v.toList
  delimits v w r s h := by
    obtain ⟨hv,hr⟩ := List.append_inj h (by simp)
    exact ⟨List.Vector.toList_injective hv,hr⟩

end PrefixCode
