import Mathlib

/-!
# Finite maps and sets over a linear order

Extensional search trees of the standard library, taken at the comparison of
a linear order. Iteration is ascending, equality is equality of lookups, and
every operation is stated through lookup.
-/

set_option autoImplicit false

namespace OrderedMap

instance (priority := low) lawfulEqOrd {K : Type*} [LinearOrder K] : Std.LawfulEqOrd K :=
  ⟨fun h => compare_eq_iff_eq.mp h⟩

instance (priority := high) transCmp {K : Type*} [LinearOrder K] :
    Std.TransCmp (compare : K → K → Ordering) := inferInstance

abbrev BTreeMap (K V : Type*) [LinearOrder K] := Std.ExtTreeMap K V compare

abbrev BTreeSet (K : Type*) [LinearOrder K] := Std.ExtTreeSet K compare

variable {K V W I : Type*} [LinearOrder K] [LinearOrder I]

theorem get_insert (m : BTreeMap K V) (a b : K) (v : V) [Decidable (b = a)] :
    (m.insert a v)[b]? = if b = a then some v else m[b]? := by
  simp only [Std.ExtTreeMap.getElem?_insert, compare_eq_iff_eq, @eq_comm _ a b]

theorem get_insert_self (m : BTreeMap K V) (a : K) (v : V) : (m.insert a v)[a]? = some v := by
  simp

theorem get_insert_ne (m : BTreeMap K V) {a b : K} (v : V) (h : b ≠ a) :
    (m.insert a v)[b]? = m[b]? := by
  rw [get_insert, if_neg h]

theorem get_insert_some {m : BTreeMap K V} {a b : K} {v w : V} :
    (m.insert a v)[b]? = some w ↔ (b = a ∧ v = w) ∨ (b ≠ a ∧ m[b]? = some w) := by
  rw [get_insert]
  by_cases h : b = a <;> simp [h]

theorem get_erase (m : BTreeMap K V) (a b : K) [Decidable (b = a)] :
    (m.erase a)[b]? = if b = a then none else m[b]? := by
  simp only [Std.ExtTreeMap.getElem?_erase, compare_eq_iff_eq, @eq_comm _ a b]

theorem get_map (m : BTreeMap K V) (f : K → V → W) (a : K) :
    (m.map f)[a]? = (m[a]?).map (f a) := by
  simp

theorem mem_iff_get (m : BTreeMap K V) (a : K) : a ∈ m ↔ ∃ v, m[a]? = some v := by
  rw [Std.ExtTreeMap.mem_iff_isSome_getElem?, Option.isSome_iff_exists]

theorem mem_of_get {m : BTreeMap K V} {a : K} {v : V} (h : m[a]? = some v) : a ∈ m :=
  (mem_iff_get m a).mpr ⟨v,h⟩

theorem not_mem_iff_get (m : BTreeMap K V) (a : K) : a ∉ m ↔ m[a]? = none := by
  rw [mem_iff_get]
  cases m[a]? <;> simp

theorem mem_insert (m : BTreeMap K V) (a b : K) (v : V) :
    b ∈ m.insert a v ↔ b = a ∨ b ∈ m := by
  rw [mem_iff_get, get_insert, mem_iff_get]
  by_cases h : b = a <;> simp [h]

theorem mem_erase (m : BTreeMap K V) (a b : K) : b ∈ m.erase a ↔ b ≠ a ∧ b ∈ m := by
  rw [mem_iff_get, get_erase, mem_iff_get]
  by_cases h : b = a <;> simp [h]

theorem ext_get {m n : BTreeMap K V} (h : ∀ k : K, m[k]? = n[k]?) : m = n :=
  Std.ExtTreeMap.ext_getElem? h

theorem erase_of_not_mem {m : BTreeMap K V} {a : K} (h : a ∉ m) : m.erase a = m := by
  apply ext_get
  intro k
  rw [get_erase]
  split
  · next hk => rw [hk,(not_mem_iff_get m a).mp h]
  · rfl

theorem mem_keys (m : BTreeMap K V) (a : K) : a ∈ m.keys ↔ a ∈ m :=
  Std.ExtTreeMap.mem_keys

theorem keys_sorted (m : BTreeMap K V) : m.keys.Pairwise (· < ·) :=
  m.ordered_keys.imp compare_lt_iff_lt.mp

theorem keys_nodup (m : BTreeMap K V) : m.keys.Nodup :=
  (keys_sorted m).imp ne_of_lt

theorem keys_congr {m : BTreeMap K V} {n : BTreeMap K W} (h : ∀ a : K, a ∈ m ↔ a ∈ n) :
    m.keys = n.keys := by
  apply List.SortedLT.eq_of_mem_iff (keys_sorted m).sortedLT (keys_sorted n).sortedLT
  intro a
  rw [mem_keys,mem_keys,h]

theorem mem_toList (m : BTreeMap K V) (k : K) (v : V) : (k,v) ∈ m.toList ↔ m[k]? = some v :=
  Std.ExtTreeMap.mem_toList_iff_getElem?_eq_some

theorem toList_nodup (m : BTreeMap K V) : m.toList.Nodup := by
  have h := keys_nodup m
  rw [← Std.ExtTreeMap.map_fst_toList_eq_keys] at h
  exact h.of_map _

theorem toList_perm_of_get {m : BTreeMap K V} {l : List (K × V)} (hl : l.Nodup)
    (h : ∀ k v, (k,v) ∈ l ↔ m[k]? = some v) : m.toList.Perm l := by
  rw [List.perm_ext_iff_of_nodup (toList_nodup m) hl]
  intro ⟨k,v⟩
  rw [mem_toList,h]

theorem toList_erase_perm {m : BTreeMap K V} {k : K} {v : V} (h : m[k]? = some v) :
    m.toList.Perm ((k,v) :: (m.erase k).toList) := by
  apply toList_perm_of_get
  · rw [List.nodup_cons,mem_toList,get_erase]
    exact ⟨by simp,toList_nodup _⟩
  · intro k' v'
    rw [List.mem_cons,mem_toList,get_erase,Prod.mk.injEq]
    by_cases hk : k' = k
    · simp [hk,h,eq_comm]
    · simp [hk]

theorem toList_insert_perm {m : BTreeMap K V} {k : K} (v : V) (h : m[k]? = none) :
    (m.insert k v).toList.Perm ((k,v) :: m.toList) := by
  apply toList_perm_of_get
  · rw [List.nodup_cons,mem_toList,h]
    exact ⟨by simp,toList_nodup _⟩
  · intro k' v'
    rw [List.mem_cons,mem_toList,get_insert,Prod.mk.injEq]
    by_cases hk : k' = k
    · simp [hk,h,eq_comm]
    · simp [hk]

def firstKeyValue (m : BTreeMap K V) : Option (K × V) := m.toList.head?

theorem firstKeyValue_none (m : BTreeMap K V) : firstKeyValue m = none ↔ ∀ k, k ∉ m := by
  rw [firstKeyValue, List.head?_eq_none_iff, Std.ExtTreeMap.toList_eq_nil_iff]
  constructor
  · rintro rfl k
    exact Std.ExtTreeMap.not_mem_empty
  · intro h
    apply ext_get
    intro k
    rw [(not_mem_iff_get m k).mp (h k)]
    simp

theorem firstKeyValue_some {m : BTreeMap K V} {k : K} {v : V}
    (h : firstKeyValue m = some (k,v)) : m[k]? = some v ∧ ∀ k' ∈ m, k ≤ k' := by
  obtain ⟨rest,hl⟩ := List.head?_eq_some_iff.mp h
  refine ⟨Std.ExtTreeMap.mem_toList_iff_getElem?_eq_some.mp (by simp [hl]),?_⟩
  intro k' hk'
  have hs := keys_sorted m
  rw [← mem_keys] at hk'
  rw [← Std.ExtTreeMap.map_fst_toList_eq_keys,hl] at hs hk'
  rcases List.mem_cons.mp hk' with rfl | hr
  · exact le_refl _
  · exact le_of_lt ((List.pairwise_cons.mp hs).1 _ hr)

def eraseAll (m : BTreeMap K V) (ks : List K) : BTreeMap K V := ks.foldl (fun m k => m.erase k) m

theorem get_eraseAll (m : BTreeMap K V) (ks : List K) (a : K) :
    (eraseAll m ks)[a]? = if a ∈ ks then none else m[a]? := by
  induction ks generalizing m with
  | nil => simp [eraseAll]
  | cons k ks ih =>
    change (eraseAll (m.erase k) ks)[a]? = _
    rw [ih,get_erase]
    by_cases h : a = k <;> by_cases hs : a ∈ ks <;> simp [h,hs]

theorem mem_eraseAll (m : BTreeMap K V) (ks : List K) (a : K) :
    a ∈ eraseAll m ks ↔ a ∉ ks ∧ a ∈ m := by
  rw [mem_iff_get,get_eraseAll,mem_iff_get]
  by_cases h : a ∈ ks <;> simp [h]

theorem set_mem_insert (s : BTreeSet K) (a b : K) : b ∈ s.insert a ↔ b = a ∨ b ∈ s := by
  rw [Std.ExtTreeSet.mem_insert, compare_eq_iff_eq, @eq_comm _ a b]

theorem set_mem_erase (s : BTreeSet K) (a b : K) : b ∈ s.erase a ↔ b ≠ a ∧ b ∈ s := by
  rw [Std.ExtTreeSet.mem_erase, ne_eq, compare_eq_iff_eq, ne_eq, @eq_comm _ a b]

theorem length_keys (m : BTreeMap K V) : m.keys.length = m.size := Std.ExtTreeMap.length_keys

theorem set_isEmpty_iff (s : BTreeSet K) : s.isEmpty = true ↔ ∀ a, a ∉ s := by
  constructor
  · intro h a
    rw [Std.ExtTreeSet.isEmpty_iff.mp h]
    exact Std.ExtTreeSet.not_mem_empty
  · intro h
    rw [Std.ExtTreeSet.isEmpty_iff]
    apply Std.ExtTreeSet.ext_mem
    intro a
    simp [h a]

theorem size_eq_iff_inverse {m : BTreeMap K V} {n : BTreeMap I K} {f : K → I}
    (h : ∀ k ∈ m, n[f k]? = some k) :
    m.size = n.size ↔ ∀ i k, n[i]? = some k → k ∈ m ∧ f k = i := by
  have hinj : ∀ k ∈ m.keys, ∀ l ∈ m.keys, f k = f l → k = l := by
    intro k hk l hl he
    have hk' := h k ((mem_keys m k).mp hk)
    rw [he,h l ((mem_keys m l).mp hl)] at hk'
    exact (Option.some.inj hk').symm
  have hsub : (m.keys.map f).Subperm n.keys := by
    apply ((keys_nodup m).map_on hinj).subperm
    intro i hi
    obtain ⟨k,hk,rfl⟩ := List.mem_map.mp hi
    exact (mem_keys n _).mpr (mem_of_get (h k ((mem_keys m k).mp hk)))
  rw [← length_keys m,← length_keys n,← List.length_map f]
  constructor
  · intro hlen i k hi
    have hp := hsub.perm_of_length_le (le_of_eq hlen.symm)
    obtain ⟨l,hl,rfl⟩ := List.mem_map.mp (hp.mem_iff.mpr ((mem_keys n i).mpr (mem_of_get hi)))
    have hm := (mem_keys m l).mp hl
    rw [h l hm] at hi
    obtain rfl := Option.some.inj hi
    exact ⟨hm,rfl⟩
  · intro hall
    apply le_antisymm hsub.length_le
    apply List.Subperm.length_le
    apply (keys_nodup n).subperm
    intro i hi
    obtain ⟨k,hk⟩ := (mem_iff_get n i).mp ((mem_keys n i).mp hi)
    obtain ⟨hm,rfl⟩ := hall i k hk
    exact List.mem_map_of_mem ((mem_keys m k).mpr hm)

theorem size_insert_le (m : BTreeMap K V) (a : K) (v : V) : (m.insert a v).size ≤ m.size+1 :=
  Std.ExtTreeMap.size_insert_le

theorem size_erase_le (m : BTreeMap K V) (a : K) : (m.erase a).size ≤ m.size :=
  Std.ExtTreeMap.size_erase_le

def amount (m : BTreeMap K ℕ) (a : K) : ℕ := (m[a]?).getD 0

def total (m : BTreeMap K ℕ) : ℕ := (m.toList.map Prod.snd).sum

theorem amount_of_get {m : BTreeMap K ℕ} {a : K} {v : ℕ} (h : m[a]? = some v) : amount m a = v := by
  rw [amount,h]
  rfl

theorem amount_of_none {m : BTreeMap K ℕ} {a : K} (h : m[a]? = none) : amount m a = 0 := by
  rw [amount,h]
  rfl

theorem amount_insert (m : BTreeMap K ℕ) (a b : K) (v : ℕ) [Decidable (b = a)] :
    amount (m.insert a v) b = if b = a then v else amount m b := by
  rw [amount,get_insert]
  split <;> rfl

theorem amount_erase (m : BTreeMap K ℕ) (a b : K) [Decidable (b = a)] :
    amount (m.erase a) b = if b = a then 0 else amount m b := by
  rw [amount,get_erase]
  split <;> rfl

theorem total_empty : total (∅ : BTreeMap K ℕ) = 0 := by
  rw [total,Std.ExtTreeMap.toList_eq_nil_iff.mpr rfl]
  rfl

theorem total_erase (m : BTreeMap K ℕ) (a : K) : total m = amount m a + total (m.erase a) := by
  cases h : m[a]? with
  | none =>
    rw [amount,h,erase_of_not_mem ((not_mem_iff_get m a).mpr h)]
    exact (Nat.zero_add _).symm
  | some v =>
    have hp := ((toList_erase_perm h).map Prod.snd).sum_eq
    rw [List.map_cons,List.sum_cons] at hp
    rw [amount_of_get h]
    exact hp

theorem amounts_erase (m : BTreeMap K ℕ) {a : K} {ks : List K} (h : a ∉ ks) :
    ks.map (amount (m.erase a)) = ks.map (amount m) := by
  apply List.map_congr_left
  intro b hb
  have hne : b ≠ a := fun he => h (he ▸ hb)
  rw [amount_erase,if_neg hne]

theorem total_eraseAll (m : BTreeMap K ℕ) (ks : List K) (h : ks.Nodup) :
    total m = (ks.map (amount m)).sum + total (eraseAll m ks) := by
  induction ks generalizing m with
  | nil => simp [eraseAll]
  | cons k ks ih =>
    obtain ⟨hk,hks⟩ := List.nodup_cons.mp h
    rw [total_erase m k,ih (m.erase k) hks,amounts_erase m hk,List.map_cons,List.sum_cons,
      Nat.add_assoc]
    rfl

theorem total_insert (m : BTreeMap K ℕ) (a : K) (v : ℕ) :
    total (m.insert a v) = v + total (m.erase a) := by
  have he : (m.insert a v).erase a = m.erase a := by
    apply ext_get
    intro b
    rw [get_erase,get_erase,get_insert]
    split <;> rfl
  rw [total_erase _ a,amount_insert,if_pos rfl,he]

theorem total_mono {m n : BTreeMap K ℕ} (h : ∀ a, amount m a ≤ amount n a) : total m ≤ total n := by
  have hkeys : ∀ (ks : List K) (m n : BTreeMap K ℕ), (∀ a ∈ m, a ∈ ks) →
      (∀ a, amount m a ≤ amount n a) → total m ≤ total n := by
    intro ks
    induction ks with
    | nil =>
      intro m n hm hle
      have he : m = ∅ := by
        apply ext_get
        intro a
        rw [(not_mem_iff_get m a).mp (fun ha => List.not_mem_nil (hm a ha))]
        simp
      rw [he,total_empty]
      exact Nat.zero_le _
    | cons a ks ih =>
      intro m n hm hle
      have hrest : total (m.erase a) ≤ total (n.erase a) := by
        apply ih
        · intro b hb
          obtain ⟨hne,hb⟩ := (mem_erase m a b).mp hb
          exact (List.mem_cons.mp (hm b hb)).resolve_left hne
        · intro b
          rw [amount_erase,amount_erase]
          split
          · exact le_refl _
          · exact hle b
      rw [total_erase m a,total_erase n a]
      exact Nat.add_le_add (hle a) hrest
  exact hkeys m.keys m n (fun a ha => (mem_keys m a).mpr ha) h

theorem ofList_toList (m : BTreeMap K V) : Std.ExtTreeMap.ofList m.toList compare = m := by
  apply ext_get
  intro k
  cases hk : m[k]? with
  | some v =>
    exact Std.ExtTreeMap.getElem?_ofList_of_mem (compare_eq_iff_eq.mpr rfl)
      Std.ExtTreeMap.distinct_keys_toList ((mem_toList m k v).mpr hk)
  | none =>
    refine Std.ExtTreeMap.getElem?_ofList_of_contains_eq_false ?_
    rw [Std.ExtTreeMap.map_fst_toList_eq_keys,List.contains_eq_mem,decide_eq_false_iff_not,mem_keys,
      not_mem_iff_get,hk]

theorem get_insertMany_some {m : BTreeMap K V} {ps : List (K × V)} {k : K} {v : V}
    (h : (m.insertMany ps)[k]? = some v) : m[k]? = some v ∨ (k,v) ∈ ps := by
  induction ps generalizing m with
  | nil => exact .inl h
  | cons p ps ih =>
    rw [Std.ExtTreeMap.insertMany_cons] at h
    rcases ih h with hm | hp
    · rcases get_insert_some.mp hm with ⟨rfl,rfl⟩ | ⟨-,hm⟩
      · exact .inr List.mem_cons_self
      · exact .inl hm
    · exact .inr (List.mem_cons_of_mem _ hp)

theorem mem_of_get_ofList {ps : List (K × V)} {k : K} {v : V}
    (h : (Std.ExtTreeMap.ofList ps compare)[k]? = some v) : (k,v) ∈ ps := by
  rw [Std.ExtTreeMap.ofList_eq_insertMany_empty] at h
  rcases get_insertMany_some h with hm | hp
  · simp at hm
  · exact hp

theorem set_ofList_toList (s : BTreeSet K) : Std.ExtTreeSet.ofList s.toList compare = s := by
  refine Std.ExtTreeSet.ext_mem (fun a => ?_)
  rw [Std.ExtTreeSet.mem_ofList,List.contains_eq_mem,decide_eq_true_eq,Std.ExtTreeSet.mem_toList]

def Within (p : K → Prop) (q : V → Prop) (m : BTreeMap K V) : Prop :=
  ∀ (k : K) (v : V), m[k]? = some v → p k ∧ q v

section Within
variable {p : K → Prop} {q : V → Prop} {m : BTreeMap K V}

theorem within_empty : Within p q (∅ : BTreeMap K V) := by
  intro k v h
  simp at h

theorem Within.insert (h : Within p q m) {k : K} {v : V} (hk : p k) (hv : q v) :
    Within p q (m.insert k v) := by
  intro l w hl
  rcases get_insert_some.mp hl with ⟨rfl,rfl⟩ | ⟨-,hl⟩
  · exact ⟨hk,hv⟩
  · exact h l w hl

theorem Within.of_get {n : BTreeMap K V} (h : Within p q m)
    (hn : ∀ (k : K) (v : V), n[k]? = some v → m[k]? = some v) : Within p q n :=
  fun k v hk => h k v (hn k v hk)

theorem Within.eraseAll (h : Within p q m) (ks : List K) : Within p q (eraseAll m ks) := by
  refine h.of_get (fun k v hk => ?_)
  rw [get_eraseAll] at hk
  split at hk
  · cases hk
  · exact hk

theorem Within.erase (h : Within p q m) (k : K) : Within p q (m.erase k) := h.eraseAll [k]

end Within

end OrderedMap
