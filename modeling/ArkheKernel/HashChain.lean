import Mathlib

/-!
# Keyed hash chains

A log is chained by folding a link function over its contents, starting at a
genesis block. Under the assumption that links do not collide on the inputs
actually hashed, and never return to genesis, the tip determines the key and
the contents of every nonempty log.
-/

set_option autoImplicit false

namespace HashChain

variable {K B C : Type*} (link : K → B → C → B) (g : B)

def tip (k : K) : B → List C → B
  | p, [] => p
  | p, c::cs => tip k (link k p c) cs

def inputs (k : K) : B → List C → List (K × B × C)
  | _, [] => []
  | p, c::cs => (k,p,c) :: inputs k (link k p c) cs

theorem tip_append (k : K) (p : B) (cs ds : List C) :
    tip link k p (cs++ds) = tip link k (tip link k p cs) ds := by
  induction cs generalizing p with
  | nil => rfl
  | cons c cs ih => exact ih _

theorem inputs_append (k : K) (p : B) (cs ds : List C) :
    inputs link k p (cs++ds) = inputs link k p cs ++ inputs link k (tip link k p cs) ds := by
  induction cs generalizing p with
  | nil => rfl
  | cons c cs ih => exact congrArg _ (ih _)

theorem mem_inputs_iff (k k' : K) (p q : B) (c : C) (cs : List C) :
    (k',q,c) ∈ inputs link k p cs ↔
      k' = k ∧ ∃ pre post, cs = pre ++ c :: post ∧ tip link k p pre = q := by
  induction cs generalizing p with
  | nil => simp [inputs]
  | cons d ds ih =>
    rw [inputs, List.mem_cons, ih]
    constructor
    · rintro (h | ⟨rfl,pre,post,rfl,ht⟩)
      · obtain ⟨rfl,rfl,rfl⟩ : k' = k ∧ q = p ∧ c = d := by simpa using h
        exact ⟨rfl,[],ds,rfl,rfl⟩
      · exact ⟨rfl,d::pre,post,rfl,ht⟩
    · rintro ⟨rfl,pre,post,he,ht⟩
      cases pre with
      | nil =>
        obtain ⟨rfl,rfl⟩ := List.cons.inj he
        exact Or.inl (by rw [← ht]; rfl)
      | cons e pre =>
        obtain ⟨rfl,rfl⟩ := List.cons.inj he
        exact Or.inr ⟨rfl,pre,post,rfl,ht⟩

/-- No two of the listed inputs collide, and none of them hashes to genesis. -/
structure CollisionFree (S : Set (K × B × C)) : Prop where
  inj : Set.InjOn (fun x : K × B × C => link x.1 x.2.1 x.2.2) S
  fresh : ∀ x ∈ S, link x.1 x.2.1 x.2.2 ≠ g

variable {link g}

theorem tip_snoc_ne {S : Set (K × B × C)} (h : CollisionFree link g S) (k : K) (cs : List C) (c : C)
    (hs : ∀ x ∈ inputs link k g (cs++[c]), x ∈ S) : tip link k g (cs++[c]) ≠ g := by
  rw [tip_append]
  exact h.fresh _ (hs (k,tip link k g cs,c) (by simp [inputs_append,inputs]))

/-- The tip of a log determines its contents. The lists are read from their
ends, so neither the lengths nor a common prefix has to be known. -/
theorem tip_determines {S : Set (K × B × C)} (h : CollisionFree link g S) (k : K)
    (cs ds : List C) (hc : ∀ x ∈ inputs link k g cs, x ∈ S)
    (hd : ∀ x ∈ inputs link k g ds, x ∈ S) (ht : tip link k g cs = tip link k g ds) : cs = ds := by
  induction cs using List.reverseRecOn generalizing ds with
  | nil =>
    rcases List.eq_nil_or_concat ds with rfl | ⟨ds,d,rfl⟩
    · rfl
    · rw [List.concat_eq_append] at *
      exact absurd ht.symm (tip_snoc_ne h k ds d hd)
  | append_singleton cs c ih =>
    rcases List.eq_nil_or_concat ds with rfl | ⟨ds,d,rfl⟩
    · exact absurd ht (tip_snoc_ne h k cs c hc)
    · rw [List.concat_eq_append] at *
      rw [tip_append,tip_append] at ht
      rw [inputs_append] at hc hd
      have he := h.inj (hc (k,tip link k g cs,c) (by simp [inputs]))
        (hd (k,tip link k g ds,d) (by simp [inputs])) ht
      simp only [Prod.mk.injEq, true_and] at he
      rw [ih ds (fun x hx => hc x (by simp [hx])) (fun x hx => hd x (by simp [hx])) he.1, he.2]

/-- Between logs of one length the tip determines the contents, and the key
unless they are empty, and no link has to avoid genesis. -/
theorem tip_determines_key {S : Set (K × B × C)}
    (h : Set.InjOn (fun x : K × B × C => link x.1 x.2.1 x.2.2) S) (k k' : K) (cs ds : List C)
    (hl : cs.length = ds.length) (hc : ∀ x ∈ inputs link k g cs, x ∈ S)
    (hd : ∀ x ∈ inputs link k' g ds, x ∈ S) (ht : tip link k g cs = tip link k' g ds) :
    cs = ds ∧ (cs ≠ [] → k = k') := by
  induction cs using List.reverseRecOn generalizing ds with
  | nil => exact ⟨(List.eq_nil_of_length_eq_zero hl.symm).symm,fun hn => absurd rfl hn⟩
  | append_singleton cs c ih =>
    rcases List.eq_nil_or_concat ds with rfl | ⟨ds,d,rfl⟩
    · simp at hl
    · rw [List.concat_eq_append] at *
      rw [tip_append,tip_append] at ht
      rw [inputs_append] at hc hd
      have he := h (hc (k,tip link k g cs,c) (by simp [inputs]))
        (hd (k',tip link k' g ds,d) (by simp [inputs])) ht
      simp only [Prod.mk.injEq] at he
      obtain ⟨hk,htip,rfl⟩ := he
      have hi := ih ds (by simpa using hl) (fun x hx => hc x (by simp [hx]))
        (fun x hx => hd x (by simp [hx])) htip
      exact ⟨by rw [hi.1],fun _ => hk⟩

/-- An input whose previous block ends a nonempty log of one key can only be an
input of a log of the same key that continues the first one. -/
theorem input_continues {S : Set (K × B × C)} (h : CollisionFree link g S) (k k' : K)
    (cs ds : List C) (c d : C) (hc : ∀ x ∈ inputs link k g (cs++[c]), x ∈ S)
    (hd : ∀ x ∈ inputs link k' g ds, x ∈ S)
    (hm : (k',tip link k g (cs++[c]),d) ∈ inputs link k' g ds) :
    k' = k ∧ (cs++[c]) ++ [d] <+: ds := by
  obtain ⟨-,pre,post,rfl,ht⟩ := (mem_inputs_iff link k' k' g _ d ds).mp hm
  rw [inputs_append] at hd
  have hpre : ∀ x ∈ inputs link k' g pre, x ∈ S := fun x hx => hd x (by simp [hx])
  rcases List.eq_nil_or_concat pre with rfl | ⟨init,e,rfl⟩
  · exact absurd ht.symm (tip_snoc_ne h k cs c hc)
  · rw [List.concat_eq_append] at *
    have hk : k' = k := by
      rw [tip_append,tip_append] at ht
      rw [inputs_append] at hc hpre
      exact congrArg Prod.fst (h.inj (hpre (k',tip link k' g init,e) (by simp [inputs]))
        (hc (k,tip link k g cs,c) (by simp [inputs])) ht)
    subst hk
    have he := tip_determines h k' _ _ hpre hc ht
    exact ⟨rfl,⟨post,by rw [he]; simp⟩⟩

end HashChain
