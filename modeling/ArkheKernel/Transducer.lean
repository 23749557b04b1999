import Mathlib

/-!
# Transducers and their runs

A transducer reads inputs one at a time, changes its state and emits a finite
word. Invariants of runs, invariants that speak about the emitted history,
relations between two runs, and machines whose steps are runs of a smaller
machine are handled here once.
-/

set_option autoImplicit false

structure Transducer (σ α τ : Type*) where
  next : σ → α → σ
  out : σ → α → List τ

namespace Transducer

variable {σ α β τ : Type*} (M : Transducer σ α τ)

def run : σ → List α → σ
  | s, [] => s
  | s, a::as => run (M.next s a) as

def trace : σ → List α → List τ
  | _, [] => []
  | s, a::as => M.out s a ++ trace (M.next s a) as

theorem run_append (s : σ) (as bs : List α) : M.run s (as++bs) = M.run (M.run s as) bs := by
  induction as generalizing s with
  | nil => rfl
  | cons a as ih => exact ih _

theorem trace_append (s : σ) (as bs : List α) :
    M.trace s (as++bs) = M.trace s as ++ M.trace (M.run s as) bs := by
  induction as generalizing s with
  | nil => rfl
  | cons a as ih => simp [trace, run, ih]

def withOut {τ' : Type*} (out : σ → α → List τ') : Transducer σ α τ' := ⟨M.next,out⟩

theorem withOut_run {τ' : Type*} (out : σ → α → List τ') (s : σ) (as : List α) :
    (M.withOut out).run s as = M.run s as := by
  induction as generalizing s with
  | nil => rfl
  | cons a as ih => exact ih _

theorem run_invariant (I : σ → Prop) (hstep : ∀ s a, I s → I (M.next s a))
    (s : σ) (as : List α) (hs : I s) : I (M.run s as) := by
  induction as generalizing s with
  | nil => exact hs
  | cons a as ih => exact ih _ (hstep s a hs)

/-- An invariant of the state together with everything emitted so far, kept by
the inputs of a kind. -/
theorem history_invariant_on (J : σ → List τ → Prop) (p : α → Prop)
    (hstep : ∀ s h a, p a → J s h → J (M.next s a) (h ++ M.out s a))
    (s : σ) (h : List τ) (as : List α) (hp : ∀ a ∈ as, p a) (hs : J s h) :
    J (M.run s as) (h ++ M.trace s as) := by
  induction as generalizing s h with
  | nil => simpa [run, trace] using hs
  | cons a as ih =>
    have ha := hstep s h a (hp a List.mem_cons_self) hs
    simpa [run, trace] using ih _ _ (fun b hb => hp b (List.mem_cons_of_mem _ hb)) ha

theorem history_invariant (J : σ → List τ → Prop)
    (hstep : ∀ s h a, J s h → J (M.next s a) (h ++ M.out s a))
    (s : σ) (h : List τ) (as : List α) (hs : J s h) : J (M.run s as) (h ++ M.trace s as) :=
  M.history_invariant_on J (fun _ => True) (fun s h a _ => hstep s h a) s h as
    (fun _ _ => trivial) hs

theorem trace_split {s : σ} {as : List α} {pre post : List τ} {t : τ}
    (h : M.trace s as = pre ++ t::post) : ∃ bs a p q,
      M.out (M.run s bs) a = p ++ t::q ∧ pre = M.trace s bs ++ p := by
  induction as generalizing s pre with
  | nil => simp [trace] at h
  | cons a as ih =>
    rw [trace, List.append_eq_append_iff] at h
    rcases h with ⟨rest, hpre, hrest⟩ | ⟨rest, hout, hrest⟩
    · obtain ⟨bs, b, p, q, hb, hp⟩ := ih hrest
      refine ⟨a::bs, b, p, q, hb, ?_⟩
      rw [hpre, hp, trace, List.append_assoc]
    · cases rest with
      | nil =>
        have hall : M.trace (M.next s a) as = [] ++ t::post := hrest.symm
        obtain ⟨bs, b, p, q, hb, hp⟩ := ih hall
        refine ⟨a::bs, b, p, q, hb, ?_⟩
        rw [trace, List.append_assoc, ← hp, hout, List.append_nil, List.append_nil]
      | cons t' rest =>
        obtain ⟨rfl, -⟩ := List.cons.inj hrest
        exact ⟨[], a, pre, rest, hout, rfl⟩

theorem run_related {σ' τ' : Type*} (N : Transducer σ' α τ') (R : σ → σ' → Prop)
    (hstep : ∀ s t a, R s t → R (M.next s a) (N.next t a))
    (s : σ) (t : σ') (as : List α) (h : R s t) : R (M.run s as) (N.run t as) := by
  induction as generalizing s t with
  | nil => exact h
  | cons a as ih => exact ih _ _ (hstep s t a h)

/-- Every step of the run is taken where it is allowed. -/
def Admits (ok : σ → α → Prop) : σ → List α → Prop
  | _, [] => True
  | s, a::as => ok s a ∧ Admits ok (M.next s a) as

def decideAdmits (ok : σ → α → Prop) [∀ s a, Decidable (ok s a)] :
    (s : σ) → (as : List α) → Decidable (M.Admits ok s as)
  | _, [] => .isTrue trivial
  | s, a::as =>
    have := decideAdmits ok (M.next s a) as
    inferInstanceAs (Decidable (ok s a ∧ M.Admits ok (M.next s a) as))

instance (ok : σ → α → Prop) [∀ s a, Decidable (ok s a)] (s : σ) (as : List α) :
    Decidable (M.Admits ok s as) := M.decideAdmits ok s as

theorem admits_append (ok : σ → α → Prop) (s : σ) (as bs : List α) :
    M.Admits ok s (as++bs) ↔ M.Admits ok s as ∧ M.Admits ok (M.run s as) bs := by
  induction as generalizing s with
  | nil => simp [Admits, run]
  | cons a as ih => simp [Admits, run, ih, and_assoc]

theorem admits_iff (ok : σ → α → Prop) (s : σ) (as : List α) :
    M.Admits ok s as ↔ ∀ pre a post, as = pre ++ a::post → ok (M.run s pre) a := by
  induction as generalizing s with
  | nil => simp [Admits]
  | cons b as ih =>
    rw [Admits, ih]
    constructor
    · intro ⟨hb,h⟩ pre a post he
      cases pre with
      | nil =>
        obtain ⟨rfl,-⟩ := List.cons.inj he
        exact hb
      | cons p pre =>
        obtain ⟨rfl,ht⟩ := List.cons.inj he
        exact h pre a post ht
    · intro h
      exact ⟨h [] b as rfl,fun pre a post he => h (b::pre) a post (by rw [he]; rfl)⟩

/-- Where the allowed steps are those that keep an invariant, the runs of allowed
steps are those that never leave it. -/
theorem admits_iff_invariant (I : σ → Prop) (ok : σ → α → Prop)
    (hstep : ∀ s a, I s → (I (M.next s a) ↔ ok s a)) (s : σ) (as : List α) (hs : I s) :
    M.Admits ok s as ↔ ∀ pre, pre <+: as → I (M.run s pre) := by
  induction as generalizing s with
  | nil =>
    constructor
    · intro _ pre hpre
      rw [List.prefix_nil.mp hpre]
      exact hs
    · exact fun _ => trivial
  | cons b as ih =>
    constructor
    · intro ⟨hb,h⟩ pre hpre
      have hn := (hstep s b hs).mpr hb
      rcases List.prefix_cons_iff.mp hpre with rfl | ⟨rest,rfl,hrest⟩
      · exact hs
      · exact (ih _ hn).mp h rest hrest
    · intro h
      have hn : I (M.next s b) := h [b] ⟨as,rfl⟩
      exact ⟨(hstep s b hs).mp hn,
        (ih _ hn).mpr (fun pre hpre => h (b::pre) (List.cons_prefix_cons.mpr ⟨rfl,hpre⟩))⟩

/-- A machine refines another one along the runs whose steps are allowed: it
emits the same, and the relation holds wherever the run is. -/
theorem run_refines {σ' : Type*} (N : Transducer σ' α τ) (R : σ → σ' → Prop)
    (ok : σ → α → Prop)
    (hstep : ∀ s t a, ok s a → R s t → R (M.next s a) (N.next t a) ∧ M.out s a = N.out t a)
    (s : σ) (t : σ') (as : List α) (hok : M.Admits ok s as) (h : R s t) :
    R (M.run s as) (N.run t as) ∧ M.trace s as = N.trace t as := by
  induction as generalizing s t with
  | nil => exact ⟨h,rfl⟩
  | cons a as ih =>
    obtain ⟨hr,ho⟩ := hstep s t a hok.1 h
    obtain ⟨hr',ht⟩ := ih _ _ hok.2 hr
    exact ⟨hr',by rw [trace, trace, ho, ht]⟩

/-- Unwinding conditions for inputs seen through `p` and items seen through `q`:
a visible input, whose items are all good, keeps two related states related and
shows the same; an invisible one keeps its state related and shows nothing. -/
structure Unwinding (M : Transducer σ α τ) (R : σ → σ → Prop) (p : α → Bool) (q : τ → Bool)
    (good : τ → Prop) : Prop where
  symm : ∀ s t, R s t → R t s
  shared : ∀ s t a, p a = true → R s t → (∀ o ∈ M.out s a, good o) →
    R (M.next s a) (M.next t a) ∧ (M.out s a).filter q = (M.out t a).filter q
  hidden : ∀ s t a, p a = false → R s t → R (M.next s a) t ∧ (M.out s a).filter q = []

section Unwinding
variable {M} {R : σ → σ → Prop} {p : α → Bool} {q : τ → Bool} {good : τ → Prop}

theorem Unwinding.hidden_run (h : M.Unwinding R p q good) (s t : σ) (as : List α)
    (hp : ∀ a ∈ as, p a = false) (hr : R s t) :
    R (M.run s as) t ∧ (M.trace s as).filter q = [] := by
  induction as generalizing s with
  | nil => exact ⟨hr,rfl⟩
  | cons a as ih =>
    have ha := h.hidden s t a (hp a List.mem_cons_self) hr
    have ht := ih (M.next s a) (fun b hb => hp b (List.mem_cons_of_mem _ hb)) ha.1
    exact ⟨ht.1,by rw [trace, List.filter_append, ha.2, ht.2, List.append_nil]⟩

/-- Two runs over input lists that look the same end in related states and show
the same. -/
theorem Unwinding.run (h : M.Unwinding R p q good) (s t : σ) (as bs : List α)
    (hf : as.filter p = bs.filter p) (hg : ∀ o ∈ M.trace s as, good o) (hr : R s t) :
    R (M.run s as) (M.run t bs) ∧ (M.trace s as).filter q = (M.trace t bs).filter q := by
  induction as generalizing s t bs with
  | nil =>
    have hb : ∀ b ∈ bs, p b = false := by
      intro b hb
      have hn := List.filter_eq_nil_iff.mp hf.symm b hb
      simpa using hn
    have ht := h.hidden_run t s bs hb (h.symm s t hr)
    exact ⟨h.symm _ _ ht.1,ht.2.symm⟩
  | cons a as ih =>
    have hout : ∀ o ∈ M.out s a, good o := fun o ho => hg o (List.mem_append_left _ ho)
    have hrest : ∀ o ∈ M.trace (M.next s a) as, good o :=
      fun o ho => hg o (List.mem_append_right _ ho)
    by_cases hp : p a = true
    · rw [List.filter_cons_of_pos hp] at hf
      obtain ⟨cs, ds, rfl, hcs, -, hds⟩ := List.filter_eq_cons_iff.mp hf.symm
      have hc : ∀ b ∈ cs, p b = false := fun b hb => by simpa using hcs b hb
      -- the other run first does what only it does, then the shared input
      have hl := h.hidden_run t s cs hc (h.symm s t hr)
      have hm := h.shared s (M.run t cs) a hp (h.symm _ _ hl.1) hout
      have hi := ih (M.next s a) (M.next (M.run t cs) a) ds hds.symm hrest hm.1
      rw [run_append, trace_append, List.filter_append, hl.2]
      exact ⟨hi.1,by
        rw [trace, trace, List.filter_append, List.filter_append, hm.2, hi.2, List.nil_append]⟩
    · have hn : p a = false := by simpa using hp
      rw [List.filter_cons_of_neg hp] at hf
      have ha := h.hidden s t a hn hr
      have hi := ih (M.next s a) t bs hf hrest ha.1
      exact ⟨hi.1,by rw [trace, List.filter_append, ha.2, hi.2, List.nil_append]⟩

end Unwinding

/-- Every step of the coarse machine is a run of the fine one. -/
structure Expansion (B : Transducer σ β τ) (M : Transducer σ α τ) where
  word : σ → β → List α
  next_eq : ∀ s b, B.next s b = M.run s (word s b)
  out_eq : ∀ s b, B.out s b = M.trace s (word s b)

variable {M} {B : Transducer σ β τ}

def Expansion.words (E : Expansion B M) : σ → List β → List α
  | _, [] => []
  | s, b::bs => E.word s b ++ words E (B.next s b) bs

theorem Expansion.words_append (E : Expansion B M) (s : σ) (bs bs' : List β) :
    E.words s (bs++bs') = E.words s bs ++ E.words (B.run s bs) bs' := by
  induction bs generalizing s with
  | nil => rfl
  | cons b bs ih => rw [List.cons_append, words, words, run, ih, List.append_assoc]

theorem Expansion.run_eq (E : Expansion B M) (s : σ) (bs : List β) :
    B.run s bs = M.run s (E.words s bs) := by
  induction bs generalizing s with
  | nil => rfl
  | cons b bs ih => rw [words, run_append, ← E.next_eq, run, ih]

theorem Expansion.trace_eq (E : Expansion B M) (s : σ) (bs : List β) :
    B.trace s bs = M.trace s (E.words s bs) := by
  induction bs generalizing s with
  | nil => rfl
  | cons b bs ih => rw [words, trace_append, ← E.next_eq, ← E.out_eq, trace, ih]

end Transducer
