import Mathlib

/-!
# Mailboxes

A mailbox has one queue for each route, one sequence counter for all of them
and one count of credits for each route. All three are functions of its log:
deliveries, which append and credit, and clearings, which drop the credits of
a route. The counter saturates.
-/

set_option autoImplicit false

namespace Mailbox

variable {R V : Type*}

inductive Entry (R V : Type*) where
  | deliver (route : R) (v : V)
  | clear (route : R)

def Entry.delivery : Entry R V → Option (R × V)
  | .deliver route v => some (route,v)
  | .clear _ => none

def deliveries (log : List (Entry R V)) : List (R × V) := log.filterMap Entry.delivery

theorem deliveries_snoc (log : List (Entry R V)) (e : Entry R V) :
    deliveries (log++[e]) = deliveries log ++ e.delivery.toList := by
  unfold deliveries
  rw [List.filterMap_append]
  cases e <;> rfl

section Queues
variable [DecidableEq R] (bound : ℕ) (route : R)

def queueFrom : ℕ → List (R × V) → List (V × ℕ)
  | _, [] => []
  | n, p::ds => if p.1 = route then (p.2,min n bound) :: queueFrom (n+1) ds else queueFrom (n+1) ds

def queue (ds : List (R × V)) : List (V × ℕ) := queueFrom bound route 0 ds

def load (ds : List (R × V)) : ℕ := (ds.map Prod.fst).count route

theorem queueFrom_append (n : ℕ) (ds es : List (R × V)) : queueFrom bound route n (ds++es) =
    queueFrom bound route n ds ++ queueFrom bound route (n+ds.length) es := by
  induction ds generalizing n with
  | nil => rfl
  | cons p ds ih =>
    have hn : n+1+ds.length = n+(p::ds).length := by
      rw [List.length_cons]
      omega
    rw [List.cons_append,queueFrom,queueFrom,ih,hn]
    split <;> rfl

theorem queue_snoc (ds : List (R × V)) (r : R) (v : V) : queue bound route (ds++[(r,v)]) =
    queue bound route ds ++ if r = route then [(v,min ds.length bound)] else [] := by
  rw [queue,queueFrom_append,Nat.zero_add]
  rfl

theorem load_snoc (ds : List (R × V)) (r : R) (v : V) :
    load route (ds++[(r,v)]) = load route ds + if r = route then 1 else 0 := by
  unfold load
  rw [List.map_append,List.count_append,List.map_singleton,List.count_singleton]
  simp only [beq_iff_eq]

theorem queueFrom_length (n : ℕ) (ds : List (R × V)) :
    (queueFrom bound route n ds).length = load route ds := by
  induction ds generalizing n with
  | nil => rfl
  | cons p ds ih =>
    unfold load
    rw [queueFrom,List.map_cons,List.count_cons]
    by_cases h : p.1 = route
    · rw [if_pos h,List.length_cons,ih]
      simp [load,h]
    · rw [if_neg h,ih]
      simp [load,h]

theorem queue_length (ds : List (R × V)) : (queue bound route ds).length = load route ds :=
  queueFrom_length bound route 0 ds

variable {bound}

theorem mem_queueFrom {n : ℕ} {ds : List (R × V)} (hb : n+ds.length ≤ bound+1) (s : ℕ) :
    s ∈ (queueFrom bound route n ds).map Prod.snd ↔
      n ≤ s ∧ (ds.map Prod.fst)[s-n]? = some route := by
  induction ds generalizing n with
  | nil => simp [queueFrom]
  | cons p ds ih =>
    rw [List.length_cons] at hb
    have hmin : min n bound = n := Nat.min_eq_left (by omega)
    have hi := ih (n := n+1) (by omega)
    have hhead : s = n → (((p::ds).map Prod.fst)[s-n]? = some route ↔ p.1 = route) := by
      rintro rfl
      simp
    have htail : n+1 ≤ s → ((p::ds).map Prod.fst)[s-n]? = (ds.map Prod.fst)[s-(n+1)]? := by
      intro hs
      have he : s-n = (s-(n+1))+1 := by omega
      rw [he]
      rfl
    rw [queueFrom]
    rcases lt_trichotomy s n with hs | hs | hs
    · split
      · rw [List.map_cons,List.mem_cons,hi,hmin]
        omega
      · rw [hi]
        omega
    · rw [hhead hs]
      split
      · next hp =>
        rw [List.map_cons,List.mem_cons,hmin]
        simp [hs,hp]
      · next hp =>
        rw [hi]
        simp [hp,hs]
    · rw [htail hs]
      split
      · rw [List.map_cons,List.mem_cons,hi,hmin]
        simp only [show s ≠ n by omega,show n+1 ≤ s by omega,show n ≤ s by omega,true_and,false_or]
      · rw [hi]
        simp only [show n+1 ≤ s by omega,show n ≤ s by omega,true_and]

theorem mem_queue {ds : List (R × V)} (hb : ds.length ≤ bound+1) (s : ℕ) :
    s ∈ (queue bound route ds).map Prod.snd ↔ (ds.map Prod.fst)[s]? = some route := by
  have hb' : 0+ds.length ≤ bound+1 := by omega
  have h := mem_queueFrom route hb' s
  simpa [queue] using h

theorem queueFrom_increasing {n : ℕ} {ds : List (R × V)} (hb : n+ds.length ≤ bound+1) :
    ((queueFrom bound route n ds).map Prod.snd).Pairwise (· < ·) := by
  induction ds generalizing n with
  | nil => exact List.Pairwise.nil
  | cons p ds ih =>
    rw [List.length_cons] at hb
    have hb' : n+1+ds.length ≤ bound+1 := by omega
    have hmin : min n bound = n := Nat.min_eq_left (by omega)
    have hi := ih hb'
    rw [queueFrom]
    split
    · rw [List.map_cons,List.pairwise_cons,hmin]
      refine ⟨?_,hi⟩
      intro s hs
      exact ((mem_queueFrom route hb' s).mp hs).1
    · exact hi

theorem queue_increasing {ds : List (R × V)} (hb : ds.length ≤ bound+1) :
    ((queue bound route ds).map Prod.snd).Pairwise (· < ·) :=
  queueFrom_increasing route (by omega)

theorem queue_unique {ds : List (R × V)} (hb : ds.length ≤ bound+1) {s : ℕ} (hs : s < ds.length) :
    ∃! route, s ∈ (queue bound route ds).map Prod.snd := by
  have hlen : s < (ds.map Prod.fst).length := by rwa [List.length_map]
  refine ⟨(ds.map Prod.fst)[s],?_,?_⟩
  · show s ∈ (queue bound (ds.map Prod.fst)[s] ds).map Prod.snd
    rw [mem_queue _ hb,List.getElem?_eq_getElem hlen]
  · intro r hr
    have h := (mem_queue r hb s).mp hr
    rw [List.getElem?_eq_getElem hlen] at h
    exact (Option.some.inj h).symm

end Queues

section Credits
variable [DecidableEq R] (route : R)

def credit (acc : ℕ × ℕ) : Entry R V → ℕ × ℕ
  | .deliver r _ => if r = route then (acc.1+1,acc.2) else acc
  | .clear r => if r = route then (0,acc.2+acc.1) else acc

def credits (log : List (Entry R V)) : ℕ × ℕ := log.foldl (credit route) (0,0)

def standing (log : List (Entry R V)) : ℕ := (credits route log).1

def dropped (log : List (Entry R V)) : ℕ := (credits route log).2

theorem credits_snoc (log : List (Entry R V)) (e : Entry R V) :
    credits route (log++[e]) = credit route (credits route log) e := by
  unfold credits
  rw [List.foldl_append]
  rfl

theorem standing_deliver (log : List (Entry R V)) (r : R) (v : V) :
    standing route (log++[.deliver r v]) = standing route log + if r = route then 1 else 0 := by
  unfold standing
  rw [credits_snoc,credit]
  split <;> rfl

theorem standing_clear (log : List (Entry R V)) (r : R) :
    standing route (log++[.clear r]) = if r = route then 0 else standing route log := by
  unfold standing
  rw [credits_snoc,credit]
  split <;> rfl

/-- Every delivery credits once, and no credit is dropped twice. -/
theorem credits_conserved (log : List (Entry R V)) :
    standing route log + dropped route log = load route (deliveries log) := by
  induction log using List.reverseRecOn with
  | nil => rfl
  | append_singleton log e ih =>
    unfold standing dropped at ih ⊢
    rw [credits_snoc,deliveries_snoc]
    cases e with
    | deliver r v =>
      change _ = load route (deliveries log ++ [(r,v)])
      rw [load_snoc,credit]
      split
      · dsimp only
        omega
      · omega
    | clear r =>
      change _ = load route (deliveries log ++ [])
      rw [List.append_nil,credit]
      split
      · dsimp only
        omega
      · exact ih

theorem dropped_clear (log : List (Entry R V)) (r : R) : dropped route (log++[.clear r]) =
    dropped route log + if r = route then standing route log else 0 := by
  unfold dropped standing
  rw [credits_snoc,credit]
  split <;> rfl

theorem dropped_deliver (log : List (Entry R V)) (r : R) (v : V) :
    dropped route (log++[.deliver r v]) = dropped route log := by
  unfold dropped
  rw [credits_snoc,credit]
  split <;> rfl

theorem dropped_never {log : List (Entry R V)} (h : .clear route ∉ log) : dropped route log = 0 := by
  induction log using List.reverseRecOn with
  | nil => rfl
  | append_singleton log e ih =>
    rw [List.mem_append,List.mem_singleton,not_or] at h
    cases e with
    | deliver r v => rw [dropped_deliver,ih h.1]
    | clear r =>
      have hr : r ≠ route := fun he => h.2 (he ▸ rfl)
      rw [dropped_clear,ih h.1,if_neg hr]

theorem standing_le (log : List (Entry R V)) :
    standing route log ≤ load route (deliveries log) := by
  have h := credits_conserved route log
  omega

end Credits

end Mailbox
