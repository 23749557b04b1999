import Mathlib

/-!
# Proportional shares

A quantity is divided over weights in proportion to a total, every share rounded
down, and what rounding left over is handed out one unit at a time from the
front. What is lost to rounding is measured by the remainders.
-/

set_option autoImplicit false

namespace Apportion

section Shares
variable (q t : ℕ)

def share (u : ℕ) : ℕ := u*q/t

/-- What the shares leave out, in units of `1/t`. -/
def loss (us : List ℕ) : ℕ := (us.map (fun u => u*q%t)).sum

theorem shares_add_loss (us : List ℕ) :
    t*(us.map (share q t)).sum + loss q t us = us.sum*q := by
  induction us with
  | nil => simp [loss]
  | cons u us ih =>
    have hu : t*(u*q/t) + u*q%t = u*q := Nat.div_add_mod _ _
    simp only [List.map_cons,List.sum_cons,loss,share,Nat.mul_add,Nat.add_mul] at ih ⊢
    omega

variable {q t}

theorem loss_lt (ht : 0 < t) {us : List ℕ} (hu : us ≠ []) : loss q t us < t*us.length := by
  induction us with
  | nil => exact absurd rfl hu
  | cons u us ih =>
    have hm : u*q%t < t := Nat.mod_lt _ ht
    rw [loss,List.map_cons,List.sum_cons,List.length_cons,Nat.mul_add]
    by_cases hn : us = []
    · subst hn
      simpa using hm
    · have hi := ih hn
      rw [loss] at hi
      omega

theorem share_lt (hq : q < t) {u : ℕ} (hu : 0 < u) : share q t u < u := by
  apply Nat.div_lt_of_lt_mul
  rw [mul_comm]
  exact Nat.mul_lt_mul_of_pos_right hq hu

theorem share_le (hq : q < t) (u : ℕ) : share q t u ≤ u := by
  rcases Nat.eq_zero_or_pos u with rfl | hu
  · simp [share]
  · exact (share_lt hq hu).le

theorem share_zero : share q t 0 = 0 := by simp [share]

theorem share_lt_iff (hq : q < t) {u : ℕ} : share q t u < u ↔ 0 < u :=
  ⟨fun h => (Nat.zero_le _).trans_lt h,share_lt hq⟩

theorem leftover_le_iff (ht : 0 < t) {us : List ℕ} (hs : t ≤ us.sum) (i : ℕ) :
    q-(us.map (share q t)).sum ≤ i ↔ loss q t us ≤ i*t + q*(us.sum-t) := by
  have h := shares_add_loss q t us
  have he : us.sum*q = t*q + q*(us.sum-t) := by
    rw [mul_comm q,← Nat.add_mul,Nat.add_sub_of_le hs]
  have hmul : q-(us.map (share q t)).sum ≤ i ↔ t*q ≤ t*((us.map (share q t)).sum+i) := by
    rw [Nat.mul_le_mul_left_iff ht]
    omega
  rw [hmul,Nat.mul_add,mul_comm i t]
  omega

theorem shares_le {us : List ℕ} (hs : us.sum = t) (ht : 0 < t) :
    (us.map (share q t)).sum ≤ q := by
  have h := shares_add_loss q t us
  rw [hs] at h
  exact Nat.le_of_mul_le_mul_left (by omega) ht

theorem leftover_lt {us : List ℕ} (hs : us.sum = t) (ht : 0 < t) :
    q-(us.map (share q t)).sum < us.length := by
  have h := shares_add_loss q t us
  have hn : us ≠ [] := by
    rintro rfl
    simp at hs
    omega
  have hl := loss_lt (q := q) ht hn
  rw [hs] at h
  apply Nat.lt_of_mul_lt_mul_left (a := t)
  rw [Nat.mul_sub]
  omega

end Shares

section Raise
variable {ι : Type*}

def raise (r : ℕ) (xs : List (ι × ℕ)) : List (ι × ℕ) :=
  (xs.take r).map (fun x => (x.1,x.2+1)) ++ xs.drop r

theorem raise_zero (xs : List (ι × ℕ)) : raise 0 xs = xs := by simp [raise]

theorem raise_nil (r : ℕ) : raise r ([] : List (ι × ℕ)) = [] := by simp [raise]

theorem raise_cons (r : ℕ) (x : ι × ℕ) (xs : List (ι × ℕ)) :
    raise (r+1) (x::xs) = (x.1,x.2+1) :: raise r xs := by simp [raise]

theorem raise_keys (r : ℕ) (xs : List (ι × ℕ)) :
    (raise r xs).map Prod.fst = xs.map Prod.fst := by
  induction xs generalizing r with
  | nil => simp [raise_nil]
  | cons x xs ih =>
    cases r with
    | zero => rw [raise_zero]
    | succ r => rw [raise_cons,List.map_cons,List.map_cons,ih]

theorem raise_sum (r : ℕ) (xs : List (ι × ℕ)) (h : r ≤ xs.length) :
    ((raise r xs).map Prod.snd).sum = (xs.map Prod.snd).sum + r := by
  induction xs generalizing r with
  | nil =>
    obtain rfl : r = 0 := by simpa using h
    rw [raise_zero]
    rfl
  | cons x xs ih =>
    cases r with
    | zero => rw [raise_zero]; rfl
    | succ r =>
      rw [List.length_cons] at h
      simp only [raise_cons,List.map_cons,List.sum_cons,ih r (by omega)]
      omega

theorem raise_bounded {κ : Type*} (bound : κ → ℕ) (f : κ → ι × ℕ) (r : ℕ) (ks : List κ) :
    List.Forall₂ (fun k x => (f k).1 = x.1 ∧ x.2 ≤ bound k) ks (raise r (ks.map f)) ↔
      (∀ k ∈ ks, (f k).2 ≤ bound k) ∧ ∀ k ∈ ks.take r, (f k).2 < bound k := by
  induction ks generalizing r with
  | nil => simp [raise_nil]
  | cons k ks ih =>
    cases r with
    | zero =>
      have h := ih 0
      rw [raise_zero] at h ⊢
      simp only [List.map_cons,List.forall₂_cons,h,List.take_zero,List.mem_cons,
        List.not_mem_nil,false_implies,implies_true,and_true,true_and,forall_eq_or_imp]
    | succ r =>
      simp only [List.map_cons,raise_cons,List.forall₂_cons,ih,List.take_succ_cons,List.mem_cons,
        forall_eq_or_imp,Nat.succ_le_iff,true_and]
      constructor
      · intro ⟨h,hs,ht⟩
        exact ⟨⟨h.le,hs⟩,h,ht⟩
      · intro ⟨⟨_,hs⟩,h,ht⟩
        exact ⟨h,hs,ht⟩

end Raise
end Apportion
