import ArkheKernel.Apportion
import ArkheKernel.Instance

/-!
# Quota reduction

What becomes of the quotas of the children when the quota of their parent is
reduced. Proportional throttling rounds every share down and hands out the rest
as one more unit each from the front of the list, to idle children as well.
-/

set_option autoImplicit false

namespace ArkheKernel
open Apportion

inductive QuotaReductionError where
  | wouldViolateChildren (currentUsage newQuota : ℕ)
  deriving DecidableEq, Repr

def u128Max : ℕ := 2^128-1

def satMul128 (a b : ℕ) : ℕ := min (a*b) u128Max

abbrev Usages := List (InstanceId × ℕ)

def currentTotal (children : Usages) : ℕ := (children.map Prod.snd).foldl satAdd64 0

def throttleShares (target total : ℕ) : Usages → Usages × ℕ → Usages × ℕ
  | [], acc => acc
  | (id,current)::rest, (out,allocated) =>
    let scaled := satMul128 current target/total
    throttleShares target total rest (out ++ [(id,min scaled u64Max)],satAdd128 allocated scaled)

def throttleRemainder : ℕ → Usages → Usages × ℕ
  | 0, out => (out,0)
  | remainder+1, [] => ([],remainder+1)
  | remainder+1, (id,quota)::rest =>
    let (out,left) := throttleRemainder remainder rest
    ((id,satAdd64 quota 1)::out,left)

def applyQuotaReduction (policy : QuotaReductionPolicy) (newQuota : ℕ) (children : Usages) :
    Except QuotaReductionError Usages :=
  let total := currentTotal children
  match policy with
  | .reject =>
    if total > newQuota then .error (.wouldViolateChildren total newQuota) else .ok children
  | .grandfatherExisting => .ok children
  | .throttleProportional =>
    if children = [] ∨ total = 0 ∨ newQuota ≥ total then .ok children
    else
      let (out,allocated) := throttleShares newQuota total children ([],0)
      .ok (throttleRemainder (newQuota-allocated) out).1

theorem foldl_satAdd64 (us : List ℕ) (a : ℕ) (ha : a ≤ u64Max) :
    us.foldl satAdd64 a = min (a+us.sum) u64Max := by
  induction us generalizing a with
  | nil => simp [ha]
  | cons u us ih =>
    rw [List.foldl_cons,ih _ (satAdd64_le a u),List.sum_cons]
    unfold satAdd64
    omega

theorem currentTotal_eq (children : Usages) :
    currentTotal children = min (children.map Prod.snd).sum u64Max := by
  rw [currentTotal,foldl_satAdd64 _ 0 (Nat.zero_le _),Nat.zero_add]

section Shares
variable {newQuota total : ℕ}

def shareOf (newQuota total : ℕ) (child : InstanceId × ℕ) : InstanceId × ℕ :=
  (child.1,share newQuota total child.2)

theorem scaled_eq {current : ℕ} (hq : newQuota < total) (ht : total ≤ u64Max)
    (hu : current ≤ u64Max) : satMul128 current newQuota/total = share newQuota total current ∧
      share newQuota total current ≤ u64Max := by
  have hmul : current*newQuota ≤ u64Max*u64Max := Nat.mul_le_mul hu (by omega)
  have hfit : u64Max*u64Max ≤ u128Max := by decide
  rw [satMul128,Nat.min_eq_left (hmul.trans hfit)]
  exact ⟨rfl,(share_le hq current).trans hu⟩

theorem throttleShares_eq (hq : newQuota < total) (ht : total ≤ u64Max) (children : Usages)
    (hu : ∀ child ∈ children, child.2 ≤ u64Max) (out : Usages) (allocated : ℕ)
    (ha : allocated ≤ u128Max) :
    throttleShares newQuota total children (out,allocated) =
      (out ++ children.map (shareOf newQuota total),
        min (allocated + ((children.map Prod.snd).map (share newQuota total)).sum) u128Max) := by
  induction children generalizing out allocated with
  | nil => simp [throttleShares,ha]
  | cons child children ih =>
    obtain ⟨id,current⟩ := child
    obtain ⟨hs,hfit⟩ := scaled_eq hq ht (hu (id,current) List.mem_cons_self)
    simp only [throttleShares,hs,Nat.min_eq_left hfit]
    have hadd : satAdd128 allocated (share newQuota total current) ≤ u128Max := Nat.min_le_right _ _
    rw [ih (fun child hc => hu child (List.mem_cons_of_mem _ hc)) _ _ hadd]
    refine Prod.ext (by simp [shareOf]) ?_
    simp only [List.map_cons,List.sum_cons,satAdd128,u128Max]
    omega

theorem throttleRemainder_eq (remainder : ℕ) (out : Usages)
    (hout : ∀ entry ∈ out.take remainder, entry.2 < u64Max) :
    throttleRemainder remainder out = (raise remainder out,remainder-out.length) := by
  induction out generalizing remainder with
  | nil => cases remainder <;> rfl
  | cons entry out ih =>
    obtain ⟨id,quota⟩ := entry
    cases remainder with
    | zero => rw [raise_zero]; simp [throttleRemainder]
    | succ remainder =>
      rw [List.take_succ_cons] at hout
      have hentry := hout (id,quota) List.mem_cons_self
      have hrest := ih remainder (fun entry he => hout entry (List.mem_cons_of_mem _ he))
      have hadd : satAdd64 quota 1 = quota+1 := satAdd64_eq hentry
      simp only [throttleRemainder,hrest,hadd,raise_cons,List.length_cons]
      rw [Nat.add_sub_add_right]

theorem share_lt_max (hq : newQuota < total) {current : ℕ} (hu : current ≤ u64Max) :
    share newQuota total current < u64Max := by
  rcases Nat.eq_zero_or_pos current with rfl | hpos
  · rw [share_zero]
    decide
  · exact (share_lt hq hpos).trans_le hu

theorem shareOf_lt_max (hq : newQuota < total) {children : Usages}
    (hu : ∀ child ∈ children, child.2 ≤ u64Max) (remainder : ℕ) :
    ∀ entry ∈ (children.map (shareOf newQuota total)).take remainder, entry.2 < u64Max := by
  intro entry he
  obtain ⟨child,hc,rfl⟩ := List.mem_map.mp (List.mem_of_mem_take he)
  exact share_lt_max hq (hu child hc)

end Shares

section Throttle
variable {newQuota : ℕ} {children : Usages}

def shares (newQuota : ℕ) (children : Usages) : List ℕ :=
  (children.map Prod.snd).map (share newQuota (currentTotal children))

/-- The rounded shares, the first of them raised by the rest. -/
theorem throttle_eq (hu : ∀ child ∈ children, child.2 ≤ u64Max)
    (hq : newQuota < currentTotal children) :
    applyQuotaReduction .throttleProportional newQuota children =
      .ok (raise (newQuota-(shares newQuota children).sum)
        (children.map (shareOf newQuota (currentTotal children)))) := by
  have ht : currentTotal children ≤ u64Max := by
    rw [currentTotal_eq]
    exact Nat.min_le_right _ _
  have hpos : ¬ (children = [] ∨ currentTotal children = 0 ∨ newQuota ≥ currentTotal children) := by
    rintro (rfl | h | h)
    · simp [currentTotal] at hq
    · omega
    · omega
  have hfit : u64Max ≤ u128Max := by decide
  have hrest : newQuota - min (0+(shares newQuota children).sum) u128Max =
      newQuota-(shares newQuota children).sum := by omega
  simp only [applyQuotaReduction,if_neg hpos]
  rw [throttleShares_eq hq ht children hu [] 0 (Nat.zero_le _)]
  dsimp only
  rw [← shares,hrest,List.nil_append,throttleRemainder_eq _ _ (shareOf_lt_max hq hu _)]

theorem throttle_unchanged (hq : currentTotal children ≤ newQuota) :
    applyQuotaReduction .throttleProportional newQuota children = .ok children := by
  simp [applyQuotaReduction,hq]

/-- Every idle child comes late enough for the leftover not to reach it. In units
of one share in the total, the leftover is what rounding lost, less what a total
that was capped gives out too much. -/
def IdleChildrenSpared (newQuota : ℕ) (children : Usages) : Prop :=
  currentTotal children ≤ newQuota ∨ ∀ (i : ℕ) (id : InstanceId), children[i]? = some (id,0) →
    loss newQuota (currentTotal children) (children.map Prod.snd) ≤
      i*currentTotal children +
        newQuota*((children.map Prod.snd).sum-currentTotal children)

theorem served_pos_iff (r : ℕ) (children : Usages) :
    (∀ child ∈ children.take r, 0 < child.2) ↔
      ∀ (i : ℕ) (id : InstanceId), children[i]? = some (id,0) → r ≤ i := by
  constructor
  · intro h i id hi
    by_contra hreach
    obtain ⟨hlen,he⟩ := List.getElem?_eq_some_iff.mp hi
    have hmem : (id,0) ∈ children.take r := List.mem_take_iff_getElem.mpr ⟨i,by omega,he⟩
    exact absurd (h _ hmem) (Nat.not_lt_zero _)
  · intro h child hc
    obtain ⟨i,hlen,he⟩ := List.mem_take_iff_getElem.mp hc
    apply Nat.pos_of_ne_zero
    intro hz
    have hi : children[i]? = some (child.1,0) := by
      rw [List.getElem?_eq_getElem (by omega),he,← hz]
    have hlate := h i child.1 hi
    omega

/-- A busy child has room for the one unit that rounding may add, an idle one has
none. -/
theorem throttle_bounded_iff (hu : ∀ child ∈ children, child.2 ≤ u64Max)
    (hq : newQuota < currentTotal children) :
    (∃ out, applyQuotaReduction .throttleProportional newQuota children = .ok out ∧
      List.Forall₂ (fun child entry => child.1 = entry.1 ∧ entry.2 ≤ child.2) children out) ↔
    ∀ child ∈ children.take (newQuota-(shares newQuota children).sum), 0 < child.2 := by
  have hraise := raise_bounded (Prod.snd : InstanceId × ℕ → ℕ)
    (shareOf newQuota (currentTotal children)) (newQuota-(shares newQuota children).sum) children
  have hle : ∀ child ∈ children, (shareOf newQuota (currentTotal children) child).2 ≤ child.2 :=
    fun child _ => share_le hq child.2
  rw [throttle_eq hu hq]
  constructor
  · rintro ⟨out,ho,h⟩
    obtain rfl := Except.ok.inj ho
    exact fun child hc => (share_lt_iff hq).mp ((hraise.mp h).2 child hc)
  · intro h
    exact ⟨_,rfl,hraise.mpr ⟨hle,fun child hc => (share_lt_iff hq).mpr (h child hc)⟩⟩

/-- No child is raised above its usage exactly when the leftover reaches no idle
child. -/
theorem throttle_never_raises_iff (newQuota : ℕ) (children : Usages)
    (hu : ∀ child ∈ children, child.2 ≤ u64Max) :
    (∃ out, applyQuotaReduction .throttleProportional newQuota children = .ok out ∧
      List.Forall₂ (fun child entry => child.1 = entry.1 ∧ entry.2 ≤ child.2) children out) ↔
    IdleChildrenSpared newQuota children := by
  by_cases hq : newQuota < currentTotal children
  · have hne : ¬ currentTotal children ≤ newQuota := by omega
    have hcap : currentTotal children ≤ (children.map Prod.snd).sum := by
      rw [currentTotal_eq]
      exact Nat.min_le_left _ _
    rw [throttle_bounded_iff hu hq,served_pos_iff,IdleChildrenSpared,or_iff_right hne]
    exact forall₃_congr (fun i _ _ => leftover_le_iff (by omega) hcap i)
  · have hle : currentTotal children ≤ newQuota := by omega
    rw [throttle_unchanged hle]
    constructor
    · exact fun _ => .inl hle
    · intro _
      refine ⟨children,rfl,?_⟩
      rw [List.forall₂_same]
      exact fun child _ => ⟨rfl,le_refl _⟩

theorem throttle_never_raises_iff_idle_last : ∃ out,
    applyQuotaReduction .throttleProportional 1 [(⟨.succ 0⟩,1),(⟨.succ 1⟩,1),(⟨.succ 2⟩,0)] =
      .ok out ∧ List.Forall₂ (fun child entry => child.1 = entry.1 ∧ entry.2 ≤ child.2)
        [(⟨.succ 0⟩,1),(⟨.succ 1⟩,1),(⟨.succ 2⟩,0)] out := by
  apply (throttle_never_raises_iff 1 _ (by decide)).mpr
  right
  intro i id hi
  match i with
  | 0 => simp at hi
  | 1 => simp at hi
  | i+2 =>
    have ht : currentTotal [(⟨.succ 0⟩,1),(⟨.succ 1⟩,1),(⟨.succ 2⟩,0)] = 2 := by decide
    rw [ht]
    simp [loss]

/-- One unit for three children, the first of them idle. -/
theorem throttle_raises_idle :
    ¬ ∀ (newQuota : ℕ) (children : Usages), newQuota ≤ u64Max →
      (∀ child ∈ children, child.2 ≤ u64Max) →
      children.Pairwise (fun a b => a.1 ≤ b.1) →
      ∃ out, applyQuotaReduction .throttleProportional newQuota children = .ok out ∧
        List.Forall₂ (fun child entry => child.1 = entry.1 ∧ entry.2 ≤ child.2) children out := by
  intro h
  obtain ⟨out,ho,hf⟩ := h 1 [(⟨.succ 0⟩,0),(⟨.succ 1⟩,1),(⟨.succ 2⟩,1)] (by decide) (by decide)
    (by decide)
  have hraised : applyQuotaReduction .throttleProportional 1
      [(⟨.succ 0⟩,0),(⟨.succ 1⟩,1),(⟨.succ 2⟩,1)] =
        .ok [(⟨.succ 0⟩,1),(⟨.succ 1⟩,0),(⟨.succ 2⟩,0)] := by decide
  obtain rfl := Except.ok.inj (ho.symm.trans hraised)
  simp at hf

/-- The values a throttling pass goes through, computed without bounds, fit the
types that the pass computes them in. -/
structure ThrottleFits (newQuota : ℕ) (children : Usages) : Prop where
  totals : ∀ pre, pre <+: children → (pre.map Prod.snd).sum ≤ u64Max
  products : ∀ child ∈ children, child.2*newQuota ≤ u128Max
  quotas : ∀ child ∈ children, child.2*newQuota/(children.map Prod.snd).sum+1 ≤ u64Max
  allocated : ∀ pre, pre <+: children →
    (pre.map (fun child => child.2*newQuota/(children.map Prod.snd).sum)).sum ≤ u128Max
  remainder : (children.map (fun child => child.2*newQuota/(children.map Prod.snd).sum)).sum ≤
    newQuota

theorem sum_prefix_le {pre : Usages} (h : pre <+: children) (f : InstanceId × ℕ → ℕ) :
    (pre.map f).sum ≤ (children.map f).sum := by
  obtain ⟨post,rfl⟩ := h
  rw [List.map_append,List.sum_append]
  exact Nat.le_add_right _ _

theorem throttle_fits (hsum : (children.map Prod.snd).sum ≤ u64Max)
    (hu : ∀ child ∈ children, child.2 ≤ u64Max) (hq : newQuota < (children.map Prod.snd).sum) :
    ThrottleFits newQuota children := by
  have hfit : u64Max*u64Max ≤ u128Max := by decide
  have hle : u64Max ≤ u128Max := by decide
  have hshares : ((children.map Prod.snd).map
      (share newQuota (children.map Prod.snd).sum)).sum ≤ newQuota := shares_le rfl (by omega)
  rw [List.map_map] at hshares
  refine ⟨?_,?_,?_,?_,hshares⟩
  · exact fun pre hpre => (sum_prefix_le hpre Prod.snd).trans hsum
  · intro child hc
    exact (Nat.mul_le_mul (hu child hc) (by omega)).trans hfit
  · exact fun child hc => share_lt_max hq (hu child hc)
  · intro pre hpre
    have hpre' := sum_prefix_le hpre
      (fun child => child.2*newQuota/(children.map Prod.snd).sum)
    exact hpre'.trans (hshares.trans (by omega))

theorem currentTotal_uncapped (hsum : (children.map Prod.snd).sum ≤ u64Max) :
    currentTotal children = (children.map Prod.snd).sum := by
  rw [currentTotal_eq]
  exact Nat.min_eq_left hsum

theorem shares_leftover (hsum : (children.map Prod.snd).sum ≤ u64Max)
    (hq : newQuota < (children.map Prod.snd).sum) :
    (shares newQuota children).sum ≤ newQuota ∧
      newQuota-(shares newQuota children).sum < children.length := by
  rw [shares,currentTotal_uncapped hsum]
  refine ⟨shares_le rfl (by omega),?_⟩
  calc newQuota-((children.map Prod.snd).map (share newQuota (children.map Prod.snd).sum)).sum
      < (children.map Prod.snd).length := leftover_lt rfl (by omega)
    _ = children.length := List.length_map _

theorem scaled_exact (hsum : (children.map Prod.snd).sum ≤ u64Max)
    (hu : ∀ child ∈ children, child.2 ≤ u64Max) (hq : newQuota < (children.map Prod.snd).sum) :
    throttleShares newQuota (children.map Prod.snd).sum children ([],0) =
      (children.map (shareOf newQuota (children.map Prod.snd).sum),(shares newQuota children).sum) := by
  have hfit : u64Max ≤ u128Max := by decide
  have hle := (shares_leftover hsum hq).1
  have h := throttleShares_eq hq hsum children hu [] 0 (Nat.zero_le _)
  rw [shares,currentTotal_uncapped hsum] at hle ⊢
  rw [Nat.zero_add,Nat.min_eq_left (by omega)] at h
  exact h

/-- A quota below a total that was not capped is spent exactly: every child gets
its rounded share, and one more from the front on until nothing is left. -/
theorem throttle_spends_exactly (newQuota : ℕ) (children : Usages)
    (hsum : (children.map Prod.snd).sum ≤ u64Max) (hq : newQuota < (children.map Prod.snd).sum) :
    let total := (children.map Prod.snd).sum
    let scaled := throttleShares newQuota total children ([],0)
    ∃ out r, applyQuotaReduction .throttleProportional newQuota children = .ok out ∧
      out.map Prod.fst = children.map Prod.fst ∧ (out.map Prod.snd).sum = newQuota ∧
      out.map Prod.snd = (children.take r).map (fun child => child.2*newQuota/total+1) ++
        (children.drop r).map (fun child => child.2*newQuota/total) ∧
      ThrottleFits newQuota children ∧ (throttleRemainder (newQuota-scaled.2) scaled.1).2 = 0 := by
  intro total scaled
  have hu : ∀ child ∈ children, child.2 ≤ u64Max :=
    fun child hc => (List.le_sum_of_mem (List.mem_map_of_mem hc)).trans hsum
  have htotal : currentTotal children = total := currentTotal_uncapped hsum
  obtain ⟨hle,hlt⟩ := shares_leftover hsum hq
  have hsnd : (children.map (shareOf newQuota total)).map Prod.snd = shares newQuota children := by
    rw [shares,htotal,List.map_map,List.map_map]
    rfl
  have hthrottle := throttle_eq hu (hq.trans_eq htotal.symm)
  rw [htotal] at hthrottle
  refine ⟨_,newQuota-(shares newQuota children).sum,hthrottle,?_,?_,?_,throttle_fits hsum hu hq,?_⟩
  · rw [raise_keys,List.map_map]
    rfl
  · rw [raise_sum _ _ (by rw [List.length_map]; omega),hsnd]
    omega
  · simp only [raise,List.map_append,List.map_take,List.map_drop,List.map_map]
    rfl
  · have hscaled : scaled = (children.map (shareOf newQuota total),(shares newQuota children).sum) :=
      scaled_exact hsum hu hq
    rw [hscaled,throttleRemainder_eq _ _ (shareOf_lt_max hq hu _),List.length_map]
    exact Nat.sub_eq_zero_of_le hlt.le

theorem throttle_spends_exactly_rounded : ∃ out,
    applyQuotaReduction .throttleProportional 10
      [(⟨.succ 0⟩,7),(⟨.succ 1⟩,7),(⟨.succ 2⟩,7)] = .ok out ∧ (out.map Prod.snd).sum = 10 := by
  obtain ⟨out,_,ho,-,hs,-⟩ := throttle_spends_exactly 10
    [(⟨.succ 0⟩,7),(⟨.succ 1⟩,7),(⟨.succ 2⟩,7)] (by decide) (by decide)
  exact ⟨out,ho,hs⟩

end Throttle
end ArkheKernel
