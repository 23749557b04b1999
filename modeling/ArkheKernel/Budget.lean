import ArkheKernel.Descent

/-!
# The memory budget

The gate compares a projection with the budget, the ledger is written when the
stage is applied. The projection credits a removal with the committed size of
the component; as long as an action removes a component once, the bytes it
credits are there to be freed and the projection bounds the ledger.
-/

set_option autoImplicit false

namespace ArkheKernel
open OrderedMap PrefixCode

namespace ResourceLedger

/-- The running total is the sum of the stored sizes. -/
def Exact (l : ResourceLedger) : Prop := l.totalBytes = total l.componentSizes

def Live (l : ResourceLedger) : Prop := ∀ k ∈ l.componentSizes, k.entity ∈ l.entities

theorem new_exact : new.Exact := total_empty.symm

theorem new_live : new.Live := fun k hk => by simp [new] at hk

variable {l : ResourceLedger}

theorem addComponent_exact (h : l.Exact) (e : EntityId) (t : TypeCode) (size : ℕ)
    (hb : total (l.addComponent e t size).2.componentSizes ≤ u64Max) :
    (l.addComponent e t size).2.Exact := by
  unfold addComponent at hb ⊢
  unfold Exact at h ⊢
  split at hb
  · next hc =>
    rw [if_pos hc]
    have he := total_erase l.componentSizes ⟨e,t⟩
    dsimp only at hb ⊢
    rw [total_insert] at hb ⊢
    split
    · next old ho =>
      rw [amount_of_get ho] at he
      split
      · rw [satAdd64_eq (by omega)]
        omega
      · omega
    · next ho =>
      have hz := amount_of_none ho
      rw [satAdd64_eq (by omega)]
      omega
  · next hc =>
    rw [if_neg hc]
    exact h

theorem removeComponent_exact (h : l.Exact) (e : EntityId) (t : TypeCode) (size : ℕ) :
    (l.removeComponent e t size).2.Exact := by
  unfold removeComponent
  unfold Exact at h ⊢
  split
  · dsimp only
    split
    · next old ho =>
      have he := total_erase l.componentSizes ⟨e,t⟩
      rw [amount_of_get ho] at he
      dsimp only
      omega
    · exact h
  · exact h

theorem freeRow_exact (acc : ℕ × ResourceLedger) (k : ComponentKey) (h : acc.2.Exact) :
    (freeRow acc k).2.Exact := by
  unfold freeRow
  unfold Exact at h ⊢
  split
  · next size ho =>
    have he := total_erase acc.2.componentSizes k
    rw [amount_of_get ho] at he
    dsimp only
    omega
  · exact h

theorem removeEntity_exact (h : l.Exact) (id : EntityId) : (l.removeEntity id).2.Exact := by
  unfold removeEntity
  split
  · have hrows : ∀ (ks : List ComponentKey) (acc : ℕ × ResourceLedger), acc.2.Exact →
        (ks.foldl freeRow acc).2.Exact := by
      intro ks
      induction ks with
      | nil => exact fun _ hacc => hacc
      | cons k ks ih => exact fun acc hacc => ih _ (freeRow_exact acc k hacc)
    exact hrows _ _ h
  · exact h

theorem freeRow_le (acc : ℕ × ResourceLedger) (k : ComponentKey) :
    (freeRow acc k).2.totalBytes ≤ acc.2.totalBytes := by
  unfold freeRow
  split
  · exact Nat.sub_le _ _
  · exact le_refl _

theorem removeEntity_le (l : ResourceLedger) (id : EntityId) :
    (l.removeEntity id).2.totalBytes ≤ l.totalBytes := by
  unfold removeEntity
  split
  · have hrows : ∀ (ks : List ComponentKey) (acc : ℕ × ResourceLedger),
        (ks.foldl freeRow acc).2.totalBytes ≤ acc.2.totalBytes := by
      intro ks
      induction ks with
      | nil => exact fun _ => le_refl _
      | cons k ks ih => exact fun acc => (ih _).trans (freeRow_le acc k)
    exact hrows _ _
  · exact le_refl _

end ResourceLedger

theorem applyLedgerOp_live (l : ResourceLedger) (op : LedgerOp) (h : l.Live) :
    (applyLedgerOp l op).Live := by
  intro k hk
  cases op with
  | addEntity id => exact (ResourceLedger.addEntity_mem _ _ _).mpr (Or.inr (h k hk))
  | removeEntity id =>
    obtain ⟨hn,hk⟩ := (ResourceLedger.removeEntity_mem_sizes _ _ _).mp hk
    have hlive := h k hk
    refine (ResourceLedger.removeEntity_mem _ _ _).mpr ⟨?_,hlive⟩
    intro he
    exact hn ⟨he ▸ hlive,he⟩
  | addComponent entity typeCode size =>
    change k.entity ∈ (l.addComponent entity typeCode size).2.entities
    rw [ResourceLedger.addComponent_entities]
    rcases (ResourceLedger.addComponent_mem _ _ _ _ _).mp hk with ⟨he,rfl⟩ | hk
    · exact he
    · exact h k hk
  | removeComponent entity typeCode size =>
    change k.entity ∈ (l.removeComponent entity typeCode size).2.entities
    rw [ResourceLedger.removeComponent_entities]
    exact h k ((ResourceLedger.removeComponent_mem _ _ _ _ _).mp hk).2

theorem applyLedgerOp_le (l : ResourceLedger) (op : LedgerOp) (h : l.totalBytes ≤ u64Max) :
    (applyLedgerOp l op).totalBytes ≤ u64Max := by
  cases op with
  | addEntity id => exact h
  | removeEntity id => exact (l.removeEntity_le id).trans h
  | addComponent entity typeCode size =>
    change (l.addComponent entity typeCode size).2.totalBytes ≤ u64Max
    unfold ResourceLedger.addComponent
    split
    · dsimp only
      split
      · split
        · exact satAdd64_le _ _
        · exact (Nat.sub_le _ _).trans h
      · exact satAdd64_le _ _
    · exact h
  | removeComponent entity typeCode size =>
    change (l.removeComponent entity typeCode size).2.totalBytes ≤ u64Max
    unfold ResourceLedger.removeComponent
    split
    · dsimp only
      split
      · exact (Nat.sub_le _ _).trans h
      · exact h
    · exact h

def LedgerOp.removes (k : ComponentKey) : LedgerOp → Bool
  | .removeComponent entity typeCode _ => k = ⟨entity,typeCode⟩
  | _ => false

theorem applyLedgerOp_amount (l : ResourceLedger) (op : LedgerOp) (k : ComponentKey) :
    amount (applyLedgerOp l op).componentSizes k ≤ amount l.componentSizes k ∨
      ∃ size, op = .addComponent k.entity k.typeCode size ∧
        amount (applyLedgerOp l op).componentSizes k = size := by
  cases op with
  | addEntity id => exact Or.inl (le_refl _)
  | removeEntity id =>
    left
    simp only [applyLedgerOp,amount,ResourceLedger.removeEntity_size]
    split
    · exact Nat.zero_le _
    · exact le_refl _
  | addComponent entity typeCode size =>
    simp only [applyLedgerOp,amount,ResourceLedger.addComponent_size]
    split
    · next hk =>
      obtain ⟨-,rfl⟩ := hk
      exact Or.inr ⟨size,rfl,rfl⟩
    · exact Or.inl (le_refl _)
  | removeComponent entity typeCode size =>
    left
    simp only [applyLedgerOp,amount,ResourceLedger.removeComponent_size]
    split
    · exact Nat.zero_le _
    · exact le_refl _

theorem removed_amount {l : ResourceLedger} (h : l.Live) (k : ComponentKey) {op : LedgerOp}
    (hop : op.removes k = true) : amount (applyLedgerOp l op).componentSizes k = 0 := by
  cases op with
  | removeComponent entity typeCode size =>
    obtain rfl : k = ⟨entity,typeCode⟩ := by simpa [LedgerOp.removes] using hop
    simp only [applyLedgerOp,amount,ResourceLedger.removeComponent_size,and_true]
    by_cases he : entity ∈ l.entities
    · rw [if_pos he]
      rfl
    · have hn : (⟨entity,typeCode⟩ : ComponentKey) ∉ l.componentSizes := fun hk => he (h _ hk)
      rw [if_neg he,(not_mem_iff_get _ _).mp hn]
      rfl
  | _ => cases hop

def Fits (committed : ResourceLedger) (B : ℕ) : ℕ → List LedgerOp → Prop
  | _, [] => True
  | p, op::ops => projectStep committed p op ≤ B ∧ Fits committed B (projectStep committed p op) ops

theorem fits_snoc (committed : ResourceLedger) (B p : ℕ) (ops : List LedgerOp) (op : LedgerOp) :
    Fits committed B p (ops++[op]) ↔ Fits committed B p ops ∧
      projectStep committed (ops.foldl (projectStep committed) p) op ≤ B := by
  induction ops generalizing p with
  | nil => simp [Fits]
  | cons o ops ih => simp [Fits,ih,and_assoc]

/-- No nonempty committed component is removed twice. -/
def RemovesOnce (committed : ResourceLedger) (ops : List LedgerOp) : Prop :=
  ∀ k, 0 < amount committed.componentSizes k → ops.countP (LedgerOp.removes k) ≤ 1

theorem RemovesOnce.tail {committed : ResourceLedger} {op : LedgerOp} {ops : List LedgerOp}
    (h : RemovesOnce committed (op::ops)) : RemovesOnce committed ops := by
  intro k hk
  have hc := h k hk
  rw [List.countP_cons] at hc
  omega

/-- Bytes held against the projection `p` while `rest` is still to be applied:
all that is stored, and all that a removal to come will be credited. -/
structure Held (committed : ResourceLedger) (rest : List LedgerOp) (l : ResourceLedger) (p : ℕ)
    (held : BTreeMap ComponentKey ℕ) : Prop where
  exact : l.Exact
  live : l.Live
  stored : ∀ k, amount l.componentSizes k ≤ amount held k
  owed : ∀ k, 0 < rest.countP (LedgerOp.removes k) →
    amount committed.componentSizes k ≤ amount held k
  paid : total held ≤ p

theorem held_start {l : ResourceLedger} (he : l.Exact) (hl : l.Live) (ops : List LedgerOp) :
    Held l ops l l.totalBytes l.componentSizes :=
  ⟨he,hl,fun _ => le_refl _,fun _ _ => le_refl _,le_of_eq he.symm⟩

section Step
variable {committed l : ResourceLedger} {rest : List LedgerOp} {p B : ℕ}
  {held : BTreeMap ComponentKey ℕ}

theorem Held.bounds (h : Held committed rest l p held) : l.totalBytes ≤ p := by
  rw [h.exact]
  exact (total_mono h.stored).trans h.paid

theorem Held.free {op : LedgerOp} (h : Held committed (op::rest) l p held)
    (he : (applyLedgerOp l op).Exact) (hs : ∀ k, amount (applyLedgerOp l op).componentSizes k ≤
      amount l.componentSizes k) : Held committed rest (applyLedgerOp l op) p held := by
  refine ⟨he,applyLedgerOp_live l op h.live,fun k => (hs k).trans (h.stored k),?_,h.paid⟩
  intro k hk
  apply h.owed k
  rw [List.countP_cons]
  omega

theorem Held.add {entity : EntityId} {typeCode : TypeCode} {size : ℕ}
    (h : Held committed (.addComponent entity typeCode size::rest) l p held)
    (hb : p+size ≤ u64Max) : Held committed rest
      (applyLedgerOp l (.addComponent entity typeCode size)) (p+size)
        (held.insert ⟨entity,typeCode⟩ (amount held ⟨entity,typeCode⟩+size)) := by
  have hgrow : ∀ k, amount held k ≤ amount (held.insert ⟨entity,typeCode⟩
      (amount held ⟨entity,typeCode⟩+size)) k := by
    intro k
    rw [amount_insert]
    split
    · next hk =>
      rw [hk]
      exact Nat.le_add_right _ _
    · exact le_refl _
  have hstored : ∀ k, amount (applyLedgerOp l (.addComponent entity typeCode size)).componentSizes k
      ≤ amount (held.insert ⟨entity,typeCode⟩ (amount held ⟨entity,typeCode⟩+size)) k := by
    intro k
    rcases applyLedgerOp_amount l (.addComponent entity typeCode size) k with hle | ⟨s,hs,hk⟩
    · exact (hle.trans (h.stored k)).trans (hgrow k)
    · obtain ⟨rfl,rfl,rfl⟩ := LedgerOp.addComponent.inj hs
      rw [hk,amount_insert,if_pos rfl]
      exact Nat.le_add_left _ _
  have hpaid : total (held.insert ⟨entity,typeCode⟩ (amount held ⟨entity,typeCode⟩+size)) ≤ p+size := by
    have he := total_erase held ⟨entity,typeCode⟩
    have hp := h.paid
    rw [total_insert]
    omega
  refine ⟨?_,applyLedgerOp_live _ _ h.live,hstored,?_,hpaid⟩
  · exact ResourceLedger.addComponent_exact h.exact entity typeCode size
      (((total_mono hstored).trans hpaid).trans hb)
  · intro k hk
    refine (h.owed k ?_).trans (hgrow k)
    rw [List.countP_cons]
    omega

theorem Held.remove {entity : EntityId} {typeCode : TypeCode} {size : ℕ}
    (h : Held committed (.removeComponent entity typeCode size::rest) l p held)
    (ho : RemovesOnce committed (.removeComponent entity typeCode size::rest)) :
    Held committed rest (applyLedgerOp l (.removeComponent entity typeCode size))
      (p-(committed.componentSize entity typeCode).getD 0) (held.erase ⟨entity,typeCode⟩) := by
  have hrm : LedgerOp.removes ⟨entity,typeCode⟩ (.removeComponent entity typeCode size) = true := by
    simp [LedgerOp.removes]
  have hcredit : amount committed.componentSizes ⟨entity,typeCode⟩ ≤ amount held ⟨entity,typeCode⟩ := by
    apply h.owed
    rw [List.countP_cons_of_pos hrm]
    exact Nat.succ_pos _
  refine ⟨ResourceLedger.removeComponent_exact h.exact _ _ _,applyLedgerOp_live _ _ h.live,?_,?_,?_⟩
  · intro k
    by_cases hk : k = ⟨entity,typeCode⟩
    · rw [hk,removed_amount h.live _ hrm]
      exact Nat.zero_le _
    · rw [amount_erase,if_neg hk]
      rcases applyLedgerOp_amount l (.removeComponent entity typeCode size) k with hle | ⟨_,hs,-⟩
      · exact hle.trans (h.stored k)
      · cases hs
  · intro k hk
    by_cases he : k = ⟨entity,typeCode⟩
    · -- a second removal is to come, so the component was empty
      have hz : amount committed.componentSizes k = 0 := by
        by_contra hne
        have hc := ho k (Nat.pos_of_ne_zero hne)
        rw [he,List.countP_cons_of_pos hrm] at hc
        rw [he] at hk
        omega
      rw [hz]
      exact Nat.zero_le _
    · rw [amount_erase,if_neg he]
      apply h.owed
      rw [List.countP_cons]
      omega
  · change total (held.erase ⟨entity,typeCode⟩) ≤ p-amount committed.componentSizes ⟨entity,typeCode⟩
    have ht := total_erase held ⟨entity,typeCode⟩
    have hp := h.paid
    omega

theorem Held.step {op : LedgerOp} (h : Held committed (op::rest) l p held)
    (ho : RemovesOnce committed (op::rest)) (hb : projectStep committed p op ≤ B)
    (hB : B < u64Max) :
    ∃ held', Held committed rest (applyLedgerOp l op) (projectStep committed p op) held' := by
  cases op with
  | addEntity id => exact ⟨held,h.free h.exact (fun _ => le_refl _)⟩
  | removeEntity id =>
    refine ⟨held,h.free (ResourceLedger.removeEntity_exact h.exact id) ?_⟩
    intro k
    rcases applyLedgerOp_amount l (.removeEntity id) k with hle | ⟨_,hs,-⟩
    · exact hle
    · cases hs
  | addComponent entity typeCode size =>
    have hs : satAdd64 p size ≤ B := hb
    have hp : p+size ≤ u64Max := by
      unfold satAdd64 at hs
      omega
    have hadd := h.add hp
    rw [projectStep,satAdd64_eq hp]
    exact ⟨_,hadd⟩
  | removeComponent entity typeCode size => exact ⟨_,h.remove ho⟩

/-- Operations that the gate let through one by one bring the ledger to at most
the projection, and with it to at most the budget. -/
theorem Held.run (ops : List LedgerOp) {l : ResourceLedger} {p : ℕ}
    {held : BTreeMap ComponentKey ℕ} (h : Held committed ops l p held)
    (ho : RemovesOnce committed ops) (hf : Fits committed B p ops) (hp : p ≤ B) (hB : B < u64Max) :
    (ops.foldl applyLedgerOp l).Exact ∧
      (ops.foldl applyLedgerOp l).totalBytes ≤ ops.foldl (projectStep committed) p ∧
      ops.foldl (projectStep committed) p ≤ B := by
  induction ops generalizing l p held with
  | nil => exact ⟨h.exact,h.bounds,hp⟩
  | cons op ops ih =>
    obtain ⟨held',h'⟩ := h.step ho hf.1 hB
    exact ih h' ho.tail hf.2 hf.1

end Step

def Op.ledgerOp : Op → Option LedgerOp
  | .spawnEntity id _ => some (.addEntity id)
  | .despawnEntity id => some (.removeEntity id)
  | .setComponent entity typeCode _ size => some (.addComponent entity typeCode size)
  | .removeComponent entity typeCode size => some (.removeComponent entity typeCode size)
  | .emitEvent .. | .scheduleAction .. | .sendSignal .. => none

def Op.removes (k : ComponentKey) : Op → Bool
  | .removeComponent entity typeCode _ => k = ⟨entity,typeCode⟩
  | _ => false

theorem dispatch_ledgerOps (e : Effect) (s : StepStage) (now : Tick) (n : ℕ)
    (caps : CapabilityMask) :
    (dispatch e s now n caps).1.ledgerOps = s.ledgerOps ++ e.op.ledgerOp.toList := by
  unfold dispatch
  cases e.op <;> simp [Op.ledgerOp]

theorem projectedWith_eq (l : ResourceLedger) (staged : ℕ) {op : Op} {o : LedgerOp}
    (h : op.ledgerOp = some o) : projectedWith l staged op = projectStep l staged o := by
  cases op <;> cases h <;> rfl

theorem removes_ledgerOps (k : ComponentKey) (ops : List Op) :
    (ops.filterMap Op.ledgerOp).countP (LedgerOp.removes k) = ops.countP (Op.removes k) := by
  induction ops with
  | nil => rfl
  | cons op ops ih =>
    rw [List.filterMap_cons,List.countP_cons,← ih]
    cases op with
    | removeComponent entity typeCode size => exact List.countP_cons
    | _ => rfl

theorem dispatch_fits {i : Instance} {B : ℕ} (hB : 0 < B) (hc : i.config.memoryBudgetBytes = B)
    (e : Effect) (s : StepStage) (now : Tick) (n : ℕ) (caps : CapabilityMask)
    (hs : skipOp i s e.op = none) (h : Fits i.ledger B i.ledger.totalBytes s.ledgerOps) :
    Fits i.ledger B i.ledger.totalBytes (dispatch e s now n caps).1.ledgerOps := by
  rw [dispatch_ledgerOps]
  cases ho : e.op.ledgerOp with
  | none => simpa using h
  | some o =>
    have hn : budgetExceeded i s e.op = false := (skipOp_none hs).1
    rw [Option.toList_some,fits_snoc]
    refine ⟨h,?_⟩
    rw [budgetExceeded,hc,projectedWith_eq _ _ ho,decide_eq_true hB,Bool.true_and] at hn
    exact not_lt.mp (of_decide_eq_false hn)

section Gate
variable (i : Instance) (instId : InstanceId) (principal : Principal) (eff : CapabilityMask) (now : Tick)

theorem gate_staged_sublist (ops : List Op) (g : GateState) :
    (ops.foldl (gateOp i instId principal eff now) g).stage.ledgerOps.Sublist
      (g.stage.ledgerOps ++ ops.filterMap Op.ledgerOp) := by
  induction ops generalizing g with
  | nil => simp
  | cons op ops ih =>
    have hop : (gateOp i instId principal eff now g op).stage.ledgerOps.Sublist
        (g.stage.ledgerOps ++ op.ledgerOp.toList) := by
      rcases gateOp_cases i instId principal eff now g op with ⟨_,-,he⟩ | ⟨-,_,-,he⟩ | ⟨-,-,he⟩
      · rw [he]
        exact List.sublist_append_left _ _
      · rw [he]
        exact List.sublist_append_left _ _
      · rw [he,dispatch_ledgerOps]
    have hcons : (op::ops).filterMap Op.ledgerOp = op.ledgerOp.toList ++ ops.filterMap Op.ledgerOp := by
      rw [List.filterMap_cons]
      cases op.ledgerOp <;> rfl
    rw [List.foldl_cons,hcons,← List.append_assoc]
    exact (ih _).trans (hop.append_right _)

theorem gate_authorized (ops : List Op) (g : GateState)
    (h : (ops.foldl (gateOp i instId principal eff now) g).anyDenied = false) :
    g.anyDenied = false ∧
      ∀ op ∈ ops, authorize eff ⟨instId,principal,op⟩ = .ok ⟨instId,principal,op⟩ := by
  induction ops generalizing g with
  | nil => exact ⟨h,fun op hop => absurd hop List.not_mem_nil⟩
  | cons op ops ih =>
    obtain ⟨hg,hrest⟩ := ih _ h
    have hop : g.anyDenied = false ∧
        authorize eff ⟨instId,principal,op⟩ = .ok ⟨instId,principal,op⟩ := by
      rcases gateOp_cases i instId principal eff now g op with ⟨_,-,he⟩ | ⟨ha,_,-,he⟩ | ⟨ha,-,he⟩
      · rw [he] at hg
        cases hg
      · rw [he] at hg
        exact ⟨hg,ha⟩
      · rw [he] at hg
        exact ⟨hg,ha⟩
    refine ⟨hop.1,?_⟩
    intro o ho
    rcases List.mem_cons.mp ho with rfl | ho
    · exact hop.2
    · exact hrest o ho

end Gate

namespace Execution
variable (x : Execution)

/-- An action that authorization lets through removes no nonempty component of
the committed ledger twice. -/
def RemovesOnce : Prop :=
  (∀ op ∈ x.ops, authorize x.caps ⟨x.instId,x.entry.principal,op⟩ =
    .ok ⟨x.instId,x.entry.principal,op⟩) →
  ∀ k, 0 < amount x.before.ledger.componentSizes k → x.ops.countP (Op.removes k) ≤ 1

theorem gate_fits (hB : 0 < x.before.config.memoryBudgetBytes) :
    Fits x.before.ledger x.before.config.memoryBudgetBytes x.before.ledger.totalBytes
      x.gate.stage.ledgerOps :=
  gateLoop_invariant x.start x.instId x.entry.principal x.caps x.now
    (fun s _ => Fits x.before.ledger x.before.config.memoryBudgetBytes x.before.ledger.totalBytes
      s.ledgerOps) {} x.ops trivial (fun _ _ _ h => h)
    (fun s n _ _ _ hs h => dispatch_fits (i := x.start) hB rfl _ s x.now n x.caps hs h)

theorem gate_removesOnce (h : x.RemovesOnce) (hc : x.commits = true) :
    ArkheKernel.RemovesOnce x.before.ledger x.gate.stage.ledgerOps := by
  have hd : x.gate.anyDenied = false := by
    unfold commits at hc
    split at hc
    · cases hc
    · simpa using hc
  have ha := (gate_authorized x.start x.instId x.entry.principal x.caps x.now x.ops _ hd).2
  intro k hk
  have hsub : x.gate.stage.ledgerOps.Sublist (x.ops.filterMap Op.ledgerOp) :=
    gate_staged_sublist x.start x.instId x.entry.principal x.caps x.now x.ops _
  have hle := hsub.countP_le (p := LedgerOp.removes k)
  rw [removes_ledgerOps] at hle
  exact hle.trans (h ha k hk)

theorem after_ledger : x.after.ledger =
    if x.commits then x.gate.stage.ledgerOps.foldl applyLedgerOp x.before.ledger
    else x.before.ledger := by
  unfold after
  split
  · obtain ⟨_,_,hf⟩ := applyStage_frame x.start x.gate.stage
    rw [hf]
    rfl
  · rfl

end Execution

/-- What a ledger keeps to under a budget; the sum is exact where the budget
leaves room below saturation. -/
structure Budgeted (l : ResourceLedger) (B : ℕ) : Prop where
  live : l.Live
  bounded : l.totalBytes ≤ u64Max
  within : 0 < B → B < u64Max → l.Exact ∧ l.totalBytes ≤ B

def Instance.Budgeted (i : Instance) : Prop :=
  ArkheKernel.Budgeted i.ledger i.config.memoryBudgetBytes

theorem applyLedgerOps_live (ops : List LedgerOp) (l : ResourceLedger) (h : l.Live) :
    (ops.foldl applyLedgerOp l).Live := by
  induction ops generalizing l with
  | nil => exact h
  | cons op ops ih => exact ih _ (applyLedgerOp_live l op h)

theorem applyLedgerOps_le (ops : List LedgerOp) (l : ResourceLedger) (h : l.totalBytes ≤ u64Max) :
    (ops.foldl applyLedgerOp l).totalBytes ≤ u64Max := by
  induction ops generalizing l with
  | nil => exact h
  | cons op ops ih => exact ih _ (applyLedgerOp_le l op h)

theorem Execution.commit_le_projection (x : Execution) (h : x.RemovesOnce)
    (hc : x.commits = true) (hb : x.before.Budgeted) (h0 : 0 < x.before.config.memoryBudgetBytes)
    (hB : x.before.config.memoryBudgetBytes < u64Max) : x.after.ledger.Exact ∧
      x.after.ledger.totalBytes ≤ projectedComponentBytes x.before.ledger.totalBytes x.gate.stage
        x.before.ledger ∧
      projectedComponentBytes x.before.ledger.totalBytes x.gate.stage x.before.ledger ≤
        x.before.config.memoryBudgetBytes := by
  obtain ⟨he,hle⟩ := hb.within h0 hB
  rw [x.after_ledger,if_pos hc]
  exact (held_start he hb.live x.gate.stage.ledgerOps).run _ (x.gate_removesOnce h hc)
    (x.gate_fits h0) hle hB

theorem Execution.after_budgeted (x : Execution)
    (h : 0 < x.before.config.memoryBudgetBytes → x.RemovesOnce) (hb : x.before.Budgeted) :
    x.after.Budgeted := by
  by_cases hc : x.commits = true
  · refine ⟨?_,?_,?_⟩
    · rw [x.after_ledger,if_pos hc]
      exact applyLedgerOps_live _ _ hb.live
    · rw [x.after_ledger,if_pos hc]
      exact applyLedgerOps_le _ _ hb.bounded
    · rw [x.after_config]
      intro h0 hB
      obtain ⟨he,hle,hp⟩ := x.commit_le_projection (h h0) hc hb h0 hB
      exact ⟨he,hle.trans hp⟩
  · have hs : x.after = x.start := if_neg hc
    rw [hs]
    exact hb

theorem new_budgeted (id : InstanceId) (config : InstanceConfig) :
    (Instance.new id config).Budgeted where
  live := ResourceLedger.new_live
  bounded := Nat.zero_le _
  within _ _ := ⟨ResourceLedger.new_exact,Nat.zero_le _⟩

theorem budgeted_preserved : Kernel.Preserved
    (fun x => 0 < x.before.config.memoryBudgetBytes → x.RemovesOnce)
    (fun _ i => i.Budgeted) where
  created id config := new_budgeted id config
  admitted _ _ _ h := h
  executed x hx h := x.after_budgeted hx h
  signals _ _ _ _ _ h := h

theorem Budgeted.total_le {l : ResourceLedger} {B : ℕ} (h : Budgeted l B) (hB : 0 < B) :
    l.totalBytes ≤ B := by
  by_cases hroom : B < u64Max
  · exact (h.within hB hroom).2
  · exact h.bounded.trans (not_lt.mp hroom)

/-- A run in which no action of a budgeted instance removes a nonempty
committed component twice never exceeds a memory budget. -/
theorem budget_respected (c : Crypto) (manifest : Block) (wal : Option WalWriter)
    (calls : List Call)
    (h : ∀ x, .executed x ∈ (Kernel.machine c).trace (Kernel.build manifest wal) calls →
      0 < x.before.config.memoryBudgetBytes → x.RemovesOnce)
    (id : InstanceId) (i : Instance)
    (hi : ((Kernel.machine c).run (Kernel.build manifest wal) calls).instances[id]? = some i)
    (hB : 0 < i.config.memoryBudgetBytes) : i.ledger.totalBytes ≤ i.config.memoryBudgetBytes := by
  have hb : i.Budgeted := budgeted_preserved.reachable c manifest wal calls h id i hi
  exact hb.total_le hB

def budgetCalls (ops : List Op) : List Call := [
  .request (.registerAction (.clamp 7) (.constant [
    .spawnEntity ⟨.succ 0⟩ .system, .setComponent ⟨.succ 0⟩ (.clamp 1) [] 50,
    .setComponent ⟨.succ 0⟩ (.clamp 2) [] 50])),
  .request (.registerAction (.clamp 8) (.constant ops)),
  .request (.createInstance { memoryBudgetBytes := 100 }),
  .request (.submit ⟨⟨.succ 0⟩,.system,none,.empty,⟨1⟩,.clamp 7,[]⟩),
  .request (.submit ⟨⟨.succ 0⟩,.system,none,.empty,⟨2⟩,.clamp 8,[]⟩),
  .step ⟨1⟩ .empty,
  .step ⟨2⟩ .empty]

/-- The second removal of one component is credited again. -/
theorem budget_exceeded_by_second_removal :
    ¬ ∀ (calls : List Call) (id : InstanceId) (i : Instance),
      ((Kernel.machine standIn).run (.build zeroBlock none) calls).instances[id]? = some i →
        0 < i.config.memoryBudgetBytes → i.ledger.totalBytes ≤ i.config.memoryBudgetBytes := by
  intro h
  let calls := budgetCalls [.removeComponent ⟨.succ 0⟩ (.clamp 1) 50,
    .removeComponent ⟨.succ 0⟩ (.clamp 1) 50, .setComponent ⟨.succ 0⟩ (.clamp 3) [] 100]
  have hrun : (((Kernel.machine standIn).run (.build zeroBlock none) calls).instances[
      (⟨.succ 0⟩ : InstanceId)]?).map (fun i => (i.config.memoryBudgetBytes,i.ledger.totalBytes)) =
      some (100,150) := by decide +kernel
  obtain ⟨i,hi,he⟩ := Option.map_eq_some_iff.mp hrun
  obtain ⟨hB,hT⟩ := Prod.mk.inj he
  have hle := h calls ⟨.succ 0⟩ i hi (by omega)
  omega

/-- The removals of an item, counted for each component of the ledger before. -/
def Item.removesOnce : Item → Bool
  | .executed x => x.before.ledger.componentSizes.toList.all
      (fun p => x.ops.countP (Op.removes p.1) ≤ 1)
  | _ => true

theorem removesOnce_of_item (x : Execution) (h : Item.removesOnce (.executed x) = true) :
    x.RemovesOnce := by
  intro _ k hk
  cases hg : x.before.ledger.componentSizes[k]? with
  | none =>
    rw [amount_of_none hg] at hk
    exact absurd hk (Nat.lt_irrefl 0)
  | some v =>
    have hm := List.all_eq_true.mp h (k,v) ((mem_toList _ _ _).mpr hg)
    simpa using hm

theorem budget_respected_replaced : ∃ i : Instance, i.config.memoryBudgetBytes = 100 ∧
    i.ledger.totalBytes ≤ i.config.memoryBudgetBytes := by
  let calls := budgetCalls [.removeComponent ⟨.succ 0⟩ (.clamp 1) 50,
    .setComponent ⟨.succ 0⟩ (.clamp 3) [] 50]
  let tr := (Kernel.machine standIn).trace (.build zeroBlock none) calls
  have hall : tr.all Item.removesOnce = true := by decide +kernel
  have hrun : (((Kernel.machine standIn).run (.build zeroBlock none) calls).instances[
      (⟨.succ 0⟩ : InstanceId)]?).map (fun i => i.config.memoryBudgetBytes) = some 100 := by
    decide +kernel
  obtain ⟨i,hi,hB⟩ := Option.map_eq_some_iff.mp hrun
  exact ⟨i,hB,budget_respected standIn zeroBlock none calls
    (fun x hx _ => removesOnce_of_item x (List.all_eq_true.mp hall _ hx)) ⟨.succ 0⟩ i hi
    (by omega)⟩

end ArkheKernel
