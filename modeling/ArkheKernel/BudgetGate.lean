import ArkheKernel.Budget

/-!
# What the budget gate blocks

The gate compares the whole projected total with the budget, whatever the
operation. As long as the committed total is within the budget, so is every
projection, and an operation that adds no bytes passes. Above the budget it
blocks what would free bytes as well.
-/

set_option autoImplicit false

namespace ArkheKernel
open OrderedMap

def Op.setsComponent : Op → Bool
  | .setComponent .. => true
  | _ => false

def Op.frees : Op → Bool
  | .despawnEntity _ | .removeComponent .. => true
  | _ => false

def Execution.gateAfter (x : Execution) (ops : List Op) : GateState :=
  gateLoop x.start x.instId x.entry.principal x.caps x.now {} ops

section Gate
variable {i : Instance} {stage : StepStage} {op : Op}

theorem projectedWith_le (l : ResourceLedger) (staged : ℕ) (h : op.setsComponent = false) :
    projectedWith l staged op ≤ staged := by
  cases op with
  | setComponent entity typeCode bytes size => cases h
  | removeComponent entity typeCode size => exact Nat.sub_le _ _
  | _ => exact le_refl _

theorem budget_passes (h : op.setsComponent = false)
    (hs : projectedComponentBytes i.ledger.totalBytes stage i.ledger ≤
      i.config.memoryBudgetBytes) : budgetExceeded i stage op = false := by
  have hle := (projectedWith_le i.ledger _ h).trans hs
  unfold budgetExceeded
  rw [decide_eq_false (not_lt.mpr hle),Bool.and_false]

theorem skipOp_budget (h : budgetExceeded i stage op = false) :
    skipOp i stage op ≠ some (asciiBytes "budget_exceeded") := by
  unfold skipOp
  rw [h,if_neg Bool.false_ne_true]
  split
  · decide
  · split
    · decide
    · decide

theorem skipOp_frees (hb : budgetExceeded i stage op = false) (h : op.frees = true) :
    skipOp i stage op = none := by
  unfold skipOp
  rw [hb]
  cases op <;> first | rfl | cases h

theorem dispatch_projection (l : ResourceLedger) (baseline : ℕ) (e : Effect) (s : StepStage)
    (now : Tick) (n : ℕ) (caps : CapabilityMask) :
    projectedComponentBytes baseline (dispatch e s now n caps).1 l =
      projectedWith l (projectedComponentBytes baseline s l) e.op := by
  rw [projectedComponentBytes,dispatch_ledgerOps,List.foldl_append]
  cases ho : e.op.ledgerOp with
  | none =>
    cases hop : e.op <;> first | rfl | (rw [hop] at ho; cases ho)
  | some o =>
    rw [projectedWith_eq _ _ ho]
    rfl

end Gate

theorem Execution.projection_within (x : Execution)
    (hB : 0 < x.before.config.memoryBudgetBytes)
    (h : x.before.ledger.totalBytes ≤ x.before.config.memoryBudgetBytes) (ops : List Op) :
    projectedComponentBytes x.before.ledger.totalBytes (x.gateAfter ops).stage x.before.ledger ≤
      x.before.config.memoryBudgetBytes := by
  apply gateLoop_invariant x.start x.instId x.entry.principal x.caps x.now
    (fun s _ => projectedComponentBytes x.before.ledger.totalBytes s x.before.ledger ≤
      x.before.config.memoryBudgetBytes) {} ops
  · exact h
  · exact fun _ _ _ hs => hs
  · intro s n op _ _ hskip _
    rw [dispatch_projection]
    have hn := (skipOp_none hskip).1
    unfold budgetExceeded at hn
    rw [decide_eq_true (show 0 < x.start.config.memoryBudgetBytes from hB),Bool.true_and] at hn
    exact not_lt.mp (of_decide_eq_false hn)

/-- In a run in which no action of a budgeted instance has removed a nonempty
committed component twice, no action, at no point of it, meets the gate with an
operation that sets no component and is blocked; what frees memory is not
skipped at all. -/
theorem budget_gate_blocks_growth_only (c : Crypto) (manifest : Block) (wal : Option WalWriter)
    (calls : List Call) (past future : List Item) (x : Execution)
    (ht : (Kernel.machine c).trace (Kernel.build manifest wal) calls =
      past ++ .executed x :: future)
    (hpast : ∀ y, .executed y ∈ past → 0 < y.before.config.memoryBudgetBytes → y.RemovesOnce)
    (hB : 0 < x.before.config.memoryBudgetBytes) (ops : List Op) (op : Op)
    (hop : op.setsComponent = false) :
    skipOp x.start (x.gateAfter ops).stage op ≠ some (asciiBytes "budget_exceeded") ∧
      (op.frees = true → skipOp x.start (x.gateAfter ops).stage op = none) := by
  have hbefore : x.before.Budgeted := budgeted_preserved.popped c manifest wal calls ht hpast
  have hle := x.projection_within hB (hbefore.total_le hB) ops
  have hpass : budgetExceeded x.start (x.gateAfter ops).stage op = false := budget_passes hop hle
  exact ⟨skipOp_budget hpass,skipOp_frees hpass⟩

def despawnCalls (ops : List Op) : List Call := budgetCalls ops ++ [
  .request (.registerAction (.clamp 9) (.constant [.despawnEntity ⟨.succ 0⟩])),
  .request (.submit ⟨⟨.succ 0⟩,.system,none,.empty,⟨3⟩,.clamp 9,[]⟩),
  .step ⟨3⟩ .empty]

/-- The item executes an action of a budgeted instance that starts by despawning. -/
def Item.despawns : Item → Bool
  | .executed x => 0 < x.before.config.memoryBudgetBytes &&
      x.ops.head? = some (.despawnEntity ⟨.succ 0⟩)
  | _ => false

theorem budget_gate_blocks_growth_only_replaced : ∃ x : Execution,
    x.ops.head? = some (.despawnEntity ⟨.succ 0⟩) ∧
      skipOp x.start (x.gateAfter []).stage (.despawnEntity ⟨.succ 0⟩) = none := by
  let calls := despawnCalls [.removeComponent ⟨.succ 0⟩ (.clamp 1) 50,
    .setComponent ⟨.succ 0⟩ (.clamp 3) [] 50]
  let tr := (Kernel.machine standIn).trace (.build zeroBlock none) calls
  have hall : tr.all Item.removesOnce = true := by decide +kernel
  have hany : tr.any Item.despawns = true := by decide +kernel
  obtain ⟨item,hm,hd⟩ := List.any_eq_true.mp hany
  obtain ⟨past,future,ht⟩ := List.append_of_mem hm
  cases item with
  | executed x =>
    obtain ⟨hB,hops⟩ : 0 < x.before.config.memoryBudgetBytes ∧
        x.ops.head? = some (.despawnEntity ⟨.succ 0⟩) := by simpa [Item.despawns] using hd
    have hpast : ∀ y, .executed y ∈ past → 0 < y.before.config.memoryBudgetBytes →
        y.RemovesOnce := by
      intro y hy _
      apply removesOnce_of_item y (List.all_eq_true.mp hall _ _)
      rw [ht]
      exact List.mem_append_left _ hy
    exact ⟨x,hops,(budget_gate_blocks_growth_only standIn zeroBlock none calls past future x ht
      hpast hB [] (.despawnEntity ⟨.succ 0⟩) rfl).2 rfl⟩
  | _ => cases hd

/-- The item executes such an action, and its despawn is skipped for the budget. -/
def Item.locked : Item → Bool
  | .executed x => 0 < x.before.config.memoryBudgetBytes &&
      x.ops.head? = some (.despawnEntity ⟨.succ 0⟩) &&
      skipOp x.start (x.gateAfter []).stage (.despawnEntity ⟨.succ 0⟩) =
        some (asciiBytes "budget_exceeded")
  | _ => false

/-- A second removal of one component lets the total past the budget, and from
then on not even a despawn passes the gate. -/
theorem budget_gate_locks_out :
    ¬ ∀ (calls : List Call) (past future : List Item) (x : Execution),
      (Kernel.machine standIn).trace (.build zeroBlock none) calls =
        past ++ .executed x :: future →
      0 < x.before.config.memoryBudgetBytes → ∀ pre op post, x.ops = pre ++ op :: post →
        op.setsComponent = false →
        skipOp x.start (x.gateAfter pre).stage op ≠ some (asciiBytes "budget_exceeded") := by
  intro h
  let calls := despawnCalls [.removeComponent ⟨.succ 0⟩ (.clamp 1) 50,
    .removeComponent ⟨.succ 0⟩ (.clamp 1) 50, .setComponent ⟨.succ 0⟩ (.clamp 3) [] 100]
  have hany : ((Kernel.machine standIn).trace (.build zeroBlock none) calls).any Item.locked =
      true := by decide +kernel
  obtain ⟨item,hm,hl⟩ := List.any_eq_true.mp hany
  obtain ⟨past,future,ht⟩ := List.append_of_mem hm
  cases item with
  | executed x =>
    obtain ⟨⟨hB,hops⟩,hskip⟩ : (0 < x.before.config.memoryBudgetBytes ∧
        x.ops.head? = some (.despawnEntity ⟨.succ 0⟩)) ∧
          skipOp x.start (x.gateAfter []).stage (.despawnEntity ⟨.succ 0⟩) =
            some (asciiBytes "budget_exceeded") := by simpa [Item.locked] using hl
    obtain ⟨post,hp⟩ := List.head?_eq_some_iff.mp hops
    exact h calls past future x ht hB [] _ post hp rfl hskip
  | _ => cases hl

end ArkheKernel
