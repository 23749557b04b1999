import ArkheKernel.Stage
import ArkheKernel.WalRecord

/-!
# One pop

The core of a step pops one due entry of one instance and runs it through the
gates into the staging scratch. An `Execution` collects what such a pop reads;
everything the core computes is a function of it, and the reused scratch is
not among its inputs.
-/

set_option autoImplicit false

namespace ArkheKernel
open OrderedMap PrefixCode

structure ActionContext where
  actor : Option EntityId
  now : Tick
  instanceId : InstanceId
  inst : Instance

/-- A decoded action, of which the kernel only uses `compute`. -/
abbrev ActionDyn := ActionContext → List Op

structure ActionRegistration where
  schemaVersion : ℕ
  deserializer : ℕ → Bytes → Option ActionDyn

abbrev ActionRegistry := BTreeMap TypeCode ActionRegistration

def ActionRegistration.constant (ops : List Op) : ActionRegistration :=
  ⟨1,fun _ _ => some (fun _ => ops)⟩

def decodeAction (registry : ActionRegistry) (entry : ScheduledEntry) :
    Except SkipReason ActionDyn :=
  match registry[entry.actionTypeCode]? with
  | none => .error .unregistered
  | some reg =>
    match reg.deserializer reg.schemaVersion entry.actionBytes with
    | none => .error .deserFailed
    | some action => .ok action

structure GateState where
  stage : StepStage
  nextScheduledId : ℕ
  anyDenied : Bool := false
  applied : ℕ := 0
  denied : ℕ := 0

/-- The byte projection with the current operation included. -/
def projectedWith (ledger : ResourceLedger) (staged : ℕ) : Op → ℕ
  | .setComponent _ _ _ size => satAdd64 staged size
  | .removeComponent entity typeCode _ => staged-(ledger.componentSize entity typeCode).getD 0
  | .spawnEntity .. | .despawnEntity .. | .emitEvent .. | .scheduleAction .. | .sendSignal .. => staged

def budgetExceeded (i : Instance) (stage : StepStage) (op : Op) : Bool :=
  0 < i.config.memoryBudgetBytes &&
    i.config.memoryBudgetBytes <
      projectedWith i.ledger (projectedComponentBytes i.ledger.totalBytes stage i.ledger) op

def entityQuotaExceeded (i : Instance) (stage : StepStage) : Op → Bool
  | .spawnEntity .. => 0 < i.config.maxEntities &&
      i.config.maxEntities ≤ satAdd64 i.entitiesLen stage.idCounters.nextEntityAdvance
  | _ => false

def scheduledQuotaExceeded (i : Instance) (stage : StepStage) : Op → Bool
  | .scheduleAction .. => 0 < i.config.maxScheduled &&
      i.config.maxScheduled ≤ satAdd64 i.scheduler.len stage.idCounters.nextScheduledAdvance
  | _ => false

def skipOp (i : Instance) (stage : StepStage) (op : Op) : Option Bytes :=
  if budgetExceeded i stage op then some (asciiBytes "budget_exceeded")
  else if entityQuotaExceeded i stage op then some (asciiBytes "entity_quota_exceeded")
  else if scheduledQuotaExceeded i stage op then some (asciiBytes "scheduled_quota_exceeded")
  else none

theorem skipOp_none {i : Instance} {stage : StepStage} {op : Op} (h : skipOp i stage op = none) :
    budgetExceeded i stage op = false ∧ entityQuotaExceeded i stage op = false ∧
      scheduledQuotaExceeded i stage op = false := by
  unfold skipOp at h
  split at h
  · cases h
  · next hb =>
    split at h
    · cases h
    · next he =>
      split at h
      · cases h
      · next hs => exact ⟨by simpa using hb,by simpa using he,by simpa using hs⟩

def gateOp (i : Instance) (instId : InstanceId) (principal : Principal) (eff : CapabilityMask)
    (now : Tick) (g : GateState) (op : Op) : GateState :=
  match authorize eff ⟨instId,principal,op⟩ with
  | .error _ => { g with denied := satAdd32 g.denied 1, anyDenied := true }
  | .ok authorized =>
    match skipOp i g.stage authorized.op with
    | some reason => { g with
        denied := satAdd32 g.denied 1
        stage := { g.stage with events := g.stage.events ++ [.effectFailed instId reason] } }
    | none => { g with
        stage := (dispatch authorized g.stage now g.nextScheduledId eff).1
        nextScheduledId := (dispatch authorized g.stage now g.nextScheduledId eff).2
        applied := satAdd32 g.applied 1 }

def gateLoop (i : Instance) (instId : InstanceId) (principal : Principal) (eff : CapabilityMask)
    (now : Tick) (scratch : StepStage) (ops : List Op) : GateState :=
  ops.foldl (gateOp i instId principal eff now)
    { stage := scratch.clear, nextScheduledId := i.idCounters.nextScheduled }

section Gates
variable (i : Instance) (instId : InstanceId) (principal : Principal) (eff : CapabilityMask) (now : Tick)

theorem gateOp_cases (g : GateState) (op : Op) :
    (∃ e, authorize eff ⟨instId,principal,op⟩ = .error e ∧
      gateOp i instId principal eff now g op =
        { g with denied := satAdd32 g.denied 1, anyDenied := true }) ∨
    (authorize eff ⟨instId,principal,op⟩ = .ok ⟨instId,principal,op⟩ ∧
      ∃ reason, skipOp i g.stage op = some reason ∧
        gateOp i instId principal eff now g op = { g with
          denied := satAdd32 g.denied 1
          stage := { g.stage with
            events := g.stage.events ++ [.effectFailed instId reason] } }) ∨
    (authorize eff ⟨instId,principal,op⟩ = .ok ⟨instId,principal,op⟩ ∧ skipOp i g.stage op = none ∧
      gateOp i instId principal eff now g op = { g with
        stage := (dispatch ⟨instId,principal,op⟩ g.stage now g.nextScheduledId eff).1
        nextScheduledId := (dispatch ⟨instId,principal,op⟩ g.stage now g.nextScheduledId eff).2
        applied := satAdd32 g.applied 1 }) := by
  unfold gateOp
  cases ha : authorize eff ⟨instId,principal,op⟩ with
  | error e => exact Or.inl ⟨e,rfl,rfl⟩
  | ok e =>
    obtain ⟨rfl,-⟩ := authorize_ok ha
    dsimp only
    cases hs : skipOp i g.stage op with
    | some reason => exact Or.inr (Or.inl ⟨rfl,reason,rfl,rfl⟩)
    | none => exact Or.inr (Or.inr ⟨rfl,rfl,rfl⟩)

/-- What every accepted operation preserves holds of the final stage. Skips only
add events, refusals leave the stage alone. -/
theorem gateLoop_invariant (Q : StepStage → ℕ → Prop) (scratch : StepStage) (ops : List Op)
    (hstart : Q {} i.idCounters.nextScheduled)
    (hevents : ∀ s n evs, Q s n → Q { s with events := evs } n)
    (hdispatch : ∀ s n op, op ∈ ops →
      authorize eff ⟨instId,principal,op⟩ = .ok ⟨instId,principal,op⟩ → skipOp i s op = none →
      Q s n → Q (dispatch ⟨instId,principal,op⟩ s now n eff).1
        (dispatch ⟨instId,principal,op⟩ s now n eff).2) :
    Q (gateLoop i instId principal eff now scratch ops).stage
      (gateLoop i instId principal eff now scratch ops).nextScheduledId := by
  have hfold : ∀ (os : List Op) (g : GateState), (∀ op ∈ os, op ∈ ops) →
      Q g.stage g.nextScheduledId →
      Q (os.foldl (gateOp i instId principal eff now) g).stage
        (os.foldl (gateOp i instId principal eff now) g).nextScheduledId := by
    intro os
    induction os with
    | nil => intro g hos hg; exact hg
    | cons op os ih =>
      intro g hos hg
      rw [List.foldl_cons]
      have hrest : ∀ o ∈ os, o ∈ ops := fun o ho => hos o (List.mem_cons_of_mem _ ho)
      apply ih _ hrest
      rcases gateOp_cases i instId principal eff now g op with ⟨e,-,he⟩ | ⟨-,r,-,he⟩ | ⟨ha,hs,he⟩
      · rw [he]
        exact hg
      · rw [he]
        exact hevents _ _ _ hg
      · rw [he]
        exact hdispatch _ _ op (hos op (by simp)) ha hs hg
  exact hfold ops _ (fun op h => h) hstart

end Gates

structure StepCore where
  poppedId : ScheduledActionId
  actionType : TypeCode
  verdict : StepVerdict
  digest : Block
  pendingSignals : List PendingSignal := []
  events : List KernelEvent := []
  effectsApplied : ℕ := 0
  effectsDenied : ℕ := 0
  domainEventsEmitted : ℕ := 0
  deriving DecidableEq

def stateDigest (c : Crypto) (i : Instance) : Block := c.hash (Instance.code.encode i)

def digestOf (c : Crypto) (measureDigest : Bool) (i : Instance) : Block :=
  if measureDigest then stateDigest c i else zeroBlock

/-- The popped entry is gone in every case; the result also carries the
instance and the scratch as they are left. -/
def stepOneCore (c : Crypto) (instId : InstanceId) (inst : Instance) (registry : ActionRegistry)
    (scratch : StepStage) (now : Tick) (sessionCaps : CapabilityMask) (measureDigest : Bool) :
    Option (StepCore × Instance × StepStage) :=
  match inst.scheduler.popDue now with
  | none => none
  | some (entry,rest) =>
    let inst := { inst with scheduler := rest }
    match decodeAction registry entry with
    | .error reason => some (
        { poppedId := entry.id, actionType := entry.actionTypeCode
          verdict := .skipped reason, digest := digestOf c measureDigest inst }, inst, scratch)
    | .ok action =>
      let eff := effectiveCaps inst.config.defaultCaps entry.principal entry.capsCeiling &&& sessionCaps
      let ops := action ⟨entry.actor,now,instId,inst⟩
      let g := gateLoop inst instId entry.principal eff now scratch ops
      if g.anyDenied then some (
        { poppedId := entry.id, actionType := entry.actionTypeCode
          verdict := .authDenied, digest := digestOf c measureDigest inst
          effectsDenied := g.denied }, inst, g.stage)
      else
        let applied := applyStage inst g.stage
        some (
          { poppedId := entry.id, actionType := entry.actionTypeCode
            verdict := if 0 < g.denied then .budgetPartial g.denied else .committed
            digest := digestOf c measureDigest applied.1
            pendingSignals := applied.2.2
            events := g.stage.events
            effectsApplied := g.applied
            effectsDenied := g.denied
            domainEventsEmitted := (g.stage.events.filter KernelEvent.isDomain).length },
          applied.1, applied.2.1)

structure Execution where
  instId : InstanceId
  before : Instance
  registry : ActionRegistry
  now : Tick
  sessionCaps : CapabilityMask
  entry : ScheduledEntry
  rest : Scheduler
  popped : before.scheduler.popDue now = some (entry,rest)

namespace Execution

def ofPop (instId : InstanceId) (inst : Instance) (registry : ActionRegistry) (now : Tick)
    (sessionCaps : CapabilityMask) : Option Execution :=
  match h : inst.scheduler.popDue now with
  | none => none
  | some (entry,rest) => some ⟨instId,inst,registry,now,sessionCaps,entry,rest,h⟩

variable (x : Execution)

def start : Instance := { x.before with scheduler := x.rest }

def action : Except SkipReason ActionDyn := decodeAction x.registry x.entry

def caps : CapabilityMask :=
  effectiveCaps x.before.config.defaultCaps x.entry.principal x.entry.capsCeiling &&& x.sessionCaps

def ops : List Op :=
  match x.action with
  | .error _ => []
  | .ok action => action ⟨x.entry.actor,x.now,x.instId,x.start⟩

def gate : GateState := gateLoop x.start x.instId x.entry.principal x.caps x.now {} x.ops

def commits : Bool :=
  match x.action with
  | .error _ => false
  | .ok _ => !x.gate.anyDenied

def verdict : StepVerdict :=
  match x.action with
  | .error reason => .skipped reason
  | .ok _ =>
    if x.gate.anyDenied then .authDenied
    else if 0 < x.gate.denied then .budgetPartial x.gate.denied else .committed

def stage : StepStage := if x.commits then x.gate.stage else {}

def after : Instance := if x.commits then (applyStage x.start x.gate.stage).1 else x.start

def core (c : Crypto) (measureDigest : Bool) : StepCore where
  poppedId := x.entry.id
  actionType := x.entry.actionTypeCode
  verdict := x.verdict
  digest := digestOf c measureDigest x.after
  pendingSignals := x.stage.pendingSignals
  events := x.stage.events
  effectsApplied := if x.commits then x.gate.applied else 0
  effectsDenied := x.gate.denied
  domainEventsEmitted := (x.stage.events.filter KernelEvent.isDomain).length

end Execution

theorem stepOneCore_none (c : Crypto) (instId : InstanceId) {inst : Instance}
    (registry : ActionRegistry) (scratch : StepStage) {now : Tick} (sessionCaps : CapabilityMask)
    (measureDigest : Bool) (h : inst.scheduler.popDue now = none) :
    stepOneCore c instId inst registry scratch now sessionCaps measureDigest = none := by
  unfold stepOneCore
  rw [h]

/-- The core computes the functions of its execution, whatever the scratch held. -/
theorem stepOneCore_some (c : Crypto) (x : Execution) (scratch : StepStage) (measureDigest : Bool) :
    ∃ scratch', stepOneCore c x.instId x.before x.registry scratch x.now x.sessionCaps
      measureDigest = some (x.core c measureDigest,x.after,scratch') := by
  unfold stepOneCore
  rw [x.popped]
  dsimp only
  cases ha : x.action with
  | error reason =>
    have hc : x.commits = false := by simp [Execution.commits,ha]
    have hd : x.gate.denied = 0 := by simp [Execution.gate,Execution.ops,ha,gateLoop]
    have hd' : decodeAction x.registry x.entry = .error reason := ha
    rw [hd']
    exact ⟨scratch,by simp [Execution.core,Execution.after,Execution.stage,Execution.verdict,
      Execution.start,hc,hd,ha]⟩
  | ok action =>
    have hd' : decodeAction x.registry x.entry = .ok action := ha
    rw [hd']
    dsimp only
    have hg : gateLoop { x.before with scheduler := x.rest } x.instId x.entry.principal
        (effectiveCaps x.before.config.defaultCaps x.entry.principal x.entry.capsCeiling &&&
          x.sessionCaps) x.now scratch
        (action ⟨x.entry.actor,x.now,x.instId,{ x.before with scheduler := x.rest }⟩) = x.gate := by
      simp only [Execution.gate,Execution.ops,ha]
      rfl
    rw [hg]
    by_cases hn : x.gate.anyDenied
    · have hc : x.commits = false := by simp [Execution.commits,ha,hn]
      rw [if_pos hn]
      exact ⟨x.gate.stage,by simp [Execution.core,Execution.after,Execution.stage,
        Execution.verdict,Execution.start,hc,ha,hn]⟩
    · have hc : x.commits = true := by simp [Execution.commits,ha,hn]
      rw [if_neg hn]
      exact ⟨(applyStage x.start x.gate.stage).2.1,by
        simp [Execution.core,Execution.after,Execution.stage,Execution.verdict,hc,ha,hn,
          Execution.start,applyStage]⟩

end ArkheKernel
