import ArkheKernel.Instance
import ArkheKernel.Authz
import ArkheKernel.Events

/-!
# Staging and commit

Everything an action does is buffered in nine buckets and reaches the instance
only when the whole stage is applied. Dispatch fills the buckets, one operation
at a time; applying drains five of them in a fixed order.
-/

set_option autoImplicit false

namespace ArkheKernel
open OrderedMap PrefixCode

inductive StagedStateDelta where
  | spawnEntity (id : EntityId) (entityMeta : EntityMeta)
  | despawnEntity (id : EntityId)
  | setComponent (entity : EntityId) (typeCode : TypeCode) (bytes : Bytes) (size : ℕ)
  | removeComponent (entity : EntityId) (typeCode : TypeCode) (size : ℕ)
  deriving DecidableEq

inductive ScheduledEntryDelta where
  | add (entry : ScheduledEntry)
  | remove (id : ScheduledActionId)
  deriving DecidableEq

structure PendingSignal where
  target : InstanceId
  route : RouteId
  payload : Bytes
  principal : Principal
  deriving DecidableEq

structure IdCountersDelta where
  nextEntityAdvance : ℕ := 0
  nextScheduledAdvance : ℕ := 0
  nextSourceSeqAdvance : ℕ := 0
  deriving DecidableEq, Repr

inductive LedgerOp where
  | addEntity (id : EntityId)
  | removeEntity (id : EntityId)
  | addComponent (entity : EntityId) (typeCode : TypeCode) (size : ℕ)
  | removeComponent (entity : EntityId) (typeCode : TypeCode) (size : ℕ)
  deriving DecidableEq

structure StepStage where
  stateOps : List StagedStateDelta := []
  events : List KernelEvent := []
  scheduleDeltas : List ScheduledEntryDelta := []
  pendingSignals : List PendingSignal := []
  idCounters : IdCountersDelta := {}
  ledgerOps : List LedgerOp := []
  wallRemainderDelta : ℕ := 0
  localTickDelta : ℕ := 0
  observerEvictionPending : List ObserverHandle := []
  deriving DecidableEq

def StepStage.clear (s : StepStage) : StepStage :=
  { s with
    stateOps := []
    events := []
    scheduleDeltas := []
    pendingSignals := []
    idCounters := {}
    ledgerOps := []
    wallRemainderDelta := 0
    localTickDelta := 0
    observerEvictionPending := [] }

/-- Clearing forgets every bucket, so a reused stage cannot leak. -/
theorem StepStage.clear_eq (s : StepStage) : s.clear = {} := rfl

/-- Translation of one authorized effect into staged deltas. The second
component of the result is the advanced id allocator. -/
def dispatch (effect : Effect) (stage : StepStage) (now : Tick) (nextScheduledId : ℕ)
    (parentCaps : CapabilityMask) : StepStage × ℕ :=
  match effect.op with
  | .spawnEntity id owner =>
    ({ stage with
      stateOps := stage.stateOps ++ [.spawnEntity id ⟨owner,now⟩]
      ledgerOps := stage.ledgerOps ++ [.addEntity id]
      idCounters := { stage.idCounters with
        nextEntityAdvance := satAdd64 stage.idCounters.nextEntityAdvance 1 } }, nextScheduledId)
  | .despawnEntity id =>
    ({ stage with
      stateOps := stage.stateOps ++ [.despawnEntity id]
      ledgerOps := stage.ledgerOps ++ [.removeEntity id] }, nextScheduledId)
  | .setComponent entity typeCode bytes size =>
    ({ stage with
      stateOps := stage.stateOps ++ [.setComponent entity typeCode bytes size]
      ledgerOps := stage.ledgerOps ++ [.addComponent entity typeCode size] }, nextScheduledId)
  | .removeComponent entity typeCode size =>
    ({ stage with
      stateOps := stage.stateOps ++ [.removeComponent entity typeCode size]
      ledgerOps := stage.ledgerOps ++ [.removeComponent entity typeCode size] }, nextScheduledId)
  | .emitEvent actor eventTypeCode eventBytes =>
    ({ stage with
      events := stage.events ++
        [.domainEventEmitted effect.instanceId actor eventTypeCode eventBytes] }, nextScheduledId)
  | .scheduleAction atTick actor actionTypeCode actionBytes =>
    ({ stage with
      scheduleDeltas := stage.scheduleDeltas ++ [.add
        { id := ⟨NonZeroU64.succ nextScheduledId⟩
          atTick, actor
          principal := effect.principal
          actionTypeCode, actionBytes
          capsCeiling := parentCaps }]
      idCounters := { stage.idCounters with
        nextScheduledAdvance := satAdd64 stage.idCounters.nextScheduledAdvance 1 } },
      satAdd64 nextScheduledId 1)
  | .sendSignal target route payload =>
    ({ stage with
      pendingSignals := stage.pendingSignals ++ [⟨target,route,payload,effect.principal⟩] },
      nextScheduledId)

def projectStep (ledger : ResourceLedger) (total : ℕ) : LedgerOp → ℕ
  | .addComponent _ _ size => satAdd64 total size
  | .removeComponent entity typeCode _ => total-(ledger.componentSize entity typeCode).getD 0
  | .addEntity _ | .removeEntity _ => total

def projectedComponentBytes (baseline : ℕ) (stage : StepStage) (ledger : ResourceLedger) : ℕ :=
  stage.ledgerOps.foldl (projectStep ledger) baseline

def applyStateOp (i : Instance) : StagedStateDelta → Instance
  | .spawnEntity id m => i.insertEntity id m
  | .despawnEntity id => i.removeEntity id
  | .setComponent entity typeCode bytes _ =>
    if (i.entities[entity]?).isSome then i.insertComponent ⟨entity,typeCode⟩ bytes else i
  | .removeComponent entity typeCode _ => i.removeComponent ⟨entity,typeCode⟩

def applyLedgerOp (l : ResourceLedger) : LedgerOp → ResourceLedger
  | .addEntity id => (l.addEntity id).2
  | .removeEntity id => (l.removeEntity id).2
  | .addComponent entity typeCode size => (l.addComponent entity typeCode size).2
  | .removeComponent entity typeCode size => (l.removeComponent entity typeCode size).2

def applyScheduleDelta (s : Scheduler) : ScheduledEntryDelta → Scheduler
  | .add entry => s.scheduleWithId entry
  | .remove id => (s.cancel id).2

def advanceIdCounters (c : IdCounters) (d : IdCountersDelta) : IdCounters where
  nextEntity := satAdd64 c.nextEntity d.nextEntityAdvance
  nextScheduled := satAdd64 c.nextScheduled d.nextScheduledAdvance
  nextSourceSeq := satAdd64 c.nextSourceSeq d.nextSourceSeqAdvance

def applyStage (i : Instance) (stage : StepStage) : Instance × StepStage × List PendingSignal :=
  let i := { i with idCounters := advanceIdCounters i.idCounters stage.idCounters }
  let i := stage.stateOps.foldl applyStateOp i
  let i := { i with ledger := stage.ledgerOps.foldl applyLedgerOp i.ledger }
  let i := { i with scheduler := stage.scheduleDeltas.foldl applyScheduleDelta i.scheduler }
  let i := { i with
    wallRemainder := satAdd128 i.wallRemainder stage.wallRemainderDelta
    localTick := satAdd64 i.localTick stage.localTickDelta }
  (i, { stage with stateOps := [], ledgerOps := [], scheduleDeltas := [], pendingSignals := [] },
    stage.pendingSignals)

theorem applyStateOp_frame (i : Instance) (d : StagedStateDelta) :
    ∃ es cs, applyStateOp i d = { i with entities := es, components := cs } := by
  cases d with
  | setComponent entity typeCode bytes size =>
    by_cases h : (i.entities[entity]?).isSome
    · exact ⟨_,_,if_pos h⟩
    · exact ⟨_,_,if_neg h⟩
  | _ => exact ⟨_,_,rfl⟩

theorem applyStateOps_frame (i : Instance) (ds : List StagedStateDelta) :
    ∃ es cs, ds.foldl applyStateOp i = { i with entities := es, components := cs } := by
  induction ds generalizing i with
  | nil => exact ⟨_,_,rfl⟩
  | cons d ds ih =>
    obtain ⟨es,cs,hd⟩ := applyStateOp_frame i d
    obtain ⟨es',cs',hds⟩ := ih (applyStateOp i d)
    exact ⟨es',cs',by rw [List.foldl_cons,hds,hd]⟩

theorem applyStateOp_congr {i j : Instance} (he : i.entities = j.entities)
    (hc : i.components = j.components) (d : StagedStateDelta) :
    (applyStateOp i d).entities = (applyStateOp j d).entities ∧
      (applyStateOp i d).components = (applyStateOp j d).components := by
  cases d with
  | setComponent entity typeCode bytes size =>
    simp only [applyStateOp,he]
    split
    · exact ⟨he,by simp only [Instance.insertComponent,hc]⟩
    · exact ⟨he,hc⟩
  | _ => simp only [applyStateOp,Instance.insertEntity,Instance.removeEntity,
      Instance.removeComponent,he,hc,and_self]

theorem applyStateOps_congr (ds : List StagedStateDelta) {i j : Instance}
    (he : i.entities = j.entities) (hc : i.components = j.components) :
    (ds.foldl applyStateOp i).entities = (ds.foldl applyStateOp j).entities ∧
      (ds.foldl applyStateOp i).components = (ds.foldl applyStateOp j).components := by
  induction ds generalizing i j with
  | nil => exact ⟨he,hc⟩
  | cons d ds ih =>
    have hd := applyStateOp_congr he hc d
    exact ih hd.1 hd.2

theorem applyStage_maps (i : Instance) (stage : StepStage) :
    (applyStage i stage).1.entities = (stage.stateOps.foldl applyStateOp i).entities ∧
      (applyStage i stage).1.components = (stage.stateOps.foldl applyStateOp i).components :=
  applyStateOps_congr stage.stateOps rfl rfl

/-- What a commit does to every field it does not reach through the entity and
component maps. -/
theorem applyStage_frame (i : Instance) (stage : StepStage) :
    ∃ es cs, (applyStage i stage).1 = { i with
      entities := es
      components := cs
      idCounters := advanceIdCounters i.idCounters stage.idCounters
      ledger := stage.ledgerOps.foldl applyLedgerOp i.ledger
      scheduler := stage.scheduleDeltas.foldl applyScheduleDelta i.scheduler
      wallRemainder := satAdd128 i.wallRemainder stage.wallRemainderDelta
      localTick := satAdd64 i.localTick stage.localTickDelta } := by
  obtain ⟨es,cs,h⟩ := applyStateOps_frame
    { i with idCounters := advanceIdCounters i.idCounters stage.idCounters } stage.stateOps
  exact ⟨es,cs,by simp only [applyStage,h]⟩

end ArkheKernel
