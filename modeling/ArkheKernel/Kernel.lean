import ArkheKernel.StepCore
import ArkheKernel.Wal

/-!
# Kernel

The orchestrator owns all instances, the action registry, the observers, one
staging scratch and possibly a log writer. A step walks the instances in
ascending order and, for each, pops one entry, delivers its events, routes its
signals and records the outcome.
-/

set_option autoImplicit false

namespace ArkheKernel
open OrderedMap PrefixCode

structure Submission where
  inst : InstanceId
  principal : Principal
  actor : Option EntityId
  caps : CapabilityMask
  atTick : Tick
  actionTypeCode : TypeCode
  actionBytes : Bytes
  deriving DecidableEq

def Submission.entry (s : Submission) (id : ScheduledActionId) : ScheduledEntry where
  id
  atTick := s.atTick
  actor := s.actor
  principal := s.principal
  actionTypeCode := s.actionTypeCode
  actionBytes := s.actionBytes
  capsCeiling := s.caps

structure StepReport where
  actionsExecuted : ℕ := 0
  effectsApplied : ℕ := 0
  effectsDenied : ℕ := 0
  observersEvicted : ℕ := 0
  domainEventsEmitted : ℕ := 0
  deriving DecidableEq, Repr

structure InstanceStepResult where
  poppedId : ScheduledActionId
  verdict : StepVerdict
  digest : Block
  effectsApplied : ℕ
  effectsDenied : ℕ
  domainEventsEmitted : ℕ
  observersEvicted : ℕ
  deriving DecidableEq

structure Kernel where
  instances : BTreeMap InstanceId Instance
  actionRegistry : ActionRegistry
  observers : ObserverRegistry
  nextInstanceId : ℕ
  manifestDigest : Block
  wal : Option WalWriter
  stepScratch : StepStage

def Instance.accept (i : Instance) (source : InstanceId) (sig : PendingSignal) : Instance :=
  (i.deliverSignal sig.route
    { source, principal := sig.principal, payload := sig.payload, seq := 0 }).creditRef sig.route

def Instance.inboxFull (i : Instance) (route : RouteId) : Bool :=
  0 < i.config.maxInboxPerRoute && i.config.maxInboxPerRoute ≤ i.inboxLen route

def routeOne (source : InstanceId) (m : BTreeMap InstanceId Instance) (sig : PendingSignal) :
    BTreeMap InstanceId Instance × KernelEvent :=
  match m[sig.target]? with
  | some target =>
    if target.inboxFull sig.route then (m,.signalDropped sig.target sig.route .queueFull)
    else (m.insert sig.target (target.accept source sig),
      .signalDelivered source sig.target sig.route)
  | none => (m,.signalDropped sig.target sig.route .targetNotFound)

def notify (acc : ObserverRegistry × ℕ) (event : KernelEvent) : ObserverRegistry × ℕ :=
  let r := acc.1.deliver event
  (r.2,satAdd32 acc.2 (r.1.length%2^32))

def routeSignal (source : InstanceId) (acc : BTreeMap InstanceId Instance × ObserverRegistry × ℕ)
    (sig : PendingSignal) : BTreeMap InstanceId Instance × ObserverRegistry × ℕ :=
  ((routeOne source acc.1 sig).1,notify acc.2 (routeOne source acc.1 sig).2)

def Instance.submit (i : Instance) (s : Submission) : ScheduledActionId × Instance :=
  let id : ScheduledActionId := ⟨NonZeroU64.succ i.idCounters.nextScheduled⟩
  (id, { i with
    idCounters := { i.idCounters with nextScheduled := satAdd64 i.idCounters.nextScheduled 1 }
    scheduler := i.scheduler.scheduleWithId (s.entry id) })

def Instance.submitWithId (i : Instance) (s : Submission) (id : ScheduledActionId) : Instance :=
  { i with
    idCounters := { i.idCounters with
      nextScheduled := if i.idCounters.nextScheduled < id.get then id.get
        else i.idCounters.nextScheduled }
    scheduler := i.scheduler.scheduleWithId (s.entry id) }

def Instance.schedulerFull (i : Instance) : Bool :=
  0 < i.config.maxScheduled && i.config.maxScheduled ≤ i.scheduler.len

namespace Kernel

def build (manifestDigest : Block) (wal : Option WalWriter) : Kernel where
  instances := ∅
  actionRegistry := ∅
  observers := .new
  nextInstanceId := 0
  manifestDigest
  wal
  stepScratch := {}

def new : Kernel := build zeroBlock none

def newWithWal (c : Crypto) (worldId manifestDigest : Block) : Kernel :=
  build manifestDigest (some (WalWriter.new c worldId manifestDigest))

def newWithWalSigned (c : Crypto) (worldId manifestDigest : Block) (sigClass : SignatureClass) :
    Kernel :=
  build manifestDigest (some (WalWriter.withSignature c worldId manifestDigest sigClass))

def exportWal (k : Kernel) : Option Wal := k.wal.map Wal.fromWriter

def registerAction (k : Kernel) (typeCode : TypeCode) (reg : ActionRegistration) : Kernel :=
  { k with actionRegistry := k.actionRegistry.insert typeCode reg }

def registerObserverFiltered (k : Kernel) (obs : KernelObserver) (mask : EventMask) :
    ObserverHandle × Kernel :=
  ((k.observers.registerFiltered obs mask).1,
    { k with observers := (k.observers.registerFiltered obs mask).2 })

def createInstance (k : Kernel) (config : InstanceConfig) : InstanceId × Kernel :=
  let id : InstanceId := ⟨NonZeroU64.succ k.nextInstanceId⟩
  (id, { k with
    nextInstanceId := satAdd64 k.nextInstanceId 1
    instances := k.instances.insert id (.new id config) })

def liveRefs (route : RouteId) (total : ℕ) (p : InstanceId × Instance) : ℕ :=
  match p.2.inflightRefs[route]? with
  | some refs => satAdd32 total refs
  | none => total

def forceUnload (k : Kernel) (route : RouteId) (caps : CapabilityMask) :
    Except ArkheError ℕ × Kernel :=
  if !caps.contains .ADMIN_UNLOAD then (.error .capabilityDenied,k)
  else
    let total := k.instances.toList.foldl (liveRefs route) 0
    (.ok total, { k with
      instances := k.instances.map
        (fun _ i => { i with inflightRefs := i.inflightRefs.erase route })
      observers := (k.observers.deliver (.moduleForceUnloaded route total)).2 })

def submit (c : Crypto) (k : Kernel) (s : Submission) :
    Except ArkheError ScheduledActionId × Kernel :=
  match k.instances[s.inst]? with
  | none => (.error .instanceNotFound,k)
  | some inst =>
    if inst.schedulerFull then (.error .quotaExceeded,k)
    else
      (.ok (inst.submit s).1, { k with
        instances := k.instances.insert s.inst (inst.submit s).2
        wal := k.wal.map (fun w => w.appendSubmit c s.inst s.principal s.actor s.caps.bits s.atTick
          s.actionTypeCode s.actionBytes (inst.submit s).1) })

/-- Replay-side admission. Nothing is logged and the quota is not asked again. -/
def submitWithId (k : Kernel) (s : Submission) (id : ScheduledActionId) :
    Except ArkheError Kernel :=
  match k.instances[s.inst]? with
  | none => .error .instanceNotFound
  | some inst => .ok { k with instances := k.instances.insert s.inst (inst.submitWithId s id) }

def executedEvents (instId : InstanceId) (actionType : TypeCode) (now : Tick)
    (verdict : StepVerdict) : List KernelEvent :=
  match verdict with
  | .committed | .budgetPartial _ => [.actionExecuted instId actionType now]
  | .authDenied | .skipped _ => []

/-- One due action of one instance, from the pop to the routing of its signals. -/
def processInstanceRecord (c : Crypto) (k : Kernel) (instId : InstanceId) (now : Tick)
    (sessionCaps : CapabilityMask) (measureDigest : Bool) : Option (InstanceStepResult × Kernel) :=
  match k.instances[instId]? with
  | none => none
  | some inst =>
    match stepOneCore c instId inst k.actionRegistry k.stepScratch now sessionCaps measureDigest with
    | none => none
    | some (core,inst,scratch) =>
      let notified := (core.events ++ executedEvents instId core.actionType now core.verdict).foldl
        notify (k.observers,0)
      let routed := core.pendingSignals.foldl (routeSignal instId)
        (k.instances.insert instId inst,notified)
      some (
        { poppedId := core.poppedId
          verdict := core.verdict
          digest := core.digest
          effectsApplied := core.effectsApplied
          effectsDenied := core.effectsDenied
          domainEventsEmitted := core.domainEventsEmitted
          observersEvicted := routed.2.2 },
        { k with instances := routed.1, observers := routed.2.1, stepScratch := scratch })

def appendRecord (c : Crypto) (k : Kernel) (instId : InstanceId) (now : Tick)
    (caps : CapabilityMask) (result : InstanceStepResult) : Kernel :=
  { k with wal := k.wal.map (fun w => w.appendStep c instId result.poppedId now caps.bits
      result.verdict result.digest) }

def stepInstance (c : Crypto) (now : Tick) (caps : CapabilityMask) (measureDigest : Bool)
    (acc : StepReport × Kernel) (instId : InstanceId) : StepReport × Kernel :=
  match acc.2.processInstanceRecord c instId now caps measureDigest with
  | none => acc
  | some (result,k) =>
    ({ actionsExecuted := satAdd32 acc.1.actionsExecuted 1
       effectsApplied := satAdd32 acc.1.effectsApplied result.effectsApplied
       effectsDenied := satAdd32 acc.1.effectsDenied result.effectsDenied
       domainEventsEmitted := satAdd32 acc.1.domainEventsEmitted result.domainEventsEmitted
       observersEvicted := satAdd32 acc.1.observersEvicted result.observersEvicted },
      k.appendRecord c instId now caps result)

def step (c : Crypto) (k : Kernel) (now : Tick) (caps : CapabilityMask) : StepReport × Kernel :=
  k.instances.keys.foldl (stepInstance c now caps k.wal.isSome) ({},k)

end Kernel
end ArkheKernel
