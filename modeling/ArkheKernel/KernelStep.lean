import ArkheKernel.Kernel

/-!
# What a kernel operation does

Each operation is described once: routing instance by instance, a pop through
its execution. Later arguments use these descriptions and never the
definitions of the operations.
-/

set_option autoImplicit false

namespace ArkheKernel
open OrderedMap PrefixCode

def Instance.receive (i : Instance) (source id : InstanceId) (sig : PendingSignal) : Instance :=
  if sig.target = id ∧ i.inboxFull sig.route = false then i.accept source sig else i

def Instance.receiveAll (i : Instance) (source id : InstanceId) (sigs : List PendingSignal) :
    Instance := sigs.foldl (fun i sig => i.receive source id sig) i

def routeAll (source : InstanceId) (m : BTreeMap InstanceId Instance) (sigs : List PendingSignal) :
    BTreeMap InstanceId Instance := sigs.foldl (fun m sig => (routeOne source m sig).1) m

def routeEvents (source : InstanceId) : BTreeMap InstanceId Instance → List PendingSignal →
    List KernelEvent
  | _, [] => []
  | m, sig::sigs => (routeOne source m sig).2 :: routeEvents source (routeOne source m sig).1 sigs

theorem Instance.receive_frame (i : Instance) (source id : InstanceId) (sig : PendingSignal) :
    ∃ refs inbox seq, i.receive source id sig =
      { i with inflightRefs := refs, signalInbox := inbox, inboxSeq := seq } := by
  unfold Instance.receive
  split
  · exact ⟨_,_,_,rfl⟩
  · exact ⟨_,_,_,rfl⟩

theorem Instance.receiveAll_frame (i : Instance) (source id : InstanceId)
    (sigs : List PendingSignal) : ∃ refs inbox seq, i.receiveAll source id sigs =
      { i with inflightRefs := refs, signalInbox := inbox, inboxSeq := seq } := by
  induction sigs generalizing i with
  | nil => exact ⟨_,_,_,rfl⟩
  | cons sig sigs ih =>
    obtain ⟨_,_,_,hs⟩ := i.receive_frame source id sig
    obtain ⟨refs,inbox,seq,ht⟩ := ih (i.receive source id sig)
    exact ⟨refs,inbox,seq,by rw [Instance.receiveAll,List.foldl_cons,← Instance.receiveAll,ht,hs]⟩

theorem routeOne_get (source : InstanceId) (m : BTreeMap InstanceId Instance) (sig : PendingSignal)
    (id : InstanceId) : (routeOne source m sig).1[id]? =
      (m[id]?).map (fun i => i.receive source id sig) := by
  unfold routeOne Instance.receive
  by_cases hid : sig.target = id
  · subst hid
    cases hm : m[sig.target]? with
    | none => simp [hm]
    | some t => cases hf : t.inboxFull sig.route <;> simp [hm,hf]
  · have hne : id ≠ sig.target := fun h => hid h.symm
    cases hm : m[sig.target]? with
    | none => simp [hid]
    | some t => cases hf : t.inboxFull sig.route <;> simp [hf,hid,get_insert,hne]

theorem routeAll_get (source : InstanceId) (m : BTreeMap InstanceId Instance)
    (sigs : List PendingSignal) (id : InstanceId) : (routeAll source m sigs)[id]? =
      (m[id]?).map (fun i => i.receiveAll source id sigs) := by
  induction sigs generalizing m with
  | nil => simp [routeAll,Instance.receiveAll]
  | cons sig sigs ih =>
    rw [routeAll,List.foldl_cons,← routeAll,ih,routeOne_get,Option.map_map]
    rfl

theorem routeSignals_eq (source : InstanceId) (m : BTreeMap InstanceId Instance)
    (n : ObserverRegistry × ℕ) (sigs : List PendingSignal) :
    sigs.foldl (routeSignal source) (m,n) =
      (routeAll source m sigs,(routeEvents source m sigs).foldl notify n) := by
  induction sigs generalizing m n with
  | nil => rfl
  | cons sig sigs ih =>
    rw [List.foldl_cons]
    exact ih _ _

namespace Execution

theorem ofPop_some {instId : InstanceId} {inst : Instance} {registry : ActionRegistry} {now : Tick}
    {caps : CapabilityMask} {x : Execution} (h : ofPop instId inst registry now caps = some x) :
    x.instId = instId ∧ x.before = inst ∧ x.registry = registry ∧ x.now = now ∧
      x.sessionCaps = caps := by
  unfold ofPop at h
  split at h
  · cases h
  · obtain rfl := Option.some.inj h
    exact ⟨rfl,rfl,rfl,rfl,rfl⟩

theorem ofPop_none {instId : InstanceId} {inst : Instance} {registry : ActionRegistry} {now : Tick}
    {caps : CapabilityMask} :
    ofPop instId inst registry now caps = none ↔ inst.scheduler.popDue now = none := by
  unfold ofPop
  split
  · next h => simp [h]
  · next h => simp [h]

variable (x : Execution)

def settle (m : BTreeMap InstanceId Instance) : BTreeMap InstanceId Instance :=
  routeAll x.instId (m.insert x.instId x.after) x.stage.pendingSignals

/-- Events in delivery order: staged ones, the execution itself, routing. -/
def emits (m : BTreeMap InstanceId Instance) : List KernelEvent :=
  x.stage.events ++ Kernel.executedEvents x.instId x.entry.actionTypeCode x.now x.verdict ++
    routeEvents x.instId (m.insert x.instId x.after) x.stage.pendingSignals

theorem settle_get (m : BTreeMap InstanceId Instance) (id : InstanceId) : (x.settle m)[id]? =
    if id = x.instId then some (x.after.receiveAll x.instId id x.stage.pendingSignals)
    else (m[id]?).map (fun i => i.receiveAll x.instId id x.stage.pendingSignals) := by
  rw [settle,routeAll_get,get_insert]
  split <;> rfl

end Execution

namespace Kernel
variable (c : Crypto) (k : Kernel)

/-- What a pop would read, if the instance exists and has a due entry. -/
def execution (instId : InstanceId) (now : Tick) (caps : CapabilityMask) : Option Execution :=
  match k.instances[instId]? with
  | none => none
  | some inst => Execution.ofPop instId inst k.actionRegistry now caps

/-- One iteration of the step loop, without the report. -/
def pop (instId : InstanceId) (now : Tick) (caps : CapabilityMask) : Kernel :=
  (stepInstance c now caps k.wal.isSome ({},k) instId).2

variable {k}

theorem execution_some {instId : InstanceId} {now : Tick} {caps : CapabilityMask} {x : Execution}
    (h : k.execution instId now caps = some x) : k.instances[instId]? = some x.before ∧
      x.instId = instId ∧ x.registry = k.actionRegistry ∧ x.now = now ∧ x.sessionCaps = caps := by
  unfold execution at h
  split at h
  · cases h
  · next hi =>
    obtain ⟨hid,rfl,hr,hn,hc⟩ := Execution.ofPop_some h
    exact ⟨hi,hid,hr,hn,hc⟩

theorem process_none {instId : InstanceId} {now : Tick} {caps : CapabilityMask}
    (measureDigest : Bool) (h : k.execution instId now caps = none) :
    k.processInstanceRecord c instId now caps measureDigest = none := by
  unfold processInstanceRecord
  unfold execution at h
  split
  · rfl
  · next inst hi =>
    rw [hi] at h
    rw [stepOneCore_none c instId k.actionRegistry k.stepScratch caps measureDigest
      (Execution.ofPop_none.mp h)]

theorem process_some {instId : InstanceId} {now : Tick} {caps : CapabilityMask} {x : Execution}
    (measureDigest : Bool) (h : k.execution instId now caps = some x) :
    ∃ scratch, k.processInstanceRecord c instId now caps measureDigest = some (
      { poppedId := x.entry.id
        verdict := x.verdict
        digest := digestOf c measureDigest x.after
        effectsApplied := (x.core c measureDigest).effectsApplied
        effectsDenied := (x.core c measureDigest).effectsDenied
        domainEventsEmitted := (x.core c measureDigest).domainEventsEmitted
        observersEvicted := ((x.emits k.instances).foldl notify (k.observers,0)).2 },
      { k with
        instances := x.settle k.instances
        observers := ((x.emits k.instances).foldl notify (k.observers,0)).1
        stepScratch := scratch }) := by
  obtain ⟨hi,rfl,hr,rfl,rfl⟩ := execution_some h
  obtain ⟨scratch,hs⟩ := stepOneCore_some c x k.stepScratch measureDigest
  refine ⟨scratch,?_⟩
  unfold processInstanceRecord
  rw [hi]
  dsimp only
  rw [← hr,hs]
  dsimp only [Execution.core]
  rw [routeSignals_eq]
  simp only [Execution.settle,Execution.emits,List.foldl_append]

theorem pop_none {instId : InstanceId} {now : Tick} {caps : CapabilityMask}
    (h : k.execution instId now caps = none) : k.pop c instId now caps = k := by
  unfold pop stepInstance
  rw [process_none c _ h]

/-- A pop settles its execution, hands out the events and logs the outcome. -/
theorem pop_some {instId : InstanceId} {now : Tick} {caps : CapabilityMask} {x : Execution}
    (h : k.execution instId now caps = some x) : ∃ scratch, k.pop c instId now caps = { k with
      instances := x.settle k.instances
      observers := ((x.emits k.instances).foldl notify (k.observers,0)).1
      wal := k.wal.map (fun w => w.appendStep c instId x.entry.id now caps.bits x.verdict
        (stateDigest c x.after))
      stepScratch := scratch } := by
  obtain ⟨scratch,hs⟩ := process_some c k.wal.isSome h
  refine ⟨scratch,?_⟩
  unfold pop stepInstance
  dsimp only
  rw [hs]
  dsimp only [appendRecord]
  cases k.wal <;> rfl

end Kernel
end ArkheKernel
