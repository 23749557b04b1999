import ArkheKernel.Abi

/-!
# Kernel events and observers

Observers receive events and nothing else. An observer answers an event by
returning or by panicking, and the answer may depend on everything it received
before. Two ghost logs record what the kernel emitted and what each observer
was handed.
-/

set_option autoImplicit false

namespace ArkheKernel
open OrderedMap PrefixCode

inductive SignalDropReason where
  | queueFull
  | targetNotFound
  | cancelled
  deriving DecidableEq, Repr

inductive DeferReason where
  | schedulerBusy
  | budgetExceeded
  deriving DecidableEq, Repr

inductive KernelEvent where
  | actionExecuted (inst : InstanceId) (actionType : TypeCode) (atTick : Tick)
  | actionFailed (inst : InstanceId) (actionType : TypeCode) (reason : Bytes)
  | effectFailed (inst : InstanceId) (reason : Bytes)
  | observerPanic (observerIndex : ℕ)
  | observerEvicted (observerIndex panicAtSeq panicCountBeforeEviction : ℕ)
  | signalDropped (target : InstanceId) (route : RouteId) (reason : SignalDropReason)
  | moduleForceUnloaded (routeId : RouteId) (liveRefsAtUnload : ℕ)
  | actionDeferredToNextTick (actionId : ScheduledActionId) (reason : DeferReason)
  | observersFlushed (barrierTicket eventCount : ℕ)
  | domainEventEmitted (inst : InstanceId) (actor : Option EntityId) (eventTypeCode : TypeCode)
      (bytes : Bytes)
  | signalDelivered (source target : InstanceId) (route : RouteId)
  deriving DecidableEq

def KernelEvent.isDomain : KernelEvent → Bool
  | .domainEventEmitted .. => true
  | _ => false

structure EventMask where
  bits : BitVec 32
  deriving DecidableEq, Repr

namespace EventMask

def ACTION_EXECUTED : EventMask := ⟨1 <<< 0⟩
def ACTION_FAILED : EventMask := ⟨1 <<< 1⟩
def EFFECT_FAILED : EventMask := ⟨1 <<< 2⟩
def OBSERVER_PANIC : EventMask := ⟨1 <<< 3⟩
def OBSERVER_EVICTED : EventMask := ⟨1 <<< 4⟩
def SIGNAL_DROPPED : EventMask := ⟨1 <<< 5⟩
def MODULE_FORCE_UNLOADED : EventMask := ⟨1 <<< 6⟩
def ACTION_DEFERRED : EventMask := ⟨1 <<< 7⟩
def OBSERVERS_FLUSHED : EventMask := ⟨1 <<< 8⟩
def DOMAIN_EVENT_EMITTED : EventMask := ⟨1 <<< 9⟩
def SIGNAL_DELIVERED : EventMask := ⟨1 <<< 10⟩
def ALL : EventMask := ⟨0x7FF⟩

def contains (a b : EventMask) : Bool := a.bits &&& b.bits = b.bits

def classOf : KernelEvent → EventMask
  | .actionExecuted .. => ACTION_EXECUTED
  | .actionFailed .. => ACTION_FAILED
  | .effectFailed .. => EFFECT_FAILED
  | .observerPanic .. => OBSERVER_PANIC
  | .observerEvicted .. => OBSERVER_EVICTED
  | .signalDropped .. => SIGNAL_DROPPED
  | .moduleForceUnloaded .. => MODULE_FORCE_UNLOADED
  | .actionDeferredToNextTick .. => ACTION_DEFERRED
  | .observersFlushed .. => OBSERVERS_FLUSHED
  | .domainEventEmitted .. => DOMAIN_EVENT_EMITTED
  | .signalDelivered .. => SIGNAL_DELIVERED

def accepts (m : EventMask) (e : KernelEvent) : Bool := m.contains (classOf e)

theorem all_accepts (e : KernelEvent) : ALL.accepts e = true := by
  cases e <;> simp only [accepts,classOf] <;> decide

end EventMask

structure ObserverHandle where
  val : ℕ
  deriving DecidableEq, Repr

theorem ObserverHandle.val_injective : Function.Injective ObserverHandle.val := by
  rintro ⟨a⟩ ⟨b⟩ h
  simpa using h

instance : LinearOrder ObserverHandle := LinearOrder.lift' ObserverHandle.val ObserverHandle.val_injective

/-- Whether an event makes the observer panic, given what it received before. -/
abbrev KernelObserver := List KernelEvent → KernelEvent → Bool

structure ObserverSlot where
  observer : KernelObserver
  mask : EventMask

structure ObserverRegistry where
  slots : BTreeMap ObserverHandle ObserverSlot
  evicted : BTreeSet ObserverHandle
  nextHandle : ℕ
  emitted : List KernelEvent
  delivered : List (ObserverHandle × KernelEvent)

namespace ObserverRegistry

def new : ObserverRegistry := ⟨∅,∅,0,[],[]⟩

def registerFiltered (r : ObserverRegistry) (obs : KernelObserver) (mask : EventMask) :
    ObserverHandle × ObserverRegistry :=
  (⟨r.nextHandle⟩, { r with
    nextHandle := satAdd64 r.nextHandle 1
    slots := r.slots.insert ⟨r.nextHandle⟩ ⟨obs,mask⟩ })

def register (r : ObserverRegistry) (obs : KernelObserver) : ObserverHandle × ObserverRegistry :=
  r.registerFiltered obs .ALL

def received (r : ObserverRegistry) (h : ObserverHandle) : List KernelEvent :=
  r.delivered.filterMap (fun p => if p.1 = h then some p.2 else none)

/-- One observer's turn: skipped when evicted or filtered out, evicted on its
first panic. The event counts as handed over before the panic. -/
def deliverOne (event : KernelEvent) (acc : List ObserverHandle × ObserverRegistry)
    (handle : ObserverHandle) : List ObserverHandle × ObserverRegistry :=
  if acc.2.evicted.contains handle then acc
  else match acc.2.slots[handle]? with
    | none => acc
    | some slot =>
      if !slot.mask.accepts event then acc
      else if slot.observer (acc.2.received handle) event then
        (acc.1 ++ [handle], { acc.2 with
          evicted := acc.2.evicted.insert handle
          slots := acc.2.slots.erase handle
          delivered := acc.2.delivered ++ [(handle,event)] })
      else (acc.1, { acc.2 with delivered := acc.2.delivered ++ [(handle,event)] })

def deliver (r : ObserverRegistry) (event : KernelEvent) : List ObserverHandle × ObserverRegistry :=
  r.slots.keys.foldl (deliverOne event) ([], { r with emitted := r.emitted ++ [event] })

theorem deliverOne_frame (event : KernelEvent) (acc : List ObserverHandle × ObserverRegistry)
    (h : ObserverHandle) : ∃ slots evicted delivered, (deliverOne event acc h).2 =
      { acc.2 with slots, evicted, delivered } := by
  unfold deliverOne
  split
  · exact ⟨_,_,_,rfl⟩
  · split
    · exact ⟨_,_,_,rfl⟩
    · split
      · exact ⟨_,_,_,rfl⟩
      · split <;> exact ⟨_,_,_,rfl⟩

theorem deliver_frame (r : ObserverRegistry) (event : KernelEvent) :
    ∃ slots evicted delivered, (r.deliver event).2 =
      { r with slots, evicted, delivered, emitted := r.emitted ++ [event] } := by
  have hfold : ∀ (hs : List ObserverHandle) (acc : List ObserverHandle × ObserverRegistry),
      ∃ slots evicted delivered, (hs.foldl (deliverOne event) acc).2 =
        { acc.2 with slots, evicted, delivered } := by
    intro hs
    induction hs with
    | nil => exact fun acc => ⟨_,_,_,rfl⟩
    | cons h hs ih =>
      intro acc
      obtain ⟨_,_,_,hone⟩ := deliverOne_frame event acc h
      obtain ⟨slots,evicted,delivered,hrest⟩ := ih (deliverOne event acc h)
      exact ⟨slots,evicted,delivered,by rw [List.foldl_cons,hrest,hone]⟩
  exact hfold _ _

theorem deliver_emitted (r : ObserverRegistry) (event : KernelEvent) :
    (r.deliver event).2.emitted = r.emitted ++ [event] := by
  obtain ⟨_,_,_,hf⟩ := r.deliver_frame event
  rw [hf]

theorem deliver_nextHandle (r : ObserverRegistry) (event : KernelEvent) :
    (r.deliver event).2.nextHandle = r.nextHandle := by
  obtain ⟨_,_,_,hf⟩ := r.deliver_frame event
  rw [hf]

end ObserverRegistry
end ArkheKernel
