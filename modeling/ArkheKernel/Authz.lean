import ArkheKernel.Abi

/-!
# Operations and their authorization

Authority is an intersection on every authenticated path and empty without
authentication. Scheduling and signalling need the SYSTEM bit; every other
operation is open to an authenticated principal.
-/

set_option autoImplicit false

namespace ArkheKernel
open PrefixCode

inductive Op where
  | spawnEntity (id : EntityId) (owner : Principal)
  | despawnEntity (id : EntityId)
  | setComponent (entity : EntityId) (typeCode : TypeCode) (bytes : Bytes) (size : ℕ)
  | removeComponent (entity : EntityId) (typeCode : TypeCode) (size : ℕ)
  | emitEvent (actor : Option EntityId) (eventTypeCode : TypeCode) (eventBytes : Bytes)
  | scheduleAction (atTick : Tick) (actor : Option EntityId) (actionTypeCode : TypeCode)
      (actionBytes : Bytes)
  | sendSignal (target : InstanceId) (route : RouteId) (payload : Bytes)
  deriving DecidableEq

structure Effect where
  instanceId : InstanceId
  principal : Principal
  op : Op
  deriving DecidableEq

inductive DenyReason where
  | capabilityDenied
  | instanceMismatch
  | operationRestricted
  | notImplemented
  deriving DecidableEq, Repr

def effectiveCaps (defaultCaps : CapabilityMask) (principal : Principal)
    (ceiling : CapabilityMask) : CapabilityMask :=
  match principal with
  | .system => defaultCaps &&& ceiling
  | .external _ => defaultCaps &&& ceiling
  | .unauthenticated => .empty

def matchOpCap (op : Op) (caps : CapabilityMask) : Bool :=
  match op with
  | .spawnEntity .. | .despawnEntity .. | .setComponent .. | .removeComponent ..
  | .emitEvent .. => true
  | .scheduleAction .. | .sendSignal .. => caps.contains .SYSTEM

def authorize (caps : CapabilityMask) (effect : Effect) : Except DenyReason Effect :=
  match effect.principal with
  | .unauthenticated => .error .capabilityDenied
  | .system | .external _ =>
    if !caps.contains .SYSTEM && !matchOpCap effect.op caps then .error .capabilityDenied
    else .ok effect

def Op.Privileged : Op → Prop
  | .scheduleAction .. | .sendSignal .. => True
  | _ => False

theorem effectiveCaps_subset_default (d : CapabilityMask) (p : Principal) (c : CapabilityMask) :
    (effectiveCaps d p c).Subset d := by
  cases p with
  | unauthenticated => exact CapabilityMask.empty_subset d
  | external e => exact CapabilityMask.and_subset_left d c
  | system => exact CapabilityMask.and_subset_left d c

theorem effectiveCaps_subset_ceiling (d : CapabilityMask) (p : Principal) (c : CapabilityMask) :
    (effectiveCaps d p c).Subset c := by
  cases p with
  | unauthenticated => exact CapabilityMask.empty_subset c
  | external e => exact CapabilityMask.and_subset_right d c
  | system => exact CapabilityMask.and_subset_right d c

theorem authorize_ok {caps : CapabilityMask} {e e' : Effect} (h : authorize caps e = .ok e') :
    e' = e ∧ e.principal ≠ .unauthenticated ∧
      (caps.contains .SYSTEM = true ∨ matchOpCap e.op caps = true) := by
  unfold authorize at h
  split at h
  · cases h
  all_goals
    next hp =>
    split at h
    · cases h
    · next hc =>
      obtain rfl := Except.ok.inj h
      refine ⟨rfl,by simp [hp],?_⟩
      simpa [or_iff_not_imp_left] using hc

theorem authorize_privileged {caps : CapabilityMask} {e e' : Effect}
    (h : authorize caps e = .ok e') (hp : e.op.Privileged) : caps.contains .SYSTEM = true := by
  obtain ⟨-,-,hs | hm⟩ := authorize_ok h
  · exact hs
  · cases ho : e.op with
    | scheduleAction t a c b => simpa [ho,matchOpCap] using hm
    | sendSignal t r p => simpa [ho,matchOpCap] using hm
    | _ => simp [ho,Op.Privileged] at hp

end ArkheKernel
