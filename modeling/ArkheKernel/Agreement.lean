import ArkheKernel.Run

/-!
# Kernels that answer alike

The observers, the log and the scratch are written by calls and read by none.
Two kernels that agree on the rest answer every call alike and go on agreeing.
What a step reports is a function of what it executed.
-/

set_option autoImplicit false

namespace ArkheKernel
open OrderedMap PrefixCode

inductive Response where
  | created (id : InstanceId)
  | submitted (result : Except ArkheError ScheduledActionId)
  | unloaded (result : Except ArkheError ℕ)
  | stepped (report : StepReport)

def StepReport.unobserved (r : StepReport) : StepReport := { r with observersEvicted := 0 }

def StepReport.tally (r : StepReport) (x : Execution) : StepReport :=
  { r with
    actionsExecuted := satAdd32 r.actionsExecuted 1
    effectsApplied := satAdd32 r.effectsApplied (if x.commits then x.gate.applied else 0)
    effectsDenied := satAdd32 r.effectsDenied x.gate.denied
    domainEventsEmitted := satAdd32 r.domainEventsEmitted
      (x.stage.events.filter KernelEvent.isDomain).length }

namespace Kernel
variable (c : Crypto)

/-- What the caller is told, apart from observers. -/
def answer (k : Kernel) : Call → List Response
  | .request (.createInstance config) => [.created (k.createInstance config).1]
  | .request (.submit s) => [.submitted (k.submit c s).1]
  | .request (.forceUnload route caps) => [.unloaded (k.forceUnload route caps).1]
  | .request _ => []
  | .step now caps => [.stepped (k.step c now caps).1.unobserved]

def responding : Transducer Kernel Call Response := (machine c).withOut (answer c)

theorem stepInstance_none {k : Kernel} {inst : InstanceId} {now : Tick} {caps : CapabilityMask}
    (measureDigest : Bool) (r : StepReport) (h : k.execution inst now caps = none) :
    (stepInstance c now caps measureDigest (r,k) inst).1 = r := by
  unfold stepInstance
  dsimp only
  rw [process_none c measureDigest h]

theorem stepInstance_some {k : Kernel} {inst : InstanceId} {now : Tick} {caps : CapabilityMask}
    {x : Execution} (measureDigest : Bool) (r : StepReport)
    (h : k.execution inst now caps = some x) :
    (stepInstance c now caps measureDigest (r,k) inst).1.unobserved = r.unobserved.tally x := by
  obtain ⟨scratch,hs⟩ := process_some c measureDigest h
  unfold stepInstance
  dsimp only
  rw [hs]
  rfl

theorem step_report (k : Kernel) (now : Tick) (caps : CapabilityMask) :
    (k.step c now caps).1.unobserved =
      (((micro c).trace k (k.pops now caps)).filterMap Item.execution).foldl StepReport.tally {} := by
  have hfold : ∀ (ids : List InstanceId) (r : StepReport) (k' : Kernel),
      k'.wal.isSome = k.wal.isSome →
      (ids.foldl (stepInstance c now caps k.wal.isSome) (r,k')).1.unobserved =
        (((micro c).trace k' (ids.map (fun inst => .pop inst now caps))).filterMap
          Item.execution).foldl StepReport.tally r.unobserved := by
    intro ids
    induction ids with
    | nil => intro r k' hw; rfl
    | cons inst ids ih =>
      intro r k' hw
      have hs := stepInstance_snd c (k := k') now caps r inst
      rw [hw] at hs
      have hp : stepInstance c now caps k.wal.isSome (r,k') inst =
          ((stepInstance c now caps k.wal.isSome (r,k') inst).1,k'.pop c inst now caps) := by
        rw [← hs]
      rw [List.foldl_cons,hp,ih _ _ ((pop_wal_isSome c inst now caps).trans hw),List.map_cons,
        Transducer.trace,List.filterMap_append,List.foldl_append]
      change _ = List.foldl StepReport.tally (List.foldl StepReport.tally r.unobserved
        (((k'.execution inst now caps).map Item.executed).toList.filterMap Item.execution)) _
      congr 1
      cases hx : k'.execution inst now caps with
      | none => rw [stepInstance_none c _ _ hx]; rfl
      | some x => exact stepInstance_some c _ _ hx
  exact hfold _ _ _ rfl

end Kernel

structure WalWriter.SameLog (w w' : WalWriter) : Prop where
  contents : w.records.map WalRecord.content = w'.records.map WalRecord.content
  nextSeq : w.nextSeq = w'.nextSeq

def SameLogs (a b : Option WalWriter) : Prop := ∀ w ∈ a, ∀ w' ∈ b, w.SameLog w'

structure Indistinct (k k' : Kernel) : Prop where
  instances : k.instances = k'.instances
  registry : k.actionRegistry = k'.actionRegistry
  counter : k.nextInstanceId = k'.nextInstanceId
  logs : SameLogs k.wal k'.wal

section Logs
variable {w w' : WalWriter}

theorem WalWriter.SameLog.symm (h : w.SameLog w') : w'.SameLog w :=
  ⟨h.contents.symm,h.nextSeq.symm⟩

theorem WalWriter.SameLog.appendSubmit (h : w.SameLog w') (c : Crypto) (inst : InstanceId)
    (principal : Principal) (actor : Option EntityId) (caps : BitVec 64) (atTick : Tick)
    (typeCode : TypeCode) (bytes : Bytes) (id : ScheduledActionId) :
    (w.appendSubmit c inst principal actor caps atTick typeCode bytes id).SameLog
      (w'.appendSubmit c inst principal actor caps atTick typeCode bytes id) where
  contents := by
    simp [WalWriter.appendSubmit,WalWriter.pushSealed,h.contents,h.nextSeq]
  nextSeq := by
    change satAdd64 w.nextSeq 1 = satAdd64 w'.nextSeq 1
    rw [h.nextSeq]

theorem WalWriter.SameLog.appendStep (h : w.SameLog w') (c : Crypto) (inst : InstanceId)
    (id : ScheduledActionId) (now : Tick) (caps : BitVec 64) (verdict : StepVerdict)
    (digest : Block) : (w.appendStep c inst id now caps verdict digest).SameLog
      (w'.appendStep c inst id now caps verdict digest) where
  contents := by
    simp [WalWriter.appendStep,WalWriter.pushSealed,h.contents,h.nextSeq]
  nextSeq := by
    change satAdd64 w.nextSeq 1 = satAdd64 w'.nextSeq 1
    rw [h.nextSeq]

theorem SameLogs.map {a b : Option WalWriter} (h : SameLogs a b) {f : WalWriter → WalWriter}
    (hf : ∀ w w' : WalWriter, w.SameLog w' → (f w).SameLog (f w')) :
    SameLogs (a.map f) (b.map f) := by
  intro w hw w' hw'
  obtain ⟨v,hv,rfl⟩ := Option.map_eq_some_iff.mp hw
  obtain ⟨v',hv',rfl⟩ := Option.map_eq_some_iff.mp hw'
  exact hf v v' (h v hv v' hv')

end Logs

namespace Indistinct
variable (c : Crypto) {k k' : Kernel} (h : Indistinct k k')
include h

theorem symm : Indistinct k' k :=
  ⟨h.instances.symm,h.registry.symm,h.counter.symm,fun w hw w' hw' => (h.logs w' hw' w hw).symm⟩

theorem execution (inst : InstanceId) (now : Tick) (caps : CapabilityMask) :
    k.execution inst now caps = k'.execution inst now caps := by
  unfold Kernel.execution
  rw [h.instances,h.registry]

theorem create (config : InstanceConfig) :
    Indistinct (k.createInstance config).2 (k'.createInstance config).2 ∧
      (k.createInstance config).1 = (k'.createInstance config).1 := by
  unfold Kernel.createInstance
  rw [h.instances,h.counter]
  exact ⟨⟨rfl,h.registry,rfl,h.logs⟩,rfl⟩

theorem submit (s : Submission) : Indistinct (k.submit c s).2 (k'.submit c s).2 ∧
    (k.submit c s).1 = (k'.submit c s).1 := by
  unfold Kernel.submit
  rw [← h.instances]
  cases hi : k.instances[s.inst]? with
  | none => exact ⟨h,rfl⟩
  | some i =>
    dsimp only
    split
    · exact ⟨h,rfl⟩
    · refine ⟨⟨rfl,h.registry,h.counter,?_⟩,rfl⟩
      exact h.logs.map (fun w w' hw => hw.appendSubmit c _ _ _ _ _ _ _ _)

theorem unload (route : RouteId) (caps : CapabilityMask) :
    Indistinct (k.forceUnload route caps).2 (k'.forceUnload route caps).2 ∧
      (k.forceUnload route caps).1 = (k'.forceUnload route caps).1 := by
  unfold Kernel.forceUnload
  rw [← h.instances]
  split
  · exact ⟨h,rfl⟩
  · exact ⟨⟨rfl,h.registry,h.counter,h.logs⟩,rfl⟩

theorem pop (inst : InstanceId) (now : Tick) (caps : CapabilityMask) :
    Indistinct (k.pop c inst now caps) (k'.pop c inst now caps) := by
  have hx := h.execution inst now caps
  cases hk : k.execution inst now caps with
  | none =>
    rw [hk] at hx
    rw [Kernel.pop_none c hk,Kernel.pop_none c hx.symm]
    exact h
  | some x =>
    rw [hk] at hx
    obtain ⟨_,hs⟩ := Kernel.pop_some c hk
    obtain ⟨_,hs'⟩ := Kernel.pop_some c hx.symm
    rw [hs,hs',h.instances]
    exact ⟨rfl,h.registry,h.counter,
      h.logs.map (fun w w' hw => hw.appendStep c _ _ _ _ _ _)⟩

theorem serve (r : Request) : Indistinct (k.serve c r) (k'.serve c r) ∧
    k.served c r = k'.served c r := by
  cases r with
  | createInstance config =>
    obtain ⟨ha,hid⟩ := h.create config
    exact ⟨ha,by rw [Kernel.served,Kernel.served,hid]⟩
  | submit s =>
    obtain ⟨ha,hr⟩ := h.submit c s
    exact ⟨ha,by rw [Kernel.served,Kernel.served,hr]⟩
  | forceUnload route caps => exact ⟨(h.unload route caps).1,rfl⟩
  | registerAction typeCode reg =>
    refine ⟨⟨h.instances,?_,h.counter,h.logs⟩,rfl⟩
    change k.actionRegistry.insert typeCode reg = k'.actionRegistry.insert typeCode reg
    rw [h.registry]
  | registerObserver obs mask => exact ⟨⟨h.instances,h.registry,h.counter,h.logs⟩,rfl⟩

theorem observe (obs : KernelObserver) (mask : EventMask) :
    Indistinct (k.serve c (.registerObserver obs mask)) k' :=
  ⟨h.instances,h.registry,h.counter,h.logs⟩

theorem micro_next (a : Micro) : Indistinct ((Kernel.micro c).next k a) ((Kernel.micro c).next k' a) ∧
    (Kernel.micro c).out k a = (Kernel.micro c).out k' a := by
  cases a with
  | request r => exact h.serve c r
  | pop inst now caps =>
    refine ⟨h.pop c inst now caps,?_⟩
    change ((k.execution inst now caps).map Item.executed).toList =
      ((k'.execution inst now caps).map Item.executed).toList
    rw [h.execution]

theorem micro_run (as : List Micro) :
    Indistinct ((Kernel.micro c).run k as) ((Kernel.micro c).run k' as) ∧
      (Kernel.micro c).trace k as = (Kernel.micro c).trace k' as := by
  induction as generalizing k k' with
  | nil => exact ⟨h,rfl⟩
  | cons a as ih =>
    obtain ⟨ha,ho⟩ := h.micro_next c a
    obtain ⟨hr,ht⟩ := ih ha
    exact ⟨hr,by rw [Transducer.trace,Transducer.trace,ho,ht]⟩

theorem pops (now : Tick) (caps : CapabilityMask) : k.pops now caps = k'.pops now caps := by
  rw [Kernel.pops,Kernel.pops,h.instances]

theorem machine_next (call : Call) :
    Indistinct ((Kernel.machine c).next k call) ((Kernel.machine c).next k' call) ∧
      (Kernel.machine c).out k call = (Kernel.machine c).out k' call := by
  rw [(Kernel.expansion c).next_eq,(Kernel.expansion c).next_eq,(Kernel.expansion c).out_eq,
    (Kernel.expansion c).out_eq]
  have hw : (Kernel.expansion c).word k call = (Kernel.expansion c).word k' call := by
    cases call with
    | request r => rfl
    | step now caps => exact h.pops now caps
  rw [hw]
  exact h.micro_run c _

theorem responds (call : Call) :
    (Kernel.responding c).out k call = (Kernel.responding c).out k' call := by
  cases call with
  | request r =>
    cases r with
    | createInstance config => exact congrArg (fun id => [Response.created id]) (h.create config).2
    | submit s => exact congrArg (fun e => [Response.submitted e]) (h.submit c s).2
    | forceUnload route caps =>
      exact congrArg (fun e => [Response.unloaded e]) (h.unload route caps).2
    | _ => rfl
  | step now caps =>
    change [Response.stepped _] = [Response.stepped _]
    rw [Kernel.step_report,Kernel.step_report,h.pops,(h.micro_run c _).2]

theorem run (calls : List Call) :
    Indistinct ((Kernel.machine c).run k calls) ((Kernel.machine c).run k' calls) ∧
      (Kernel.responding c).trace k calls = (Kernel.responding c).trace k' calls := by
  induction calls generalizing k k' with
  | nil => exact ⟨h,rfl⟩
  | cons call calls ih =>
    obtain ⟨hr,ht⟩ := ih (h.machine_next c call).1
    refine ⟨hr,?_⟩
    rw [Transducer.trace,Transducer.trace,h.responds c call]
    exact congrArg _ ht

end Indistinct
end ArkheKernel
