import ArkheKernel.Agreement
import ArkheKernel.Emission

/-!
# Observers and the log are sinks

Two runs that differ in the observers they register and in the log they attach
are unwound against each other: a registration is hidden, every other call is
answered alike.
-/

set_option autoImplicit false

namespace ArkheKernel
open OrderedMap

def Request.visible : Request → Bool
  | .registerObserver _ _ => false
  | _ => true

def Call.visible : Call → Bool
  | .request r => r.visible
  | .step _ _ => true

def Attached (c : Crypto) (wal : Option WalWriter) : Prop :=
  wal = none ∨ ∃ worldId manifest sigClass,
    wal = some (.withSignature c worldId manifest sigClass)

structure Twin (k k' : Kernel) : Prop where
  agree : Indistinct k k'
  emitted : k.observers.emitted = k'.observers.emitted

section Unwinding
variable (c : Crypto) {k k' : Kernel}

theorem attached_logs {wal wal' : Option WalWriter} (h : Attached c wal) (h' : Attached c wal') :
    SameLogs wal wal' := by
  intro w hw w' hw'
  rcases h with rfl | ⟨_,_,_,rfl⟩
  · cases hw
  · rcases h' with rfl | ⟨_,_,_,rfl⟩
    · cases hw'
    · obtain rfl := Option.some.inj hw
      obtain rfl := Option.some.inj hw'
      exact ⟨rfl,rfl⟩

theorem Indistinct.emits (h : Indistinct k k') (a : Micro) : k.emits a = k'.emits a := by
  cases a with
  | request r =>
    cases r with
    | forceUnload route caps =>
      unfold Kernel.emits
      rw [h.instances]
    | _ => rfl
  | pop inst now caps =>
    have hx := h.execution inst now caps
    cases hk : k.execution inst now caps with
    | none =>
      rw [hk] at hx
      rw [Kernel.emits_none hk,Kernel.emits_none hx.symm]
    | some x =>
      rw [hk] at hx
      rw [Kernel.emits_some hk,Kernel.emits_some hx.symm,h.instances]

theorem Twin.micro_next (h : Twin k k') (a : Micro) :
    Twin ((Kernel.micro c).next k a) ((Kernel.micro c).next k' a) := by
  refine ⟨(h.agree.micro_next c a).1,?_⟩
  rw [Kernel.micro_emitted,Kernel.micro_emitted,h.emitted,h.agree.emits]

theorem Twin.machine_next (h : Twin k k') (call : Call) :
    Twin ((Kernel.machine c).next k call) ((Kernel.machine c).next k' call) := by
  rw [(Kernel.expansion c).next_eq,(Kernel.expansion c).next_eq]
  have hw : (Kernel.expansion c).word k call = (Kernel.expansion c).word k' call := by
    cases call with
    | request r => rfl
    | step now caps => exact h.agree.pops now caps
  rw [hw]
  exact (Kernel.micro c).run_related (Kernel.micro c) Twin
    (fun _ _ a ht => ht.micro_next c a) k k' _ h

theorem Twin.hidden (h : Twin k k') (call : Call) (hv : call.visible = false) :
    Twin ((Kernel.machine c).next k call) k' ∧ (Kernel.machine c).out k call = [] ∧
      (Kernel.responding c).out k call = [] := by
  cases call with
  | request r =>
    cases r with
    | registerObserver obs mask =>
      exact ⟨⟨h.agree.observe c obs mask,h.emitted⟩,rfl,rfl⟩
    | _ => cases hv
  | step now caps => cases hv

theorem sink_unwinding : (Kernel.machine c).Unwinding Twin Call.visible (fun _ => true)
    (fun _ => True) where
  symm _ _ h := ⟨h.agree.symm,h.emitted.symm⟩
  shared k k' call _ h _ :=
    ⟨h.machine_next c call,by rw [(h.agree.machine_next c call).2]⟩
  hidden k k' call hv h := by
    obtain ⟨ht,ho,-⟩ := h.hidden c call hv
    exact ⟨ht,by rw [ho]; rfl⟩

theorem answer_unwinding : (Kernel.responding c).Unwinding Twin Call.visible (fun _ => true)
    (fun _ => True) where
  symm _ _ h := ⟨h.agree.symm,h.emitted.symm⟩
  shared k k' call _ h _ := ⟨h.machine_next c call,by rw [h.agree.responds c call]⟩
  hidden k k' call hv h := by
    obtain ⟨ht,-,ho⟩ := h.hidden c call hv
    exact ⟨ht,by rw [ho]; rfl⟩

end Unwinding

/-- Two runs that differ only in the observers registered and in the log
attached end in the same instances, execute the same entries, answer every call
alike, log the same contents and emit the same events. In each of them an
observer has received what was emitted after its registration and passes its
mask, up to its first panic, and every evicted handle was returned once. -/
theorem observers_and_log_are_sinks (c : Crypto) (manifest manifest' : Block)
    (wal wal' : Option WalWriter) (hw : Attached c wal) (hw' : Attached c wal')
    (calls calls' : List Call)
    (hsame : calls.filter Call.visible = calls'.filter Call.visible)
    (hb : (calls.map Call.registrations).sum < 2^64) :
    let k := (Kernel.machine c).run (.build manifest wal) calls
    let k' := (Kernel.machine c).run (.build manifest' wal') calls'
    k.instances = k'.instances ∧
    (Kernel.machine c).trace (.build manifest wal) calls =
      (Kernel.machine c).trace (.build manifest' wal') calls' ∧
    (Kernel.responding c).trace (.build manifest wal) calls =
      (Kernel.responding c).trace (.build manifest' wal') calls' ∧
    (∀ w ∈ k.wal, ∀ w' ∈ k'.wal,
      w.records.map WalRecord.content = w'.records.map WalRecord.content) ∧
    k.observers.emitted = k'.observers.emitted ∧
    (∀ pre obs mask post, calls = pre ++ .request (.registerObserver obs mask) :: post →
      let before := (Kernel.machine c).run (.build manifest wal) pre
      ∃ events, k.observers.emitted = before.observers.emitted ++ events ∧
        k.observers.received (before.registerObserverFiltered obs mask).1 =
          handed obs [] (events.filter mask.accepts)) ∧
    (let made := (Kernel.build manifest wal).registryCalls c calls
     k.observers = registry.run .new made ∧ (registry.trace .new made).Nodup ∧
      ∀ p, p ∈ registry.trace .new made ↔ k.observers.evicted.contains p = true) := by
  intro k k'
  have hstart : Twin (.build manifest wal) (.build manifest' wal') :=
    ⟨⟨rfl,rfl,rfl,attached_logs c hw hw'⟩,rfl⟩
  have hitems := (sink_unwinding c).run _ _ calls calls' hsame (fun _ _ => trivial) hstart
  have hanswers := ((answer_unwinding c).run _ _ calls calls' hsame (fun _ _ => trivial) hstart).2
  obtain ⟨htwin,htrace⟩ := hitems
  rw [List.filter_true,List.filter_true] at htrace hanswers
  refine ⟨htwin.agree.instances,htrace,hanswers,fun w h w' h' => (htwin.agree.logs w h w' h').contents,
    htwin.emitted,?_,?_⟩
  · intro pre obs mask post hcalls before
    subst hcalls
    have hk : k = (Kernel.machine c).run (before.registerObserverFiltered obs mask).2 post :=
      (Kernel.machine c).run_append _ pre _
    refine ⟨(before.registerObserverFiltered obs mask).2.emissions c post,?_,?_⟩
    · rw [hk,Kernel.run_emitted]
      rfl
    · rw [hk]
      apply Kernel.observer_received
      unfold u64Max
      omega
  · exact ⟨Kernel.run_observers c _ calls,Kernel.run_evictions c manifest wal calls⟩

def watchedCalls (observers : List KernelObserver) : List Call := [
  .request (.registerAction (.clamp 7) (.constant [
    .emitEvent none (.clamp 9) [1], .sendSignal ⟨.succ 0⟩ ⟨1⟩ [2]])),
  .request (.createInstance { defaultCaps := .SYSTEM })] ++
  observers.map (fun obs => .request (.registerObserver obs .ALL)) ++ [
  .request (.submit ⟨⟨.succ 0⟩,.system,none,.SYSTEM,⟨1⟩,.clamp 7,[]⟩),
  .step ⟨1⟩ .SYSTEM]

theorem observers_and_log_are_sinks_watched :
    let k := (Kernel.machine standIn).run (.newWithWal standIn zeroBlock zeroBlock)
      (watchedCalls [fun got _ => got.length = 1])
    let k' := (Kernel.machine standIn).run .new (watchedCalls [])
    k.instances = k'.instances ∧ k.observers.emitted = k'.observers.emitted ∧
      k'.observers.emitted.length = 3 ∧ k.observers.evicted.contains ⟨0⟩ = true := by
  intro k k'
  obtain ⟨hi,-,-,-,he,-⟩ := observers_and_log_are_sinks standIn zeroBlock zeroBlock
    (some (.new standIn zeroBlock zeroBlock)) none (Or.inr ⟨_,_,_,rfl⟩) (Or.inl rfl)
    (watchedCalls [fun got _ => got.length = 1]) (watchedCalls []) rfl (by decide)
  exact ⟨hi,he,by decide +kernel,by decide +kernel⟩

end ArkheKernel
