import ArkheKernel.Delivery
import ArkheKernel.Run

/-!
# What a kernel emits

The registry is touched by registrations and by deliveries, in the order in
which the kernel emits events. A run of the kernel is, for its registry, a
sequence of such calls.
-/

set_option autoImplicit false

namespace ArkheKernel
open OrderedMap

def Call.registrations : Call → ℕ
  | .request (.registerObserver _ _) => 1
  | _ => 0

namespace Kernel

def emits (k : Kernel) : Micro → List KernelEvent
  | .request (.forceUnload route caps) =>
    if caps.contains .ADMIN_UNLOAD
    then [.moduleForceUnloaded route (k.instances.toList.foldl (liveRefs route) 0)] else []
  | .request _ => []
  | .pop inst now caps =>
    match k.execution inst now caps with
    | none => []
    | some x => x.emits k.instances

def observes (k : Kernel) : Micro → List RegistryCall
  | .request (.registerObserver obs mask) => [.register obs mask]
  | a => (k.emits a).map RegistryCall.deliver

variable (c : Crypto)

def emission : Transducer Kernel Micro KernelEvent := (micro c).withOut emits

def observing : Transducer Kernel Micro RegistryCall := (micro c).withOut observes

def emissions (k : Kernel) (calls : List Call) : List KernelEvent :=
  (emission c).trace k ((expansion c).words k calls)

def registryCalls (k : Kernel) (calls : List Call) : List RegistryCall :=
  (observing c).trace k ((expansion c).words k calls)

theorem emits_none {k : Kernel} {inst : InstanceId} {now : Tick} {caps : CapabilityMask}
    (h : k.execution inst now caps = none) : k.emits (.pop inst now caps) = [] := by
  simp [emits,h]

theorem emits_some {k : Kernel} {inst : InstanceId} {now : Tick} {caps : CapabilityMask}
    {x : Execution} (h : k.execution inst now caps = some x) :
    k.emits (.pop inst now caps) = x.emits k.instances := by
  simp [emits,h]

theorem notify_registry (events : List KernelEvent) (r : ObserverRegistry) (n : ℕ) :
    (events.foldl notify (r,n)).1 = registry.run r (events.map RegistryCall.deliver) := by
  induction events generalizing r n with
  | nil => rfl
  | cons e es ih => exact ih _ _

theorem micro_observers (k : Kernel) (a : Micro) :
    ((micro c).next k a).observers = registry.run k.observers (k.observes a) := by
  cases a with
  | request req =>
    cases req with
    | submit s =>
      change (k.submit c s).2.observers = k.observers
      rcases submit_cases c k s with ⟨e,he⟩ | ⟨i,-,-,he⟩
      · rw [he]
      · rw [he]
    | forceUnload route caps =>
      change (k.forceUnload route caps).2.observers =
        registry.run k.observers ((k.emits (.request (.forceUnload route caps))).map _)
      by_cases hc : caps.contains .ADMIN_UNLOAD = true
      · have he : k.emits (.request (.forceUnload route caps)) =
            [.moduleForceUnloaded route (k.instances.toList.foldl (liveRefs route) 0)] := if_pos hc
        rw [he,forceUnload,if_neg (by simp [hc])]
        rfl
      · have he : k.emits (.request (.forceUnload route caps)) = [] := if_neg hc
        rw [he,forceUnload,if_pos (by simp [hc])]
        rfl
    | _ => rfl
  | pop inst now caps =>
    change (k.pop c inst now caps).observers =
      registry.run k.observers ((k.emits (.pop inst now caps)).map _)
    cases hx : k.execution inst now caps with
    | none =>
      rw [pop_none c hx,emits_none hx]
      rfl
    | some x =>
      obtain ⟨_,hs⟩ := pop_some c hx
      rw [hs,emits_some hx]
      exact notify_registry _ _ _

theorem micro_run_observers (k : Kernel) (as : List Micro) :
    ((micro c).run k as).observers = registry.run k.observers ((observing c).trace k as) := by
  induction as generalizing k with
  | nil => rfl
  | cons a as ih =>
    rw [Transducer.trace,Transducer.run_append,Transducer.run,ih]
    change _ = registry.run (registry.run k.observers (k.observes a)) _
    rw [← micro_observers c k a]
    rfl

theorem run_observers (k : Kernel) (calls : List Call) :
    ((machine c).run k calls).observers = registry.run k.observers (k.registryCalls c calls) := by
  rw [(expansion c).run_eq]
  exact micro_run_observers c k _

theorem observes_events (k : Kernel) (a : Micro) :
    (k.observes a).filterMap RegistryCall.event = k.emits a := by
  have hmap : ∀ es : List KernelEvent,
      (es.map RegistryCall.deliver).filterMap RegistryCall.event = es := by
    intro es
    induction es with
    | nil => rfl
    | cons e es ih => simpa [RegistryCall.event] using ih
  cases a with
  | request req =>
    cases req with
    | registerObserver obs mask => rfl
    | _ => exact hmap _
  | pop inst now caps => exact hmap _

theorem registryCalls_events (k : Kernel) (calls : List Call) :
    (k.registryCalls c calls).filterMap RegistryCall.event = k.emissions c calls := by
  unfold registryCalls emissions
  generalize (expansion c).words k calls = as
  induction as generalizing k with
  | nil => rfl
  | cons a as ih =>
    rw [Transducer.trace,Transducer.trace,List.filterMap_append]
    exact congrArg₂ _ (observes_events k a) (ih _)

theorem micro_emitted (k : Kernel) (a : Micro) :
    ((micro c).next k a).observers.emitted = k.observers.emitted ++ k.emits a := by
  rw [micro_observers,registry_emitted,observes_events]

/-- The registry has been handed what the kernel emits, in that order. -/
theorem run_emitted (k : Kernel) (calls : List Call) :
    ((machine c).run k calls).observers.emitted =
      k.observers.emitted ++ k.emissions c calls := by
  rw [run_observers,registry_emitted,registryCalls_events]

theorem delivers_register_nothing (es : List KernelEvent) :
    ((es.map RegistryCall.deliver).map RegistryCall.registers).sum = 0 := by
  induction es with
  | nil => rfl
  | cons e es ih => simpa [RegistryCall.registers] using ih

theorem pops_register_nothing (k : Kernel) (ids : List InstanceId) (now : Tick)
    (caps : CapabilityMask) : (((observing c).trace k
      (ids.map (fun inst => .pop inst now caps))).map RegistryCall.registers).sum = 0 := by
  induction ids generalizing k with
  | nil => rfl
  | cons inst ids ih =>
    rw [List.map_cons,Transducer.trace,List.map_append,List.sum_append]
    have hi := ih ((micro c).next k (.pop inst now caps))
    have ho := delivers_register_nothing (k.emits (.pop inst now caps))
    change ((k.observes (.pop inst now caps)).map RegistryCall.registers).sum + _ = 0
    exact Nat.add_eq_zero_iff.mpr ⟨ho,hi⟩

theorem registryCalls_registers (k : Kernel) (calls : List Call) :
    ((k.registryCalls c calls).map RegistryCall.registers).sum =
      (calls.map Call.registrations).sum := by
  unfold registryCalls
  induction calls generalizing k with
  | nil => rfl
  | cons call calls ih =>
    have hi := ih ((machine c).next k call)
    rw [Transducer.Expansion.words,Transducer.trace_append,List.map_append,List.sum_append,
      List.map_cons,List.sum_cons]
    have hrun : (observing c).run k ((expansion c).word k call) = (machine c).next k call := by
      rw [observing,Transducer.withOut_run,← (expansion c).next_eq]
    rw [hrun,hi]
    congr 1
    cases call with
    | request req =>
      change (((k.observes (.request req)) ++ []).map RegistryCall.registers).sum = _
      rw [List.append_nil]
      cases req with
      | registerObserver obs mask => rfl
      | forceUnload route caps => exact delivers_register_nothing _
      | _ => rfl
    | step now caps => exact pops_register_nothing c k _ now caps

theorem run_fresh (manifest : Block) (wal : Option WalWriter) (calls : List Call)
    (hb : (calls.map Call.registrations).sum ≤ u64Max) :
    ((machine c).run (build manifest wal) calls).observers.Fresh ∧
      ((machine c).run (build manifest wal) calls).observers.nextHandle =
        (calls.map Call.registrations).sum := by
  rw [run_observers,← registryCalls_registers c (build manifest wal)] at *
  have h := registry_run_fresh new_fresh ((build manifest wal).registryCalls c calls)
    ((Nat.zero_add _).trans_le hb)
  exact ⟨h.1,h.2.trans (Nat.zero_add _)⟩

theorem observer_received (manifest : Block) (wal : Option WalWriter) (pre post : List Call)
    (obs : KernelObserver) (mask : EventMask)
    (hb : ((pre ++ .request (.registerObserver obs mask) :: post).map Call.registrations).sum ≤
      u64Max) :
    let k := (machine c).run (build manifest wal) pre
    let k' := (k.registerObserverFiltered obs mask).2
    ((machine c).run k' post).observers.received (k.registerObserverFiltered obs mask).1 =
      handed obs [] ((k'.emissions c post).filter mask.accepts) := by
  intro k k'
  rw [List.map_append,List.sum_append,List.map_cons,List.sum_cons] at hb
  change (pre.map Call.registrations).sum + (1 + (post.map Call.registrations).sum) ≤ _ at hb
  obtain ⟨hf,hn⟩ := run_fresh c manifest wal pre (by omega)
  rw [run_observers,← registryCalls_events]
  apply registered_received hf
  rw [hn,registryCalls_registers]
  omega

theorem run_evictions (manifest : Block) (wal : Option WalWriter) (calls : List Call) :
    (registry.trace .new ((build manifest wal).registryCalls c calls)).Nodup ∧
      ∀ p, p ∈ registry.trace .new ((build manifest wal).registryCalls c calls) ↔
        ((machine c).run (build manifest wal) calls).observers.evicted.contains p = true := by
  rw [run_observers]
  apply registry_evictions
  intro p
  simp [ObserverRegistry.seat,ObserverRegistry.new]

end Kernel
end ArkheKernel
