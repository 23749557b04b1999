import ArkheKernel.Authority

/-!
# Unprivileged instances cannot influence others

Two kernels are alike up to an instance `X` when they agree on everything that
the other instances can read. Without the SYSTEM bit `X` stages no signal, so
neither its submissions nor its executions are seen outside of it.
-/

set_option autoImplicit false

namespace ArkheKernel
open OrderedMap PrefixCode

def Unprivileged (config : InstanceConfig) : Prop := config.defaultCaps.contains .SYSTEM = false

def Quiet (X : InstanceId) (m : BTreeMap InstanceId Instance) : Prop :=
  ∀ i : Instance, m[X]? = some i → Unprivileged i.config

/-- Instances that differ in the state of `X` only, which is unprivileged. -/
structure AlikeMap (X : InstanceId) (m m' : BTreeMap InstanceId Instance) : Prop where
  elsewhere : ∀ id : InstanceId, id ≠ X → m[id]? = m'[id]?
  member : X ∈ m ↔ X ∈ m'
  quiet : Quiet X m
  quiet' : Quiet X m'

structure Alike (X : InstanceId) (k k' : Kernel) : Prop where
  counter : k.nextInstanceId = k'.nextInstanceId
  registry : k.actionRegistry = k'.actionRegistry
  instances : AlikeMap X k.instances k'.instances

def Request.off (X : InstanceId) : Request → Bool
  | .submit s => s.inst ≠ X
  | _ => true

def Call.off (X : InstanceId) : Call → Bool
  | .request r => r.off X
  | .step _ _ => true

def Micro.off (X : InstanceId) : Micro → Bool
  | .request r => r.off X
  | .pop _ _ _ => true

def Item.off (X : InstanceId) : Item → Bool
  | .created _ _ => true
  | .admitted id _ => id ≠ X
  | .executed x => x.instId ≠ X

def Item.Restrained (X : InstanceId) (o : Item) : Prop :=
  ∀ config, o = .created X config → Unprivileged config

section Maps
variable {X : InstanceId} {m m' m'' : BTreeMap InstanceId Instance}

theorem AlikeMap.refl (hq : Quiet X m) : AlikeMap X m m := ⟨fun _ _ => rfl,Iff.rfl,hq,hq⟩

theorem AlikeMap.symm (h : AlikeMap X m m') : AlikeMap X m' m :=
  ⟨fun id hid => (h.elsewhere id hid).symm,h.member.symm,h.quiet',h.quiet⟩

theorem AlikeMap.trans (h : AlikeMap X m m') (h' : AlikeMap X m' m'') : AlikeMap X m m'' :=
  ⟨fun id hid => (h.elsewhere id hid).trans (h'.elsewhere id hid),h.member.trans h'.member,
    h.quiet,h'.quiet'⟩

theorem AlikeMap.keys (h : AlikeMap X m m') : m.keys = m'.keys := by
  apply keys_congr
  intro id
  by_cases hid : id = X
  · rw [hid]
    exact h.member
  · rw [mem_iff_get,mem_iff_get,h.elsewhere id hid]

theorem AlikeMap.own {i i' : Instance} (hq : Quiet X m) (hi : m[X]? = some i)
    (hc : i'.config = i.config) : AlikeMap X (m.insert X i') m where
  elsewhere id hid := get_insert_ne _ _ hid
  member := by
    rw [mem_insert,mem_iff_get m]
    exact ⟨fun _ => ⟨i,hi⟩,fun h => Or.inr h⟩
  quiet j hj := by
    rw [get_insert_self] at hj
    obtain rfl := Option.some.inj hj
    rw [hc]
    exact hq i hi
  quiet' := hq

theorem AlikeMap.insert (h : AlikeMap X m m') {id : InstanceId} {i : Instance}
    (hu : id = X → Unprivileged i.config) : AlikeMap X (m.insert id i) (m'.insert id i) := by
  have hquiet : ∀ n : BTreeMap InstanceId Instance, Quiet X n → Quiet X (n.insert id i) := by
    intro n hn j hj
    rw [get_insert] at hj
    split at hj
    · next he =>
      obtain rfl := Option.some.inj hj
      exact hu he.symm
    · exact hn j hj
  refine ⟨?_,?_,hquiet m h.quiet,hquiet m' h.quiet'⟩
  · intro j hj
    rw [get_insert,get_insert,h.elsewhere j hj]
  · rw [mem_insert,mem_insert,h.member]

theorem AlikeMap.map (h : AlikeMap X m m') {f : InstanceId → Instance → Instance}
    (hf : ∀ id i, (f id i).config = i.config) {n n' : BTreeMap InstanceId Instance}
    (hn : ∀ id : InstanceId, n[id]? = (m[id]?).map (f id))
    (hn' : ∀ id : InstanceId, n'[id]? = (m'[id]?).map (f id)) : AlikeMap X n n' where
  elsewhere j hj := by rw [hn,hn',h.elsewhere j hj]
  member := by
    rw [← not_iff_not,not_mem_iff_get,not_mem_iff_get,hn,hn',Option.map_eq_none_iff,
      Option.map_eq_none_iff,← not_mem_iff_get,← not_mem_iff_get,h.member]
  quiet j hj := by
    rw [hn] at hj
    obtain ⟨i,hi,rfl⟩ := Option.map_eq_some_iff.mp hj
    rw [hf]
    exact h.quiet i hi
  quiet' j hj := by
    rw [hn'] at hj
    obtain ⟨i,hi,rfl⟩ := Option.map_eq_some_iff.mp hj
    rw [hf]
    exact h.quiet' i hi

theorem AlikeMap.settle (h : AlikeMap X m m') (x : Execution) (hx : x.instId ≠ X) :
    AlikeMap X (x.settle m) (x.settle m') := by
  have hins : AlikeMap X (m.insert x.instId x.after) (m'.insert x.instId x.after) :=
    h.insert (fun he => absurd he hx)
  apply hins.map (f := fun j i => i.receiveAll x.instId j x.stage.pendingSignals)
  · intro j i
    obtain ⟨_,_,_,he⟩ := i.receiveAll_frame x.instId j x.stage.pendingSignals
    rw [he]
  · exact fun j => routeAll_get _ _ _ _
  · exact fun j => routeAll_get _ _ _ _

end Maps

section Kernels
variable (c : Crypto) {X : InstanceId} {k k' k'' : Kernel}

theorem Execution.unprivileged_silent (x : Execution) (h : Unprivileged x.before.config) :
    x.stage.pendingSignals = [] := by
  by_contra hne
  have hs := x.caps_subset_default.contains (x.reaches_privileged (Or.inr hne)).1
  rw [Unprivileged,hs] at h
  cases h

theorem Alike.refl (hq : Quiet X k.instances) : Alike X k k := ⟨rfl,rfl,.refl hq⟩

theorem Alike.symm (h : Alike X k k') : Alike X k' k :=
  ⟨h.counter.symm,h.registry.symm,h.instances.symm⟩

theorem Alike.trans (h : Alike X k k') (h' : Alike X k' k'') : Alike X k k'' :=
  ⟨h.counter.trans h'.counter,h.registry.trans h'.registry,h.instances.trans h'.instances⟩

theorem submit_alike (hq : Quiet X k.instances) (s : Submission) (hs : s.inst = X) :
    Alike X (k.submit c s).2 k := by
  rcases Kernel.submit_cases c k s with ⟨e,he⟩ | ⟨i,hi,-,he⟩
  · rw [he]
    exact .refl hq
  · rw [he]
    subst hs
    exact ⟨rfl,rfl,.own hq hi rfl⟩

theorem pop_alike (hq : Quiet X k.instances) (now : Tick) (caps : CapabilityMask) :
    Alike X (k.pop c X now caps) k := by
  cases h : k.execution X now caps with
  | none =>
    rw [Kernel.pop_none c h]
    exact .refl hq
  | some x =>
    obtain ⟨scratch,hs⟩ := Kernel.pop_some c h
    obtain ⟨hi,rfl,-⟩ := Kernel.execution_some h
    have hsettle : x.settle k.instances = k.instances.insert x.instId x.after := by
      rw [Execution.settle,x.unprivileged_silent (hq _ hi)]
      rfl
    rw [hs,hsettle]
    exact ⟨rfl,rfl,.own hq hi x.after_config⟩

theorem Alike.create (h : Alike X k k') (config : InstanceConfig)
    (hc : Item.Restrained X (.created (k.createInstance config).1 config)) :
    Alike X (k.createInstance config).2 (k'.createInstance config).2 := by
  unfold Kernel.createInstance
  rw [← h.counter]
  exact ⟨rfl,h.registry,h.instances.insert (fun he => hc config (by rw [← he]; rfl))⟩

theorem Alike.submit (h : Alike X k k') (s : Submission) (hs : s.inst ≠ X) :
    Alike X (k.submit c s).2 (k'.submit c s).2 ∧ (k.submit c s).1 = (k'.submit c s).1 := by
  have he := h.instances.elsewhere s.inst hs
  unfold Kernel.submit
  rw [← he]
  cases hi : k.instances[s.inst]? with
  | none => exact ⟨h,rfl⟩
  | some i =>
    dsimp only
    split
    · exact ⟨h,rfl⟩
    · exact ⟨⟨h.counter,h.registry,h.instances.insert (fun hx => absurd hx hs)⟩,rfl⟩

theorem Alike.unload (h : Alike X k k') (route : RouteId) (caps : CapabilityMask) :
    Alike X (k.forceUnload route caps).2 (k'.forceUnload route caps).2 := by
  unfold Kernel.forceUnload
  split
  · exact h
  · refine ⟨h.counter,h.registry,?_⟩
    apply h.instances.map (f := fun _ i => { i with inflightRefs := i.inflightRefs.erase route })
    · exact fun _ _ => rfl
    · exact fun _ => get_map _ _ _
    · exact fun _ => get_map _ _ _

theorem Alike.execution (h : Alike X k k') {id : InstanceId} (hid : id ≠ X) (now : Tick)
    (caps : CapabilityMask) : k.execution id now caps = k'.execution id now caps := by
  unfold Kernel.execution
  rw [h.instances.elsewhere id hid,h.registry]

theorem Alike.pop (h : Alike X k k') (id : InstanceId) (now : Tick) (caps : CapabilityMask) :
    Alike X (k.pop c id now caps) (k'.pop c id now caps) := by
  by_cases hid : id = X
  · rw [hid]
    have hq := h.instances.quiet
    have hq' := h.instances.quiet'
    exact ((pop_alike c hq now caps).trans h).trans (pop_alike c hq' now caps).symm
  · have hx := h.execution hid now caps
    cases hk : k.execution id now caps with
    | none =>
      rw [hk] at hx
      rw [Kernel.pop_none c hk,Kernel.pop_none c hx.symm]
      exact h
    | some x =>
      rw [hk] at hx
      obtain ⟨_,hs⟩ := Kernel.pop_some c hk
      obtain ⟨_,hs'⟩ := Kernel.pop_some c hx.symm
      obtain ⟨-,rfl,-⟩ := Kernel.execution_some hk
      rw [hs,hs']
      exact ⟨h.counter,h.registry,h.instances.settle x hid⟩

theorem request_shared (h : Alike X k k') (r : Request) (hr : r.off X = true)
    (hg : ∀ o ∈ k.served c r, o.Restrained X) : Alike X (k.serve c r) (k'.serve c r) ∧
      (k.served c r).filter (Item.off X) = (k'.served c r).filter (Item.off X) := by
  cases r with
  | createInstance config =>
    have hid : (k'.createInstance config).1 = (k.createInstance config).1 := by
      unfold Kernel.createInstance
      rw [h.counter]
    refine ⟨h.create config (hg _ (List.mem_singleton.mpr rfl)),?_⟩
    rw [Kernel.served,Kernel.served,hid]
  | submit s =>
    have hs : s.inst ≠ X := by simpa [Request.off] using hr
    obtain ⟨ha,hres⟩ := h.submit c s hs
    refine ⟨ha,?_⟩
    rw [Kernel.served,Kernel.served,hres]
  | forceUnload route caps => exact ⟨h.unload route caps,rfl⟩
  | registerAction typeCode reg =>
    refine ⟨⟨h.counter,?_,h.instances⟩,rfl⟩
    change k.actionRegistry.insert typeCode reg = k'.actionRegistry.insert typeCode reg
    rw [h.registry]
  | registerObserver obs mask => exact ⟨⟨h.counter,h.registry,h.instances⟩,rfl⟩

theorem request_hidden (h : Alike X k k') (r : Request) (hr : r.off X = false) :
    Alike X (k.serve c r) k' ∧ (k.served c r).filter (Item.off X) = [] := by
  cases r with
  | submit s =>
    have hs : s.inst = X := by simpa [Request.off] using hr
    refine ⟨(submit_alike c h.instances.quiet s hs).trans h,?_⟩
    rw [Kernel.served]
    split
    · rw [hs]
      simp [Item.off]
    · rfl
  | _ => cases hr

theorem micro_unwinding : (Kernel.micro c).Unwinding (Alike X) (Micro.off X) (Item.off X)
    (Item.Restrained X) where
  symm _ _ h := h.symm
  shared k k' a ha h hg := by
    cases a with
    | request r => exact request_shared c h r ha hg
    | pop id now caps =>
      refine ⟨h.pop c id now caps,?_⟩
      change List.filter _ ((k.execution id now caps).map Item.executed).toList =
        List.filter _ ((k'.execution id now caps).map Item.executed).toList
      by_cases hid : id = X
      · -- whatever `X` runs is its own business
        have hown : ∀ l : Kernel, List.filter (Item.off X)
            ((l.execution id now caps).map Item.executed).toList = [] := by
          intro l
          cases hx : l.execution id now caps with
          | none => rfl
          | some x =>
            obtain ⟨-,hi,-⟩ := Kernel.execution_some hx
            simp [Item.off,hi,hid]
        rw [hown,hown]
      · rw [h.execution hid]
  hidden k k' a ha h := by
    cases a with
    | request r => exact request_hidden c h r ha
    | pop id now caps => cases ha

theorem machine_unwinding : (Kernel.machine c).Unwinding (Alike X) (Call.off X) (Item.off X)
    (Item.Restrained X) where
  symm _ _ h := h.symm
  shared k k' a ha h hg := by
    cases a with
    | request r => exact request_shared c h r ha hg
    | step now caps =>
      have hpops : k'.pops now caps = k.pops now caps := by
        rw [Kernel.pops,Kernel.pops,h.instances.keys]
      have hrun := (micro_unwinding c).run k k' (k.pops now caps) (k'.pops now caps)
        (by rw [hpops]) hg h
      change Alike X (k.step c now caps).2 (k'.step c now caps).2 ∧ _
      rw [Kernel.step_eq,Kernel.step_eq]
      exact hrun
  hidden k k' a ha h := by
    cases a with
    | request r => exact request_hidden c h r ha
    | step now caps => cases ha

end Kernels

def Item.outcome (c : Crypto) : Item → Option (InstanceId × ScheduledActionId × StepVerdict × Block)
  | .executed x => some (x.instId,x.entry.id,x.verdict,stateDigest c x.after)
  | _ => none

def outcomesOff (c : Crypto) (X : InstanceId) (tr : List Item) :
    List (InstanceId × ScheduledActionId × StepVerdict × Block) :=
  (tr.filter (Item.off X)).filterMap (Item.outcome c)

/-- Two runs that differ only in what they submit to an unprivileged instance
leave every other instance in the same state and report the same outcomes for
it. As the call lists are arbitrary, this holds after every call of two runs. -/
theorem unprivileged_noninterference (c : Crypto) (manifest : Block) (wal : Option WalWriter)
    (X : InstanceId) (calls calls' : List Call)
    (hsame : calls.filter (Call.off X) = calls'.filter (Call.off X))
    (hX : ∀ config,
      .created X config ∈ (Kernel.machine c).trace (Kernel.build manifest wal) calls →
        config.defaultCaps.contains .SYSTEM = false) :
    (∀ id : InstanceId, id ≠ X →
      ((Kernel.machine c).run (Kernel.build manifest wal) calls).instances[id]? =
        ((Kernel.machine c).run (Kernel.build manifest wal) calls').instances[id]?) ∧
    outcomesOff c X ((Kernel.machine c).trace (Kernel.build manifest wal) calls) =
      outcomesOff c X ((Kernel.machine c).trace (Kernel.build manifest wal) calls') := by
  have hstart : Alike X (Kernel.build manifest wal) (Kernel.build manifest wal) :=
    .refl (fun i hi => by simp [Kernel.build] at hi)
  have hgood : ∀ o ∈ (Kernel.machine c).trace (Kernel.build manifest wal) calls,
      o.Restrained X := by
    intro o ho config he
    rw [he] at ho
    exact hX config ho
  obtain ⟨ha,ht⟩ := (machine_unwinding c).run _ _ calls calls' hsame hgood hstart
  exact ⟨ha.instances.elsewhere,by rw [outcomesOff,ht,outcomesOff]⟩

def Item.configOf (X : InstanceId) : Item → Option InstanceConfig
  | .created id config => if id = X then some config else none
  | _ => none

def neighbourCalls (submissions : List Submission) : List Call := [
  .request (.registerAction (.clamp 7) (.constant [
    .sendSignal ⟨.succ 1⟩ ⟨1⟩ [9], .spawnEntity ⟨.succ 0⟩ .system])),
  .request (.createInstance {}),
  .request (.createInstance { defaultCaps := .SYSTEM })] ++
  submissions.map (fun s => .request (.submit s)) ++ [
  .request (.submit ⟨⟨.succ 1⟩,.system,none,.SYSTEM,⟨1⟩,.clamp 7,[]⟩),
  .step ⟨1⟩ .SYSTEM]

theorem neighbourCalls_restrained (config : InstanceConfig)
    (h : .created ⟨.succ 0⟩ config ∈ (Kernel.machine standIn).trace (.build zeroBlock none)
      (neighbourCalls [⟨⟨.succ 0⟩,.system,none,.SYSTEM,⟨1⟩,.clamp 7,[]⟩])) :
    config.defaultCaps.contains .SYSTEM = false := by
  have hall : (((Kernel.machine standIn).trace (.build zeroBlock none)
      (neighbourCalls [⟨⟨.succ 0⟩,.system,none,.SYSTEM,⟨1⟩,.clamp 7,[]⟩])).filterMap
        (Item.configOf ⟨.succ 0⟩)).all (fun g => !g.defaultCaps.contains .SYSTEM) = true := by
    decide +kernel
  have hm := List.all_eq_true.mp hall config (List.mem_filterMap.mpr ⟨_,h,by simp [Item.configOf]⟩)
  simpa using hm

theorem unprivileged_noninterference_neighbour :
    outcomesOff standIn ⟨.succ 0⟩ ((Kernel.machine standIn).trace (.build zeroBlock none)
      (neighbourCalls [⟨⟨.succ 0⟩,.system,none,.SYSTEM,⟨1⟩,.clamp 7,[]⟩])) =
    outcomesOff standIn ⟨.succ 0⟩ ((Kernel.machine standIn).trace (.build zeroBlock none)
      (neighbourCalls [])) :=
  (unprivileged_noninterference standIn zeroBlock none ⟨.succ 0⟩ _ _ rfl
    neighbourCalls_restrained).2

end ArkheKernel
