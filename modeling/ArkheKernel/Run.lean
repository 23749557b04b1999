import ArkheKernel.KernelStep
import ArkheKernel.Transducer

/-!
# Runs of the kernel

A run is a list of calls. The micro machine splits a step into its pops, so
that an invariant is checked once per pop. Both machines emit the same items:
instances created, submissions admitted, entries executed.
-/

set_option autoImplicit false

namespace ArkheKernel
open OrderedMap PrefixCode

inductive Request where
  | createInstance (config : InstanceConfig)
  | submit (s : Submission)
  | forceUnload (route : RouteId) (caps : CapabilityMask)
  | registerAction (typeCode : TypeCode) (reg : ActionRegistration)
  | registerObserver (obs : KernelObserver) (mask : EventMask)

inductive Call where
  | request (r : Request)
  | step (now : Tick) (caps : CapabilityMask)

inductive Micro where
  | request (r : Request)
  | pop (inst : InstanceId) (now : Tick) (caps : CapabilityMask)

inductive Item where
  | created (id : InstanceId) (config : InstanceConfig)
  | admitted (inst : InstanceId) (entry : ScheduledEntry)
  | executed (x : Execution)

def Item.execution : Item → Option Execution
  | .executed x => some x
  | _ => none

namespace Kernel
variable (c : Crypto)

def serve (k : Kernel) : Request → Kernel
  | .createInstance config => (k.createInstance config).2
  | .submit s => (k.submit c s).2
  | .forceUnload route caps => (k.forceUnload route caps).2
  | .registerAction typeCode reg => k.registerAction typeCode reg
  | .registerObserver obs mask => (k.registerObserverFiltered obs mask).2

def served (k : Kernel) : Request → List Item
  | .createInstance config => [.created (k.createInstance config).1 config]
  | .submit s =>
    match (k.submit c s).1 with
    | .ok id => [.admitted s.inst (s.entry id)]
    | .error _ => []
  | _ => []

def micro : Transducer Kernel Micro Item where
  next k
    | .request r => k.serve c r
    | .pop inst now caps => k.pop c inst now caps
  out k
    | .request r => k.served c r
    | .pop inst now caps => ((k.execution inst now caps).map Item.executed).toList

def pops (k : Kernel) (now : Tick) (caps : CapabilityMask) : List Micro :=
  k.instances.keys.map (fun inst => .pop inst now caps)

def machine : Transducer Kernel Call Item where
  next k
    | .request r => k.serve c r
    | .step now caps => (k.step c now caps).2
  out k
    | .request r => k.served c r
    | .step now caps => (micro c).trace k (k.pops now caps)

variable {k : Kernel}

theorem pop_wal_isSome (inst : InstanceId) (now : Tick) (caps : CapabilityMask) :
    (k.pop c inst now caps).wal.isSome = k.wal.isSome := by
  cases h : k.execution inst now caps with
  | none => rw [pop_none c h]
  | some x =>
    obtain ⟨scratch,hs⟩ := pop_some c h
    rw [hs]
    cases k.wal <;> rfl

theorem stepInstance_snd (now : Tick) (caps : CapabilityMask) (report : StepReport)
    (inst : InstanceId) : (stepInstance c now caps k.wal.isSome (report,k) inst).2 =
      k.pop c inst now caps := by
  unfold pop stepInstance
  dsimp only
  cases k.processInstanceRecord c inst now caps k.wal.isSome <;> rfl

/-- A step is the run of its pops over the keys it started with. -/
theorem step_eq (now : Tick) (caps : CapabilityMask) :
    (k.step c now caps).2 = (micro c).run k (k.pops now caps) := by
  have hfold : ∀ (ids : List InstanceId) (report : StepReport) (k' : Kernel),
      k'.wal.isSome = k.wal.isSome →
      (ids.foldl (stepInstance c now caps k.wal.isSome) (report,k')).2 =
        (micro c).run k' (ids.map (fun inst => .pop inst now caps)) := by
    intro ids
    induction ids with
    | nil => intro report k' hw; rfl
    | cons inst ids ih =>
      intro report k' hw
      rw [List.foldl_cons]
      have hs := stepInstance_snd c (k := k') now caps report inst
      rw [hw] at hs
      have hp : stepInstance c now caps k.wal.isSome (report,k') inst =
          ((stepInstance c now caps k.wal.isSome (report,k') inst).1,k'.pop c inst now caps) := by
        rw [← hs]
      rw [hp,ih _ _ ((pop_wal_isSome c inst now caps).trans hw)]
      rfl
  exact hfold _ _ _ rfl

def expansion : Transducer.Expansion (machine c) (micro c) where
  word k
    | .request r => [.request r]
    | .step now caps => k.pops now caps
  next_eq k
    | .request r => rfl
    | .step now caps => step_eq c now caps
  out_eq k
    | .request r => by simp [machine,micro,Transducer.trace]
    | .step now caps => rfl

/-- The run comes to this kernel with this micro step to do next. -/
def At (k₀ : Kernel) (calls : List Call) (k : Kernel) (a : Micro) : Prop :=
  ∃ as bs, (expansion c).words k₀ calls = as ++ a::bs ∧ (micro c).run k₀ as = k

theorem at_first_pop {k₀ : Kernel} {calls : List Call} {inst : InstanceId} {insts : List InstanceId}
    (hkeys : ((machine c).run k₀ calls).instances.keys = inst::insts) (now : Tick)
    (caps : CapabilityMask) : At c k₀ (calls ++ [.step now caps]) ((machine c).run k₀ calls)
      (.pop inst now caps) := by
  refine ⟨(expansion c).words k₀ calls,insts.map (fun inst => .pop inst now caps),?_,
    ((expansion c).run_eq k₀ calls).symm⟩
  rw [Transducer.Expansion.words_append]
  show _ ++ (((machine c).run k₀ calls).pops now caps ++ []) = _
  rw [pops,hkeys,List.append_nil,List.map_cons]

/-- Everything one micro step can do to the instances, with what it emits. -/
inductive Change : BTreeMap InstanceId Instance → List Item → BTreeMap InstanceId Instance → Prop
  | created (m : BTreeMap InstanceId Instance) (id : InstanceId) (config : InstanceConfig) :
      Change m [.created id config] (m.insert id (.new id config))
  | admitted (m : BTreeMap InstanceId Instance) (s : Submission) (i : Instance)
      (hi : m[s.inst]? = some i) (hq : i.schedulerFull = false) :
      Change m [.admitted s.inst (s.entry (i.submit s).1)] (m.insert s.inst (i.submit s).2)
  | executed (m : BTreeMap InstanceId Instance) (x : Execution)
      (hx : m[x.instId]? = some x.before) : Change m [.executed x] (x.settle m)
  | unloaded (m : BTreeMap InstanceId Instance) (route : RouteId) :
      Change m [] (m.map (fun _ i => { i with inflightRefs := i.inflightRefs.erase route }))
  | silent (m : BTreeMap InstanceId Instance) : Change m [] m

theorem submit_cases (k : Kernel) (s : Submission) :
    (∃ e, k.submit c s = (.error e,k)) ∨
    ∃ i, k.instances[s.inst]? = some i ∧ i.schedulerFull = false ∧
      k.submit c s = (.ok (i.submit s).1, { k with
        instances := k.instances.insert s.inst (i.submit s).2
        wal := k.wal.map (fun w => w.appendSubmit c s.inst s.principal s.actor s.caps.bits s.atTick
          s.actionTypeCode s.actionBytes (i.submit s).1) }) := by
  unfold submit
  split
  · exact Or.inl ⟨_,rfl⟩
  · next i hi =>
    split
    · exact Or.inl ⟨_,rfl⟩
    · next hq => exact Or.inr ⟨i,hi,by simpa using hq,rfl⟩

theorem request_change (k : Kernel) (r : Request) :
    Change k.instances (k.served c r) (k.serve c r).instances := by
  cases r with
  | createInstance config => exact .created _ _ _
  | submit s =>
    unfold served serve
    dsimp only
    rcases submit_cases c k s with ⟨e,he⟩ | ⟨i,hi,hq,he⟩
    · rw [he]
      exact .silent _
    · rw [he]
      exact .admitted _ s i hi hq
  | forceUnload route caps =>
    simp only [serve,served,forceUnload]
    split
    · exact .silent _
    · exact .unloaded _ route
  | registerAction typeCode reg => exact .silent _
  | registerObserver obs mask => exact .silent _

theorem micro_change (k : Kernel) (a : Micro) :
    Change k.instances ((micro c).out k a) ((micro c).next k a).instances := by
  cases a with
  | request r => exact request_change c k r
  | pop inst now caps =>
    simp only [micro]
    cases h : k.execution inst now caps with
    | none =>
      rw [pop_none c h]
      exact .silent _
    | some x =>
      obtain ⟨scratch,hs⟩ := pop_some c h
      obtain ⟨hi,rfl,-⟩ := execution_some h
      rw [hs]
      exact .executed _ x hi

/-- A property of single instances that every way of changing one preserves,
given what the kernel has checked, as long as the executions are good. -/
structure Guarded (good : Execution → Prop) (P : InstanceId → Instance → Prop) : Prop where
  created : ∀ id config, P id (.new id config)
  admitted : ∀ id i s, i.schedulerFull = false → P id i → P id (i.submit s).2
  executed : ∀ x : Execution, good x → P x.instId x.before → P x.instId x.after
  accepted : ∀ id i source sig, i.inboxFull sig.route = false → P id i → P id (i.accept source sig)
  unloaded : ∀ id i route, P id i → P id { i with inflightRefs := i.inflightRefs.erase route }

structure Preserved (good : Execution → Prop) (P : InstanceId → Instance → Prop) : Prop where
  created : ∀ id config, P id (.new id config)
  admitted : ∀ id i s, P id i → P id (i.submit s).2
  executed : ∀ x : Execution, good x → P x.instId x.before → P x.instId x.after
  signals : ∀ id i refs inbox seq, P id i →
    P id { i with inflightRefs := refs, signalInbox := inbox, inboxSeq := seq }

def Everywhere (P : InstanceId → Instance → Prop) (m : BTreeMap InstanceId Instance) : Prop :=
  ∀ id i, m[id]? = some i → P id i

theorem build_everywhere (P : InstanceId → Instance → Prop) (manifest : Block)
    (wal : Option WalWriter) : Everywhere P (build manifest wal).instances := by
  intro id i hi
  simp [build] at hi

section Everywhere
variable {P : InstanceId → Instance → Prop} {m : BTreeMap InstanceId Instance}

theorem Everywhere.insert (hm : Everywhere P m) {id : InstanceId} {i : Instance} (h : P id i) :
    Everywhere P (m.insert id i) := by
  intro id' i' hi
  rcases get_insert_some.mp hi with ⟨rfl,rfl⟩ | ⟨-,hi⟩
  · exact h
  · exact hm id' i' hi

theorem everywhere_map {f : Instance → Instance}
    (h : ∀ (id : InstanceId) (i : Instance), m[id]? = some i → P id (f i)) :
    Everywhere P (m.map (fun _ i => f i)) := by
  intro id i hi
  rw [get_map] at hi
  obtain ⟨j,hj,rfl⟩ := Option.map_eq_some_iff.mp hi
  exact h id j hj

theorem everywhere_settle (x : Execution)
    (hx : P x.instId (x.after.receiveAll x.instId x.instId x.stage.pendingSignals))
    (h : ∀ (id : InstanceId) (i : Instance), m[id]? = some i →
      P id (i.receiveAll x.instId id x.stage.pendingSignals)) : Everywhere P (x.settle m) := by
  intro id i hi
  rw [x.settle_get] at hi
  split at hi
  · next he =>
    obtain rfl := Option.some.inj hi
    rw [he]
    exact hx
  · obtain ⟨j,hj,rfl⟩ := Option.map_eq_some_iff.mp hi
    exact h id j hj

end Everywhere

section Guarded
variable {good : Execution → Prop} {P : InstanceId → Instance → Prop} (h : Guarded good P)
include h

theorem Guarded.receiveAll {id : InstanceId} {i : Instance} (hi : P id i) (source : InstanceId)
    (sigs : List PendingSignal) : P id (i.receiveAll source id sigs) := by
  induction sigs generalizing i with
  | nil => exact hi
  | cons sig sigs ih =>
    apply ih
    change P id (i.receive source id sig)
    unfold Instance.receive
    split
    · next hs => exact h.accepted id i source sig hs.2 hi
    · exact hi

theorem Guarded.change {m m' : BTreeMap InstanceId Instance} {items : List Item}
    (hc : Change m items m') (hg : ∀ x, .executed x ∈ items → good x) (hm : Everywhere P m) :
    Everywhere P m' := by
  cases hc with
  | created id config => exact hm.insert (h.created id config)
  | admitted s i hi hq => exact hm.insert (h.admitted s.inst i s hq (hm _ _ hi))
  | executed x hx =>
    have hafter := h.executed x (hg x (List.mem_singleton.mpr rfl)) (hm _ _ hx)
    apply everywhere_settle x (h.receiveAll hafter _ _)
    intro id i hi
    exact h.receiveAll (hm id i hi) _ _
  | unloaded route =>
    apply everywhere_map
    intro id i hi
    exact h.unloaded id i route (hm id i hi)
  | silent => exact hm

theorem Guarded.micro_run (k : Kernel) (as : List Micro)
    (hg : ∀ x, .executed x ∈ (micro c).trace k as → good x) (hk : Everywhere P k.instances) :
    Everywhere P ((micro c).run k as).instances := by
  induction as generalizing k with
  | nil => exact hk
  | cons a as ih =>
    have hout : ∀ x, .executed x ∈ (micro c).out k a → good x :=
      fun x hx => hg x (List.mem_append_left _ hx)
    exact ih ((micro c).next k a) (fun x hx => hg x (List.mem_append_right _ hx))
      (h.change (micro_change c k a) hout hk)

theorem Guarded.micro_trace (k : Kernel) (as : List Micro)
    (hg : ∀ x, .executed x ∈ (micro c).trace k as → good x) (hk : Everywhere P k.instances) :
    ∀ x, .executed x ∈ (micro c).trace k as → P x.instId x.before := by
  induction as generalizing k with
  | nil =>
    intro x hx
    cases hx
  | cons a as ih =>
    intro x hx
    have hout : ∀ y, .executed y ∈ (micro c).out k a → good y :=
      fun y hy => hg y (List.mem_append_left _ hy)
    rcases List.mem_append.mp hx with hx | hx
    · have hc := micro_change c k a
      generalize (micro c).out k a = items at hc hx
      generalize ((micro c).next k a).instances = m' at hc
      cases hc with
      | executed y hy =>
        obtain rfl := Item.executed.inj (List.mem_singleton.mp hx)
        exact hk _ _ hy
      | created _ _ => cases List.mem_singleton.mp hx
      | admitted _ _ _ _ => cases List.mem_singleton.mp hx
      | unloaded _ => cases hx
      | silent => cases hx
    · exact ih ((micro c).next k a) (fun y hy => hg y (List.mem_append_right _ hy))
        (h.change (micro_change c k a) hout hk) x hx

theorem Guarded.reachable (manifest : Block) (wal : Option WalWriter) (calls : List Call)
    (hg : ∀ x, .executed x ∈ (machine c).trace (build manifest wal) calls → good x) :
    Everywhere P ((machine c).run (build manifest wal) calls).instances := by
  rw [(expansion c).trace_eq] at hg
  rw [(expansion c).run_eq]
  exact h.micro_run c _ _ hg (build_everywhere P manifest wal)

end Guarded

section Preserved
variable {good : Execution → Prop} {P : InstanceId → Instance → Prop} (h : Preserved good P)
include h

theorem Preserved.guarded : Guarded good P where
  created := h.created
  admitted id i s _ hi := h.admitted id i s hi
  executed := h.executed
  accepted id i _ _ _ hi := h.signals id i _ _ _ hi
  unloaded id i _ hi := h.signals id i _ _ _ hi

theorem Preserved.change {m m' : BTreeMap InstanceId Instance} {items : List Item}
    (hc : Change m items m') (hg : ∀ x, .executed x ∈ items → good x) (hm : Everywhere P m) :
    Everywhere P m' :=
  h.guarded.change hc hg hm

theorem Preserved.micro_run (k : Kernel) (as : List Micro)
    (hg : ∀ x, .executed x ∈ (micro c).trace k as → good x) (hk : Everywhere P k.instances) :
    Everywhere P ((micro c).run k as).instances :=
  h.guarded.micro_run c k as hg hk

theorem Preserved.micro_trace (k : Kernel) (as : List Micro)
    (hg : ∀ x, .executed x ∈ (micro c).trace k as → good x) (hk : Everywhere P k.instances) :
    ∀ x, .executed x ∈ (micro c).trace k as → P x.instId x.before :=
  h.guarded.micro_trace c k as hg hk

/-- A preserved property holds of every instance of every reachable kernel. -/
theorem Preserved.reachable (manifest : Block) (wal : Option WalWriter) (calls : List Call)
    (hg : ∀ x, .executed x ∈ (machine c).trace (build manifest wal) calls → good x) :
    Everywhere P ((machine c).run (build manifest wal) calls).instances :=
  h.guarded.reachable c manifest wal calls hg

theorem Preserved.popped (manifest : Block) (wal : Option WalWriter) (calls : List Call)
    {past future : List Item} {x : Execution}
    (ht : (machine c).trace (build manifest wal) calls = past ++ .executed x :: future)
    (hg : ∀ y, .executed y ∈ past → good y) : P x.instId x.before := by
  rw [(expansion c).trace_eq] at ht
  obtain ⟨as,a,p,q,hout,rfl⟩ := (micro c).trace_split ht
  have hrun := h.micro_run c (build manifest wal) as
    (fun y hy => hg y (List.mem_append_left _ hy)) (build_everywhere P manifest wal)
  have hx : .executed x ∈ (micro c).out ((micro c).run (build manifest wal) as) a := by
    rw [hout]
    simp
  have hc := micro_change c ((micro c).run (build manifest wal) as) a
  generalize (micro c).out ((micro c).run (build manifest wal) as) a = items at hc hx
  generalize ((micro c).next ((micro c).run (build manifest wal) as) a).instances = m' at hc
  cases hc with
  | executed y hy =>
    obtain rfl := Item.executed.inj (List.mem_singleton.mp hx)
    exact hrun _ _ hy
  | created _ _ => cases List.mem_singleton.mp hx
  | admitted _ _ _ _ => cases List.mem_singleton.mp hx
  | unloaded _ => cases hx
  | silent => cases hx

end Preserved

end Kernel
end ArkheKernel
