import ArkheKernel.ReplayFidelity

/-!
# What the log determines

A run that also creates and unloads is redone from its records alone, in a
kernel that has all instances from the start. Two operations write no record:
a creation, which the redone run has already done, and an unload.
-/

set_option autoImplicit false

namespace ArkheKernel
open OrderedMap PrefixCode

inductive Operation where
  | createInstance (config : InstanceConfig)
  | submit (s : Submission)
  | step (now : Tick) (caps : CapabilityMask)
  | forceUnload (route : RouteId) (caps : CapabilityMask)

def Operation.call : Operation → Call
  | .createInstance config => .request (.createInstance config)
  | .submit s => .request (.submit s)
  | .step now caps => .step now caps
  | .forceUnload route caps => .request (.forceUnload route caps)

def Operation.config : Operation → Option InstanceConfig
  | .createInstance config => some config
  | _ => none

/-- The id that the next creation hands out. -/
def Kernel.mintedId (k : Kernel) : InstanceId := ⟨NonZeroU64.succ k.nextInstanceId⟩

def Item.addressees : Item → List InstanceId
  | .executed x => x.stage.pendingSignals.map PendingSignal.target
  | _ => []

def Addressed (past : List Item) (id : InstanceId) : Prop := id ∈ past.flatMap Item.addressees

/-- A creation takes an unused id to which nothing was sent before; an unload
finds no reference to drop. -/
def Operation.Derivable (k : Kernel) (past : List Item) : Operation → Prop
  | .createInstance _ => k.mintedId ∉ k.instances ∧ ¬ Addressed past k.mintedId
  | .forceUnload route caps => caps.contains .ADMIN_UNLOAD = true →
      ∀ (id : InstanceId) (i : Instance), k.instances[id]? = some i → route ∉ i.inflightRefs
  | _ => True

def AllDerivable (c : Crypto) : Kernel → List Item → List Operation → Prop
  | _, _, [] => True
  | k, past, op::ops => op.Derivable k past ∧ AllDerivable c ((Kernel.machine c).next k op.call)
      (past ++ (Kernel.machine c).out k op.call) ops

def Item.creation : Item → Option (InstanceId × InstanceConfig)
  | .created id config => some (id,config)
  | _ => none

def minted : ℕ → List InstanceConfig → List (InstanceId × InstanceConfig)
  | _, [] => []
  | n, config::configs => (⟨NonZeroU64.succ n⟩,config) :: minted (satAdd64 n 1) configs

section Creation
variable (c : Crypto)

theorem change_mem {m m' : BTreeMap InstanceId Instance} {items : List Item}
    (h : Kernel.Change m items m') (id : InstanceId) :
    id ∈ m' ↔ id ∈ m ∨ id ∈ (items.filterMap Item.creation).map Prod.fst := by
  cases h with
  | created id' config =>
    rw [mem_insert,or_comm]
    simp [Item.creation]
  | admitted s i hi hq =>
    have hs : s.inst = id → id ∈ m := fun he => he ▸ mem_of_get hi
    simpa [Item.creation] using hs
  | executed x hx =>
    have hx' : id = x.instId → id ∈ m := fun he => he ▸ mem_of_get hx
    rw [← not_iff_not,not_mem_iff_get,x.settle_get]
    split
    · next he => simp [hx' he]
    · simp [Item.creation]
  | unloaded route =>
    rw [← not_iff_not,not_mem_iff_get,get_map]
    simp
  | silent => simp

theorem micro_run_mem (k : Kernel) (as : List Micro) (id : InstanceId) :
    id ∈ ((Kernel.micro c).run k as).instances ↔ id ∈ k.instances ∨
      id ∈ (((Kernel.micro c).trace k as).filterMap Item.creation).map Prod.fst := by
  induction as generalizing k with
  | nil => simp [Transducer.run,Transducer.trace]
  | cons a as ih =>
    rw [Transducer.run,Transducer.trace,ih,change_mem (Kernel.micro_change c k a),
      List.filterMap_append,List.map_append,List.mem_append,or_assoc]

theorem run_mem (k : Kernel) (calls : List Call) (id : InstanceId) :
    id ∈ ((Kernel.machine c).run k calls).instances ↔ id ∈ k.instances ∨
      id ∈ (((Kernel.machine c).trace k calls).filterMap Item.creation).map Prod.fst := by
  rw [(Kernel.expansion c).run_eq,(Kernel.expansion c).trace_eq]
  exact micro_run_mem c k _ id

theorem micro_creates_nothing (k : Kernel) (a : Micro)
    (ha : ∀ config, a ≠ .request (.createInstance config)) :
    ((Kernel.micro c).out k a).filterMap Item.creation = [] ∧
      ((Kernel.micro c).next k a).nextInstanceId = k.nextInstanceId := by
  cases a with
  | request r =>
    cases r with
    | createInstance config => exact absurd rfl (ha config)
    | submit s =>
      change (k.served c (.submit s)).filterMap Item.creation = [] ∧
        (k.submit c s).2.nextInstanceId = k.nextInstanceId
      unfold Kernel.served
      dsimp only
      rcases Kernel.submit_cases c k s with ⟨e,he⟩ | ⟨i,-,-,he⟩
      · rw [he]
        exact ⟨rfl,rfl⟩
      · rw [he]
        exact ⟨rfl,rfl⟩
    | forceUnload route caps =>
      refine ⟨rfl,?_⟩
      change (k.forceUnload route caps).2.nextInstanceId = k.nextInstanceId
      unfold Kernel.forceUnload
      split <;> rfl
    | registerAction typeCode reg => exact ⟨rfl,rfl⟩
    | registerObserver obs mask => exact ⟨rfl,rfl⟩
  | pop inst now caps =>
    change (((k.execution inst now caps).map Item.executed).toList).filterMap Item.creation = [] ∧
      (k.pop c inst now caps).nextInstanceId = k.nextInstanceId
    cases hx : k.execution inst now caps with
    | none =>
      rw [Kernel.pop_none c hx]
      exact ⟨rfl,rfl⟩
    | some x =>
      obtain ⟨_,hs⟩ := Kernel.pop_some c hx
      rw [hs]
      exact ⟨rfl,rfl⟩

theorem pops_create_nothing (k : Kernel) (as : List Micro)
    (h : ∀ a ∈ as, ∃ inst now caps, a = .pop inst now caps) :
    ((Kernel.micro c).trace k as).filterMap Item.creation = [] ∧
      ((Kernel.micro c).run k as).nextInstanceId = k.nextInstanceId := by
  induction as generalizing k with
  | nil => exact ⟨rfl,rfl⟩
  | cons a as ih =>
    obtain ⟨inst,now,caps,rfl⟩ := h a List.mem_cons_self
    obtain ⟨ho,hn⟩ := micro_creates_nothing c k (.pop inst now caps) (fun _ he => by cases he)
    have hi := ih ((Kernel.micro c).next k (.pop inst now caps))
      (fun a ha => h a (List.mem_cons_of_mem _ ha))
    refine ⟨?_,hi.2.trans hn⟩
    rw [Transducer.trace,List.filterMap_append]
    exact List.append_eq_nil_iff.mpr ⟨ho,hi.1⟩

theorem operation_creates (k : Kernel) (op : Operation) :
    ((Kernel.machine c).out k op.call).filterMap Item.creation =
      minted k.nextInstanceId op.config.toList ∧
    ∀ configs, minted k.nextInstanceId (op.config.toList ++ configs) =
      minted k.nextInstanceId op.config.toList ++
        minted ((Kernel.machine c).next k op.call).nextInstanceId configs := by
  cases op with
  | createInstance config => exact ⟨rfl,fun _ => rfl⟩
  | submit s =>
    obtain ⟨ho,hn⟩ := micro_creates_nothing c k (.request (.submit s)) (fun _ he => by cases he)
    refine ⟨ho,?_⟩
    intro configs
    change minted k.nextInstanceId configs = minted (k.submit c s).2.nextInstanceId configs
    exact congrArg (fun n => minted n configs) hn.symm
  | step now caps =>
    have h := pops_create_nothing c k (k.pops now caps) (by
      intro a ha
      obtain ⟨inst,-,rfl⟩ := List.mem_map.mp ha
      exact ⟨inst,now,caps,rfl⟩)
    refine ⟨h.1,?_⟩
    intro configs
    change minted k.nextInstanceId configs = minted (k.step c now caps).2.nextInstanceId configs
    rw [Kernel.step_eq,h.2]
  | forceUnload route caps =>
    obtain ⟨-,hn⟩ :=
      micro_creates_nothing c k (.request (.forceUnload route caps)) (fun _ he => by cases he)
    refine ⟨rfl,?_⟩
    intro configs
    change minted k.nextInstanceId configs = minted (k.forceUnload route caps).2.nextInstanceId configs
    exact congrArg (fun n => minted n configs) hn.symm

theorem filterMap_config (op : Operation) (ops : List Operation) :
    (op::ops).filterMap Operation.config = op.config.toList ++ ops.filterMap Operation.config := by
  rw [List.filterMap_cons]
  cases op.config <;> rfl

/-- The configs alone determine what a run creates. -/
theorem run_creates (k : Kernel) (ops : List Operation) :
    ((Kernel.machine c).trace k (ops.map Operation.call)).filterMap Item.creation =
      minted k.nextInstanceId (ops.filterMap Operation.config) := by
  induction ops generalizing k with
  | nil => rfl
  | cons op ops ih =>
    obtain ⟨ho,hn⟩ := operation_creates c k op
    rw [filterMap_config,hn,List.map_cons,Transducer.trace,List.filterMap_append,ho,ih]

end Creation

section Distinct
variable {c : Crypto}

theorem derivable_distinct {k : Kernel} {past : List Item} {ops : List Operation}
    (h : AllDerivable c k past ops) :
    ((minted k.nextInstanceId (ops.filterMap Operation.config)).map Prod.fst).Nodup ∧
      ∀ id ∈ (minted k.nextInstanceId (ops.filterMap Operation.config)).map Prod.fst,
        id ∉ k.instances := by
  induction ops generalizing k past with
  | nil => exact ⟨List.nodup_nil,fun id hid => absurd hid List.not_mem_nil⟩
  | cons op ops ih =>
    obtain ⟨hop,hrest⟩ := h
    obtain ⟨ho,hn⟩ := operation_creates c k op
    obtain ⟨hnodup,hnew⟩ := ih hrest
    -- every later id is unused after `op`, hence unused before it and not its own
    have hlater : ∀ id ∈ (minted ((Kernel.machine c).next k op.call).nextInstanceId
        (ops.filterMap Operation.config)).map Prod.fst,
        id ∉ k.instances ∧ id ∉ (minted k.nextInstanceId op.config.toList).map Prod.fst := by
      intro id hid
      have hm := run_mem c k [op.call] id
      rw [Transducer.trace,Transducer.trace,List.append_nil,ho] at hm
      exact not_or.mp (fun hk => hnew id hid (hm.mpr hk))
    have hown : ((minted k.nextInstanceId op.config.toList).map Prod.fst).Nodup ∧
        ∀ id ∈ (minted k.nextInstanceId op.config.toList).map Prod.fst, id ∉ k.instances := by
      cases op with
      | createInstance config =>
        refine ⟨List.nodup_singleton _,?_⟩
        intro id hid
        rw [List.mem_singleton.mp hid]
        exact hop.1
      | _ => exact ⟨List.nodup_nil,fun id hid => absurd hid List.not_mem_nil⟩
    rw [filterMap_config,hn,List.map_append]
    refine ⟨?_,?_⟩
    · rw [List.nodup_append']
      exact ⟨hown.1,hnodup,fun id hl hr => (hlater id hr).2 hl⟩
    · intro id hid
      rcases List.mem_append.mp hid with hid | hid
      · exact hown.2 id hid
      · exact (hlater id hid).1

theorem setUp_instances (configs : List InstanceConfig) (k : Kernel)
    (hn : ((minted k.nextInstanceId configs).map Prod.fst).Nodup) :
    (∀ p ∈ minted k.nextInstanceId configs,
      (k.setUp c (configs.map Setup.createInstance)).instances[p.1]? = some (.new p.1 p.2)) ∧
    ∀ id ∉ (minted k.nextInstanceId configs).map Prod.fst,
      (k.setUp c (configs.map Setup.createInstance)).instances[id]? = k.instances[id]? := by
  induction configs generalizing k with
  | nil => exact ⟨fun p hp => absurd hp List.not_mem_nil,fun _ _ => rfl⟩
  | cons config configs ih =>
    obtain ⟨hhead,htail⟩ := List.nodup_cons.mp hn
    obtain ⟨hin,hout⟩ := ih (k.createInstance config).2 htail
    constructor
    · intro p hp
      rcases List.mem_cons.mp hp with rfl | hp
      · exact (hout _ hhead).trans (get_insert_self _ _ _)
      · exact hin p hp
    · intro id hid
      obtain ⟨hne,hid⟩ := List.ne_and_not_mem_of_not_mem_cons hid
      exact (hout id hid).trans (get_insert_ne _ _ hne)

end Distinct

/-- The instances of the redone run beside the live ones: equal once created,
and untouched before, unless something was sent to them. -/
structure Shadow (fresh live r : BTreeMap InstanceId Instance) (past : List Item) : Prop where
  present : ∀ (id : InstanceId) (i : Instance), live[id]? = some i → r[id]? = some i
  absent : ∀ id : InstanceId, live[id]? = none → Addressed past id ∨ r[id]? = fresh[id]?

theorem receiveAll_other (i : Instance) (source id : InstanceId) (sigs : List PendingSignal)
    (h : id ∉ sigs.map PendingSignal.target) : i.receiveAll source id sigs = i := by
  induction sigs generalizing i with
  | nil => rfl
  | cons sig sigs ih =>
    obtain ⟨hs,hrest⟩ := List.ne_and_not_mem_of_not_mem_cons h
    have hi : i.receive source id sig = i := if_neg (fun hc => hs hc.1.symm)
    change (i.receive source id sig).receiveAll source id sigs = i
    rw [hi,ih i hrest]

section Shadow
variable {fresh live r : BTreeMap InstanceId Instance} {past : List Item}

theorem Addressed.append {id : InstanceId} (h : Addressed past id) (items : List Item) :
    Addressed (past ++ items) id := by
  unfold Addressed
  rw [List.flatMap_append]
  exact List.mem_append_left _ h

theorem Shadow.append (h : Shadow fresh live r past) (items : List Item) :
    Shadow fresh live r (past ++ items) :=
  ⟨h.present,fun id hid => (h.absent id hid).imp (fun ha => ha.append items) (fun he => he)⟩

theorem Shadow.insert (h : Shadow fresh live r past) (id : InstanceId) (i : Instance) :
    Shadow fresh (live.insert id i) (r.insert id i) past := by
  refine ⟨?_,?_⟩
  · intro j i' hj
    rw [get_insert] at hj ⊢
    split
    · next he => rwa [if_pos he] at hj
    · next he =>
      rw [if_neg he] at hj
      exact h.present j i' hj
  · intro j hj
    rw [get_insert] at hj ⊢
    split
    · next he =>
      rw [if_pos he] at hj
      cases hj
    · next he =>
      rw [if_neg he] at hj
      exact h.absent j hj

theorem Shadow.create (h : Shadow fresh live r past) {id : InstanceId} {i : Instance}
    (hl : live[id]? = none) (ha : ¬ Addressed past id) (hf : fresh[id]? = some i) :
    Shadow fresh (live.insert id i) r past := by
  refine ⟨?_,?_⟩
  · intro j i' hj
    rw [get_insert] at hj
    split at hj
    · next he => rw [he,(h.absent id hl).resolve_left ha,hf,hj]
    · exact h.present j i' hj
  · intro j hj
    rw [get_insert] at hj
    split at hj
    · cases hj
    · exact h.absent j hj

theorem Shadow.settle (h : Shadow fresh live r past) (x : Execution) :
    Shadow fresh (x.settle live) (x.settle r) (past ++ [.executed x]) := by
  have hins := (h.insert x.instId x.after).append [.executed x]
  refine ⟨?_,?_⟩
  · intro id i hi
    rw [Execution.settle,routeAll_get] at hi ⊢
    obtain ⟨j,hj,rfl⟩ := Option.map_eq_some_iff.mp hi
    rw [hins.present id j hj]
    rfl
  · intro id hid
    rw [Execution.settle,routeAll_get,Option.map_eq_none_iff] at hid
    rw [Execution.settle,routeAll_get]
    by_cases ht : id ∈ x.stage.pendingSignals.map PendingSignal.target
    · left
      unfold Addressed
      rw [List.flatMap_append]
      exact List.mem_append_right _ (List.mem_append_left _ ht)
    · have he : ∀ o : Option Instance,
          o.map (fun i => i.receiveAll x.instId id x.stage.pendingSignals) = o := by
        intro o
        cases o with
        | none => rfl
        | some i => exact congrArg some (receiveAll_other i _ _ _ ht)
      rw [he]
      exact hins.absent id hid

end Shadow

/-- The records written so far redo the run in the kernel `fresh`. -/
structure Redone (c : Crypto) (fresh : Kernel) (writer₀ : WalWriter) (k : Kernel)
    (past : List Item) : Prop where
  bounded : Kernel.Everywhere (fun _ i => i.Bounded) k.instances
  replays : ∃ w r writer report, k.wal = some w ∧
    replayFrom c fresh writer₀ {} w.records = (r,.ok (writer,report)) ∧
      r.actionRegistry = k.actionRegistry ∧ Shadow fresh.instances k.instances r.instances past

section Redone
variable {c : Crypto} {fresh k : Kernel} {writer₀ : WalWriter} {past : List Item}

theorem Redone.congr (h : Redone c fresh writer₀ k past) {k' : Kernel}
    (hi : k'.instances = k.instances) (hr : k'.actionRegistry = k.actionRegistry)
    (hw : k'.wal = k.wal) (items : List Item) : Redone c fresh writer₀ k' (past ++ items) := by
  obtain ⟨w,r,writer,report,hk,hrep,hreg,hs⟩ := h.replays
  rw [← hi] at hs
  exact ⟨hi ▸ h.bounded,w,r,writer,report,hw.trans hk,hrep,hreg.trans hr.symm,hs.append items⟩

theorem Redone.submit (h : Redone c fresh writer₀ k past) (s : Submission) :
    Redone c fresh writer₀ (k.submit c s).2 (past ++ k.served c (.submit s)) := by
  have hbound := bounded_preserved.change (Kernel.request_change c k (.submit s))
    (fun _ _ => trivial) h.bounded
  change Kernel.Everywhere _ (k.submit c s).2.instances at hbound
  obtain ⟨w,r,writer,report,hw,hrep,hreg,hs⟩ := h.replays
  rcases Kernel.submit_cases c k s with ⟨e,he⟩ | ⟨i,hi,-,he⟩
  · rw [he]
    exact h.congr rfl rfl rfl _
  · have hr : r.submitWithId s (i.submit s).1 =
        .ok { r with instances := r.instances.insert s.inst (i.submit s).2 } := by
      unfold Kernel.submitWithId
      rw [hs.present _ _ hi,← submitWithId_eq (h.bounded s.inst i hi)]
    refine ⟨hbound,?_⟩
    rw [he,hw]
    exact ⟨_,_,_,_,rfl,replayFrom_snoc hrep (replayRecord_submit writer report rfl hr),hreg,
      (hs.insert s.inst _).append _⟩

theorem Redone.pop (h : Redone c fresh writer₀ k past) (inst : InstanceId) (now : Tick)
    (caps : CapabilityMask) : Redone c fresh writer₀ (k.pop c inst now caps)
      (past ++ ((k.execution inst now caps).map Item.executed).toList) := by
  have hbound := bounded_preserved.change (Kernel.micro_change c k (.pop inst now caps))
    (fun _ _ => trivial) h.bounded
  change Kernel.Everywhere _ (k.pop c inst now caps).instances at hbound
  obtain ⟨w,r,writer,report,hw,hrep,hreg,hs⟩ := h.replays
  cases hx : k.execution inst now caps with
  | none =>
    rw [Kernel.pop_none c hx]
    exact h.congr rfl rfl rfl _
  | some x =>
    obtain ⟨hi,rfl,-⟩ := Kernel.execution_some hx
    have hxr : r.execution x.instId now caps = some x := by
      rw [← hx]
      unfold Kernel.execution
      rw [hs.present _ _ hi,hi,hreg]
    obtain ⟨_,hp⟩ := Kernel.process_some c true hxr
    obtain ⟨_,hk⟩ := Kernel.pop_some c hx
    refine ⟨hbound,?_⟩
    rw [hk,hw]
    exact ⟨_,_,_,_,rfl,replayFrom_snoc hrep (replayRecord_step writer report rfl hp),hreg,
      hs.settle x⟩

theorem Redone.create (h : Redone c fresh writer₀ k past) (config : InstanceConfig)
    (hop : (Operation.createInstance config).Derivable k past)
    (hf : fresh.instances[k.mintedId]? = some (.new k.mintedId config)) :
    Redone c fresh writer₀ (k.createInstance config).2
      (past ++ k.served c (.createInstance config)) := by
  obtain ⟨w,r,writer,report,hw,hrep,hreg,hs⟩ := h.replays
  refine ⟨?_,w,r,writer,report,hw,hrep,hreg,?_⟩
  · exact bounded_preserved.change (Kernel.request_change c k (.createInstance config))
      (fun _ _ => trivial) h.bounded
  · exact (hs.create ((not_mem_iff_get _ _).mp hop.1) hop.2 hf).append _

theorem Redone.unload (h : Redone c fresh writer₀ k past) (route : RouteId)
    (caps : CapabilityMask) (hop : (Operation.forceUnload route caps).Derivable k past) :
    Redone c fresh writer₀ (k.forceUnload route caps).2
      (past ++ k.served c (.forceUnload route caps)) := by
  unfold Kernel.forceUnload
  by_cases hc : caps.contains .ADMIN_UNLOAD = true
  · rw [if_neg (by simp [hc])]
    apply h.congr
    · apply ext_get
      intro id
      dsimp only
      rw [get_map]
      cases hi : k.instances[id]? with
      | none => rfl
      | some i =>
        change some { i with inflightRefs := i.inflightRefs.erase route } = some i
        rw [erase_of_not_mem (hop hc id i hi)]
    · rfl
    · rfl
  · rw [if_pos (by simp [hc])]
    exact h.congr rfl rfl rfl _

/-- One operation of a run that creates as planned and unloads nothing. -/
theorem Redone.operation (h : Redone c fresh writer₀ k past) (op : Operation)
    (hop : op.Derivable k past)
    (hf : ∀ p ∈ minted k.nextInstanceId op.config.toList,
      fresh.instances[p.1]? = some (.new p.1 p.2)) :
    Redone c fresh writer₀ ((Kernel.machine c).next k op.call)
      (past ++ (Kernel.machine c).out k op.call) := by
  cases op with
  | createInstance config => exact h.create config hop (hf _ List.mem_cons_self)
  | submit s => exact h.submit s
  | forceUnload route caps => exact h.unload route caps hop
  | step now caps =>
    change Redone c fresh writer₀ (k.step c now caps).2 _
    rw [Kernel.step_eq]
    apply (Kernel.micro c).history_invariant_on (Redone c fresh writer₀)
      (fun a => ∃ inst, a = .pop inst now caps)
    · intro s past a ha hs
      obtain ⟨inst,rfl⟩ := ha
      exact hs.pop inst now caps
    · intro a ha
      obtain ⟨inst,-,rfl⟩ := List.mem_map.mp ha
      exact ⟨inst,rfl⟩
    · exact h

theorem Redone.run (h : Redone c fresh writer₀ k past) (ops : List Operation)
    (hops : AllDerivable c k past ops)
    (hf : ∀ p ∈ minted k.nextInstanceId (ops.filterMap Operation.config),
      fresh.instances[p.1]? = some (.new p.1 p.2)) :
    ∃ past', Redone c fresh writer₀ ((Kernel.machine c).run k (ops.map Operation.call)) past' := by
  induction ops generalizing k past with
  | nil => exact ⟨past,h⟩
  | cons op ops ih =>
    obtain ⟨hop,hrest⟩ := hops
    rw [filterMap_config,(operation_creates c k op).2] at hf
    apply ih _ hrest
    · exact fun p hp => hf p (List.mem_append_right _ hp)
    · exact h.operation op hop (fun p hp => hf p (List.mem_append_left _ hp))

end Redone

theorem replayFrom_contents (c : Crypto) {rs rs' : List WalRecord} (k : Kernel)
    (writer : WalWriter) (report : ReplayReport)
    (h : rs.map WalRecord.content = rs'.map WalRecord.content) :
    replayFrom c k writer report rs = replayFrom c k writer report rs' := by
  induction rs generalizing rs' k writer report with
  | nil =>
    obtain rfl := List.map_eq_nil_iff.mp h.symm
    rfl
  | cons rec rs ih =>
    obtain ⟨rec',rs',rfl,hrec,hrest⟩ := List.map_eq_cons_iff.mp h.symm
    have hr : replayRecord c k writer report rec = replayRecord c k writer report rec' := by
      unfold replayRecord
      rw [hrec]
    rw [replayFrom,replayFrom,hr]
    split
    · rfl
    · exact ih _ _ _ hrest.symm

def Kernel.logging (c : Crypto) (worldId manifest : Block) (registry : ActionRegistry) : Kernel :=
  { newWithWal c worldId manifest with actionRegistry := registry }

def Kernel.after (c : Crypto) (k : Kernel) (ops : List Operation) : Kernel :=
  (machine c).run k (ops.map Operation.call)

theorem logging_redone {c : Crypto} {worldId manifest : Block} {registry : ActionRegistry}
    {ops : List Operation}
    (h : AllDerivable c (.logging c worldId manifest registry) [] ops) :
    ∃ past, Redone c ((Kernel.logging c worldId manifest registry).setUp c
        ((ops.filterMap Operation.config).map Setup.createInstance))
      (.new c worldId manifest) ((Kernel.logging c worldId manifest registry).after c ops) past := by
  let start := Kernel.logging c worldId manifest registry
  have hsetup := (setUp_instances (c := c) (ops.filterMap Operation.config) start
    (derivable_distinct h).1).1
  have hreg : (start.setUp c ((ops.filterMap Operation.config).map
      Setup.createInstance)).actionRegistry = start.actionRegistry := by
    generalize ops.filterMap Operation.config = configs
    generalize start = k
    induction configs generalizing k with
    | nil => rfl
    | cons config configs ih => exact ih _
  apply Redone.run _ ops h hsetup
  refine ⟨?_,_,_,_,_,rfl,rfl,hreg,?_⟩
  · exact Kernel.build_everywhere _ manifest (some (.new c worldId manifest))
  · refine ⟨?_,fun id _ => Or.inr rfl⟩
    intro id i hi
    simp [Kernel.logging,Kernel.newWithWal,Kernel.build] at hi

/-- The log determines the state. Two runs of one logging kernel that create
with the same configs and write the same records end in the same instances, as
long as no instance is created behind a signal to it or over another one, and
no unload drops a reference. -/
theorem log_determines_state (c : Crypto) (worldId manifest : Block) (registry : ActionRegistry)
    (ops ops' : List Operation)
    (hconfigs : ops.filterMap Operation.config = ops'.filterMap Operation.config)
    (h : AllDerivable c (.logging c worldId manifest registry) [] ops)
    (h' : AllDerivable c (.logging c worldId manifest registry) [] ops')
    (hlog : ((Kernel.logging c worldId manifest registry).after c ops).exportWal.map Wal.contents =
      ((Kernel.logging c worldId manifest registry).after c ops').exportWal.map Wal.contents) :
    ((Kernel.logging c worldId manifest registry).after c ops).instances =
      ((Kernel.logging c worldId manifest registry).after c ops').instances := by
  obtain ⟨_,hr⟩ := logging_redone h
  obtain ⟨_,hr'⟩ := logging_redone h'
  rw [← hconfigs] at hr'
  obtain ⟨w,r,writer,report,hw,hrep,-,hs⟩ := hr.replays
  obtain ⟨w',r',writer',report',hw',hrep',-,hs'⟩ := hr'.replays
  have hcontents : w.records.map WalRecord.content = w'.records.map WalRecord.content := by
    rw [Kernel.exportWal,Kernel.exportWal,hw,hw'] at hlog
    exact Option.some.inj hlog
  rw [replayFrom_contents c _ _ _ hcontents,hrep'] at hrep
  obtain ⟨rfl,-⟩ := Prod.mk.inj hrep
  have hmem : ∀ id, id ∈ ((Kernel.logging c worldId manifest registry).after c ops).instances ↔
      id ∈ ((Kernel.logging c worldId manifest registry).after c ops').instances := by
    intro id
    rw [Kernel.after,Kernel.after,run_mem,run_mem,run_creates,run_creates,hconfigs]
  apply ext_get
  intro id
  cases hi : ((Kernel.logging c worldId manifest registry).after c ops).instances[id]? with
  | none =>
    have hn := (not_congr (hmem id)).mp ((not_mem_iff_get _ _).mpr hi)
    exact ((not_mem_iff_get _ _).mp hn).symm
  | some i =>
    obtain ⟨i',hi'⟩ := (mem_iff_get _ _).mp ((hmem id).mp (mem_of_get hi))
    rw [hi',← hs.present id i hi,hs'.present id i' hi']

def signallingKernel : Kernel :=
  .logging standIn zeroBlock zeroBlock ((∅ : ActionRegistry).insert (.clamp 7)
    (.constant [.sendSignal ⟨.succ 1⟩ ⟨1⟩ [9]]))

def signallingOps : List Operation := [
  .createInstance { defaultCaps := .SYSTEM },
  .createInstance {},
  .submit ⟨⟨.succ 0⟩,.system,none,.SYSTEM,⟨1⟩,.clamp 7,[]⟩,
  .step ⟨1⟩ .SYSTEM]

def rearrangedOps : List Operation := [
  .forceUnload ⟨1⟩ .ADMIN_UNLOAD,
  .createInstance { defaultCaps := .SYSTEM },
  .submit ⟨⟨.succ 0⟩,.system,none,.SYSTEM,⟨1⟩,.clamp 7,[]⟩,
  .createInstance {},
  .step ⟨1⟩ .SYSTEM]

theorem log_determines_state_rearranged : (signallingKernel.after standIn signallingOps).instances =
    (signallingKernel.after standIn rearrangedOps).instances := by
  apply log_determines_state standIn zeroBlock zeroBlock
  · rfl
  · refine ⟨⟨?_,?_⟩,⟨?_,?_⟩,trivial,trivial,trivial⟩
    · decide +kernel
    · exact List.not_mem_nil
    · decide +kernel
    · exact List.not_mem_nil
  · refine ⟨?_,⟨?_,?_⟩,trivial,⟨?_,?_⟩,trivial,trivial⟩
    · intro _ id i hi
      simp [Kernel.logging,Kernel.newWithWal,Kernel.build] at hi
    · decide +kernel
    · exact List.not_mem_nil
    · decide +kernel
    · unfold Addressed
      decide +kernel
  · decide +kernel

/-- An unload drops the reference of the queued signal and writes no record. -/
theorem log_misses_unload :
    ¬ ∀ (registry : ActionRegistry) (ops ops' : List Operation),
      ops.filterMap Operation.config = ops'.filterMap Operation.config →
      ((Kernel.logging standIn zeroBlock zeroBlock registry).after standIn ops).exportWal.map
          Wal.contents =
        ((Kernel.logging standIn zeroBlock zeroBlock registry).after standIn ops').exportWal.map
          Wal.contents →
      ((Kernel.logging standIn zeroBlock zeroBlock registry).after standIn ops).instances =
        ((Kernel.logging standIn zeroBlock zeroBlock registry).after standIn ops').instances := by
  intro h
  have he : (signallingKernel.after standIn signallingOps).instances =
      (signallingKernel.after standIn
        (signallingOps ++ [.forceUnload ⟨1⟩ .ADMIN_UNLOAD])).instances :=
    h _ _ _ rfl (by decide +kernel)
  have hsize : ((signallingKernel.after standIn signallingOps).instances[
      (⟨.succ 1⟩ : InstanceId)]?).map (fun i => i.inflightRefs.size) = some 1 := by decide +kernel
  have hsize' : ((signallingKernel.after standIn (signallingOps ++
      [.forceUnload ⟨1⟩ .ADMIN_UNLOAD])).instances[(⟨.succ 1⟩ : InstanceId)]?).map
        (fun i => i.inflightRefs.size) = some 0 := by decide +kernel
  rw [he,hsize'] at hsize
  cases hsize

end ArkheKernel
