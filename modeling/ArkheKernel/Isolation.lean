import ArkheKernel.Noninterference

/-!
# What an instance depends on

An action sees its instance through the accessors of the context, and none of
them shows the mail. The mail of an instance is therefore written and never
read back: apart from it, an instance runs on its own submissions, the steps
and the registered code, whatever its neighbours do.
-/

set_option autoImplicit false

namespace ArkheKernel
open OrderedMap PrefixCode

namespace ActionContext

def entitiesLen (ctx : ActionContext) : ℕ := ctx.inst.entitiesLen

def componentsLen (ctx : ActionContext) : ℕ := ctx.inst.componentsLen

def localTick (ctx : ActionContext) : ℕ := ctx.inst.localTick

def visible (ctx : ActionContext) : Option EntityId × Tick × InstanceId × ℕ × ℕ × ℕ :=
  (ctx.actor,ctx.now,ctx.instanceId,ctx.entitiesLen,ctx.componentsLen,ctx.localTick)

end ActionContext

/-- The instance itself is private to the kernel, so foreign code cannot tell
two contexts apart that look the same. -/
def ActionRegistration.ThroughAccessors (reg : ActionRegistration) : Prop :=
  ∀ version bytes action, reg.deserializer version bytes = some action →
    ∀ ctx ctx' : ActionContext, ctx.visible = ctx'.visible → action ctx = action ctx'

def ThroughAccessors (registry : ActionRegistry) : Prop :=
  ∀ (typeCode : TypeCode) (reg : ActionRegistration), registry[typeCode]? = some reg →
    reg.ThroughAccessors

theorem constant_throughAccessors (ops : List Op) :
    (ActionRegistration.constant ops).ThroughAccessors := by
  intro version bytes action ha ctx ctx' _
  obtain rfl := Option.some.inj ha
  rfl

def Instance.withoutMail (i : Instance) : Instance :=
  { i with inflightRefs := ∅, signalInbox := ∅, inboxSeq := 0 }

/-- What one execution reads and does, the mail of its instance left out. -/
structure Conduct where
  entry : ScheduledEntry
  now : Tick
  caps : CapabilityMask
  verdict : StepVerdict
  stage : StepStage
  after : Instance

inductive Report where
  | registered (reg : ActionRegistration)
  | admitted (entry : ScheduledEntry)
  | executed (conduct : Conduct)

def Request.concerns (j : InstanceId) : Request → Bool
  | .submit s => s.inst = j
  | .createInstance _ | .registerAction _ _ => true
  | .forceUnload _ _ | .registerObserver _ _ => false

def Micro.concerns (j : InstanceId) : Micro → Bool
  | .request r => r.concerns j
  | .pop inst _ _ => inst = j

def Call.concerns (j : InstanceId) : Call → Bool
  | .request r => r.concerns j
  | .step _ _ => true

theorem receiveAll_withoutMail (i : Instance) (source id : InstanceId) (sigs : List PendingSignal) :
    (i.receiveAll source id sigs).withoutMail = i.withoutMail := by
  obtain ⟨_,_,_,he⟩ := i.receiveAll_frame source id sigs
  rw [he]
  rfl

theorem applyStage_withoutMail (i : Instance) (s : StepStage) :
    (applyStage i s).1.withoutMail = (applyStage i.withoutMail s).1 := by
  have hm := applyStage_maps i s
  have hm' := applyStage_maps i.withoutMail s
  have hc := applyStateOps_congr s.stateOps (i := i) (j := i.withoutMail) rfl rfl
  obtain ⟨es,cs,hf⟩ := applyStage_frame i s
  obtain ⟨es',cs',hf'⟩ := applyStage_frame i.withoutMail s
  have hes : es = es' := by
    have h := hm.1.trans (hc.1.trans hm'.1.symm)
    rw [hf,hf'] at h
    exact h
  have hcs : cs = cs' := by
    have h := hm.2.trans (hc.2.trans hm'.2.symm)
    rw [hf,hf'] at h
    exact h
  rw [hf,hf',hes,hcs]
  rfl

namespace Execution
variable (x : Execution)

def stripped : Execution := { x with before := x.before.withoutMail }

def conduct : Conduct := ⟨x.entry,x.now,x.caps,x.verdict,x.stage,x.after.withoutMail⟩

variable {x}

theorem stripped_ops (h : ThroughAccessors x.registry) : x.stripped.ops = x.ops := by
  have ha : x.stripped.action = x.action := rfl
  unfold ops
  rw [ha]
  cases hx : x.action with
  | error reason => rfl
  | ok act =>
    unfold Execution.action decodeAction at hx
    split at hx
    · cases hx
    · next reg hreg =>
      split at hx
      · cases hx
      · next act' hdes =>
        obtain rfl := Except.ok.inj hx
        exact h _ reg hreg _ _ _ hdes _ _ rfl

theorem stripped_conduct (h : ThroughAccessors x.registry) : x.stripped.conduct = x.conduct := by
  have hg : x.stripped.gate = x.gate := by
    unfold gate
    rw [stripped_ops h]
    rfl
  have ha : x.stripped.action = x.action := rfl
  have hcommits : x.stripped.commits = x.commits := by
    unfold commits
    rw [ha,hg]
  have hverdict : x.stripped.verdict = x.verdict := by
    unfold verdict
    rw [ha,hg]
  have hstage : x.stripped.stage = x.stage := by
    unfold stage
    rw [hcommits,hg]
  have hafter : x.stripped.after.withoutMail = x.after.withoutMail := by
    unfold after
    rw [hcommits,hg]
    split
    · rw [applyStage_withoutMail,applyStage_withoutMail]
      rfl
    · rfl
  unfold conduct
  rw [hverdict,hstage,hafter]
  rfl

theorem ofPop_eq {instId : InstanceId} {inst : Instance} {registry : ActionRegistry} {now : Tick}
    {caps : CapabilityMask} {entry : ScheduledEntry} {rest : Scheduler}
    (h : inst.scheduler.popDue now = some (entry,rest)) :
    ofPop instId inst registry now caps = some ⟨instId,inst,registry,now,caps,entry,rest,h⟩ := by
  unfold ofPop
  split
  · next hn =>
    rw [h] at hn
    cases hn
  · next e r hs =>
    rw [h] at hs
    obtain ⟨rfl,rfl⟩ := Prod.mk.inj (Option.some.inj hs)
    rfl

theorem ofPop_stripped (instId : InstanceId) (inst : Instance) (registry : ActionRegistry)
    (now : Tick) (caps : CapabilityMask) :
    (ofPop instId inst registry now caps).map stripped =
      ofPop instId inst.withoutMail registry now caps := by
  cases hp : inst.scheduler.popDue now with
  | none =>
    have hp' : inst.withoutMail.scheduler.popDue now = none := hp
    rw [ofPop_none.mpr hp,ofPop_none.mpr hp']
    rfl
  | some p =>
    obtain ⟨e,r⟩ := p
    have hp' : inst.withoutMail.scheduler.popDue now = some (e,r) := hp
    rw [ofPop_eq hp,ofPop_eq hp']
    rfl

end Execution

/-- The instance `j` is the same in both, up to its mail. -/
structure AlikeIn (j : InstanceId) (k k' : Kernel) : Prop where
  counter : k.nextInstanceId = k'.nextInstanceId
  registry : k.actionRegistry = k'.actionRegistry
  accessors : ThroughAccessors k.actionRegistry
  body : (k.instances[j]?).map Instance.withoutMail = (k'.instances[j]?).map Instance.withoutMail

namespace Kernel
variable (c : Crypto)

def reports (j : InstanceId) (k : Kernel) : Micro → List Report
  | .request (.registerAction _ reg) => [.registered reg]
  | .request (.submit s) =>
    match (k.submit c s).1 with
    | .ok id => if s.inst = j then [.admitted (s.entry id)] else []
    | .error _ => []
  | .request _ => []
  | .pop inst now caps => if inst = j
    then ((k.execution inst now caps).map (fun x => .executed x.conduct)).toList else []

def reporting (j : InstanceId) : Transducer Kernel Micro Report :=
  (micro c).withOut (reports c j)

end Kernel

section Alike
variable {c : Crypto} {j : InstanceId} {k k' k'' : Kernel}

theorem AlikeIn.refl (h : ThroughAccessors k.actionRegistry) : AlikeIn j k k := ⟨rfl,rfl,h,rfl⟩

theorem AlikeIn.symm (h : AlikeIn j k k') : AlikeIn j k' k :=
  ⟨h.counter.symm,h.registry.symm,h.registry ▸ h.accessors,h.body.symm⟩

theorem AlikeIn.trans (h : AlikeIn j k k') (h' : AlikeIn j k' k'') : AlikeIn j k k'' :=
  ⟨h.counter.trans h'.counter,h.registry.trans h'.registry,h.accessors,h.body.trans h'.body⟩

theorem AlikeIn.mem_iff (h : AlikeIn j k k') : j ∈ k.instances ↔ j ∈ k'.instances := by
  rw [← not_iff_not,not_mem_iff_get,not_mem_iff_get,← Option.map_eq_none_iff,h.body,
    Option.map_eq_none_iff]

theorem AlikeIn.submit (h : AlikeIn j k k') (s : Submission) (hs : s.inst = j) :
    AlikeIn j (k.submit c s).2 (k'.submit c s).2 ∧ (k.submit c s).1 = (k'.submit c s).1 := by
  have hb := h.body
  subst hs
  unfold Kernel.submit
  cases hi : k.instances[s.inst]? with
  | none =>
    rw [hi,Option.map_none,eq_comm,Option.map_eq_none_iff] at hb
    rw [hb]
    exact ⟨h,rfl⟩
  | some i =>
    rw [hi,Option.map_some,eq_comm,Option.map_eq_some_iff] at hb
    obtain ⟨i',hi',he⟩ := hb
    rw [hi']
    dsimp only
    have hfull : i'.withoutMail.schedulerFull = i.withoutMail.schedulerFull := by rw [he]
    have hsub : i'.withoutMail.submit s = i.withoutMail.submit s := by rw [he]
    obtain ⟨hid,hbody⟩ := Prod.mk.inj hsub
    change (i'.submit s).1 = (i.submit s).1 at hid
    change (i'.submit s).2.withoutMail = (i.submit s).2.withoutMail at hbody
    change i'.schedulerFull = i.schedulerFull at hfull
    rw [hfull]
    split
    · exact ⟨h,rfl⟩
    · refine ⟨⟨h.counter,h.registry,h.accessors,?_⟩,by rw [hid]⟩
      dsimp only
      rw [get_insert_self,get_insert_self,Option.map_some,Option.map_some,hbody]

theorem AlikeIn.create (h : AlikeIn j k k') (config : InstanceConfig) :
    AlikeIn j (k.createInstance config).2 (k'.createInstance config).2 := by
  unfold Kernel.createInstance
  rw [← h.counter]
  refine ⟨rfl,h.registry,h.accessors,?_⟩
  dsimp only
  rw [get_insert,get_insert]
  split
  · rfl
  · exact h.body

theorem AlikeIn.register (h : AlikeIn j k k') (typeCode : TypeCode) {reg : ActionRegistration}
    (hr : reg.ThroughAccessors) :
    AlikeIn j (k.registerAction typeCode reg) (k'.registerAction typeCode reg) where
  counter := h.counter
  registry := congrArg (fun r => r.insert typeCode reg) h.registry
  accessors t r ht := by
    rcases get_insert_some.mp ht with ⟨-,rfl⟩ | ⟨-,ht⟩
    · exact hr
    · exact h.accessors t r ht
  body := h.body

theorem submit_elsewhere (h : ThroughAccessors k.actionRegistry) (s : Submission)
    (hs : s.inst ≠ j) : AlikeIn j (k.submit c s).2 k := by
  rcases Kernel.submit_cases c k s with ⟨e,he⟩ | ⟨i,-,-,he⟩
  · rw [he]
    exact .refl h
  · rw [he]
    refine ⟨rfl,rfl,h,?_⟩
    dsimp only
    rw [get_insert_ne _ _ hs.symm]

theorem unload_elsewhere (h : ThroughAccessors k.actionRegistry) (route : RouteId)
    (caps : CapabilityMask) : AlikeIn j (k.forceUnload route caps).2 k := by
  unfold Kernel.forceUnload
  split
  · exact .refl h
  · refine ⟨rfl,rfl,h,?_⟩
    dsimp only
    rw [get_map,Option.map_map]
    rfl

/-- Executions elsewhere reach `j` as mail only. -/
theorem pop_elsewhere (h : ThroughAccessors k.actionRegistry) {inst : InstanceId} (hi : inst ≠ j)
    (now : Tick) (caps : CapabilityMask) : AlikeIn j (k.pop c inst now caps) k := by
  cases hx : k.execution inst now caps with
  | none =>
    rw [Kernel.pop_none c hx]
    exact .refl h
  | some x =>
    obtain ⟨_,hs⟩ := Kernel.pop_some c hx
    obtain ⟨-,rfl,-⟩ := Kernel.execution_some hx
    rw [hs]
    refine ⟨rfl,rfl,h,?_⟩
    dsimp only
    rw [x.settle_get,if_neg hi.symm,Option.map_map]
    congr 1
    funext i
    exact receiveAll_withoutMail i _ _ _

theorem execution_stripped (k : Kernel) (now : Tick) (caps : CapabilityMask) :
    (k.execution j now caps).map Execution.stripped =
      ((k.instances[j]?).map Instance.withoutMail).bind
        (fun i => Execution.ofPop j i k.actionRegistry now caps) := by
  unfold Kernel.execution
  cases k.instances[j]? with
  | none => rfl
  | some i => exact Execution.ofPop_stripped j i _ _ _

theorem execution_conduct (h : ThroughAccessors k.actionRegistry) (now : Tick)
    (caps : CapabilityMask) : (k.execution j now caps).map Execution.conduct =
      ((k.execution j now caps).map Execution.stripped).map Execution.conduct := by
  cases hx : k.execution j now caps with
  | none => rfl
  | some x =>
    obtain ⟨-,-,hr,-⟩ := Kernel.execution_some hx
    rw [← hr] at h
    exact congrArg some (Execution.stripped_conduct h).symm

theorem AlikeIn.conduct (h : AlikeIn j k k') (now : Tick) (caps : CapabilityMask) :
    (k.execution j now caps).map Execution.conduct =
      (k'.execution j now caps).map Execution.conduct := by
  rw [execution_conduct h.accessors,execution_conduct h.symm.accessors,execution_stripped,
    execution_stripped,h.body,h.registry]

/-- A pop of `j` leaves it as its conduct says, up to its mail. -/
theorem pop_body (k : Kernel) (now : Tick) (caps : CapabilityMask) :
    ((k.pop c j now caps).instances[j]?).map Instance.withoutMail =
      (((k.execution j now caps).map Execution.conduct).map Conduct.after).orElse
        (fun _ => (k.instances[j]?).map Instance.withoutMail) := by
  cases hx : k.execution j now caps with
  | none =>
    rw [Kernel.pop_none c hx]
    rfl
  | some x =>
    obtain ⟨_,hs⟩ := Kernel.pop_some c hx
    obtain ⟨-,rfl,-⟩ := Kernel.execution_some hx
    rw [hs]
    dsimp only
    rw [x.settle_get,if_pos rfl,Option.map_some,receiveAll_withoutMail]
    rfl

theorem AlikeIn.pop (h : AlikeIn j k k') (now : Tick) (caps : CapabilityMask) :
    AlikeIn j (k.pop c j now caps) (k'.pop c j now caps) := by
  have hbody : ((k.pop c j now caps).instances[j]?).map Instance.withoutMail =
      ((k'.pop c j now caps).instances[j]?).map Instance.withoutMail := by
    rw [pop_body,pop_body,h.conduct,h.body]
  have hframe : ∀ l : Kernel, (l.pop c j now caps).nextInstanceId = l.nextInstanceId ∧
      (l.pop c j now caps).actionRegistry = l.actionRegistry := by
    intro l
    cases hx : l.execution j now caps with
    | none =>
      rw [Kernel.pop_none c hx]
      exact ⟨rfl,rfl⟩
    | some x =>
      obtain ⟨_,hs⟩ := Kernel.pop_some c hx
      rw [hs]
      exact ⟨rfl,rfl⟩
  refine ⟨?_,?_,?_,hbody⟩
  · rw [(hframe k).1,(hframe k').1,h.counter]
  · rw [(hframe k).2,(hframe k').2,h.registry]
  · rw [(hframe k).2]
    exact h.accessors

end Alike

def Report.Fair (r : Report) : Prop := ∀ reg, r = .registered reg → reg.ThroughAccessors

section Unwinding
variable (c : Crypto) (j : InstanceId) {k k' : Kernel}

theorem request_concerning (h : AlikeIn j k k') (r : Request) (hr : r.concerns j = true)
    (hg : ∀ o ∈ k.reports c j (.request r), o.Fair) : AlikeIn j (k.serve c r) (k'.serve c r) ∧
      k.reports c j (.request r) = k'.reports c j (.request r) := by
  cases r with
  | createInstance config => exact ⟨h.create config,rfl⟩
  | submit s =>
    have hs : s.inst = j := by simpa [Request.concerns] using hr
    obtain ⟨ha,he⟩ := h.submit (c := c) s hs
    refine ⟨ha,?_⟩
    rw [Kernel.reports,Kernel.reports,he]
  | registerAction typeCode reg =>
    exact ⟨h.register typeCode (hg _ (List.mem_singleton.mpr rfl) reg rfl),rfl⟩
  | _ => cases hr

theorem request_elsewhere (h : AlikeIn j k k') (r : Request) (hr : r.concerns j = false) :
    AlikeIn j (k.serve c r) k' ∧ k.reports c j (.request r) = [] := by
  cases r with
  | submit s =>
    have hs : s.inst ≠ j := by simpa [Request.concerns] using hr
    refine ⟨(submit_elsewhere h.accessors s hs).trans h,?_⟩
    rw [Kernel.reports]
    split
    · rw [if_neg hs]
    · rfl
  | forceUnload route caps => exact ⟨(unload_elsewhere h.accessors route caps).trans h,rfl⟩
  | registerObserver obs mask => exact ⟨⟨h.counter,h.registry,h.accessors,h.body⟩,rfl⟩
  | _ => cases hr

theorem reporting_unwinding : (Kernel.reporting c j).Unwinding (AlikeIn j) (Micro.concerns j)
    (fun _ => true) Report.Fair where
  symm _ _ h := h.symm
  shared k k' a ha h hg := by
    change AlikeIn j ((Kernel.micro c).next k a) ((Kernel.micro c).next k' a) ∧
      (k.reports c j a).filter _ = (k'.reports c j a).filter _
    rw [List.filter_true,List.filter_true]
    cases a with
    | request r => exact request_concerning c j h r ha hg
    | pop inst now caps =>
      have hi : inst = j := by simpa [Micro.concerns] using ha
      subst hi
      refine ⟨h.pop now caps,?_⟩
      have ho := congrArg (Option.map Report.executed) (h.conduct now caps)
      rw [Option.map_map,Option.map_map] at ho
      rw [Kernel.reports,Kernel.reports,if_pos rfl,if_pos rfl]
      exact congrArg Option.toList ho
  hidden k k' a ha h := by
    change AlikeIn j ((Kernel.micro c).next k a) k' ∧ (k.reports c j a).filter _ = []
    rw [List.filter_true]
    cases a with
    | request r => exact request_elsewhere c j h r ha
    | pop inst now caps =>
      have hi : inst ≠ j := by simpa [Micro.concerns] using ha
      exact ⟨(pop_elsewhere h.accessors hi now caps).trans h,if_neg hi⟩

def Kernel.surveying : Transducer Kernel Call Report :=
  (machine c).withOut (fun k call => (reporting c j).trace k ((expansion c).word k call))

def Kernel.reportsOf (k : Kernel) (calls : List Call) : List Report := (surveying c j).trace k calls

theorem pops_concerning (ids : List InstanceId) (hn : ids.Nodup) (now : Tick)
    (caps : CapabilityMask) :
    (ids.map (fun id => Micro.pop id now caps)).filter (Micro.concerns j) =
      if j ∈ ids then [.pop j now caps] else [] := by
  have hf : (Micro.concerns j ∘ fun id => Micro.pop id now caps) = fun id => id == j := by
    funext id
    exact (Bool.beq_eq_decide_eq id j).symm
  rw [List.filter_map,hf,List.filter_beq]
  split
  · next h => rw [List.count_eq_one_of_mem hn h]; rfl
  · next h => rw [List.count_eq_zero_of_not_mem h]; rfl

theorem surveying_unwinding : (Kernel.surveying c j).Unwinding (AlikeIn j) (Call.concerns j)
    (fun _ => true) Report.Fair where
  symm _ _ h := h.symm
  shared k k' a ha h hg := by
    cases a with
    | request r =>
      have hr := (reporting_unwinding c j).run k k' [.request r] [.request r] rfl hg h
      exact hr
    | step now caps =>
      have hpops : (k.pops now caps).filter (Micro.concerns j) =
          (k'.pops now caps).filter (Micro.concerns j) := by
        rw [Kernel.pops,Kernel.pops,pops_concerning j _ (keys_nodup _),
          pops_concerning j _ (keys_nodup _)]
        simp only [mem_keys,h.mem_iff]
      have hr := (reporting_unwinding c j).run k k' _ _ hpops hg h
      rw [Kernel.reporting,Transducer.withOut_run,Transducer.withOut_run,← Kernel.step_eq,
        ← Kernel.step_eq] at hr
      exact hr
  hidden k k' a ha h := by
    cases a with
    | request r =>
      have hr := (reporting_unwinding c j).hidden_run k k' [.request r]
        (fun b hb => by rw [List.mem_singleton.mp hb]; exact ha) h
      exact hr
    | step now caps => cases ha

theorem registered_mem (reg : ActionRegistration) (k : Kernel) (as : List Micro)
    (h : .registered reg ∈ (Kernel.reporting c j).trace k as) :
    ∃ typeCode, .request (.registerAction typeCode reg) ∈ as := by
  induction as generalizing k with
  | nil => cases h
  | cons a as ih =>
    rcases List.mem_append.mp h with h | h
    · change _ ∈ k.reports c j a at h
      cases a with
      | pop inst now caps =>
        rw [Kernel.reports] at h
        split at h <;> simp at h
      | request r =>
        cases r with
        | registerAction typeCode reg' =>
          obtain rfl := Report.registered.inj (List.mem_singleton.mp h)
          exact ⟨typeCode,List.mem_cons_self⟩
        | submit s =>
          rw [Kernel.reports] at h
          split at h
          · split at h <;> simp at h
          · cases h
        | _ => cases h
    · obtain ⟨typeCode,ht⟩ := ih _ h
      exact ⟨typeCode,List.mem_cons_of_mem _ ht⟩

theorem reportsOf_fair (k : Kernel) (calls : List Call)
    (hcode : ∀ typeCode reg, .request (.registerAction typeCode reg) ∈ calls →
      reg.ThroughAccessors) : ∀ o ∈ k.reportsOf c j calls, o.Fair := by
  induction calls generalizing k with
  | nil =>
    intro o ho
    cases ho
  | cons call calls ih =>
    intro o ho reg he
    subst he
    rcases List.mem_append.mp ho with ho | ho
    · obtain ⟨typeCode,ht⟩ := registered_mem c j reg k _ ho
      cases call with
      | request r =>
        obtain rfl := Micro.request.inj (List.mem_singleton.mp ht)
        exact hcode typeCode reg List.mem_cons_self
      | step now caps =>
        obtain ⟨_,-,hp⟩ := List.mem_map.mp ht
        cases hp
    · exact ih _ (fun t r hr => hcode t r (List.mem_cons_of_mem _ hr)) _ ho reg rfl

end Unwinding

/-- Two runs that agree in what concerns an instance, that is in creations,
registered code, steps and the submissions to it, leave it in the same state up
to its mail and report the same about it. Submissions to other instances,
signals, unloads, observers and the log make no difference. -/
theorem neighbours_irrelevant (c : Crypto) (manifest manifest' : Block)
    (wal wal' : Option WalWriter) (j : InstanceId) (calls calls' : List Call)
    (hsame : calls.filter (Call.concerns j) = calls'.filter (Call.concerns j))
    (hcode : ∀ typeCode reg, .request (.registerAction typeCode reg) ∈ calls →
      reg.ThroughAccessors) :
    (((Kernel.machine c).run (Kernel.build manifest wal) calls).instances[j]?).map
        Instance.withoutMail =
      (((Kernel.machine c).run (Kernel.build manifest' wal') calls').instances[j]?).map
        Instance.withoutMail ∧
    (Kernel.build manifest wal).reportsOf c j calls =
      (Kernel.build manifest' wal').reportsOf c j calls' := by
  have hstart : AlikeIn j (Kernel.build manifest wal) (Kernel.build manifest' wal') := by
    refine ⟨rfl,rfl,?_,rfl⟩
    intro typeCode reg hr
    simp [Kernel.build] at hr
  obtain ⟨ha,ht⟩ := (surveying_unwinding c j).run _ _ calls calls' hsame
    (reportsOf_fair c j _ calls hcode) hstart
  rw [List.filter_true,List.filter_true] at ht
  rw [Kernel.surveying,Transducer.withOut_run,Transducer.withOut_run] at ha
  exact ⟨ha.body,ht⟩

def chattyCalls (submissions : List Submission) : List Call := [
  .request (.registerAction (.clamp 7) (.constant [
    .sendSignal ⟨.succ 1⟩ ⟨1⟩ [9], .spawnEntity ⟨.succ 0⟩ .system])),
  .request (.createInstance { defaultCaps := .SYSTEM }),
  .request (.createInstance { defaultCaps := .SYSTEM })] ++
  submissions.map (fun s => .request (.submit s)) ++ [
  .request (.submit ⟨⟨.succ 1⟩,.system,none,.empty,⟨1⟩,.clamp 7,[]⟩),
  .step ⟨1⟩ .SYSTEM]

def chatter : Submission := ⟨⟨.succ 0⟩,.system,none,.SYSTEM,⟨1⟩,.clamp 7,[]⟩

theorem chattyCalls_code (typeCode : TypeCode) (reg : ActionRegistration)
    (h : .request (.registerAction typeCode reg) ∈ chattyCalls [chatter]) :
    reg.ThroughAccessors := by
  simp only [chattyCalls,List.map_cons,List.map_nil,List.cons_append,List.nil_append,
    List.mem_cons,Call.request.injEq,Request.registerAction.injEq,reduceCtorEq,List.not_mem_nil,
    or_false] at h
  rw [h.2]
  exact constant_throughAccessors _

theorem neighbours_irrelevant_chatty :
    let k := (Kernel.machine standIn).run (.build zeroBlock none) (chattyCalls [chatter])
    let k' := (Kernel.machine standIn).run (.build zeroBlock none) (chattyCalls [])
    (k.instances[(⟨.succ 1⟩ : InstanceId)]?).map (fun i => i.inboxLen ⟨1⟩) = some 1 ∧
    (k'.instances[(⟨.succ 1⟩ : InstanceId)]?).map (fun i => i.inboxLen ⟨1⟩) = some 0 ∧
    (k.instances[(⟨.succ 1⟩ : InstanceId)]?).map Instance.withoutMail =
      (k'.instances[(⟨.succ 1⟩ : InstanceId)]?).map Instance.withoutMail :=
  ⟨by decide +kernel,by decide +kernel,(neighbours_irrelevant standIn zeroBlock zeroBlock none none
    ⟨.succ 1⟩ _ _ rfl chattyCalls_code).1⟩

/-- A step may take the instances in any order: what each of them executes, and
its state up to its mail, is the same. -/
theorem step_order_irrelevant (c : Crypto) (k : Kernel) (hcode : ThroughAccessors k.actionRegistry)
    (now : Tick) (caps : CapabilityMask) (order : List InstanceId)
    (horder : order.Perm k.instances.keys) (j : InstanceId) :
    let pops := order.map (fun id => Micro.pop id now caps)
    (((Kernel.micro c).run k pops).instances[j]?).map Instance.withoutMail =
      ((k.step c now caps).2.instances[j]?).map Instance.withoutMail ∧
    (Kernel.reporting c j).trace k pops = k.reportsOf c j [.step now caps] := by
  intro pops
  have hn : order.Nodup := horder.nodup_iff.mpr (keys_nodup _)
  have hpops : pops.filter (Micro.concerns j) = (k.pops now caps).filter (Micro.concerns j) := by
    rw [Kernel.pops,pops_concerning j _ hn,pops_concerning j _ (keys_nodup _)]
    simp only [horder.mem_iff]
  have hg : ∀ o ∈ (Kernel.reporting c j).trace k pops, o.Fair := by
    intro o ho reg he
    subst he
    obtain ⟨typeCode,ht⟩ := registered_mem c j reg k _ ho
    obtain ⟨_,-,hp⟩ := List.mem_map.mp ht
    cases hp
  obtain ⟨ha,ht⟩ := (reporting_unwinding c j).run k k pops _ hpops hg (.refl hcode)
  rw [List.filter_true,List.filter_true] at ht
  rw [Kernel.reporting,Transducer.withOut_run,Transducer.withOut_run,← Kernel.step_eq] at ha
  refine ⟨ha.body,?_⟩
  rw [ht]
  exact (List.append_nil _).symm

def trioKernel : Kernel := (Kernel.machine standIn).run (.build zeroBlock none) [
  .request (.registerAction (.clamp 7) (.constant [
    .sendSignal ⟨.succ 2⟩ ⟨1⟩ [9], .spawnEntity ⟨.succ 0⟩ .system])),
  .request (.createInstance { defaultCaps := .SYSTEM }),
  .request (.createInstance { defaultCaps := .SYSTEM }),
  .request (.createInstance { defaultCaps := .SYSTEM, maxInboxPerRoute := 1 }),
  .request (.submit ⟨⟨.succ 0⟩,.system,none,.SYSTEM,⟨1⟩,.clamp 7,[]⟩),
  .request (.submit ⟨⟨.succ 1⟩,.system,none,.SYSTEM,⟨1⟩,.clamp 7,[]⟩),
  .request (.submit ⟨⟨.succ 2⟩,.system,none,.SYSTEM,⟨1⟩,.clamp 7,[]⟩)]

theorem trioKernel_code : ThroughAccessors trioKernel.actionRegistry := by
  intro typeCode reg h
  have hr : trioKernel.actionRegistry = (∅ : ActionRegistry).insert (.clamp 7) (.constant [
      .sendSignal ⟨.succ 2⟩ ⟨1⟩ [9], .spawnEntity ⟨.succ 0⟩ .system]) := rfl
  rw [hr] at h
  rcases get_insert_some.mp h with ⟨-,rfl⟩ | ⟨-,h⟩
  · exact constant_throughAccessors _
  · simp at h

/-- Taken backwards, the step leaves the third instance the same. -/
theorem step_order_irrelevant_trio :
    (((Kernel.micro standIn).run trioKernel
        ([⟨.succ 2⟩,⟨.succ 1⟩,⟨.succ 0⟩].map (fun id => .pop id ⟨1⟩ .SYSTEM))).instances[
          (⟨.succ 2⟩ : InstanceId)]?).map Instance.withoutMail =
      ((trioKernel.step standIn ⟨1⟩ .SYSTEM).2.instances[(⟨.succ 2⟩ : InstanceId)]?).map
        Instance.withoutMail :=
  (step_order_irrelevant standIn trioKernel trioKernel_code ⟨1⟩ .SYSTEM _
    (by decide +kernel) ⟨.succ 2⟩).1

end ArkheKernel
