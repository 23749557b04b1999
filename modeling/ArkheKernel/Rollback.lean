import ArkheKernel.Agreement

/-!
# Rollback and the reused scratch

A rolled back action is one whose stage is never applied. The stage stays dirty
until the next action of any instance clears it; a kernel that allocates a fresh
one for every action cannot be told apart.
-/

set_option autoImplicit false

namespace ArkheKernel
open OrderedMap PrefixCode

namespace Kernel

def freshen (k : Kernel) : Kernel := { k with stepScratch := {} }

/-- The step loop, with the scratch prepared before every action. The results of
the actions are kept beside the report and the kernel. -/
def loop (c : Crypto) (prepare : Kernel → Kernel) (now : Tick) (caps : CapabilityMask)
    (measureDigest : Bool) :
    List InstanceId → StepReport × Kernel → List InstanceStepResult × StepReport × Kernel
  | [], acc => ([],acc)
  | inst::ids, acc =>
    let rest := loop c prepare now caps measureDigest ids
      (stepInstance c now caps measureDigest (acc.1,prepare acc.2) inst)
    ((((prepare acc.2).processInstanceRecord c inst now caps measureDigest).map Prod.fst).toList ++
      rest.1,rest.2)

def prepared (c : Crypto) (prepare : Kernel → Kernel) (k : Kernel) (now : Tick)
    (caps : CapabilityMask) : List InstanceStepResult × StepReport × Kernel :=
  loop c prepare now caps k.wal.isSome k.instances.keys ({},k)

end Kernel

/-- Everything a call returns or computes: answers with full reports, and the
popped id, verdict, digest and counts of every action. -/
inductive Observation where
  | response (r : Response)
  | result (r : InstanceStepResult)

def Kernel.scratchMachine (c : Crypto) (prepare : Kernel → Kernel) :
    Transducer Kernel Call Observation where
  next k
    | .request r => k.serve c r
    | .step now caps => (k.prepared c prepare now caps).2.2
  out k
    | .request r => (k.answer c (.request r)).map Observation.response
    | .step now caps => (k.prepared c prepare now caps).1.map Observation.result ++
        [.response (.stepped (k.prepared c prepare now caps).2.1)]

namespace Execution
variable (x : Execution)

theorem rolled_back (h : x.verdict = .authDenied ∨ ∃ reason, x.verdict = .skipped reason) :
    x.commits = false := by
  unfold verdict at h
  unfold commits
  cases ha : x.action with
  | error reason => rfl
  | ok action =>
    rw [ha] at h
    dsimp only at h
    by_cases hd : x.gate.anyDenied = true
    · simp [hd]
    · rw [if_neg hd] at h
      split at h
      · rcases h with h | ⟨_,h⟩ <;> cases h
      · rcases h with h | ⟨_,h⟩ <;> cases h

theorem rolled_back_stage (h : x.commits = false) : x.stage = {} := by
  rw [stage,h]
  rfl

theorem rolled_back_settle (h : x.commits = false) (m : BTreeMap InstanceId Instance) :
    x.settle m = m.insert x.instId { x.before with scheduler := x.rest } := by
  have ha : x.after = x.start := by rw [after,h]; rfl
  rw [settle,x.rolled_back_stage h,ha]
  rfl

theorem rolled_back_emits (h : x.verdict = .authDenied ∨ ∃ reason, x.verdict = .skipped reason)
    (m : BTreeMap InstanceId Instance) : x.emits m = [] := by
  rw [emits,x.rolled_back_stage (x.rolled_back h)]
  rcases h with h | ⟨_,h⟩
  · rw [h]
    rfl
  · rw [h]
    rfl

end Execution

namespace Kernel
variable (c : Crypto) (k : Kernel)

theorem process_rolled_back {inst : InstanceId} {now : Tick} {caps : CapabilityMask}
    {measureDigest : Bool} {result : InstanceStepResult} {k' : Kernel}
    (h : k.processInstanceRecord c inst now caps measureDigest = some (result,k'))
    (hv : result.verdict = .authDenied ∨ ∃ reason, result.verdict = .skipped reason) :
    ∃ i e rest, k.instances[inst]? = some i ∧ i.scheduler.popDue now = some (e,rest) ∧
      k'.instances = k.instances.insert inst { i with scheduler := rest } ∧
      k'.observers = k.observers ∧ result.effectsApplied = 0 ∧
      result.domainEventsEmitted = 0 ∧ result.observersEvicted = 0 := by
  cases hx : k.execution inst now caps with
  | none =>
    rw [process_none c measureDigest hx] at h
    cases h
  | some x =>
    obtain ⟨scratch,hs⟩ := process_some c measureDigest hx
    obtain ⟨hi,rfl,-,rfl,-⟩ := execution_some hx
    rw [hs] at h
    obtain ⟨rfl,rfl⟩ := Prod.mk.inj (Option.some.inj h)
    have hc := x.rolled_back hv
    refine ⟨x.before,x.entry,x.rest,hi,x.popped,x.rolled_back_settle hc _,?_,?_,?_,?_⟩
    · dsimp only
      rw [x.rolled_back_emits hv]
      rfl
    · exact if_neg (by simp [hc])
    · change (x.stage.events.filter KernelEvent.isDomain).length = 0
      rw [x.rolled_back_stage hc]
      rfl
    · dsimp only
      rw [x.rolled_back_emits hv]
      rfl

theorem freshen_process (inst : InstanceId) (now : Tick) (caps : CapabilityMask)
    (measureDigest : Bool) :
    (k.freshen.processInstanceRecord c inst now caps measureDigest).map
        (fun p => (p.1,p.2.freshen)) =
      (k.processInstanceRecord c inst now caps measureDigest).map (fun p => (p.1,p.2.freshen)) := by
  have he : k.freshen.execution inst now caps = k.execution inst now caps := rfl
  cases hx : k.execution inst now caps with
  | none => rw [process_none c _ hx,process_none c _ (he.trans hx)]
  | some x =>
    obtain ⟨s,hs⟩ := process_some c measureDigest hx
    obtain ⟨s',hs'⟩ := process_some c measureDigest (he.trans hx)
    rw [hs,hs']
    rfl

theorem freshen_serve (r : Request) : (k.freshen.serve c r).freshen = (k.serve c r).freshen ∧
    k.freshen.answer c (.request r) = k.answer c (.request r) := by
  cases r with
  | submit s =>
    have h : k.freshen.submit c s = ((k.submit c s).1,(k.submit c s).2.freshen) := by
      have hi : k.freshen.instances[s.inst]? = k.instances[s.inst]? := rfl
      unfold submit
      rw [hi]
      cases k.instances[s.inst]? with
      | none => rfl
      | some i =>
        dsimp only
        split <;> rfl
    refine ⟨?_,?_⟩
    · change (k.freshen.submit c s).2.freshen = (k.submit c s).2.freshen
      rw [h]
      rfl
    · change [Response.submitted (k.freshen.submit c s).1] = [Response.submitted (k.submit c s).1]
      rw [h]
  | forceUnload route caps =>
    have h : k.freshen.forceUnload route caps =
        ((k.forceUnload route caps).1,(k.forceUnload route caps).2.freshen) := by
      unfold forceUnload
      split <;> rfl
    refine ⟨?_,?_⟩
    · change (k.freshen.forceUnload route caps).2.freshen = (k.forceUnload route caps).2.freshen
      rw [h]
      rfl
    · change [Response.unloaded (k.freshen.forceUnload route caps).1] =
        [Response.unloaded (k.forceUnload route caps).1]
      rw [h]
  | _ => exact ⟨rfl,rfl⟩

theorem freshen_stepInstance (now : Tick) (caps : CapabilityMask) (measureDigest : Bool)
    (report : StepReport) (inst : InstanceId) :
    ((stepInstance c now caps measureDigest (report,k.freshen) inst).1,
        (stepInstance c now caps measureDigest (report,k.freshen) inst).2.freshen) =
      ((stepInstance c now caps measureDigest (report,k) inst).1,
        (stepInstance c now caps measureDigest (report,k) inst).2.freshen) := by
  have h := freshen_process c k inst now caps measureDigest
  unfold stepInstance
  dsimp only
  cases hp : k.processInstanceRecord c inst now caps measureDigest with
  | none =>
    rw [hp] at h
    rw [Option.map_eq_none_iff.mp h]
    rfl
  | some p =>
    rw [hp] at h
    obtain ⟨⟨r,l⟩,hq,hpq⟩ := Option.map_eq_some_iff.mp h
    obtain ⟨rfl,hk⟩ := Prod.mk.inj hpq
    rw [hq]
    exact congrArg (Prod.mk _) (congrArg (fun l => appendRecord c l inst now caps p.1) hk)

variable {c k}

theorem loop_scratch {prepare prepare' : Kernel → Kernel}
    (hp : ∀ k, (prepare k).freshen = k.freshen) (hp' : ∀ k, (prepare' k).freshen = k.freshen)
    (now : Tick) (caps : CapabilityMask) (measureDigest : Bool) (ids : List InstanceId)
    (report : StepReport) {l l' : Kernel} (h : l.freshen = l'.freshen) :
    let a := loop c prepare now caps measureDigest ids (report,l)
    let b := loop c prepare' now caps measureDigest ids (report,l')
    a.1 = b.1 ∧ a.2.1 = b.2.1 ∧ a.2.2.freshen = b.2.2.freshen := by
  induction ids generalizing report l l' with
  | nil => exact ⟨rfl,rfl,h⟩
  | cons inst ids ih =>
    have hpre : (prepare l).freshen = (prepare' l').freshen := (hp l).trans (h.trans (hp' l').symm)
    have hstep : ((stepInstance c now caps measureDigest (report,prepare l) inst).1,
        (stepInstance c now caps measureDigest (report,prepare l) inst).2.freshen) =
        ((stepInstance c now caps measureDigest (report,prepare' l') inst).1,
          (stepInstance c now caps measureDigest (report,prepare' l') inst).2.freshen) := by
      rw [← freshen_stepInstance c (prepare l),← freshen_stepInstance c (prepare' l'),hpre]
    have hres : ((prepare l).processInstanceRecord c inst now caps measureDigest).map Prod.fst =
        ((prepare' l').processInstanceRecord c inst now caps measureDigest).map Prod.fst := by
      have hm := freshen_process c (prepare l) inst now caps measureDigest
      rw [hpre,freshen_process c (prepare' l')] at hm
      have hf := congrArg (Option.map Prod.fst) hm
      rw [Option.map_map,Option.map_map] at hf
      exact hf.symm
    obtain ⟨hr,hk⟩ := Prod.mk.inj hstep
    obtain ⟨h1,h2,h3⟩ := ih (stepInstance c now caps measureDigest (report,prepare l) inst).1 hk
    intro a b
    have ha : a = loop c prepare now caps measureDigest (inst::ids) (report,l) := rfl
    have hb : b = loop c prepare' now caps measureDigest (inst::ids) (report,l') := rfl
    rw [loop] at ha hb
    have he : stepInstance c now caps measureDigest (report,prepare' l') inst =
        ((stepInstance c now caps measureDigest (report,prepare l) inst).1,
          (stepInstance c now caps measureDigest (report,prepare' l') inst).2) := by
      rw [hr]
    rw [ha,hb]
    dsimp only
    rw [hres,he]
    exact ⟨congrArg _ h1,h2,h3⟩

theorem loop_id (now : Tick) (caps : CapabilityMask) (measureDigest : Bool)
    (ids : List InstanceId) (acc : StepReport × Kernel) :
    (loop c id now caps measureDigest ids acc).2 =
      ids.foldl (stepInstance c now caps measureDigest) acc := by
  induction ids generalizing acc with
  | nil => rfl
  | cons inst ids ih => exact ih _

theorem scratchMachine_id (k : Kernel) (calls : List Call) :
    (scratchMachine c id).run k calls = (machine c).run k calls := by
  apply (scratchMachine c id).run_related (machine c) Eq
  · intro s t call he
    subst he
    cases call with
    | request r => rfl
    | step now caps => exact congrArg Prod.snd (loop_id now caps s.wal.isSome s.instances.keys ({},s))
  · rfl

theorem scratch_next {l l' : Kernel} (h : l.freshen = l'.freshen) (call : Call) :
    ((scratchMachine c id).next l call).freshen =
        ((scratchMachine c freshen).next l' call).freshen ∧
      (scratchMachine c id).out l call = (scratchMachine c freshen).out l' call := by
  cases call with
  | request r =>
    obtain ⟨hs,ha⟩ := freshen_serve c l r
    obtain ⟨hs',ha'⟩ := freshen_serve c l' r
    rw [h] at hs ha
    exact ⟨hs.symm.trans hs',congrArg (List.map Observation.response) (ha.symm.trans ha')⟩
  | step now caps =>
    have hw : l.wal = l'.wal := by
      change l.freshen.wal = l'.freshen.wal
      rw [h]
    have hi : l.instances = l'.instances := by
      change l.freshen.instances = l'.freshen.instances
      rw [h]
    have hreused : ∀ k : Kernel, (id k).freshen = k.freshen := fun _ => rfl
    have hfresh : ∀ k : Kernel, (freshen k).freshen = k.freshen := fun _ => rfl
    obtain ⟨h1,h2,h3⟩ := loop_scratch (c := c) hreused hfresh now caps l.wal.isSome
      l.instances.keys {} h
    change ((l.prepared c id now caps).2.2).freshen = ((l'.prepared c freshen now caps).2.2).freshen ∧
      _ ++ [Observation.response (.stepped (l.prepared c id now caps).2.1)] =
      _ ++ [Observation.response (.stepped (l'.prepared c freshen now caps).2.1)]
    unfold prepared
    rw [← hw,← hi]
    exact ⟨h3,by rw [h1,h2]⟩

end Kernel

/-- A denied or skipped action leaves the kernel as the pop of its entry does:
nothing changes but the queue of its instance, nothing is emitted and nothing
counted as applied. And in every run the kernel that reuses its scratch and one
that allocates a fresh one for every action end in the same kernel up to the
scratch, having returned and computed the same. -/
theorem rollback_leaves_no_trace (c : Crypto) (k : Kernel) :
    (∀ inst now caps measureDigest result k',
      k.processInstanceRecord c inst now caps measureDigest = some (result,k') →
      (result.verdict = .authDenied ∨ ∃ reason, result.verdict = .skipped reason) →
      ∃ i e rest, k.instances[inst]? = some i ∧ i.scheduler.popDue now = some (e,rest) ∧
        k'.instances = k.instances.insert inst { i with scheduler := rest } ∧
        k'.observers = k.observers ∧ result.effectsApplied = 0 ∧
        result.domainEventsEmitted = 0 ∧ result.observersEvicted = 0) ∧
    ∀ calls : List Call,
      ((Kernel.machine c).run k calls).freshen =
        ((Kernel.scratchMachine c Kernel.freshen).run k calls).freshen ∧
      (Kernel.scratchMachine c id).trace k calls =
        (Kernel.scratchMachine c Kernel.freshen).trace k calls := by
  refine ⟨fun _ _ _ _ _ _ h hv => k.process_rolled_back c h hv,?_⟩
  intro calls
  rw [← Kernel.scratchMachine_id]
  have hrun : ∀ (calls : List Call) (l l' : Kernel), l.freshen = l'.freshen →
      ((Kernel.scratchMachine c id).run l calls).freshen =
          ((Kernel.scratchMachine c Kernel.freshen).run l' calls).freshen ∧
        (Kernel.scratchMachine c id).trace l calls =
          (Kernel.scratchMachine c Kernel.freshen).trace l' calls := by
    intro calls
    induction calls with
    | nil => exact fun l l' h => ⟨h,rfl⟩
    | cons call calls ih =>
      intro l l' h
      obtain ⟨hn,ho⟩ := Kernel.scratch_next (c := c) h call
      obtain ⟨hr,ht⟩ := ih _ _ hn
      exact ⟨hr,by rw [Transducer.trace,Transducer.trace,ho,ht]⟩
  exact hrun calls k k rfl

def refusedCalls : List Call := [
  .request (.registerAction (.clamp 7) (.constant [
    .spawnEntity ⟨.succ 0⟩ .system, .emitEvent none (.clamp 9) [1], .sendSignal ⟨.succ 0⟩ ⟨1⟩ [2]])),
  .request (.createInstance {}),
  .request (.submit ⟨⟨.succ 0⟩,.system,none,.SYSTEM,⟨1⟩,.clamp 7,[]⟩)]

theorem rollback_leaves_no_trace_refused :
    let k := (Kernel.machine standIn).run (.build zeroBlock none) refusedCalls
    ∃ result k', k.processInstanceRecord standIn ⟨.succ 0⟩ ⟨1⟩ .SYSTEM true = some (result,k') ∧
      result.verdict = .authDenied ∧ k'.observers = k.observers ∧ result.effectsApplied = 0 := by
  intro k
  have hc : (k.processInstanceRecord standIn ⟨.succ 0⟩ ⟨1⟩ .SYSTEM true).map
      (fun p => p.1.verdict) = some .authDenied := by decide +kernel
  obtain ⟨⟨result,k'⟩,hp,hv⟩ := Option.map_eq_some_iff.mp hc
  obtain ⟨_,_,_,-,-,-,hobs,happ,-⟩ := (rollback_leaves_no_trace standIn k).1 ⟨.succ 0⟩ ⟨1⟩ .SYSTEM
    true result k' hp (Or.inl hv)
  exact ⟨result,k',hp,hv,hobs,happ⟩

end ArkheKernel
