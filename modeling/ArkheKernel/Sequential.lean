import ArkheKernel.Descent
import ArkheKernel.Lockstep

/-!
# A commit is the execution of the accepted operations in order

Operations are scattered into buckets and the buckets are drained one after the
other. What comes out is what executing the accepted operations directly on the
instance, one at a time, would have produced.
-/

set_option autoImplicit false

namespace ArkheKernel
open OrderedMap PrefixCode

/-- One operation executed on the instance itself. -/
def runOp (principal : Principal) (caps : CapabilityMask) (now : Tick) (i : Instance) :
    Op → Instance
  | .spawnEntity id owner =>
    { i.insertEntity id ⟨owner,now⟩ with
      ledger := (i.ledger.addEntity id).2
      idCounters := { i.idCounters with nextEntity := satAdd64 i.idCounters.nextEntity 1 } }
  | .despawnEntity id => { i.removeEntity id with ledger := (i.ledger.removeEntity id).2 }
  | .setComponent entity typeCode bytes size =>
    if (i.entities[entity]?).isSome then
      { i.insertComponent ⟨entity,typeCode⟩ bytes with
        ledger := (i.ledger.addComponent entity typeCode size).2 }
    else i
  | .removeComponent entity typeCode size =>
    { i.removeComponent ⟨entity,typeCode⟩ with
      ledger := (i.ledger.removeComponent entity typeCode size).2 }
  | .scheduleAction atTick actor actionTypeCode actionBytes =>
    { i with
      idCounters := { i.idCounters with nextScheduled := satAdd64 i.idCounters.nextScheduled 1 }
      scheduler := i.scheduler.scheduleWithId
        { id := ⟨NonZeroU64.succ i.idCounters.nextScheduled⟩
          atTick, actor, principal, actionTypeCode, actionBytes
          capsCeiling := caps } }
  | .emitEvent .. | .sendSignal .. => i

structure Instance.InRange (i : Instance) : Prop where
  nextEntity : i.idCounters.nextEntity ≤ u64Max
  nextScheduled : i.idCounters.nextScheduled ≤ u64Max
  nextSourceSeq : i.idCounters.nextSourceSeq ≤ u64Max
  wallRemainder : i.wallRemainder ≤ 2^128-1
  localTick : i.localTick ≤ u64Max

def KernelEvent.isFailure : KernelEvent → Bool
  | .effectFailed _ _ => true
  | _ => false

def StepStage.failures (s : StepStage) : ℕ := (s.events.filter KernelEvent.isFailure).length

theorem satAdd64_succ (n a : ℕ) : satAdd64 n (satAdd64 a 1) = satAdd64 (satAdd64 n a) 1 := by
  unfold satAdd64
  omega

theorem satAdd64_zero {n : ℕ} (h : n ≤ u64Max) : satAdd64 n 0 = n := satAdd64_eq h

theorem addComponent_absent {l : ResourceLedger} {e : EntityId} (h : e ∉ l.entities) (t : TypeCode)
    (size : ℕ) : (l.addComponent e t size).2 = l := by
  unfold ResourceLedger.addComponent
  rw [if_neg (by simpa using h)]

theorem applyStage_eq (i : Instance) (s : StepStage) : (applyStage i s).1 = { i with
    entities := (s.stateOps.foldl applyStateOp i).entities
    components := (s.stateOps.foldl applyStateOp i).components
    idCounters := advanceIdCounters i.idCounters s.idCounters
    ledger := s.ledgerOps.foldl applyLedgerOp i.ledger
    scheduler := s.scheduleDeltas.foldl applyScheduleDelta i.scheduler
    wallRemainder := satAdd128 i.wallRemainder s.wallRemainderDelta
    localTick := satAdd64 i.localTick s.localTickDelta } := by
  obtain ⟨es,cs,hf⟩ := applyStage_frame i s
  obtain ⟨he,hc⟩ := applyStage_maps i s
  rw [hf] at he hc
  rw [hf]
  congr 1

theorem applyStage_empty {i : Instance} (h : i.InRange) : (applyStage i {}).1 = i := by
  rw [applyStage_eq]
  simp only [List.foldl_nil,advanceIdCounters,satAdd64_zero h.nextEntity,
    satAdd64_zero h.nextScheduled,satAdd64_zero h.nextSourceSeq,satAdd64_zero h.localTick]
  have hw : satAdd128 i.wallRemainder 0 = i.wallRemainder := Nat.min_eq_left h.wallRemainder
  rw [hw]

/-- Staging an operation and committing is committing and then executing it. -/
theorem applyStage_dispatch {i : Instance} {s : StepStage} {next : ℕ} (instId : InstanceId)
    (principal : Principal) (caps : CapabilityMask) (now : Tick) (op : Op)
    (hn : next = (applyStage i s).1.idCounters.nextScheduled)
    (hl : (applyStage i s).1.InLockstep) :
    (applyStage i (dispatch ⟨instId,principal,op⟩ s now next caps).1).1 =
        runOp principal caps now (applyStage i s).1 op ∧
      (dispatch ⟨instId,principal,op⟩ s now next caps).2 =
        (runOp principal caps now (applyStage i s).1 op).idCounters.nextScheduled := by
  cases op with
  | spawnEntity id owner =>
    refine ⟨?_,hn⟩
    rw [applyStage_eq,applyStage_eq]
    simp only [dispatch,runOp,List.foldl_append,List.foldl_cons,List.foldl_nil,advanceIdCounters,
      satAdd64_succ]
    rfl
  | despawnEntity id =>
    refine ⟨?_,hn⟩
    rw [applyStage_eq,applyStage_eq]
    simp only [dispatch,runOp,List.foldl_append,List.foldl_cons,List.foldl_nil]
    rfl
  | setComponent entity typeCode bytes size =>
    have hlive : ((applyStage i s).1.entities[entity]?).isSome = true ↔
        entity ∈ (applyStage i s).1.ledger.entities := by
      rw [← hl.entities_iff,mem_iff_get,Option.isSome_iff_exists]
    rw [applyStage_eq] at hn hlive ⊢
    rw [applyStage_eq]
    simp only [dispatch,runOp,List.foldl_append,List.foldl_cons,List.foldl_nil,applyStateOp,
      applyLedgerOp]
    split
    · exact ⟨rfl,hn⟩
    · next hs =>
      have ha := addComponent_absent (fun hm => hs (hlive.mpr hm)) typeCode size
      exact ⟨by rw [ha],hn⟩
  | removeComponent entity typeCode size =>
    refine ⟨?_,hn⟩
    rw [applyStage_eq,applyStage_eq]
    simp only [dispatch,runOp,List.foldl_append,List.foldl_cons,List.foldl_nil]
    rfl
  | emitEvent actor eventTypeCode eventBytes => exact ⟨rfl,hn⟩
  | scheduleAction atTick actor actionTypeCode actionBytes =>
    subst hn
    rw [applyStage_eq,applyStage_eq]
    simp only [dispatch,runOp,List.foldl_append,List.foldl_cons,List.foldl_nil,advanceIdCounters,
      satAdd64_succ]
    exact ⟨rfl,trivial⟩
  | sendSignal target route payload => exact ⟨rfl,hn⟩

section Gates
variable (i : Instance) (instId : InstanceId) (principal : Principal) (caps : CapabilityMask)
  (now : Tick)

def authorized (op : Op) : Bool := (authorize caps ⟨instId,principal,op⟩).isOk

/-- The operations that the gates neither refuse nor skip. -/
def acceptedFrom : GateState → List Op → List Op
  | _, [] => []
  | g, op::ops =>
    if authorized instId principal caps op && (skipOp i g.stage op).isNone
    then op :: acceptedFrom (gateOp i instId principal caps now g op) ops
    else acceptedFrom (gateOp i instId principal caps now g op) ops

structure Gated (g g' : GateState) (n : ℕ) (acc : List Op) : Prop where
  granted : g'.anyDenied = g.anyDenied
  applied : g'.applied = g.applied+acc.length
  denied : g'.denied+acc.length = g.denied+n
  failures : g'.stage.failures+acc.length = g.stage.failures+n
  state : (applyStage i g'.stage).1 =
    acc.foldl (runOp principal caps now) (applyStage i g.stage).1

theorem acceptedFrom_sublist (g : GateState) (ops : List Op) :
    (acceptedFrom i instId principal caps now g ops).Sublist ops := by
  induction ops generalizing g with
  | nil => exact List.Sublist.refl _
  | cons op ops ih =>
    unfold acceptedFrom
    split
    · exact (ih _).cons_cons op
    · exact (ih _).cons op

theorem dispatch_failures (e : Effect) (s : StepStage) (next : ℕ) :
    (dispatch e s now next caps).1.failures = s.failures := by
  unfold dispatch
  cases e.op <;> simp [StepStage.failures,KernelEvent.isFailure]

theorem satAdd32_one {a : ℕ} (h : a < u32Max) : satAdd32 a 1 = a+1 := Nat.min_eq_left h

variable {i instId principal caps now}

theorem authorized_iff {op : Op} : authorized instId principal caps op = true ↔
    authorize caps ⟨instId,principal,op⟩ = .ok ⟨instId,principal,op⟩ := by
  unfold authorized
  cases h : authorize caps ⟨instId,principal,op⟩ with
  | error e => simp [Except.isOk,Except.toBool]
  | ok e =>
    obtain ⟨rfl,-⟩ := authorize_ok h
    simp [Except.isOk,Except.toBool]

theorem authorized_error {op : Op} {e : DenyReason}
    (h : authorize caps ⟨instId,principal,op⟩ = .error e) :
    authorized instId principal caps op = false := by
  simp [authorized,h,Except.isOk,Except.toBool]

theorem gates_denied (ops : List Op) (g : GateState) :
    (ops.foldl (gateOp i instId principal caps now) g).anyDenied =
      (g.anyDenied || !ops.all (authorized instId principal caps)) := by
  induction ops generalizing g with
  | nil => simp
  | cons op ops ih =>
    rw [List.foldl_cons,ih,List.all_cons]
    rcases gateOp_cases i instId principal caps now g op with ⟨e,ha,hg⟩ | ⟨ha,r,-,hg⟩ | ⟨ha,-,hg⟩
    · rw [hg,authorized_error ha]
      simp
    · rw [hg,authorized_iff.mpr ha]
      simp
    · rw [hg,authorized_iff.mpr ha]
      simp

section Run
variable {g g' g'' : GateState} {n n' : ℕ} {acc acc' : List Op}

theorem Gated.trans (h : Gated i principal caps now g g' n acc)
    (h' : Gated i principal caps now g' g'' n' acc') :
    Gated i principal caps now g g'' (n+n') (acc++acc') where
  granted := h'.granted.trans h.granted
  applied := by rw [h'.applied,h.applied,List.length_append,Nat.add_assoc]
  denied := by
    have hd := h.denied
    have hd' := h'.denied
    rw [List.length_append]
    omega
  failures := by
    have hf := h.failures
    have hf' := h'.failures
    rw [List.length_append]
    omega
  state := by rw [h'.state,h.state,List.foldl_append]

structure InStep (i : Instance) (g : GateState) : Prop where
  paired : g.stage.Paired
  next : g.nextScheduledId = (applyStage i g.stage).1.idCounters.nextScheduled

variable (now) in
theorem gateOp_skip {op : Op} {r : Bytes} (hd : g.denied < u32Max)
    (hop : authorize caps ⟨instId,principal,op⟩ = .ok ⟨instId,principal,op⟩)
    (hs : skipOp i g.stage op = some r) (hg : InStep i g) :
    Gated i principal caps now g (gateOp i instId principal caps now g op) 1 [] ∧
      InStep i (gateOp i instId principal caps now g op) := by
  rcases gateOp_cases i instId principal caps now g op with ⟨e,he,-⟩ | ⟨-,_,-,he⟩ | ⟨-,hn,-⟩
  · rw [hop] at he
    cases he
  · have hd' : satAdd32 g.denied 1 = g.denied+1 := satAdd32_one hd
    rw [he]
    refine ⟨⟨rfl,rfl,hd',?_,rfl⟩,hg.paired,hg.next⟩
    unfold StepStage.failures
    dsimp only
    rw [List.filter_append,List.length_append]
    rfl
  · rw [hs] at hn
    cases hn

variable (now) in
theorem gateOp_accept {op : Op} (hi : i.InLockstep) (ha : g.applied < u32Max)
    (hop : authorize caps ⟨instId,principal,op⟩ = .ok ⟨instId,principal,op⟩)
    (hs : skipOp i g.stage op = none) (hg : InStep i g) :
    Gated i principal caps now g (gateOp i instId principal caps now g op) 1 [op] ∧
      InStep i (gateOp i instId principal caps now g op) := by
  rcases gateOp_cases i instId principal caps now g op with ⟨e,he,-⟩ | ⟨-,_,hn,-⟩ | ⟨-,-,he⟩
  · rw [hop] at he
    cases he
  · rw [hs] at hn
    cases hn
  · have ha' : satAdd32 g.applied 1 = g.applied+1 := satAdd32_one ha
    obtain ⟨hstate,hnext⟩ := applyStage_dispatch instId principal caps now op hg.next
      (applyStage_lockstep i g.stage hg.paired hi)
    rw [he]
    refine ⟨⟨rfl,ha',rfl,?_,hstate⟩,dispatch_paired _ _ _ _ _ hg.paired,?_⟩
    · rw [dispatch_failures,List.length_singleton]
    · rw [hnext,← hstate]

/-- Authorized operations: each is either counted as denied and reported, or
counted as applied and executed. -/
theorem gates_run (hi : i.InLockstep) (ops : List Op)
    (ha : ∀ op ∈ ops, authorized instId principal caps op = true) (g : GateState)
    (hb : g.applied+g.denied+ops.length ≤ u32Max) (hg : InStep i g) :
    Gated i principal caps now g (ops.foldl (gateOp i instId principal caps now) g) ops.length
      (acceptedFrom i instId principal caps now g ops) := by
  induction ops generalizing g with
  | nil => exact ⟨rfl,rfl,rfl,rfl,rfl⟩
  | cons op ops ih =>
    have hop := ha op List.mem_cons_self
    have hrest : ∀ o ∈ ops, authorized instId principal caps o = true :=
      fun o ho => ha o (List.mem_cons_of_mem _ ho)
    have hok := authorized_iff.mp hop
    rw [List.length_cons] at hb ⊢
    rw [List.foldl_cons,acceptedFrom,hop,Bool.true_and,Nat.add_comm]
    cases hs : skipOp i g.stage op with
    | some r =>
      obtain ⟨hone,hg'⟩ := gateOp_skip now (by omega) hok hs hg
      have hd := hone.denied
      have hap := hone.applied
      rw [List.length_nil] at hd hap
      exact hone.trans (ih hrest _ (by omega) hg')
    | none =>
      obtain ⟨hone,hg'⟩ := gateOp_accept now hi (by omega) hok hs hg
      have hd := hone.denied
      have hap := hone.applied
      rw [List.length_singleton] at hd hap
      exact hone.trans (ih hrest _ (by omega) hg')

end Run

end Gates

theorem inRange_preserved : Kernel.Preserved (fun _ => True) (fun _ i => i.InRange) where
  created _ _ := ⟨Nat.zero_le _,Nat.zero_le _,Nat.zero_le _,Nat.zero_le _,Nat.zero_le _⟩
  admitted _ _ _ h := ⟨h.nextEntity,satAdd64_le _ _,h.nextSourceSeq,h.wallRemainder,h.localTick⟩
  executed x _ h := by
    unfold Execution.after
    split
    · rw [applyStage_eq]
      exact ⟨satAdd64_le _ _,satAdd64_le _ _,satAdd64_le _ _,Nat.min_le_right _ _,satAdd64_le _ _⟩
    · exact ⟨h.nextEntity,h.nextScheduled,h.nextSourceSeq,h.wallRemainder,h.localTick⟩
  signals _ _ _ _ _ h := ⟨h.nextEntity,h.nextScheduled,h.nextSourceSeq,h.wallRemainder,h.localTick⟩

namespace Execution
variable (x : Execution)

/-- The operations of the action that no gate refused or skipped. -/
def accepted : List Op :=
  acceptedFrom x.start x.instId x.entry.principal x.caps x.now
    { stage := {}, nextScheduledId := x.start.idCounters.nextScheduled } x.ops

theorem accepted_sublist : x.accepted.Sublist x.ops := acceptedFrom_sublist _ _ _ _ _ _ _

theorem gate_denied :
    x.gate.anyDenied = !x.ops.all (authorized x.instId x.entry.principal x.caps) :=
  gates_denied x.ops _

theorem start_inRange (hr : x.before.InRange) : x.start.InRange :=
  ⟨hr.nextEntity,hr.nextScheduled,hr.nextSourceSeq,hr.wallRemainder,hr.localTick⟩

theorem gate_run (hi : x.before.InLockstep) (hr : x.before.InRange)
    (ha : ∀ op ∈ x.ops, authorized x.instId x.entry.principal x.caps op = true)
    (hlen : x.ops.length < 2^32) : Gated x.start x.entry.principal x.caps x.now
      { stage := {}, nextScheduledId := x.start.idCounters.nextScheduled } x.gate x.ops.length
      x.accepted := by
  apply gates_run (i := x.start) hi x.ops ha
  · unfold u32Max
    dsimp only
    omega
  · refine ⟨rfl,?_⟩
    rw [applyStage_empty (x.start_inRange hr)]

theorem gate_counts (hi : x.before.InLockstep) (hr : x.before.InRange)
    (ha : ∀ op ∈ x.ops, authorized x.instId x.entry.principal x.caps op = true)
    (hlen : x.ops.length < 2^32) : x.gate.applied = x.accepted.length ∧
      x.gate.denied+x.accepted.length = x.ops.length ∧
      x.gate.stage.failures+x.accepted.length = x.ops.length ∧
      (applyStage x.start x.gate.stage).1 =
        x.accepted.foldl (runOp x.entry.principal x.caps x.now) x.start := by
  have hg := x.gate_run hi hr ha hlen
  refine ⟨hg.applied.trans (Nat.zero_add _),hg.denied.trans (Nat.zero_add _),
    hg.failures.trans (Nat.zero_add _),?_⟩
  have hs := hg.state
  dsimp only at hs
  rw [hs,applyStage_empty (x.start_inRange hr)]

theorem refused_unchanged {action : ActionDyn} (haction : x.action = .ok action)
    (hd : x.gate.anyDenied = true) (c : Crypto) (measureDigest : Bool) :
    x.verdict = .authDenied ∧ x.after = x.start ∧ x.stage = {} ∧
      (x.core c measureDigest).effectsApplied = 0 := by
  have hc : x.commits = false := by simp [commits,haction,hd]
  exact ⟨by simp [verdict,haction,hd],by simp [after,hc],by simp [stage,hc],by simp [core,hc]⟩

theorem verdict_granted {action : ActionDyn} (haction : x.action = .ok action)
    (hd : x.gate.anyDenied = false) {k n : ℕ} (hk : x.gate.denied+k = n) :
    x.verdict = if k = n then .committed else .budgetPartial (n-k) := by
  unfold verdict
  rw [haction]
  dsimp only
  rw [hd,if_neg (by simp)]
  by_cases hall : k = n
  · rw [if_pos hall,if_neg (by omega)]
  · rw [if_neg hall,if_pos (by omega)]
    congr 1
    omega

end Execution

/-- In every run, an action with a refused operation changes nothing but the
queue it was popped from. Every other action leaves the instance as the
operations that no gate skipped leave it when they are executed in order, and
its skipped operations are counted by the verdict, the report and the events. -/
theorem commit_is_sequential (c : Crypto) (manifest : Block) (wal : Option WalWriter)
    (calls : List Call) (x : Execution)
    (hx : .executed x ∈ (Kernel.machine c).trace (.build manifest wal) calls) (action : ActionDyn)
    (haction : x.action = .ok action) (hlen : x.ops.length < 2^32) (measureDigest : Bool) :
    ((∃ op ∈ x.ops, ∃ e, authorize x.caps ⟨x.instId,x.entry.principal,op⟩ = .error e) →
      x.verdict = .authDenied ∧ x.after = x.start ∧ x.stage = {} ∧
        (x.core c measureDigest).effectsApplied = 0) ∧
    ((∀ op ∈ x.ops, ∃ e, authorize x.caps ⟨x.instId,x.entry.principal,op⟩ = .ok e) →
      x.after = x.accepted.foldl (runOp x.entry.principal x.caps x.now) x.start ∧
      x.accepted.Sublist x.ops ∧
      (x.core c measureDigest).effectsApplied = x.accepted.length ∧
      (x.core c measureDigest).effectsApplied + (x.core c measureDigest).effectsDenied =
        x.ops.length ∧
      x.verdict = (if x.accepted.length = x.ops.length then .committed
        else .budgetPartial (x.ops.length-x.accepted.length)) ∧
      x.stage.failures = x.ops.length-x.accepted.length) := by
  rw [(Kernel.expansion c).trace_eq] at hx
  have hstart := Kernel.build_everywhere (fun _ i => i.InLockstep) manifest wal
  have hlock := lockstep_preserved.micro_trace c _ _ (fun _ _ => trivial) hstart x hx
  have hrange := inRange_preserved.micro_trace c _ _ (fun _ _ => trivial)
    (Kernel.build_everywhere (fun _ i => i.InRange) manifest wal) x hx
  refine ⟨?_,?_⟩
  · rintro ⟨op,hop,e,he⟩
    have hd : x.gate.anyDenied = true := by
      rw [x.gate_denied,Bool.not_eq_true',List.all_eq_false]
      exact ⟨op,hop,by rw [authorized_error he]; exact Bool.false_ne_true⟩
    exact x.refused_unchanged haction hd c measureDigest
  · intro hok
    have ha : ∀ op ∈ x.ops, authorized x.instId x.entry.principal x.caps op = true := by
      intro op hop
      obtain ⟨e,he⟩ := hok op hop
      obtain ⟨rfl,-⟩ := authorize_ok he
      exact authorized_iff.mpr he
    have hd : x.gate.anyDenied = false := by
      rw [x.gate_denied,Bool.not_eq_false']
      exact List.all_eq_true.mpr ha
    have hc : x.commits = true := by simp [Execution.commits,haction,hd]
    obtain ⟨happlied,hdenied,hfail,hstate⟩ := x.gate_counts hlock hrange ha hlen
    have hafter : x.after = (applyStage x.start x.gate.stage).1 := if_pos hc
    have hstage : x.stage = x.gate.stage := if_pos hc
    have hcore : (x.core c measureDigest).effectsApplied = x.gate.applied := if_pos hc
    have hrest : (x.core c measureDigest).effectsDenied = x.gate.denied := rfl
    refine ⟨hafter.trans hstate,x.accepted_sublist,hcore.trans happlied,?_,
      x.verdict_granted haction hd hdenied,?_⟩
    · rw [hcore,hrest]
      omega
    · rw [hstage]
      omega

def mixedCalls : List Call := [
  .request (.registerAction (.clamp 7) (.constant [
    .setComponent ⟨.succ 0⟩ (.clamp 1) [1] 8, .spawnEntity ⟨.succ 0⟩ .system,
    .scheduleAction ⟨2⟩ none (.clamp 7) [], .setComponent ⟨.succ 0⟩ (.clamp 2) [2] 8,
    .spawnEntity ⟨.succ 1⟩ .system, .sendSignal ⟨.succ 0⟩ ⟨1⟩ [3], .despawnEntity ⟨.succ 0⟩])),
  .request (.createInstance { defaultCaps := .SYSTEM, maxEntities := 1 }),
  .request (.submit ⟨⟨.succ 0⟩,.system,none,.SYSTEM,⟨1⟩,.clamp 7,[]⟩),
  .step ⟨1⟩ .SYSTEM]

theorem commit_is_sequential_mixed : ∃ x : Execution,
    x.after = x.accepted.foldl (runOp x.entry.principal x.caps x.now) x.start ∧
      x.accepted.length = 6 ∧ x.verdict = .budgetPartial 1 := by
  have hc : (((Kernel.machine standIn).trace (.build zeroBlock none) mixedCalls)[2]?.bind
      Item.execution).map (fun x => (x.action.isOk,x.ops.length,x.accepted.length,
        x.ops.all (authorized x.instId x.entry.principal x.caps))) = some (true,7,6,true) := by
    decide +kernel
  obtain ⟨x,hx,hm⟩ := Option.map_eq_some_iff.mp hc
  obtain ⟨o,ho,hox⟩ := Option.bind_eq_some_iff.mp hx
  simp only [Prod.mk.injEq] at hm
  obtain ⟨hok,hlen,hacc,hall⟩ := hm
  have hmem : .executed x ∈ (Kernel.machine standIn).trace (.build zeroBlock none) mixedCalls := by
    cases o with
    | executed y =>
      obtain rfl := Option.some.inj hox
      exact List.mem_of_getElem? ho
    | _ => cases hox
  cases haction : x.action with
  | error e =>
    rw [haction] at hok
    cases hok
  | ok action =>
    obtain ⟨-,hseq⟩ := commit_is_sequential standIn zeroBlock none mixedCalls x hmem action haction
      (by rw [hlen]; decide) false
    obtain ⟨hafter,-,-,-,hv,-⟩ := hseq (fun op hop =>
      ⟨_,authorized_iff.mp (List.all_eq_true.mp hall op hop)⟩)
    rw [hlen,hacc] at hv
    exact ⟨x,hafter,hacc,hv⟩

end ArkheKernel
