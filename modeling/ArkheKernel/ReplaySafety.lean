import ArkheKernel.IdAllocation
import ArkheKernel.ReplayFidelity

/-!
# Replaying a log that nobody vouches for

Replay takes the id of a submission from the record and stops at the first
record that fails. No record reaches a panicking branch, and the schedulers
stay valid wherever it stops, unless a record repeats an id that is pending.
-/

set_option autoImplicit false

namespace ArkheKernel
open OrderedMap

def Scheduler.applyPanics (s : Scheduler) (ds : List ScheduledEntryDelta) : Prop :=
  ∃ pre id post, ds = pre ++ .remove id :: post ∧
    (pre.foldl applyScheduleDelta s).cancelPanics id

def Execution.Panics (x : Execution) : Prop :=
  x.commits = true ∧ x.rest.applyPanics x.gate.stage.scheduleDeltas

/-- Verification outside of the class that a method is written for. -/
def VerifierClass.verifyPanics : VerifierClass → Prop
  | .none => True
  | .ed25519 _ => False
  | .hybrid _ _ => False

def VerifierClass.verifyHybridPanics : VerifierClass → Prop
  | .hybrid _ _ => False
  | .none => True
  | .ed25519 _ => True

def VerifierClass.checkPanics : VerifierClass → Prop
  | .none => False
  | .ed25519 vk => (VerifierClass.ed25519 vk).verifyPanics
  | .hybrid vk pqc => (VerifierClass.hybrid vk pqc).verifyHybridPanics

namespace Kernel

def recordPanics (k : Kernel) (rec : WalRecord) : Prop :=
  match rec.content with
  | .submit .. => False
  | .step _ inst _ now sessionCaps _ _ =>
    (∃ i : Instance, k.instances[inst]? = some i ∧ i.scheduler.popPanics now) ∨
      ∃ x, k.execution inst now ⟨sessionCaps⟩ = some x ∧ x.Panics

/-- The kernel after one record, whether or not replay accepts it. -/
def replayNext (c : Crypto) (k : Kernel) (rec : WalRecord) : Kernel :=
  match rec.content with
  | .submit _ inst principal actor caps atTick typeCode actionBytes id =>
    match k.submitWithId ⟨inst,principal,actor,⟨caps⟩,atTick,typeCode,actionBytes⟩ id with
    | .error _ => k
    | .ok k => k
  | .step _ inst _ now sessionCaps _ _ =>
    match k.processInstanceRecord c inst now ⟨sessionCaps⟩ true with
    | none => k
    | some (_,k) => k

/-- Replay panics while it checks the chain, or at one of the records. -/
def replayPanics (c : Crypto) (k : Kernel) (w : Wal) : Prop :=
  (∃ v, VerifierClass.fromHeaderBytes c w.header.verifyingKey w.header.verifyingKeyPqc = .ok v ∧
    v.checkPanics) ∨
  ∃ pre rec post, w.records = pre ++ rec :: post ∧
    (pre.foldl (replayNext c) k).recordPanics rec

def FreshId (k : Kernel) (rec : WalRecord) : Prop :=
  match rec.content with
  | .submit _ inst _ _ _ _ _ _ id => ∀ i ∈ k.instances[inst]?, id ∉ i.scheduler.byId
  | .step .. => True

instance (k : Kernel) (rec : WalRecord) : Decidable (k.FreshId rec) := by
  unfold FreshId
  split <;> infer_instance

end Kernel

def replaying (c : Crypto) : Transducer Kernel WalRecord Execution where
  next := Kernel.replayNext c
  out k rec :=
    match rec.content with
    | .submit .. => []
    | .step _ inst _ now sessionCaps _ _ => (k.execution inst now ⟨sessionCaps⟩).toList

/-- The records that replay takes up, down to the one that it fails on. -/
def replayedFrom (c : Crypto) (k : Kernel) (writer : WalWriter) (report : ReplayReport) :
    List WalRecord → List WalRecord
  | [] => []
  | rec::rest => rec ::
    match replayRecord c k writer report rec with
    | (_,.error _) => []
    | (k,.ok (writer,report)) => replayedFrom c k writer report rest

/-- The records that a replay takes up, none when a check before the first fails. -/
def replayed (c : Crypto) (k : Kernel) (w : Wal) : List WalRecord :=
  match checkHeaderGates w with
  | .error _ => []
  | .ok () =>
    if w.header.manifestDigest ≠ k.manifestDigest then []
    else
      match w.verifyChain c w.header.worldId with
      | .error _ => []
      | .ok () => replayedFrom c k (.rebuildFromHeader c w.header) {} w.records

/-- No submission is re-admitted under an id that is pending by then. -/
def FreshIds (c : Crypto) (k : Kernel) (w : Wal) : Prop :=
  (replaying c).Admits Kernel.FreshId k (replayed c k w)

instance (c : Crypto) (k : Kernel) (w : Wal) : Decidable (FreshIds c k w) :=
  inferInstanceAs (Decidable ((replaying c).Admits Kernel.FreshId k (replayed c k w)))

/-- A stage only adds, so nothing is cancelled. -/
theorem Execution.panics_never (x : Execution) : ¬ x.Panics := by
  intro ⟨_,pre,id,post,hd,_⟩
  have hm : ScheduledEntryDelta.remove id ∈ x.gate.stage.children.map ScheduledEntryDelta.add := by
    rw [← x.gate_staged.adds,hd]
    exact List.mem_append_right _ List.mem_cons_self
  obtain ⟨e,-,he⟩ := List.mem_map.mp hm
  cases he

theorem VerifierClass.check_panics_never (v : VerifierClass) : ¬ v.checkPanics := by
  intro h
  cases v <;> exact h

theorem Kernel.replay_panics_never (c : Crypto) (k : Kernel) (w : Wal) : ¬ k.replayPanics c w := by
  rintro (⟨v,-,hv⟩ | ⟨pre,rec,post,-,hr⟩)
  · exact v.check_panics_never hv
  · unfold recordPanics at hr
    split at hr
    · exact hr
    · rcases hr with ⟨i,-,hi⟩ | ⟨x,-,hx⟩
      · exact i.scheduler.pop_panics_never _ hi
      · exact x.panics_never hx

section Replay
variable (c : Crypto)

theorem replayRecord_kernel (k : Kernel) (writer : WalWriter) (report : ReplayReport)
    (rec : WalRecord) : (replayRecord c k writer report rec).1 = k.replayNext c rec := by
  unfold replayRecord Kernel.replayNext
  cases rec.content with
  | submit seq inst principal actor caps atTick typeCode actionBytes id =>
    dsimp only
    cases k.submitWithId ⟨inst,principal,actor,⟨caps⟩,atTick,typeCode,actionBytes⟩ id <;> rfl
  | step seq inst poppedId now sessionCaps verdict digest =>
    dsimp only
    cases k.processInstanceRecord c inst now ⟨sessionCaps⟩ true with
    | none => rfl
    | some p =>
      dsimp only
      -- whichever tripwire is hit, the kernel has moved
      split
      · rfl
      · split
        · rfl
        · split <;> rfl

theorem replayFrom_kernel (k : Kernel) (writer : WalWriter) (report : ReplayReport)
    (records : List WalRecord) : (replayFrom c k writer report records).1 =
      (replaying c).run k (replayedFrom c k writer report records) := by
  induction records generalizing k writer report with
  | nil => rfl
  | cons rec records ih =>
    have hk := replayRecord_kernel c k writer report rec
    rw [replayFrom,replayedFrom]
    rcases hr : replayRecord c k writer report rec with ⟨k',_ | ⟨writer',report'⟩⟩
    · rw [hr] at hk
      exact hk
    · rw [hr] at hk
      obtain rfl := hk
      exact ih _ _ _

theorem replayedFrom_leading (k : Kernel) (writer : WalWriter) (report : ReplayReport)
    (records : List WalRecord) : replayedFrom c k writer report records <+: records := by
  induction records generalizing k writer report with
  | nil => exact List.prefix_refl _
  | cons rec records ih =>
    rw [replayedFrom,List.prefix_cons_inj]
    split
    · exact List.nil_prefix
    · exact ih _ _ _

/-- Whether it succeeds or not, replay has applied the records that it took up. -/
theorem replayInto_kernel (k : Kernel) (w : Wal) :
    (replayInto c k w).1 = (replaying c).run k (replayed c k w) := by
  unfold replayInto replayed
  cases checkHeaderGates w with
  | error e => rfl
  | ok _ =>
    dsimp only
    split
    · rfl
    · cases w.verifyChain c w.header.worldId with
      | error e => rfl
      | ok _ =>
        have hf := replayFrom_kernel c k (.rebuildFromHeader c w.header) {} w.records
        dsimp only
        rw [← hf]
        unfold replayRecords
        split
        · next h => rw [h]
        · next h =>
          rw [h]
          split <;> rfl

theorem replayed_leading (k : Kernel) (w : Wal) : replayed c k w <+: w.records := by
  unfold replayed
  split
  · exact List.nil_prefix
  · split
    · exact List.nil_prefix
    · split
      · exact List.nil_prefix
      · exact replayedFrom_leading c k _ _ _

def Kernel.Indexed (k : Kernel) : Prop :=
  Kernel.Everywhere (fun _ i => i.Unsaturated → i.Indexed) k.instances

theorem setUp_indexed (setup : List Setup) {k : Kernel} (h : k.Indexed) :
    (k.setUp c setup).Indexed := by
  induction setup generalizing k with
  | nil => exact h
  | cons s setup ih =>
    exact ih (indexed_preserved.change (Kernel.request_change c k s.request)
      (fun _ _ => trivial) h)

theorem submitWithId_unsaturated {i : Instance} {s : Submission} {id : ScheduledActionId}
    (h : (i.submitWithId s id).Unsaturated) : i.Unsaturated := by
  have hi : (if i.idCounters.nextScheduled < id.get then id.get
      else i.idCounters.nextScheduled) < u64Max := h.ids
  have hs : satAdd64 i.scheduler.nextSeq 1 < u64Max := h.seqs
  unfold satAdd64 at hs
  refine ⟨?_,by omega⟩
  split at hi <;> omega

variable {c}

theorem Kernel.Indexed.replayNext {k : Kernel} (h : k.Indexed) (rec : WalRecord)
    (hfresh : k.FreshId rec) : (k.replayNext c rec).Indexed := by
  unfold Kernel.replayNext
  split
  · next seq inst principal actor caps atTick typeCode actionBytes id hrec =>
    unfold Kernel.FreshId at hfresh
    rw [hrec] at hfresh
    unfold Kernel.submitWithId
    dsimp only
    cases hi : k.instances[inst]? with
    | none => exact h
    | some i =>
      intro id' i' hi' hu
      rcases get_insert_some.mp hi' with ⟨-,rfl⟩ | ⟨-,hi'⟩
      · have hb := submitWithId_unsaturated hu
        exact (h inst i hi hb).submitWithId _ (hfresh i hi) hb.seqs
      · exact h id' i' hi' hu
  · next inst _ now caps _ _ _ =>
    cases hx : k.execution inst now ⟨caps⟩ with
    | none =>
      rw [Kernel.process_none c true hx]
      exact h
    | some x =>
      obtain ⟨scratch,hs⟩ := Kernel.process_some c true hx
      obtain ⟨hi,rfl,-⟩ := Kernel.execution_some hx
      rw [hs]
      exact indexed_preserved.change (.executed _ x hi) (fun _ _ => trivial) h

theorem Kernel.Indexed.replay {k : Kernel} (h : k.Indexed) (records : List WalRecord)
    (hfresh : (replaying c).Admits Kernel.FreshId k records) :
    ((replaying c).run k records).Indexed := by
  induction records generalizing k with
  | nil => exact h
  | cons rec records ih => exact ih (h.replayNext rec hfresh.1) hfresh.2

end Replay

/-- Replaying any log into a kernel that was only set up reaches no panicking
branch. If no submission is re-admitted under an id pending by then, every
scheduler is valid afterwards, whether replay succeeded or not, as long as its
counters are not exhausted. -/
theorem untrusted_replay_safe (c : Crypto) (manifest : Block) (wal : Option WalWriter)
    (setup : List Setup) (w : Wal) :
    let k := (Kernel.build manifest wal).setUp c setup
    ¬ k.replayPanics c w ∧
    (FreshIds c k w → ∀ (id : InstanceId) (i : Instance),
      (replayInto c k w).1.instances[id]? = some i → i.Unsaturated →
        i.scheduler.validate = .ok ()) := by
  intro k
  refine ⟨k.replay_panics_never c w,?_⟩
  intro hfresh id i hi hu
  have hk : k.Indexed := setUp_indexed c setup (Kernel.build_everywhere _ manifest wal)
  rw [replayInto_kernel] at hi
  exact Scheduler.validate_ok_iff.mpr (hk.replay _ hfresh id i hi hu).valid

def submittedLog (ids : List ScheduledActionId) : WalWriter :=
  ids.foldl (fun w id => w.appendSubmit standIn ⟨.succ 0⟩ .system none CapabilityMask.SYSTEM.bits ⟨1⟩
    (.clamp 7) [] id) (.new standIn zeroBlock zeroBlock)

def twinSetup : List Setup := [
  .registerAction (.clamp 7) (.constant [
    .scheduleAction ⟨3⟩ none (.clamp 7) [], .scheduleAction ⟨3⟩ none (.clamp 7) []]),
  .createInstance { defaultCaps := .SYSTEM }]

def forgedDigest : Block :=
  ((((replaying standIn).run ((Kernel.build zeroBlock none).setUp standIn twinSetup)
    (submittedLog [⟨.succ 41⟩]).records).execution ⟨.succ 0⟩ ⟨1⟩ .SYSTEM).map
      (fun x => stateDigest standIn x.after)).getD zeroBlock

/-- An action is submitted under an invented id and run; the digest of the next
step is wrong, and the last record repeats an id that is pending by then. -/
def forgedLog : Wal := .fromWriter
  ((((submittedLog [⟨.succ 41⟩]).appendStep standIn ⟨.succ 0⟩ ⟨.succ 41⟩ ⟨1⟩
    CapabilityMask.SYSTEM.bits .committed forgedDigest).appendStep standIn ⟨.succ 0⟩ ⟨.succ 42⟩ ⟨3⟩
    CapabilityMask.SYSTEM.bits .committed zeroBlock).appendSubmit standIn ⟨.succ 0⟩ .system none
      CapabilityMask.SYSTEM.bits ⟨1⟩ (.clamp 7) [] ⟨.succ 43⟩)

theorem untrusted_replay_safe_forged :
    let k := (Kernel.build zeroBlock none).setUp standIn twinSetup
    (replayed standIn k forgedLog).length = 3 ∧ (replayInto standIn k forgedLog).2.isOk = false ∧
    ∃ i : Instance, (replayInto standIn k forgedLog).1.instances[(⟨.succ 0⟩ : InstanceId)]? = some i ∧
      i.scheduler.pending.map (fun e => e.id.get) = [44,45,46] ∧ i.scheduler.validate = .ok () := by
  dsimp only
  have hc : ((replayInto standIn ((Kernel.build zeroBlock none).setUp standIn twinSetup)
      forgedLog).1.instances[(⟨.succ 0⟩ : InstanceId)]?).map
      (fun i => (i.idCounters.nextScheduled,i.scheduler.nextSeq,
        i.scheduler.pending.map (fun e => e.id.get))) = some (46,5,[44,45,46]) := by
    decide +kernel
  obtain ⟨i,hi,hn⟩ := Option.map_eq_some_iff.mp hc
  obtain ⟨hid,hrest⟩ := Prod.mk.inj hn
  obtain ⟨hseq,hpending⟩ := Prod.mk.inj hrest
  have hu : i.Unsaturated := ⟨by rw [hid]; decide,by rw [hseq]; decide⟩
  refine ⟨by decide +kernel,by decide +kernel,i,hi,hpending,?_⟩
  apply (untrusted_replay_safe standIn zeroBlock none twinSetup forgedLog).2 ?_ ⟨.succ 0⟩ i hi hu
  decide +kernel

/-- Two logs that leave an invalid scheduler behind: one repeats an id and
replays to the end, the other exhausts the ids and is stopped by its digest. -/
theorem untrusted_replay_corrupts :
    (let r := replayInto standIn ((Kernel.build zeroBlock none).setUp standIn twinSetup)
      (.fromWriter (submittedLog [⟨.succ 0⟩,⟨.succ 0⟩]))
     r.2.isOk = true ∧ (r.1.instances[(⟨.succ 0⟩ : InstanceId)]?).any
      (fun i => i.scheduler.validate ≠ .ok ()) = true) ∧
    (let r := replayInto standIn ((Kernel.build zeroBlock none).setUp standIn twinSetup)
      (.fromWriter ((submittedLog [⟨.succ u64Max⟩]).appendStep standIn ⟨.succ 0⟩ ⟨.succ u64Max⟩ ⟨1⟩
        CapabilityMask.SYSTEM.bits .committed zeroBlock))
     r.2.isOk = false ∧ (r.1.instances[(⟨.succ 0⟩ : InstanceId)]?).any
      (fun i => i.scheduler.validate ≠ .ok ()) = true) := by
  refine ⟨⟨?_,?_⟩,⟨?_,?_⟩⟩ <;> decide +kernel

end ArkheKernel
