import ArkheKernel.Isolation
import ArkheKernel.ReplayOutcome

/-!
# One log, other code

Nothing in the log names the code that wrote it. Two kernels with different
actions registered, whose instances differ in their mail at most, may both
accept a log; the digests then force every recorded step to leave the same
instance in both. What no digest covers is what was sent to others since they
last stepped.
-/

set_option autoImplicit false

namespace ArkheKernel
open OrderedMap PrefixCode

def SameBodies (k k' : Kernel) : Prop := ∀ j : InstanceId,
  (k.instances[j]?).map Instance.withoutMail = (k'.instances[j]?).map Instance.withoutMail

/-- One of the two ways to replay takes the log to its end. -/
def Accepts (c : Crypto) (k : Kernel) (w : Wal) (r : Kernel) : Prop :=
  (∃ report, replayInto c k w = (r,.ok report)) ∨
    ∃ worldId anchor report, replayIntoVerified c k w worldId anchor = (r,.ok report)

def digested (c : Crypto) (k : Kernel) (records : List WalRecord) : List Bytes :=
  ((replaying c).trace k records).map (fun x => Instance.code.encode x.after)

def Execution.pinned (x : Execution) : ScheduledEntry × StepVerdict × Instance :=
  (x.entry,x.verdict,x.after)

section CodeChange
variable {c : Crypto} {k k' r r' : Kernel} {rec : WalRecord}

theorem Accepts.replayed {w : Wal} (h : Accepts c k w r) :
    (replaying c).Admits (Unopposed c) k w.records ∧ r = (replaying c).run k w.records := by
  have hr : ∃ report, replayRecords c k w = (r,.ok report) := by
    rcases h with ⟨report,h⟩ | ⟨worldId,anchor,report,h⟩
    · exact ⟨report,(replayInto_ok.mp h).2.2.2⟩
    · exact ⟨report,(replayIntoVerified_ok.mp h).2.2⟩
  obtain ⟨ha,-,hr⟩ := replayRecords_ok_iff.mp hr
  exact ⟨ha,hr⟩

theorem SameBodies.get (h : SameBodies k k') {j : InstanceId} {i : Instance}
    (hi : k.instances[j]? = some i) :
    ∃ i', k'.instances[j]? = some i' ∧ i'.withoutMail = i.withoutMail := by
  have hj := h j
  rw [hi,Option.map_some,eq_comm,Option.map_eq_some_iff] at hj
  exact hj

theorem SameBodies.submitWithId (h : SameBodies k k') {s : Submission} (id : ScheduledActionId)
    {i : Instance} (hi : k.instances[s.inst]? = some i) :
    ∃ i', k'.instances[s.inst]? = some i' ∧
      SameBodies { k with instances := k.instances.insert s.inst (i.submitWithId s id) }
        { k' with instances := k'.instances.insert s.inst (i'.submitWithId s id) } := by
  obtain ⟨i',hi',he⟩ := h.get hi
  refine ⟨i',hi',fun j => ?_⟩
  have hs : (i'.submitWithId s id).withoutMail = (i.submitWithId s id).withoutMail := by
    have hw : i'.withoutMail.submitWithId s id = i.withoutMail.submitWithId s id := by rw [he]
    exact hw
  dsimp only
  rw [get_insert,get_insert]
  split
  · rw [Option.map_some,Option.map_some,hs]
  · exact h j

theorem SameBodies.settle (h : SameBodies k k') {x x' : Execution} (hi : x.instId = x'.instId)
    (ha : x.after = x'.after) {q q' : Kernel} (hq : q.instances = x.settle k.instances)
    (hq' : q'.instances = x'.settle k'.instances) : SameBodies q q' := by
  intro j
  rw [hq,hq',x.settle_get,x'.settle_get,hi]
  split
  · rw [Option.map_some,Option.map_some,receiveAll_withoutMail,receiveAll_withoutMail,ha]
  · rw [Option.map_map,Option.map_map]
    have hf (source : InstanceId) (sigs : List PendingSignal) :
        (Instance.withoutMail ∘ fun i => i.receiveAll source j sigs) = Instance.withoutMail :=
      funext (fun i => receiveAll_withoutMail i _ _ _)
    rw [hf,hf]
    exact h j

theorem SameBodies.popped (h : SameBodies k k') {inst : InstanceId} {now : Tick}
    {caps : CapabilityMask} {x x' : Execution} (hx : k.execution inst now caps = some x)
    (hx' : k'.execution inst now caps = some x') : x.entry = x'.entry := by
  obtain ⟨hi,-,-,hn,-⟩ := Kernel.execution_some hx
  obtain ⟨hi',-,-,hn',-⟩ := Kernel.execution_some hx'
  have hj := h inst
  rw [hi,hi',Option.map_some,Option.map_some] at hj
  have hw : x.before.withoutMail.scheduler = x'.before.withoutMail.scheduler := by
    rw [Option.some.inj hj]
  have hs : x.before.scheduler = x'.before.scheduler := hw
  have hp := x.popped
  rw [hs,hn,← hn',x'.popped] at hp
  exact (Prod.mk.inj (Option.some.inj hp)).1.symm

theorem SameBodies.record (h : SameBodies k k') (ho : k.objection c rec = none)
    (ho' : k'.objection c rec = none)
    (hcf : ∀ x ∈ (replaying c).out k rec, ∀ x' ∈ (replaying c).out k' rec,
      stateDigest c x.after = stateDigest c x'.after → x.after = x'.after) :
    SameBodies (k.replayNext c rec) (k'.replayNext c rec) ∧
      ((replaying c).out k rec).map Execution.pinned =
        ((replaying c).out k' rec).map Execution.pinned := by
  unfold Kernel.objection at ho ho'
  unfold replaying at hcf ⊢
  unfold Kernel.replayNext
  cases hrec : rec.content with
  | submit seq inst principal actor caps atTick typeCode actionBytes id =>
    simp only [hrec] at ho ⊢
    refine ⟨?_,trivial⟩
    unfold Kernel.submitWithId
    dsimp only
    cases hi : k.instances[inst]? with
    | none =>
      rw [hi] at ho
      cases ho
    | some i =>
      let s : Submission := ⟨inst,principal,actor,⟨caps⟩,atTick,typeCode,actionBytes⟩
      obtain ⟨i',hi',hs⟩ := SameBodies.submitWithId (s := s) h id hi
      rw [hi']
      exact hs
  | step seq inst poppedId now caps verdict digest =>
    simp only [hrec] at ho ho' hcf ⊢
    cases hx : k.execution inst now ⟨caps⟩ with
    | none =>
      rw [hx] at ho
      cases ho
    | some x =>
      cases hx' : k'.execution inst now ⟨caps⟩ with
      | none =>
        rw [hx'] at ho'
        cases ho'
      | some x' =>
        rw [hx] at ho
        rw [hx'] at ho'
        simp only [hx,hx',Option.toList_some,List.mem_singleton,forall_eq] at hcf
        dsimp only at ho ho'
        split_ifs at ho with hid hv hd
        split_ifs at ho' with hid' hv' hd'
        have ha : x.after = x'.after := hcf ((not_not.mp hd).trans (not_not.mp hd').symm)
        obtain ⟨_,hp⟩ := Kernel.process_some c true hx
        obtain ⟨_,hp'⟩ := Kernel.process_some c true hx'
        rw [hp,hp']
        constructor
        · exact h.settle ((Kernel.execution_some hx).2.1.trans (Kernel.execution_some hx').2.1.symm)
            ha rfl rfl
        · have hve : x.verdict = x'.verdict := (not_not.mp hv).trans (not_not.mp hv').symm
          simp [Execution.pinned,h.popped hx hx',hve,ha]

end CodeChange

/-- Replaying one log under two sets of actions: every recorded step runs the
same entry to the same verdict and leaves the same state, mail included, and in
the end the instances differ in their mail at most. -/
theorem accepted_log_pins_state (c : Crypto) (k k' r r' : Kernel) (w : Wal)
    (hsame : SameBodies k k') (h : Accepts c k w r) (h' : Accepts c k' w r')
    (hcf : Set.InjOn c.hash {b | b ∈ digested c k w.records ∨ b ∈ digested c k' w.records}) :
    ((replaying c).trace k w.records).map Execution.pinned =
        ((replaying c).trace k' w.records).map Execution.pinned ∧ SameBodies r r' := by
  obtain ⟨ha,rfl⟩ := h.replayed
  obtain ⟨ha',rfl⟩ := h'.replayed
  have hinj : ∀ x ∈ (replaying c).trace k w.records, ∀ x' ∈ (replaying c).trace k' w.records,
      stateDigest c x.after = stateDigest c x'.after → x.after = x'.after :=
    fun x hx x' hx' he => Instance.code.injective
      (hcf (.inl (List.mem_map_of_mem hx)) (.inr (List.mem_map_of_mem hx')) he)
  clear hcf h h'
  generalize w.records = records at ha ha' hinj ⊢
  induction records generalizing k k' with
  | nil => exact ⟨rfl,hsame⟩
  | cons rec records ih =>
    have hrec := hsame.record ha.1 ha'.1 (fun x hx x' hx' =>
      hinj x (List.mem_append_left _ hx) x' (List.mem_append_left _ hx'))
    have hrest := ih _ _ hrec.1 ha.2 ha'.2 (fun x hx x' hx' =>
      hinj x (List.mem_append_right _ hx) x' (List.mem_append_right _ hx'))
    rw [Transducer.trace,Transducer.trace,List.map_append,List.map_append,hrec.2]
    exact ⟨congrArg _ hrest.1,hrest.2⟩

def recoded (ops : List Op) : Kernel := (Kernel.newWithWal standIn zeroBlock zeroBlock).setUp standIn
  [.registerAction (.clamp 7) (.constant ops), .createInstance { defaultCaps := .SYSTEM },
    .createInstance {}]

def recodedLog : Wal := ((Kernel.machine standIn).run (recoded [.sendSignal ⟨.succ 1⟩ ⟨1⟩ [9]]) [
  .request (.submit ⟨⟨.succ 0⟩,.system,none,.SYSTEM,⟨1⟩,.clamp 7,[]⟩),
  .step ⟨1⟩ .SYSTEM]).exportWal.getD ⟨(WalWriter.new standIn zeroBlock zeroBlock).header,[]⟩

/-- Code that sends nothing replays the log of code that sends a signal. -/
theorem accepted_log_pins_state_recoded : ∃ r r',
    Accepts standIn (recoded [.sendSignal ⟨.succ 1⟩ ⟨1⟩ [9]]) recodedLog r ∧
    Accepts standIn (recoded []) recodedLog r' ∧
    recodedLog.records.length = 2 ∧ SameBodies r r' ∧
    (r.instances[(⟨.succ 1⟩ : InstanceId)]?).map (fun i => i.inboxLen ⟨1⟩) = some 1 ∧
    (r'.instances[(⟨.succ 1⟩ : InstanceId)]?).map (fun i => i.inboxLen ⟨1⟩) = some 0 := by
  let k := recoded [.sendSignal ⟨.succ 1⟩ ⟨1⟩ [9]]
  have hk : (replayInto standIn k recodedLog).2.isOk = true := by decide +kernel
  have hk' : (replayInto standIn (recoded []) recodedLog).2.isOk = true := by decide +kernel
  have accepts (q : Kernel) (h : (replayInto standIn q recodedLog).2.isOk = true) :
      Accepts standIn q recodedLog (replayInto standIn q recodedLog).1 := by
    obtain ⟨r,report,hr⟩ := replay_isOk h
    rw [hr]
    exact .inl ⟨report,hr⟩
  have hinj : ∀ b ∈ digested standIn k recodedLog.records ++
      digested standIn (recoded []) recodedLog.records,
      ∀ b' ∈ digested standIn k recodedLog.records ++
        digested standIn (recoded []) recodedLog.records,
        standIn.hash b = standIn.hash b' → b = b' := by decide +kernel
  refine ⟨_,_,accepts _ hk,accepts _ hk',by decide +kernel,?_,by decide +kernel,by decide +kernel⟩
  exact (accepted_log_pins_state standIn k (recoded []) _ _ recodedLog (fun _ => rfl)
    (accepts _ hk) (accepts _ hk') (fun b hb b' hb' => hinj b (List.mem_append.mpr hb) b'
      (List.mem_append.mpr hb'))).2

end ArkheKernel
