import ArkheKernel.BoundedWait
import ArkheKernel.CodeChange

/-!
# A log replays once

A scheduler has a clock: with every entry the sequence counter goes up, and with
every pop alone the queue gets shorter. The clock is part of what the digests
cover, so a recorded step that was replayed can never be replayed again on top
of its own outcome. What the digests cover is also all that the outcome of a log
depends on, for the instances that it steps.
-/

set_option autoImplicit false

namespace ArkheKernel
open OrderedMap PrefixCode

namespace Scheduler

/-- No earlier than `s`, unless the counter has run out. -/
def Past (s s' : Scheduler) : Prop :=
  s'.nextSeq < u64Max → s.nextSeq < s'.nextSeq ∨ s.nextSeq = s'.nextSeq ∧ s'.len ≤ s.len

def Before (s s' : Scheduler) : Prop :=
  s'.nextSeq < u64Max → s.nextSeq < s'.nextSeq ∨ s.nextSeq = s'.nextSeq ∧ s'.len < s.len

variable {s s' s'' : Scheduler}

theorem Past.refl (s : Scheduler) : s.Past s := fun _ => .inr ⟨rfl,le_refl _⟩

theorem Past.trans (h : s.Past s') (h' : s'.Past s'') : s.Past s'' := by
  intro hb
  have h₂ := h' hb
  have h₁ := h (by omega)
  omega

theorem Before.trans_past (h : s.Before s') (h' : s'.Past s'') : s.Before s'' := by
  intro hb
  have h₂ := h' hb
  have h₁ := h (by omega)
  omega

theorem Past.trans_before (h : s.Past s') (h' : s'.Before s'') : s.Before s'' := by
  intro hb
  have h₂ := h' hb
  have h₁ := h (by omega)
  omega

theorem Before.past (h : s.Before s') : s.Past s' :=
  fun hb => (h hb).imp_right (And.imp_right le_of_lt)

theorem past_schedule (s : Scheduler) (e : ScheduledEntry) : s.Past (s.scheduleWithId e) := by
  intro hb
  have hn : (s.scheduleWithId e).nextSeq = satAdd64 s.nextSeq 1 := rfl
  rw [hn] at hb ⊢
  unfold satAdd64 at hb ⊢
  left
  omega

theorem past_scheduleAll (s : Scheduler) (cs : List ScheduledEntry) :
    s.Past (cs.foldl scheduleWithId s) := by
  induction cs generalizing s with
  | nil => exact .refl s
  | cons e cs ih => exact (past_schedule s e).trans (ih _)

theorem before_popDue {now : Tick} {e : ScheduledEntry} (h : s.popDue now = some (e,s')) :
    s.Before s' := by
  obtain ⟨key,hkey,-,-,rfl⟩ := popDue_some h
  refine fun _ => .inr ⟨rfl,?_⟩
  have hc : s.ready.contains key = true := mem_of_get hkey
  have hpos : 0 < s.ready.size := by
    rw [← length_keys]
    exact List.length_pos_of_mem ((mem_keys _ key).mpr hc)
  change (s.ready.erase key).size < s.ready.size
  rw [Std.ExtTreeMap.size_erase,if_pos hc]
  omega

end Scheduler

theorem Execution.clock (x : Execution) : x.before.scheduler.Before x.after.scheduler := by
  rw [x.after_scheduler]
  exact (Scheduler.before_popDue x.popped).trans_past (Scheduler.past_scheduleAll _ _)

theorem receiveAll_scheduler (i : Instance) (source id : InstanceId) (sigs : List PendingSignal) :
    (i.receiveAll source id sigs).scheduler = i.scheduler := by
  obtain ⟨_,_,_,he⟩ := i.receiveAll_frame source id sigs
  rw [he]

/-- Every instance is there afterwards, and no earlier. -/
def Elapsed (k r : Kernel) : Prop := ∀ (j : InstanceId) (i : Instance), k.instances[j]? = some i →
  ∃ i' : Instance, r.instances[j]? = some i' ∧ i.scheduler.Past i'.scheduler

section Clock
variable {c : Crypto} {k r q : Kernel}

theorem Elapsed.trans (h : Elapsed k r) (h' : Elapsed r q) : Elapsed k q := by
  intro j i hi
  obtain ⟨i',hi',hp⟩ := h j i hi
  obtain ⟨i'',hi'',hp'⟩ := h' j i' hi'
  exact ⟨i'',hi'',hp.trans hp'⟩

theorem Elapsed.settle (x : Execution) (hx : k.instances[x.instId]? = some x.before)
    (hq : q.instances = x.settle k.instances) : Elapsed k q := by
  intro j i hi
  rw [hq,x.settle_get]
  by_cases hj : j = x.instId
  · rw [if_pos hj]
    refine ⟨_,rfl,?_⟩
    rw [hj,hx] at hi
    rw [receiveAll_scheduler,← Option.some.inj hi]
    exact x.clock.past
  · rw [if_neg hj,hi]
    refine ⟨_,rfl,?_⟩
    rw [receiveAll_scheduler]
    exact .refl _

theorem elapsed_replayNext (k : Kernel) (rec : WalRecord) : Elapsed k (k.replayNext c rec) := by
  unfold Kernel.replayNext
  cases hrec : rec.content with
  | submit seq inst principal actor caps atTick typeCode actionBytes id =>
    dsimp only
    unfold Kernel.submitWithId
    dsimp only
    intro j i hi
    cases hinst : k.instances[inst]? with
    | none => exact ⟨i,hi,.refl _⟩
    | some t =>
      dsimp only
      rw [get_insert]
      split
      · next hj =>
        rw [hj,hinst] at hi
        obtain rfl := Option.some.inj hi
        exact ⟨_,rfl,Scheduler.past_schedule _ _⟩
      · exact ⟨i,hi,.refl _⟩
  | step seq inst poppedId now caps verdict digest =>
    dsimp only
    cases hx : k.execution inst now ⟨caps⟩ with
    | none =>
      rw [Kernel.process_none c true hx]
      exact fun _ i hi => ⟨i,hi,.refl _⟩
    | some x =>
      obtain ⟨_,hp⟩ := Kernel.process_some c true hx
      rw [hp]
      obtain ⟨hi,hj,-⟩ := Kernel.execution_some hx
      exact .settle x (by rw [hj]; exact hi) rfl

theorem elapsed_run (k : Kernel) (records : List WalRecord) :
    Elapsed k ((replaying c).run k records) :=
  (replaying c).run_invariant (Elapsed k) (fun q rec h => h.trans (elapsed_replayNext q rec)) k
    records (fun _ i hi => ⟨i,hi,.refl _⟩)

theorem elapsed_micro (hk : k.Numbered) (a : Micro)
    (hn : ((Kernel.micro c).next k a).nextInstanceId < u64Max) :
    Elapsed k ((Kernel.micro c).next k a) := by
  intro j i hi
  cases a with
  | request r =>
    cases r with
    | createInstance config =>
      have hne : j ≠ (k.createInstance config).1 := by
        intro he
        exact hk.creates_fresh (numbered_counter c k _ hn) config (he ▸ mem_of_get hi)
      exact ⟨i,(get_insert_ne _ _ hne).trans hi,.refl _⟩
    | submit s =>
      change ∃ i', (k.submit c s).2.instances[j]? = some i' ∧ _
      rcases Kernel.submit_cases c k s with ⟨e,he⟩ | ⟨t,ht,-,he⟩
      · rw [he]
        exact ⟨i,hi,.refl _⟩
      · rw [he]
        dsimp only
        rw [get_insert]
        split
        · next hj =>
          rw [hj,ht] at hi
          obtain rfl := Option.some.inj hi
          exact ⟨_,rfl,Scheduler.past_schedule _ _⟩
        · exact ⟨i,hi,.refl _⟩
    | forceUnload route caps =>
      simp only [Kernel.micro,Kernel.serve,Kernel.forceUnload]
      split
      · exact ⟨i,hi,.refl _⟩
      · refine ⟨{ i with inflightRefs := i.inflightRefs.erase route },?_,.refl _⟩
        dsimp only
        rw [get_map,hi]
        rfl
    | registerAction typeCode reg => exact ⟨i,hi,.refl _⟩
    | registerObserver obs mask => exact ⟨i,hi,.refl _⟩
  | pop inst now caps =>
    change ∃ i', (k.pop c inst now caps).instances[j]? = some i' ∧ _
    cases hx : k.execution inst now caps with
    | none =>
      rw [Kernel.pop_none c hx]
      exact ⟨i,hi,.refl _⟩
    | some x =>
      obtain ⟨_,hp⟩ := Kernel.pop_some c hx
      obtain ⟨hb,rfl,-⟩ := Kernel.execution_some hx
      rw [hp]
      exact Elapsed.settle x hb rfl j i hi

theorem elapsed_calls (hk : k.Numbered) (calls : List Call)
    (hn : ((Kernel.machine c).run k calls).nextInstanceId < u64Max) :
    Elapsed k ((Kernel.machine c).run k calls) := by
  rw [(Kernel.expansion c).run_eq] at hn ⊢
  generalize (Kernel.expansion c).words k calls = as at hn ⊢
  induction as generalizing k with
  | nil => exact fun _ i hi => ⟨i,hi,.refl _⟩
  | cons a as ih =>
    exact (elapsed_micro hk a (run_counter c _ as hn)).trans (ih (hk.micro_next c a) hn)

theorem Kernel.Numbered.replayNext (hk : k.Numbered) (rec : WalRecord) :
    (k.replayNext c rec).Numbered := by
  unfold Kernel.replayNext
  cases hrec : rec.content with
  | submit seq inst principal actor caps atTick typeCode actionBytes id =>
    dsimp only
    unfold Kernel.submitWithId
    dsimp only
    cases hinst : k.instances[inst]? with
    | none => exact hk
    | some t =>
      intro j hj
      rcases (mem_insert _ _ _ _).mp hj with rfl | hj
      · exact hk _ (mem_of_get hinst)
      · exact hk j hj
  | step seq inst poppedId now caps verdict digest =>
    dsimp only
    cases hx : k.execution inst now ⟨caps⟩ with
    | none =>
      rw [Kernel.process_none c true hx]
      exact hk
    | some x =>
      obtain ⟨_,hp⟩ := Kernel.process_some c true hx
      rw [hp]
      obtain ⟨hb,rfl,-⟩ := Kernel.execution_some hx
      intro j hj
      exact hk j (((change_mem (.executed _ x hb) j).mp hj).resolve_right List.not_mem_nil)

theorem Kernel.Numbered.replay (hk : k.Numbered) (records : List WalRecord) :
    ((replaying c).run k records).Numbered :=
  (replaying c).run_invariant Kernel.Numbered (fun _ rec h => h.replayNext rec) k records hk

end Clock

def WalRecordContent.stepped : WalRecordContent → Option InstanceId
  | .submit .. => none
  | .step _ inst .. => some inst

theorem unopposed_submit {c : Crypto} {k : Kernel} {rec : WalRecord} {s : Submission} {seq : ℕ}
    {id : ScheduledActionId} (h : Unopposed c k rec) (hrec : rec.content = .submit seq s.inst
      s.principal s.actor s.caps.bits s.atTick s.actionTypeCode s.actionBytes id) :
    ∃ i : Instance, k.instances[s.inst]? = some i ∧
      (k.replayNext c rec).instances = k.instances.insert s.inst (i.submitWithId s id) := by
  unfold Unopposed Kernel.objection at h
  simp only [Kernel.replayNext,Kernel.submitWithId,hrec] at h ⊢
  cases hi : k.instances[s.inst]? with
  | none =>
    rw [hi] at h
    cases h
  | some i => exact ⟨i,rfl,rfl⟩

theorem unopposed_step {c : Crypto} {k : Kernel} {rec : WalRecord} {seq : ℕ} {inst : InstanceId}
    {id : ScheduledActionId} {now : Tick} {caps : BitVec 64} {verdict : StepVerdict}
    {digest : Block} (h : Unopposed c k rec)
    (hrec : rec.content = .step seq inst id now caps verdict digest) :
    ∃ x, (replaying c).out k rec = [x] ∧ k.instances[x.instId]? = some x.before ∧
      (k.replayNext c rec).instances = x.settle k.instances ∧ x.instId = inst ∧
      stateDigest c x.after = digest := by
  unfold Unopposed Kernel.objection at h
  simp only [replaying,Kernel.replayNext,hrec] at h ⊢
  cases hx : k.execution inst now ⟨caps⟩ with
  | none =>
    rw [hx] at h
    cases h
  | some x =>
    rw [hx] at h
    dsimp only at h
    split_ifs at h with hid hv hd
    obtain ⟨hb,rfl,-⟩ := Kernel.execution_some hx
    obtain ⟨_,hp⟩ := Kernel.process_some c true hx
    exact ⟨x,rfl,hb,by rw [hp],rfl,not_not.mp hd⟩

theorem replayed_step {c : Crypto} {k : Kernel} {rec : WalRecord} {pre post : List WalRecord}
    {seq : ℕ} {inst : InstanceId} {id : ScheduledActionId} {now : Tick} {caps : BitVec 64}
    {verdict : StepVerdict} {digest : Block}
    (h : (replaying c).Admits (Unopposed c) k (pre ++ rec::post))
    (hrec : rec.content = .step seq inst id now caps verdict digest) :
    ∃ x, x ∈ (replaying c).trace k (pre ++ rec::post) ∧ stateDigest c x.after = digest ∧
      ((replaying c).run k pre).instances[inst]? = some x.before ∧
      ∃ i : Instance, ((replaying c).run k (pre ++ rec::post)).instances[inst]? = some i ∧
        x.after.scheduler.Past i.scheduler := by
  obtain ⟨x,hout,hb,hnext,rfl,hd⟩ := unopposed_step (((replaying c).admits_append _ _ _ _).mp h).2.1
    hrec
  refine ⟨x,?_,hd,hb,?_⟩
  · rw [Transducer.trace_append,Transducer.trace,hout]
    simp
  · have hx : (((replaying c).run k pre).replayNext c rec).instances[x.instId]? =
        some (x.after.receiveAll x.instId x.instId x.stage.pendingSignals) := by
      rw [hnext,x.settle_get,if_pos rfl]
    obtain ⟨i,hi,hp⟩ := elapsed_run (c := c) _ post x.instId _ hx
    rw [receiveAll_scheduler] at hp
    rw [Transducer.run_append]
    exact ⟨i,hi,hp⟩

/-- After a log with a step of an instance was replayed, no kernel that goes on
from there replays it again, whatever is requested or run in between, as long as
the counters last. -/
theorem replay_at_most_once (c : Crypto) (k r q : Kernel) (w : Wal) (calls : List Call)
    (rec : WalRecord) (inst : InstanceId) (i : Instance) (hk : k.Numbered) (h : Accepts c k w r)
    (hrec : rec ∈ w.records) (hstep : rec.content.stepped = some inst)
    (hq : q = (Kernel.machine c).run r calls) (hn : q.nextInstanceId < u64Max)
    (hi : q.instances[inst]? = some i) (hb : i.scheduler.nextSeq < u64Max)
    (hcf : Set.InjOn c.hash {b | b ∈ digested c k w.records ∨ b ∈ digested c q w.records}) :
    ¬ ∃ r', Accepts c q w r' := by
  rintro ⟨r',h'⟩
  obtain ⟨ha,rfl⟩ := h.replayed
  obtain ⟨ha',-⟩ := h'.replayed
  have hlater : Elapsed ((replaying c).run k w.records) q := by
    rw [hq] at hn ⊢
    exact elapsed_calls (hk.replay w.records) calls hn
  clear h h' hq
  obtain ⟨pre,post,hw⟩ := List.append_of_mem hrec
  rw [hw] at ha ha' hcf hlater
  unfold WalRecordContent.stepped at hstep
  cases hc : rec.content with
  | submit => rw [hc] at hstep; cases hstep
  | step seq inst' id now caps verdict digest =>
    rw [hc] at hstep
    obtain rfl := Option.some.inj hstep
    obtain ⟨x,hx,hd,-,t,ht,hpast⟩ := replayed_step ha hc
    obtain ⟨x',hx',hd',hbefore,-⟩ := replayed_step ha' hc
    have hafter : x.after = x'.after := Instance.code.injective
      (hcf (.inl (List.mem_map_of_mem hx)) (.inr (List.mem_map_of_mem hx')) (hd.trans hd'.symm))
    -- the outcome of the step is no later than `q`, which is earlier than that outcome
    obtain ⟨i',hi',hp⟩ := hlater _ t ht
    obtain rfl := Option.some.inj (hi'.symm.trans hi)
    obtain ⟨b,hbb,hp'⟩ := elapsed_run (c := c) q pre _ _ hi
    obtain rfl := Option.some.inj (hbb.symm.trans hbefore)
    have hround := (hpast.trans hp).trans_before (hp'.trans_before x'.clock)
    rw [← hafter] at hround
    have hle := (hpast.trans hp) hb
    have hlt := hround (by omega)
    omega

theorem accepts_replayInto {c : Crypto} {k : Kernel} {w : Wal}
    (h : (replayInto c k w).2.isOk = true) : Accepts c k w (replayInto c k w).1 := by
  obtain ⟨r,report,hr⟩ := replay_isOk h
  rw [hr]
  exact .inl ⟨report,hr⟩

theorem recoded_accepts : Accepts standIn (recoded []) recodedLog
    (replayInto standIn (recoded []) recodedLog).1 := accepts_replayInto (by decide +kernel)

def recodedAgain : Kernel := (Kernel.machine standIn).run
  (replayInto standIn (recoded []) recodedLog).1
  [.request (.submit ⟨⟨.succ 0⟩,.system,none,.SYSTEM,⟨1⟩,.clamp 7,[]⟩)]

theorem replay_at_most_once_recoded :
    Accepts standIn (recoded []) recodedLog (replayInto standIn (recoded []) recodedLog).1 ∧
      ¬ ∃ r', Accepts standIn recodedAgain recodedLog r' := by
  have hnumbered : ∀ id ∈ (recoded []).instances.keys, id.get ≤ (recoded []).nextInstanceId := by
    decide +kernel
  have hrec : ∃ rec ∈ recodedLog.records, rec.content.stepped = some ⟨.succ 0⟩ := by decide +kernel
  have hq : (recodedAgain.instances[(⟨.succ 0⟩ : InstanceId)]?).any
      (fun i => i.scheduler.nextSeq < u64Max) = true := by decide +kernel
  have hinj : ∀ b ∈ digested standIn (recoded []) recodedLog.records ++
      digested standIn recodedAgain recodedLog.records,
      ∀ b' ∈ digested standIn (recoded []) recodedLog.records ++
        digested standIn recodedAgain recodedLog.records,
        standIn.hash b = standIn.hash b' → b = b' := by decide +kernel
  obtain ⟨rec,hmem,hstep⟩ := hrec
  obtain ⟨i,hi,hb⟩ := (Option.any_eq_true _ _).mp hq
  exact ⟨recoded_accepts,replay_at_most_once standIn _ _ _ _ _ rec ⟨.succ 0⟩ i
    (fun id hid => hnumbered id ((mem_keys _ id).mpr hid)) recoded_accepts hmem hstep rfl
    (by decide +kernel) hi (of_decide_eq_true hb) (fun b hb b' hb' => hinj b (List.mem_append.mpr hb) b'
      (List.mem_append.mpr hb'))⟩

/-- Both hold the instance, alike up to its mail. -/
def SameAt (j : InstanceId) (k k' : Kernel) : Prop := ∃ i i' : Instance,
  k.instances[j]? = some i ∧ k'.instances[j]? = some i' ∧ i.withoutMail = i'.withoutMail

section SameAt
variable {c : Crypto} {j : InstanceId} {k k' : Kernel} {rec : WalRecord}

theorem SameAt.settle {x x' : Execution} (hi : x.instId = x'.instId) (ha : x.after = x'.after)
    (h : x.instId = j ∨ SameAt j k k') {q q' : Kernel} (hq : q.instances = x.settle k.instances)
    (hq' : q'.instances = x'.settle k'.instances) : SameAt j q q' := by
  unfold SameAt
  rw [hq,hq',x.settle_get,x'.settle_get,← hi,← ha]
  by_cases hj : j = x.instId
  · rw [if_pos hj,if_pos hj]
    exact ⟨_,_,rfl,rfl,by rw [receiveAll_withoutMail,receiveAll_withoutMail]⟩
  · obtain ⟨i,i',hk,hk',hw⟩ := h.resolve_left (Ne.symm hj)
    rw [if_neg hj,if_neg hj,hk,hk']
    exact ⟨_,_,rfl,rfl,by rw [receiveAll_withoutMail,receiveAll_withoutMail,hw]⟩

/-- A record keeps both alike, and one that steps the instance makes them so. -/
theorem SameAt.record (ho : Unopposed c k rec) (ho' : Unopposed c k' rec)
    (h : rec.content.stepped = some j ∨ SameAt j k k')
    (hcf : ∀ x ∈ (replaying c).out k rec, ∀ x' ∈ (replaying c).out k' rec,
      stateDigest c x.after = stateDigest c x'.after → x.after = x'.after) :
    SameAt j (k.replayNext c rec) (k'.replayNext c rec) := by
  cases hc : rec.content with
  | submit seq inst principal actor caps atTick typeCode actionBytes id =>
    rw [hc] at h
    obtain ⟨i,i',hk,hk',hw⟩ := h.resolve_left (by simp [WalRecordContent.stepped])
    let s : Submission := ⟨inst,principal,actor,⟨caps⟩,atTick,typeCode,actionBytes⟩
    obtain ⟨t,ht,hn⟩ := unopposed_submit (s := s) ho hc
    obtain ⟨t',ht',hn'⟩ := unopposed_submit (s := s) ho' hc
    unfold SameAt
    rw [hn,hn',get_insert,get_insert]
    by_cases hj : j = inst
    · subst hj
      obtain rfl := Option.some.inj (ht.symm.trans hk)
      obtain rfl := Option.some.inj (ht'.symm.trans hk')
      rw [if_pos rfl,if_pos rfl]
      have hs : t.withoutMail.submitWithId s id = t'.withoutMail.submitWithId s id := by rw [hw]
      exact ⟨_,_,rfl,rfl,hs⟩
    · rw [if_neg hj,if_neg hj]
      exact ⟨i,i',hk,hk',hw⟩
  | step seq inst id now caps verdict digest =>
    obtain ⟨x,hout,-,hn,hi,hd⟩ := unopposed_step ho hc
    obtain ⟨x',hout',-,hn',hi',hd'⟩ := unopposed_step ho' hc
    have ha := hcf x (by rw [hout]; exact List.mem_singleton_self x) x'
      (by rw [hout']; exact List.mem_singleton_self x') (hd.trans hd'.symm)
    rw [hc] at h
    exact .settle (hi.trans hi'.symm) ha (h.imp_left (fun he => hi.trans (Option.some.inj he))) hn hn'

end SameAt

/-- A log is a checkpoint of every instance that it steps: whatever two kernels
held before, and whatever code they run, once both have accepted it they agree on
that instance up to its mail. -/
theorem accepted_log_fixes_instances (c : Crypto) (k k' r r' : Kernel) (w : Wal) (j : InstanceId)
    (h : Accepts c k w r) (h' : Accepts c k' w r')
    (hj : ∃ rec ∈ w.records, rec.content.stepped = some j)
    (hcf : Set.InjOn c.hash {b | b ∈ digested c k w.records ∨ b ∈ digested c k' w.records}) :
    SameAt j r r' := by
  obtain ⟨ha,rfl⟩ := h.replayed
  obtain ⟨ha',rfl⟩ := h'.replayed
  have hinj : ∀ x ∈ (replaying c).trace k w.records, ∀ x' ∈ (replaying c).trace k' w.records,
      stateDigest c x.after = stateDigest c x'.after → x.after = x'.after :=
    fun x hx x' hx' he => Instance.code.injective
      (hcf (.inl (List.mem_map_of_mem hx)) (.inr (List.mem_map_of_mem hx')) he)
  clear hcf h h'
  replace hj : SameAt j k k' ∨ ∃ rec ∈ w.records, rec.content.stepped = some j := .inr hj
  generalize w.records = records at ha ha' hinj hj ⊢
  induction records generalizing k k' with
  | nil => exact hj.resolve_right (by simp)
  | cons rec records ih =>
    refine ih _ _ ha.2 ha'.2 (fun x hx x' hx' =>
      hinj x (List.mem_append_right _ hx) x' (List.mem_append_right _ hx')) ?_
    have hstep := fun h => SameAt.record (j := j) ha.1 ha'.1 h (fun x hx x' hx' =>
      hinj x (List.mem_append_left _ hx) x' (List.mem_append_left _ hx'))
    rcases hj with hsame | ⟨s,hs,hjs⟩
    · exact .inl (hstep (.inr hsame))
    · rcases List.mem_cons.mp hs with rfl | hs
      · exact .inl (hstep (.inl hjs))
      · exact .inr ⟨s,hs,hjs⟩

theorem accepted_log_fixes_instances_recoded :
    SameAt ⟨.succ 0⟩ (replayInto standIn (recoded []) recodedLog).1
      (replayInto standIn (recoded [.sendSignal ⟨.succ 1⟩ ⟨1⟩ [9]]) recodedLog).1 := by
  have hrec : ∃ rec ∈ recodedLog.records, rec.content.stepped = some ⟨.succ 0⟩ := by decide +kernel
  have hinj : ∀ b ∈ digested standIn (recoded []) recodedLog.records ++
      digested standIn (recoded [.sendSignal ⟨.succ 1⟩ ⟨1⟩ [9]]) recodedLog.records,
      ∀ b' ∈ digested standIn (recoded []) recodedLog.records ++
        digested standIn (recoded [.sendSignal ⟨.succ 1⟩ ⟨1⟩ [9]]) recodedLog.records,
        standIn.hash b = standIn.hash b' → b = b' := by decide +kernel
  exact accepted_log_fixes_instances standIn _ _ _ _ recodedLog ⟨.succ 0⟩ recoded_accepts
    (accepts_replayInto (by decide +kernel)) hrec (fun b hb b' hb' =>
      hinj b (List.mem_append.mpr hb) b' (List.mem_append.mpr hb'))

end ArkheKernel
