import ArkheKernel.ChainBinding
import ArkheKernel.Remeasurement

/-!
# Where replay stops

Replay walks the records until one of them is not what the kernel does next. It
is read here as a machine over records: a log is replayed to its end when no
record meets an objection on the way, and the first objection is the error. The
kernel that a failed replay leaves behind has done everything up to there.
-/

set_option autoImplicit false

namespace ArkheKernel
open OrderedMap PrefixCode

section Objection
variable (c : Crypto)

/-- What replay finds wrong with a record in the state it has reached. -/
def Kernel.objection (k : Kernel) (rec : WalRecord) : Option ReplayError :=
  match rec.content with
  | .submit _ inst .. =>
    match k.instances[inst]? with
    | none => some (.submitFailed ArkheError.instanceNotFound.debug)
    | some _ => none
  | .step seq inst poppedId now sessionCaps verdict digest =>
    match k.execution inst now ⟨sessionCaps⟩ with
    | none => some (.stepUnderflow inst)
    | some x =>
      if x.entry.id ≠ poppedId then some (.poppedIdDivergence seq)
      else if x.verdict ≠ verdict then some (.verdictDivergence seq verdict x.verdict)
      else if stateDigest c x.after ≠ digest then some (.stateDigestDivergence seq)
      else none

def Unopposed (k : Kernel) (rec : WalRecord) : Prop := k.objection c rec = none

instance (k : Kernel) (rec : WalRecord) : Decidable (Unopposed c k rec) :=
  inferInstanceAs (Decidable (k.objection c rec = none))

/-- Replay gets through `pre` and then meets the objection `e`. -/
def StopsAt (k : Kernel) (records pre : List WalRecord) (rec : WalRecord) (e : ReplayError) : Prop :=
  (∃ post, records = pre ++ rec::post) ∧ (replaying c).Admits (Unopposed c) k pre ∧
    ((replaying c).run k pre).objection c rec = some e

variable {c}

theorem replayRecord_objection (k : Kernel) (writer : WalWriter) (report : ReplayReport)
    (rec : WalRecord) : (∀ e, k.objection c rec = some e →
      replayRecord c k writer report rec = (k.replayNext c rec,.error e)) ∧
    (k.objection c rec = none → ∃ writer' report',
      replayRecord c k writer report rec = (k.replayNext c rec,.ok (writer',report'))) := by
  rw [← replayRecord_kernel c k writer report rec]
  unfold Kernel.objection replayRecord
  cases hrec : rec.content with
  | submit seq inst principal actor caps atTick typeCode actionBytes id =>
    dsimp only
    unfold Kernel.submitWithId
    cases hi : k.instances[inst]? with
    | none => simp
    | some i => simp
  | step seq inst poppedId now caps verdict digest =>
    dsimp only
    cases hx : k.execution inst now ⟨caps⟩ with
    | none =>
      rw [Kernel.process_none c true hx]
      simp
    | some x =>
      obtain ⟨scratch,hp⟩ := Kernel.process_some c true hx
      rw [hp]
      dsimp only
      simp only [digestOf, if_true]
      split_ifs <;> simp

theorem replayFrom_ok {k : Kernel} (writer : WalWriter) (report : ReplayReport)
    {records : List WalRecord} (h : (replaying c).Admits (Unopposed c) k records) :
    ∃ writer' report', replayFrom c k writer report records =
      ((replaying c).run k records,.ok (writer',report')) := by
  induction records generalizing k writer report with
  | nil => exact ⟨writer,report,rfl⟩
  | cons rec records ih =>
    obtain ⟨w',r',hr⟩ := (replayRecord_objection k writer report rec).2 h.1
    rw [replayFrom,hr]
    exact ih w' r' h.2

theorem replayFrom_error {k : Kernel} (writer : WalWriter) (report : ReplayReport)
    {records pre : List WalRecord} {rec : WalRecord} {e : ReplayError}
    (h : StopsAt c k records pre rec e) : replayFrom c k writer report records =
      ((replaying c).run k (pre++[rec]),.error e) := by
  obtain ⟨⟨post,rfl⟩,hpre,he⟩ := h
  induction pre generalizing k writer report with
  | nil =>
    rw [List.nil_append,replayFrom,(replayRecord_objection k writer report rec).1 e he]
    rfl
  | cons p pre ih =>
    obtain ⟨w',r',hr⟩ := (replayRecord_objection k writer report p).2 hpre.1
    rw [List.cons_append,replayFrom,hr]
    exact ih w' r' hpre.2 he

theorem admits_or_stops (k : Kernel) (records : List WalRecord) :
    (replaying c).Admits (Unopposed c) k records ∨ ∃ pre rec e, StopsAt c k records pre rec e := by
  induction records generalizing k with
  | nil => exact .inl trivial
  | cons rec records ih =>
    cases he : k.objection c rec with
    | some e => exact .inr ⟨[],rec,e,⟨records,rfl⟩,trivial,he⟩
    | none =>
      rcases ih (k.replayNext c rec) with h | ⟨pre,q,e,⟨post,hpost⟩,hpre,hq⟩
      · exact .inl ⟨he,h⟩
      · exact .inr ⟨rec::pre,q,e,⟨post,by rw [hpost]; rfl⟩,⟨he,hpre⟩,hq⟩

def measuredTip (c : Crypto) (header : WalHeader) (contents : List WalRecordContent) : Block :=
  HashChain.tip (chainLink c) (buildChainKey c header.worldId) zeroBlock (renumbered 0 contents)

theorem replayRecords_admits {k : Kernel} {w : Wal}
    (h : (replaying c).Admits (Unopposed c) k w.records) :
    (replayRecords c k w).1 = (replaying c).run k w.records ∧
      (measuredTip c w.header w.contents = w.chainTip →
        ∃ report, (replayRecords c k w).2 = .ok report) ∧
      (measuredTip c w.header w.contents ≠ w.chainTip →
        (replayRecords c k w).2 =
          .error (.chainTipDivergence w.chainTip (measuredTip c w.header w.contents))) := by
  obtain ⟨writer,report,hr⟩ := replayFrom_ok (.rebuildFromHeader c w.header) {} h
  have ht : writer.chainTip = measuredTip c w.header w.contents := replayFrom_measures hr
  unfold replayRecords
  rw [hr]
  dsimp only
  rw [ht]
  split_ifs with hd
  · simp [hd]
  · simp [not_not.mp hd]

theorem replayRecords_ok_iff {k r : Kernel} {w : Wal} :
    (∃ report, replayRecords c k w = (r,.ok report)) ↔
      (replaying c).Admits (Unopposed c) k w.records ∧
        measuredTip c w.header w.contents = w.chainTip ∧ r = (replaying c).run k w.records := by
  constructor
  · intro ⟨report,h⟩
    rcases admits_or_stops (c := c) k w.records with ha | ⟨pre,rec,e,hs⟩
    · have hk := (replayRecords_admits ha).1
      rw [h] at hk
      exact ⟨ha,(replayRecords_measures h).2.symm,hk⟩
    · unfold replayRecords at h
      rw [replayFrom_error _ _ hs] at h
      cases h
  · intro ⟨ha,ht,hr⟩
    obtain ⟨hk,hok,-⟩ := replayRecords_admits ha
    obtain ⟨report,ho⟩ := hok ht
    exact ⟨report,Prod.ext (hk.trans hr.symm) ho⟩

/-- What a replay never touches: which instances there are, the code, the
counter, the manifest and the kernel's own log. -/
structure SameShape (k r : Kernel) : Prop where
  keys : ∀ id : InstanceId, id ∈ r.instances ↔ id ∈ k.instances
  registry : r.actionRegistry = k.actionRegistry
  counter : r.nextInstanceId = k.nextInstanceId
  manifest : r.manifestDigest = k.manifestDigest
  wal : r.wal = k.wal

theorem SameShape.replayNext (k : Kernel) (rec : WalRecord) : SameShape k (k.replayNext c rec) := by
  unfold Kernel.replayNext
  cases hrec : rec.content with
  | submit seq inst principal actor caps atTick typeCode actionBytes id =>
    dsimp only
    unfold Kernel.submitWithId
    dsimp only
    cases hi : k.instances[inst]? with
    | none => exact ⟨fun _ => Iff.rfl,rfl,rfl,rfl,rfl⟩
    | some i =>
      refine ⟨fun j => ?_,rfl,rfl,rfl,rfl⟩
      rw [mem_insert]
      exact ⟨fun h => h.elim (fun he => he ▸ mem_of_get hi) (fun hj => hj),.inr⟩
  | step seq inst poppedId now caps verdict digest =>
    dsimp only
    cases hx : k.execution inst now ⟨caps⟩ with
    | none =>
      rw [Kernel.process_none c true hx]
      exact ⟨fun _ => Iff.rfl,rfl,rfl,rfl,rfl⟩
    | some x =>
      obtain ⟨scratch,hp⟩ := Kernel.process_some c true hx
      rw [hp]
      refine ⟨fun j => ?_,rfl,rfl,rfl,rfl⟩
      have hi := (Kernel.execution_some hx).1
      have hj := (Kernel.execution_some hx).2.1
      rw [mem_iff_get,mem_iff_get,x.settle_get]
      by_cases he : j = x.instId
      · rw [if_pos he,he,hj,hi]
        simp
      · rw [if_neg he]
        simp

theorem SameShape.trans {k r q : Kernel} (h : SameShape k r) (h' : SameShape r q) :
    SameShape k q where
  keys id := (h'.keys id).trans (h.keys id)
  registry := h'.registry.trans h.registry
  counter := h'.counter.trans h.counter
  manifest := h'.manifest.trans h.manifest
  wal := h'.wal.trans h.wal

theorem SameShape.run (k : Kernel) (records : List WalRecord) :
    SameShape k ((replaying c).run k records) :=
  (replaying c).run_invariant (SameShape k) (fun r rec h => h.trans (.replayNext r rec)) k records
    ⟨fun _ => Iff.rfl,rfl,rfl,rfl,rfl⟩

end Objection

def Wal.Sound (c : Crypto) (k : Kernel) (w : Wal) : Prop :=
  checkHeaderGates w = .ok () ∧ w.header.manifestDigest = k.manifestDigest ∧
    w.verifyChain c w.header.worldId = .ok ()

theorem replayInto_sound {c : Crypto} {k : Kernel} {w : Wal} (h : w.Sound c k) :
    replayInto c k w = replayRecords c k w := by
  obtain ⟨hg,hm,hv⟩ := h
  unfold replayInto
  rw [hg]
  dsimp only
  rw [if_neg (not_not.mpr hm),hv]

theorem replayInto_unsound {c : Crypto} {k : Kernel} {w : Wal} (h : ¬ w.Sound c k) :
    ∃ e, replayInto c k w = (k,.error e) := by
  unfold replayInto
  split
  · next e _ => exact ⟨e,rfl⟩
  · next hg =>
    split_ifs with hm
    · exact ⟨_,rfl⟩
    · split
      · exact ⟨_,rfl⟩
      · next hv => exact absurd ⟨hg,not_not.mp hm,hv⟩ h

/-- Exactly where a replay fails and what it leaves behind. It has always applied
a leading part of the records, and on success all of them. A log that fails the
checks of its header, its manifest or its chain changes nothing. Otherwise the
error is the first objection, with the kernel as the offending record left it,
or the tip at the end of the log; and no failure touches the set of instances,
the code, the counter, the manifest or the kernel's own log. -/
theorem failed_replay_stops (c : Crypto) (k : Kernel) (w : Wal) :
    SameShape k (replayInto c k w).1 ∧
    (∃ pre, pre <+: w.records ∧ (replayInto c k w).1 = (replaying c).run k pre) ∧
    (∀ r report, replayInto c k w = (r,.ok report) → r = (replaying c).run k w.records) ∧
    (¬ w.Sound c k → ∃ e, replayInto c k w = (k,.error e)) ∧
    (w.Sound c k → ∀ r e, replayInto c k w = (r,.error e) ↔
      (∃ pre rec, StopsAt c k w.records pre rec e ∧ r = (replaying c).run k (pre++[rec])) ∨
      ((replaying c).Admits (Unopposed c) k w.records ∧ r = (replaying c).run k w.records ∧
        measuredTip c w.header w.contents ≠ w.chainTip ∧
          e = .chainTipDivergence w.chainTip (measuredTip c w.header w.contents))) := by
  have hk := replayInto_kernel c k w
  refine ⟨?_,⟨_,replayed_leading c k w,hk⟩,?_,replayInto_unsound,?_⟩
  · rw [hk]
    exact .run k _
  · intro r report h
    have hs : w.Sound c k := by
      by_contra hn
      obtain ⟨e,he⟩ := replayInto_unsound hn
      rw [he] at h
      cases h
    rw [replayInto_sound hs] at h
    exact (replayRecords_ok_iff.mp ⟨report,h⟩).2.2
  · intro hs r e
    rw [replayInto_sound hs]
    constructor
    · intro h
      rcases admits_or_stops (c := c) k w.records with ha | ⟨pre,rec,e',hst⟩
      · obtain ⟨hk,hok,herr⟩ := replayRecords_admits ha
        rw [h] at hk hok herr
        by_cases ht : measuredTip c w.header w.contents = w.chainTip
        · obtain ⟨report,hr⟩ := hok ht
          cases hr
        · exact .inr ⟨ha,hk,ht,Except.error.inj (herr ht)⟩
      · unfold replayRecords at h
        rw [replayFrom_error _ _ hst] at h
        obtain ⟨rfl,he⟩ := Prod.mk.inj h
        obtain rfl := Except.error.inj he
        exact .inl ⟨pre,rec,hst,rfl⟩
    · rintro (⟨pre,rec,hst,rfl⟩ | ⟨ha,rfl,ht,rfl⟩)
      · unfold replayRecords
        rw [replayFrom_error _ _ hst]
      · obtain ⟨hk,-,herr⟩ := replayRecords_admits ha
        exact Prod.ext hk (herr ht)

def Wal.upTo (w : Wal) (n : ℕ) : Wal := ⟨w.header,w.records.take n⟩

theorem renumbered_take (m n : ℕ) (xs : List WalRecordContent) :
    renumbered m (xs.take n) = (renumbered m xs).take n := by
  induction xs generalizing m n with
  | nil => simp [renumbered]
  | cons x xs ih =>
    cases n with
    | zero => rfl
    | succ n => exact congrArg _ (ih _ n)

theorem upTo_contents (w : Wal) (n : ℕ) : (w.upTo n).contents = w.contents.take n :=
  List.map_take

theorem upTo_verifies {c : Crypto} {w : Wal} {worldId : Block}
    (h : w.verifyChain c worldId = .ok ()) (n : ℕ) : (w.upTo n).verifyChain c worldId = .ok () := by
  obtain ⟨v,hv,hl,hs⟩ := (verifyChain_iff w worldId).mp h
  rw [← List.take_append_drop n w.records,linked_append] at hl
  exact (verifyChain_iff _ _).mpr ⟨v,hv,hl.1,fun r hr => hs r (List.mem_of_mem_take hr)⟩

section Truncated
variable {c : Crypto} {k r : Kernel} {w : Wal} {worldId : Block} {report : ReplayReport}

theorem upTo_measured
    (hcf : Set.InjOn (fun x : Block × Bytes => c.keyedHash x.1 x.2)
      {x | x ∈ w.hashed c worldId ∨ x ∈ w.measured c})
    (hv : w.verifyChain c worldId = .ok ()) (h : replayRecords c k w = (r,.ok report)) (n : ℕ) :
    measuredTip c w.header (w.upTo n).contents = (w.upTo n).chainTip := by
  obtain ⟨hc,hk⟩ := measured_contents hcf hv h
  rw [verifyChain_tip (upTo_verifies hv n),measuredTip,upTo_contents,renumbered_take,← hc]
  by_cases hn : w.records = []
  · rw [Wal.contents,hn,List.map_nil,List.take_nil]
    rfl
  · rw [hk hn]

theorem upTo_replays
    (hcf : Set.InjOn (fun x : Block × Bytes => c.keyedHash x.1 x.2)
      {x | x ∈ w.hashed c worldId ∨ x ∈ w.measured c})
    (hv : w.verifyChain c worldId = .ok ()) (h : replayRecords c k w = (r,.ok report)) (n : ℕ) :
    ∃ report', replayRecords c k (w.upTo n) =
      ((replaying c).run k (w.records.take n),.ok report') := by
  have ha := (replayRecords_ok_iff.mp ⟨report,h⟩).1
  rw [← List.take_append_drop n w.records,Transducer.admits_append] at ha
  exact replayRecords_ok_iff.mpr ⟨ha.1,upTo_measured hcf hv h n,rfl⟩

theorem upTo_tip (hcf : KeyedCollisionFree c {x | x ∈ w.hashed c worldId ∨ x ∈ w.measured c})
    (hv : w.verifyChain c worldId = .ok ()) (n : ℕ) :
    (w.upTo n).chainTip = w.chainTip ↔ w.records.length ≤ n := by
  constructor
  · intro ht
    have hsub : ∀ x ∈ (w.upTo n).hashed c worldId, x ∈ w.hashed c worldId := by
      intro x hx
      unfold Wal.hashed at hx ⊢
      rw [← List.take_append_drop n w.contents,HashChain.inputs_append,← upTo_contents]
      rw [List.map_append]
      exact List.mem_append_left _ hx
    have hc : KeyedCollisionFree c {x | x ∈ w.hashed c worldId ∨ x ∈ (w.upTo n).hashed c worldId} :=
      ⟨hcf.inj.mono (fun x hx => .inl (hx.elim (fun h => h) (hsub x))),
        fun x hx => hcf.nonzero x (.inl (hx.elim (fun h => h) (hsub x)))⟩
    have he := congrArg List.length (pinned_contents hc hv (upTo_verifies hv n) ht)
    rw [upTo_contents,List.length_take,Wal.contents,List.length_map] at he
    omega
  · intro hn
    rw [Wal.upTo,List.take_of_length_le hn]

end Truncated

/-- Every truncation of an accepted log is accepted by the default path, and
leaves the kernel in the state that the whole replay passes through there. The
anchored path accepts it exactly when the anchor does not pin the tip, or nothing
was cut off. -/
theorem truncated_log_accepted_iff (c : Crypto) (k r : Kernel) (w : Wal) (worldId : Block)
    (anchor : TrustAnchor) (report : ReplayReport)
    (hcf : KeyedCollisionFree c {x | x ∈ w.hashed c worldId ∨ x ∈ w.measured c})
    (h : replayIntoVerified c k w worldId anchor = (r,.ok report)) (n : ℕ) :
    let passed := (replaying c).run k (w.records.take n)
    r = (replaying c).run passed (w.records.drop n) ∧
    (w.header.manifestDigest = k.manifestDigest → ∃ report',
      replayInto c k (w.upTo n) = (passed,.ok report') ∧
        report'.finalChainTip = (w.upTo n).chainTip) ∧
    ((∃ r' report', replayIntoVerified c k (w.upTo n) worldId anchor = (r',.ok report')) ↔
      anchor.expectedChainTip = none ∨ w.records.length ≤ n) ∧
    ∀ r' report', replayIntoVerified c k (w.upTo n) worldId anchor = (r',.ok report') →
      r' = passed := by
  intro passed
  obtain ⟨hg,ha,hr⟩ := replayIntoVerified_ok.mp h
  obtain ⟨report',hn⟩ := upTo_replays hcf.inj ha.chain hr n
  have hv : w.verifyChain c w.header.worldId = .ok () := by
    rw [← ha.chain]
    exact (verifyChain_congr (measured_contents hcf.inj ha.chain hr).2).symm
  have hanchor : AnchoredOk c (w.upTo n) worldId anchor ↔
      anchor.expectedChainTip = none ∨ w.records.length ≤ n := by
    rw [← upTo_tip hcf ha.chain n]
    constructor
    · intro hn
      cases ht : anchor.expectedChainTip with
      | none => exact .inl rfl
      | some tip =>
        exact .inr ((Option.some.inj (pinned_some hn.tip ht)).trans
          (Option.some.inj (pinned_some ha.tip ht)).symm)
    · intro ht
      refine ⟨ha.tier,ha.ed25519Key,ha.mldsaKey,ha.manifest,upTo_verifies ha.chain n,?_⟩
      rcases ht with ht | ht
      · rw [ht]
        rfl
      · rw [ht]
        exact ha.tip
  refine ⟨?_,?_,?_,?_⟩
  · rw [← Transducer.run_append,List.take_append_drop]
    exact (replayRecords_ok_iff.mp ⟨report,hr⟩).2.2
  · intro hm
    exact ⟨report',replayInto_ok.mpr ⟨hg,hm,upTo_verifies hv n,hn⟩,
      (replayRecords_measures hn).1⟩
  · rw [← hanchor]
    constructor
    · rintro ⟨r',q,hq⟩
      exact (replayIntoVerified_ok.mp hq).2.1
    · exact fun ht => ⟨passed,report',replayIntoVerified_ok.mpr ⟨hg,ht,hn⟩⟩
  · intro r' q hq
    have hrq := (replayIntoVerified_ok.mp hq).2.2
    rw [hn] at hrq
    exact (congrArg Prod.fst hrq).symm

theorem contiguousLog_keyed : KeyedCollisionFree standIn
    {x | x ∈ contiguousLog.hashed standIn zeroBlock ∨ x ∈ contiguousLog.measured standIn} := by
  apply keyedCollisionFree_of_list
    (contiguousLog.hashed standIn zeroBlock ++ contiguousLog.measured standIn)
  · decide +kernel
  · decide +kernel
  · exact fun x hx => List.mem_append.mpr hx

theorem truncated_log_accepted_iff_contiguous :
    ¬ ∃ r' report', replayIntoVerified standIn (manifestKernel zeroBlock) (contiguousLog.upTo 1)
      zeroBlock { expectedChainTip := some contiguousLog.chainTip } = (r',.ok report') := by
  obtain ⟨r,report,h⟩ := replay_isOk (p := replayIntoVerified standIn (manifestKernel zeroBlock)
    contiguousLog zeroBlock { expectedChainTip := some contiguousLog.chainTip }) (by decide +kernel)
  rw [(truncated_log_accepted_iff standIn _ r contiguousLog zeroBlock _ report contiguousLog_keyed
    h 1).2.2.1]
  decide +kernel

end ArkheKernel
