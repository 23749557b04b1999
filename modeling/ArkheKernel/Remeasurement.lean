import ArkheKernel.LogDeterminacy
import ArkheKernel.ReplaySafety

/-!
# What replay measures

The writer that replay seals the records with again counts them itself, under
the world of the header. The one comparison of its tip with the tip of the log
therefore fixes the sequence numbers, and the world a nonempty log was verified
for.
-/

set_option autoImplicit false

namespace ArkheKernel
open PrefixCode

def WalRecordContent.withSeq (n : ℕ) : WalRecordContent → WalRecordContent
  | .submit _ inst principal actor caps atTick typeCode actionBytes id =>
    .submit n inst principal actor caps atTick typeCode actionBytes id
  | .step _ inst poppedId now caps verdict digest => .step n inst poppedId now caps verdict digest

/-- The contents as a writer whose counter stands at `n` seals them. -/
def renumbered : ℕ → List WalRecordContent → List WalRecordContent
  | _, [] => []
  | n, x::xs => x.withSeq (satAdd64 n 1) :: renumbered (satAdd64 n 1) xs

def Wal.measured (c : Crypto) (w : Wal) : List (Block × Bytes) :=
  (HashChain.inputs (chainLink c) (buildChainKey c w.header.worldId) zeroBlock
    (renumbered 0 w.contents)).map hashInput

theorem withSeq_seq (n : ℕ) (x : WalRecordContent) : (x.withSeq n).seq = n := by
  cases x <;> rfl

theorem renumbered_seq (n : ℕ) (xs : List WalRecordContent) (h : n+xs.length ≤ u64Max) :
    (renumbered n xs).map WalRecordContent.seq = List.range' (n+1) xs.length := by
  induction xs generalizing n with
  | nil => rfl
  | cons x xs ih =>
    rw [List.length_cons] at h
    have hn : satAdd64 n 1 = n+1 := satAdd64_eq (by omega)
    rw [renumbered,List.map_cons,withSeq_seq,hn,ih (n+1) (by omega),List.length_cons,
      List.range'_succ]

theorem renumbered_length (n : ℕ) (xs : List WalRecordContent) :
    (renumbered n xs).length = xs.length := by
  induction xs generalizing n with
  | nil => rfl
  | cons x xs ih => exact congrArg (·+1) (ih _)

section Measure
variable {c : Crypto}

theorem replayRecord_measures {k k' : Kernel} {writer writer' : WalWriter}
    {report report' : ReplayReport} {rec : WalRecord}
    (h : replayRecord c k writer report rec = (k',.ok (writer',report'))) :
    writer'.nextSeq = satAdd64 writer.nextSeq 1 ∧ writer'.chainKey = writer.chainKey ∧
      writer'.prevHash = chainLink c writer.chainKey writer.prevHash
        (rec.content.withSeq (satAdd64 writer.nextSeq 1)) := by
  unfold replayRecord at h
  cases hrec : rec.content with
  | submit seq inst principal actor caps atTick typeCode actionBytes id =>
    rw [hrec] at h
    dsimp only at h
    split at h
    · cases h
    · obtain ⟨-,ho⟩ := Prod.mk.inj h
      obtain ⟨rfl,-⟩ := Prod.mk.inj (Except.ok.inj ho)
      exact ⟨rfl,rfl,rfl⟩
  | step seq inst poppedId now sessionCaps verdict digest =>
    rw [hrec] at h
    dsimp only at h
    split at h
    · cases h
    · split at h
      · cases h
      · split at h
        · cases h
        · split at h
          · cases h
          · obtain ⟨-,ho⟩ := Prod.mk.inj h
            obtain ⟨rfl,-⟩ := Prod.mk.inj (Except.ok.inj ho)
            exact ⟨rfl,rfl,rfl⟩

theorem replayFrom_measures {k k' : Kernel} {writer writer' : WalWriter}
    {report report' : ReplayReport} {rs : List WalRecord}
    (h : replayFrom c k writer report rs = (k',.ok (writer',report'))) :
    writer'.prevHash = HashChain.tip (chainLink c) writer.chainKey writer.prevHash
      (renumbered writer.nextSeq (rs.map WalRecord.content)) := by
  induction rs generalizing k writer report with
  | nil =>
    obtain ⟨-,ho⟩ := Prod.mk.inj h
    obtain ⟨rfl,-⟩ := Prod.mk.inj (Except.ok.inj ho)
    rfl
  | cons rec rs ih =>
    rw [replayFrom] at h
    split at h
    · cases h
    · next hr =>
      obtain ⟨hseq,hkey,hprev⟩ := replayRecord_measures hr
      rw [ih h,hseq,hkey,hprev]
      rfl

theorem replayRecords_measures {k k' : Kernel} {w : Wal} {report : ReplayReport}
    (h : replayRecords c k w = (k',.ok report)) :
    report.finalChainTip = w.chainTip ∧
      w.chainTip = HashChain.tip (chainLink c) (buildChainKey c w.header.worldId) zeroBlock
        (renumbered 0 w.contents) := by
  unfold replayRecords at h
  split at h
  · cases h
  · next writer report' hr =>
    split at h
    · cases h
    · next htip =>
      rw [not_not] at htip
      obtain ⟨-,ho⟩ := Prod.mk.inj h
      obtain rfl := Except.ok.inj ho
      exact ⟨htip,htip.symm.trans (replayFrom_measures hr)⟩

/-- A verified log that replays is the log its measuring writer would seal, and
unless it is empty it was verified under the key of the world in its header. -/
theorem measured_contents {k k' : Kernel} {w : Wal} {worldId : Block} {report : ReplayReport}
    (hcf : Set.InjOn (fun x : Block × Bytes => c.keyedHash x.1 x.2)
      {x | x ∈ w.hashed c worldId ∨ x ∈ w.measured c})
    (hv : w.verifyChain c worldId = .ok ()) (h : replayRecords c k w = (k',.ok report)) :
    w.contents = renumbered 0 w.contents ∧
      (w.records ≠ [] → buildChainKey c worldId = buildChainKey c w.header.worldId) := by
  have ht := (verifyChain_tip hv).symm.trans (replayRecords_measures h).2
  obtain ⟨hc,hk⟩ := HashChain.tip_determines_key (links_injOn hcf) _ _ _ _
    (renumbered_length 0 _).symm (fun x hx => Or.inl (List.mem_map_of_mem hx))
    (fun x hx => Or.inr (List.mem_map_of_mem hx)) ht
  refine ⟨hc,fun hn => hk ?_⟩
  rw [Wal.contents]
  simpa using hn

theorem measured_seq {k k' : Kernel} {w : Wal} {worldId : Block} {report : ReplayReport}
    (hcf : Set.InjOn (fun x : Block × Bytes => c.keyedHash x.1 x.2)
      {x | x ∈ w.hashed c worldId ∨ x ∈ w.measured c})
    (hn : w.records.length < 2^64) (hv : w.verifyChain c worldId = .ok ())
    (h : replayRecords c k w = (k',.ok report)) :
    w.contents.map WalRecordContent.seq = List.range' 1 w.records.length ∧
      report.finalChainTip = w.chainTip := by
  have hlen : w.contents.length = w.records.length := List.length_map _
  have hseq := renumbered_seq 0 w.contents (by unfold u64Max; omega)
  rw [← (measured_contents hcf hv h).1,hlen] at hseq
  exact ⟨hseq,(replayRecords_measures h).1⟩

theorem replayInto_ok {k k' : Kernel} {w : Wal} {report : ReplayReport} :
    replayInto c k w = (k',.ok report) ↔ checkHeaderGates w = .ok () ∧
      w.header.manifestDigest = k.manifestDigest ∧
      w.verifyChain c w.header.worldId = .ok () ∧ replayRecords c k w = (k',.ok report) := by
  unfold replayInto
  cases checkHeaderGates w with
  | error e => simp
  | ok u =>
    by_cases hm : w.header.manifestDigest = k.manifestDigest
    · cases w.verifyChain c w.header.worldId with
      | error e => simp [hm]
      | ok u => simp [hm]
    · simp [hm]

theorem replayIntoVerified_ok {k k' : Kernel} {w : Wal} {worldId : Block} {anchor : TrustAnchor}
    {report : ReplayReport} : replayIntoVerified c k w worldId anchor = (k',.ok report) ↔
      checkHeaderGates w = .ok () ∧ AnchoredOk c w worldId anchor ∧
        replayRecords c k w = (k',.ok report) := by
  rw [← verifyChainAnchored_iff]
  unfold replayIntoVerified
  cases checkHeaderGates w with
  | error e => simp
  | ok u =>
    cases w.verifyChainAnchored c worldId anchor with
    | error e => simp
    | ok u => simp

theorem verifyChain_congr {w : Wal} {worldId worldId' : Block}
    (h : w.records ≠ [] → buildChainKey c worldId = buildChainKey c worldId') :
    w.verifyChain c worldId = w.verifyChain c worldId' := by
  unfold Wal.verifyChain
  by_cases hn : w.records = []
  · rw [hn]
    rfl
  · rw [h hn]

end Measure

/-- A log that the authenticated path replays is replayed by the default path,
to the same kernel and report, exactly when its header carries the manifest
digest of the kernel, which only the default path asks for. -/
theorem verified_replay_strict_iff (c : Crypto) (k r : Kernel) (w : Wal) (worldId : Block)
    (anchor : TrustAnchor) (report : ReplayReport)
    (hcf : Set.InjOn (fun x : Block × Bytes => c.keyedHash x.1 x.2)
      {x | x ∈ w.hashed c worldId ∨ x ∈ w.measured c})
    (h : replayIntoVerified c k w worldId anchor = (r,.ok report)) :
    replayInto c k w = (r,.ok report) ↔ w.header.manifestDigest = k.manifestDigest := by
  obtain ⟨hg,ha,hr⟩ := replayIntoVerified_ok.mp h
  have hv : w.verifyChain c w.header.worldId = .ok () := by
    rw [← verifyChain_congr (measured_contents hcf ha.chain hr).2]
    exact ha.chain
  rw [replayInto_ok]
  constructor
  · intro ⟨_,hm,_⟩
    exact hm
  · intro hm
    exact ⟨hg,hm,hv,hr⟩

theorem replay_isOk {p : Kernel × Except ReplayError ReplayReport} (h : p.2.isOk = true) :
    ∃ r report, p = (r,.ok report) := by
  obtain ⟨r,o⟩ := p
  cases o with
  | error e => cases h
  | ok report => exact ⟨r,report,rfl⟩

def manifestKernel (manifest : Block) : Kernel := (Kernel.build manifest none).setUp standIn twinSetup

def contiguousLog : Wal := .fromWriter (submittedLog [⟨.succ 0⟩,⟨.succ 1⟩])

theorem contiguousLog_collisionFree : Set.InjOn
    (fun x : Block × Bytes => standIn.keyedHash x.1 x.2)
    {x | x ∈ contiguousLog.hashed standIn zeroBlock ∨ x ∈ contiguousLog.measured standIn} := by
  have hinj : ∀ x ∈ contiguousLog.hashed standIn zeroBlock ++ contiguousLog.measured standIn,
      ∀ y ∈ contiguousLog.hashed standIn zeroBlock ++ contiguousLog.measured standIn,
        standIn.keyedHash x.1 x.2 = standIn.keyedHash y.1 y.2 → x = y := by decide +kernel
  intro x hx y hy he
  exact hinj x (List.mem_append.mpr hx) y (List.mem_append.mpr hy) he

theorem contiguousLog_replays : ∃ r report,
    replayIntoVerified standIn (manifestKernel zeroBlock) contiguousLog zeroBlock {} =
      (r,.ok report) :=
  replay_isOk (by decide +kernel)

theorem verified_replay_strict_iff_matching : ∃ r report,
    replayInto standIn (manifestKernel zeroBlock) contiguousLog = (r,.ok report) := by
  obtain ⟨r,report,h⟩ := contiguousLog_replays
  exact ⟨r,report,(verified_replay_strict_iff standIn _ r contiguousLog zeroBlock {} report
    contiguousLog_collisionFree h).mpr (by decide +kernel)⟩

/-- A log of one manifest, replayed into a kernel of another. -/
theorem verified_replay_ignores_manifest :
    ¬ ∀ (k r : Kernel) (w : Wal) (worldId : Block) (anchor : TrustAnchor) (report : ReplayReport),
      Set.InjOn (fun x : Block × Bytes => standIn.keyedHash x.1 x.2)
        {x | x ∈ w.hashed standIn worldId ∨ x ∈ w.measured standIn} →
      replayIntoVerified standIn k w worldId anchor = (r,.ok report) →
      replayInto standIn k w = (r,.ok report) := by
  intro h
  obtain ⟨r,report,hr⟩ : ∃ r report, replayIntoVerified standIn (manifestKernel (blockOfNat 5))
      contiguousLog zeroBlock {} = (r,.ok report) := replay_isOk (by decide +kernel)
  have hok := h _ r contiguousLog zeroBlock {} report contiguousLog_collisionFree hr
  have hfails : (replayInto standIn (manifestKernel (blockOfNat 5)) contiguousLog).2 =
      .error (.manifestDigestMismatch zeroBlock (blockOfNat 5)) := by decide +kernel
  rw [hok] at hfails
  cases hfails

/-- A log that either path replays numbers its records from one without gaps,
and the report carries its tip. -/
theorem replay_accepts_gap_free_only (c : Crypto) (k : Kernel) (w : Wal) (worldId : Block)
    (anchor : TrustAnchor) (hn : w.records.length < 2^64)
    (hcf : Set.InjOn (fun x : Block × Bytes => c.keyedHash x.1 x.2)
      {x | x ∈ w.hashed c worldId ∨ x ∈ w.hashed c w.header.worldId ∨ x ∈ w.measured c}) :
    (∀ r report, replayInto c k w = (r,.ok report) →
      w.contents.map WalRecordContent.seq = List.range' 1 w.records.length ∧
        report.finalChainTip = w.chainTip) ∧
    ∀ r report, replayIntoVerified c k w worldId anchor = (r,.ok report) →
      w.contents.map WalRecordContent.seq = List.range' 1 w.records.length ∧
        report.finalChainTip = w.chainTip := by
  constructor
  · intro r report h
    obtain ⟨-,-,hv,hr⟩ := replayInto_ok.mp h
    exact measured_seq (hcf.mono (fun x hx => Or.inr hx)) hn hv hr
  · intro r report h
    obtain ⟨-,ha,hr⟩ := replayIntoVerified_ok.mp h
    exact measured_seq (hcf.mono (fun x hx => hx.imp_right Or.inr)) hn ha.chain hr

theorem replay_accepts_gap_free_only_contiguous :
    contiguousLog.contents.map WalRecordContent.seq = [1,2] := by
  obtain ⟨r,report,h⟩ := contiguousLog_replays
  have hcf : Set.InjOn (fun x : Block × Bytes => standIn.keyedHash x.1 x.2)
      {x | x ∈ contiguousLog.hashed standIn zeroBlock ∨
        x ∈ contiguousLog.hashed standIn contiguousLog.header.worldId ∨
        x ∈ contiguousLog.measured standIn} := by
    apply contiguousLog_collisionFree.mono
    intro x hx
    rcases hx with hx | hx
    · exact Or.inl hx
    · exact hx
  exact ((replay_accepts_gap_free_only standIn (manifestKernel zeroBlock) contiguousLog zeroBlock {}
    (by decide +kernel) hcf).2 r report h).1

end ArkheKernel
