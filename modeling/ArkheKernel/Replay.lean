import ArkheKernel.Kernel

/-!
# Replay

A log is replayed into a kernel whose instances exist already. Submissions are
admitted under their recorded ids, steps are executed again and compared with
the record, and a second writer measures the chain. The kernel is returned
beside the outcome, since a failed replay leaves it half driven.
-/

set_option autoImplicit false

namespace ArkheKernel
open OrderedMap PrefixCode

structure ReplayReport where
  submitsReplayed : ℕ := 0
  stepsReplayed : ℕ := 0
  totalEffectsApplied : ℕ := 0
  totalEffectsDenied : ℕ := 0
  finalChainTip : Block := zeroBlock
  deriving DecidableEq

inductive ReplayError where
  | headerIncompatible (message : String)
  | kernelSemverMismatch (expected got : ℕ × ℕ × ℕ)
  | abiVersionMismatch (expected got : ℕ × ℕ)
  | postcardVersionMismatch (expected got : ℕ)
  | blake3VersionMismatch (expected got : ℕ)
  | walCorrupted (e : WalError)
  | submitFailed (message : String)
  | stepUnderflow (inst : InstanceId)
  | poppedIdDivergence (seq : ℕ)
  | verdictDivergence (seq : ℕ) (expected got : StepVerdict)
  | stateDigestDivergence (seq : ℕ)
  | chainTipDivergence (expected measured : Block)
  | manifestDigestMismatch (expected got : Block)
  deriving DecidableEq

def ArkheError.debug : ArkheError → String
  | .instanceNotFound => "InstanceNotFound"
  | .capabilityDenied => "CapabilityDenied"
  | .quotaExceeded => "QuotaExceeded"

def checkHeaderGates (w : Wal) : Except ReplayError Unit :=
  if w.header.magic ≠ WalHeader.MAGIC then
    .error (.headerIncompatible "magic mismatch (expected ARKHEWAL)")
  else if w.header.kernelSemver.1 ≠ WalHeader.CURRENT_KERNEL_SEMVER.1 then
    .error (.kernelSemverMismatch WalHeader.CURRENT_KERNEL_SEMVER w.header.kernelSemver)
  else if w.header.abiVersion ≠ WalHeader.ABI_VERSION then
    .error (.abiVersionMismatch WalHeader.ABI_VERSION w.header.abiVersion)
  else if w.header.postcardVersion ≠ WalHeader.POSTCARD_MAJOR then
    .error (.postcardVersionMismatch WalHeader.POSTCARD_MAJOR w.header.postcardVersion)
  else if w.header.blake3Version ≠ WalHeader.BLAKE3_MAJOR then
    .error (.blake3VersionMismatch WalHeader.BLAKE3_MAJOR w.header.blake3Version)
  else .ok ()

section Replay
variable (c : Crypto)

/-- One record: re-admission, or re-execution against the recorded outcome. -/
def replayRecord (k : Kernel) (writer : WalWriter) (report : ReplayReport) (rec : WalRecord) :
    Kernel × Except ReplayError (WalWriter × ReplayReport) :=
  match rec.content with
  | .submit _ inst principal actor capsAtSubmit atTick typeCode actionBytes id =>
    match k.submitWithId ⟨inst,principal,actor,⟨capsAtSubmit⟩,atTick,typeCode,actionBytes⟩ id with
    | .error e => (k,.error (.submitFailed e.debug))
    | .ok k => (k,.ok (
        writer.appendSubmit c inst principal actor capsAtSubmit atTick typeCode actionBytes id,
        { report with submitsReplayed := satAdd32 report.submitsReplayed 1 }))
  | .step seq inst poppedId now sessionCaps verdict digest =>
    match k.processInstanceRecord c inst now ⟨sessionCaps⟩ true with
    | none => (k,.error (.stepUnderflow inst))
    | some (result,k) =>
      if result.poppedId ≠ poppedId then (k,.error (.poppedIdDivergence seq))
      else if result.verdict ≠ verdict then
        (k,.error (.verdictDivergence seq verdict result.verdict))
      else if result.digest ≠ digest then (k,.error (.stateDigestDivergence seq))
      else (k,.ok (
        writer.appendStep c inst poppedId now sessionCaps verdict digest,
        { report with
          stepsReplayed := satAdd32 report.stepsReplayed 1
          totalEffectsApplied := satAdd32 report.totalEffectsApplied result.effectsApplied
          totalEffectsDenied := satAdd32 report.totalEffectsDenied result.effectsDenied }))

def replayFrom (k : Kernel) (writer : WalWriter) (report : ReplayReport) :
    List WalRecord → Kernel × Except ReplayError (WalWriter × ReplayReport)
  | [] => (k,.ok (writer,report))
  | rec::rest =>
    match replayRecord c k writer report rec with
    | (k,.error e) => (k,.error e)
    | (k,.ok (writer,report)) => replayFrom k writer report rest

def replayRecords (k : Kernel) (w : Wal) : Kernel × Except ReplayError ReplayReport :=
  match replayFrom c k (.rebuildFromHeader c w.header) {} w.records with
  | (k,.error e) => (k,.error e)
  | (k,.ok (writer,report)) =>
    if writer.chainTip ≠ w.chainTip then (k,.error (.chainTipDivergence w.chainTip writer.chainTip))
    else (k,.ok { report with finalChainTip := writer.chainTip })

def replayInto (k : Kernel) (w : Wal) : Kernel × Except ReplayError ReplayReport :=
  match checkHeaderGates w with
  | .error e => (k,.error e)
  | .ok () =>
    if w.header.manifestDigest ≠ k.manifestDigest then
      (k,.error (.manifestDigestMismatch w.header.manifestDigest k.manifestDigest))
    else
      match w.verifyChain c w.header.worldId with
      | .error e => (k,.error (.walCorrupted e))
      | .ok () => replayRecords c k w

def replayIntoVerified (k : Kernel) (w : Wal) (worldId : Block) (anchor : TrustAnchor) :
    Kernel × Except ReplayError ReplayReport :=
  match checkHeaderGates w with
  | .error e => (k,.error e)
  | .ok () =>
    match w.verifyChainAnchored c worldId anchor with
    | .error e => (k,.error (.walCorrupted e))
    | .ok () => replayRecords c k w

variable {c}

theorem replayRecord_submit {k k' : Kernel} {rec : WalRecord} {seq : ℕ} {s : Submission}
    {id : ScheduledActionId} (writer : WalWriter) (report : ReplayReport)
    (hrec : rec.content = .submit seq s.inst s.principal s.actor s.caps.bits s.atTick
      s.actionTypeCode s.actionBytes id) (h : k.submitWithId s id = .ok k') :
    replayRecord c k writer report rec = (k',.ok (
      writer.appendSubmit c s.inst s.principal s.actor s.caps.bits s.atTick s.actionTypeCode
        s.actionBytes id,
      { report with submitsReplayed := satAdd32 report.submitsReplayed 1 })) := by
  unfold replayRecord
  rw [hrec]
  dsimp only
  rw [h]

theorem replayRecord_step {k k' : Kernel} {rec : WalRecord} {seq : ℕ} {inst : InstanceId}
    {now : Tick} {caps : CapabilityMask} {result : InstanceStepResult} (writer : WalWriter)
    (report : ReplayReport)
    (hrec : rec.content = .step seq inst result.poppedId now caps.bits result.verdict result.digest)
    (h : k.processInstanceRecord c inst now caps true = some (result,k')) :
    replayRecord c k writer report rec = (k',.ok (
      writer.appendStep c inst result.poppedId now caps.bits result.verdict result.digest,
      { report with
        stepsReplayed := satAdd32 report.stepsReplayed 1
        totalEffectsApplied := satAdd32 report.totalEffectsApplied result.effectsApplied
        totalEffectsDenied := satAdd32 report.totalEffectsDenied result.effectsDenied })) := by
  unfold replayRecord
  rw [hrec]
  dsimp only
  rw [h]
  dsimp only
  rw [if_neg (not_not.mpr rfl),if_neg (not_not.mpr rfl),if_neg (not_not.mpr rfl)]

theorem replayFrom_snoc {k k₁ k₂ : Kernel} {writer w₁ w₂ : WalWriter} {report r₁ r₂ : ReplayReport}
    {rs : List WalRecord} {rec : WalRecord}
    (h : replayFrom c k writer report rs = (k₁,.ok (w₁,r₁)))
    (hr : replayRecord c k₁ w₁ r₁ rec = (k₂,.ok (w₂,r₂))) :
    replayFrom c k writer report (rs++[rec]) = (k₂,.ok (w₂,r₂)) := by
  induction rs generalizing k writer report with
  | nil =>
    obtain ⟨rfl,he⟩ := Prod.mk.inj h
    obtain ⟨rfl,rfl⟩ := Prod.mk.inj (Except.ok.inj he)
    rw [List.nil_append,replayFrom,hr]
    rfl
  | cons q rs ih =>
    rw [List.cons_append,replayFrom]
    rw [replayFrom] at h
    split at h
    · cases h
    · exact ih h

end Replay
end ArkheKernel
