import ArkheKernel.Run
import ArkheKernel.SnapshotFile
import ArkheKernel.StoredRecord

/-!
# The log as a file

A log is stored field after field in the order of its declarations, and read
back by a reader built the same way. What a run writes fits the machine types,
so its log is read back as it was, and a torn file is not read at all.
-/

set_option autoImplicit false

namespace ArkheKernel
open PrefixCode

def SkipReason.ofTag : ℕ → Option SkipReason
  | 0 => some .unregistered
  | 1 => some .deserFailed
  | _ => none

def readSkipReason : Reader SkipReason := readU32.map SkipReason.ofTag

def StepVerdict.Fits : StepVerdict → Prop
  | .budgetPartial denied => denied ≤ u32Max
  | _ => True

def StepVerdict.variant : ℕ → Option (Reader StepVerdict)
  | 0 => some (.pure .committed)
  | 1 => some (.pure .authDenied)
  | 2 => some (readU32.map (fun denied => some (.budgetPartial denied)))
  | 3 => some (readSkipReason.map (fun reason => some (.skipped reason)))
  | _ => none

def readStepVerdict : Reader StepVerdict := .enum readU32 StepVerdict.variant

def readSubmitFields : Reader SubmitFields :=
  readU64.pair (readInstanceId.pair (readPrincipal.pair (readEntityId.option.pair
    (readU64Bits.pair (readTick.pair (readTypeCode.pair
      (readBytes.pair readScheduledActionId)))))))

def readStepFields : Reader StepFields :=
  readU64.pair (readInstanceId.pair (readScheduledActionId.pair (readTick.pair
    (readU64Bits.pair (readStepVerdict.pair (readFixed 32))))))

namespace WalRecordContent

def Fits : WalRecordContent → Prop
  | .submit seq _ principal _ _ atTick _ actionBytes _ => seq ≤ u64Max ∧ principal.Fits ∧
      atTick.val ≤ u64Max ∧ actionBytes.length ≤ u64Max
  | .step seq _ _ now _ verdict _ => seq ≤ u64Max ∧ now.val ≤ u64Max ∧ verdict.Fits

def variant : ℕ → Option (Reader WalRecordContent)
  | 0 => some (readSubmitFields.map (fun (seq,inst,principal,actor,caps,atTick,typeCode,bytes,id) =>
      some (.submit seq inst principal actor caps atTick typeCode bytes id)))
  | 1 => some (readStepFields.map (fun (seq,inst,id,now,caps,verdict,digest) =>
      some (.step seq inst id now caps verdict digest)))
  | _ => none

end WalRecordContent

def readWalRecordContent : Reader WalRecordContent := .enum readU32 WalRecordContent.variant

theorem readSkipReason_reads : Reads readSkipReason SkipReason.code.encode (fun _ => True) :=
  readU32_fits.map (fun r _ => ⟨r.tag,by cases r <;> decide,rfl,by cases r <;> rfl⟩)
    (fun _ _ _ _ => trivial)

theorem StepVerdict.variant_reads (n : ℕ) (R : Reader StepVerdict) (h : StepVerdict.variant n = some R) :
    Reads R StepVerdict.payload (fun v => v.Fits ∧ v.tag = n) := by
  match n with
  | 0 =>
    cases h
    exact .pure rfl (fun v => by cases v <;> simp [Fits,tag])
  | 1 =>
    cases h
    exact .pure rfl (fun v => by cases v <;> simp [Fits,tag])
  | 2 =>
    cases h
    refine readU32_fits.map ?_ ?_
    · rintro v ⟨hv,ht⟩
      cases v with
      | budgetPartial denied => exact ⟨denied,hv,rfl,rfl⟩
      | _ => cases ht
    · intro denied v hd hv
      cases hv
      exact ⟨hd,rfl⟩
  | 3 =>
    cases h
    refine readSkipReason_reads.map ?_ ?_
    · rintro v ⟨-,ht⟩
      cases v with
      | skipped reason => exact ⟨reason,trivial,rfl,rfl⟩
      | _ => cases ht
    · intro reason v _ hv
      cases hv
      exact ⟨trivial,rfl⟩
  | _+4 => cases h

theorem readStepVerdict_reads : Reads readStepVerdict StepVerdict.code.encode StepVerdict.Fits :=
  readU32_fits.enum (fun _ => rfl) (fun v => by cases v <;> exact ⟨by simp [StepVerdict.tag,u32Max],rfl⟩)
    StepVerdict.variant_reads

theorem readSubmitFields_reads : Reads readSubmitFields submitFields.encode
    (fun x => x.1 ≤ u64Max ∧ x.2.2.1.Fits ∧ x.2.2.2.2.2.1.val ≤ u64Max ∧
      x.2.2.2.2.2.2.2.1.length ≤ u64Max) :=
  (readU64_fits.pair (readInstanceId_reads.pair (readPrincipal_reads.pair
    (readEntityId_reads.option.pair (readU64Bits_reads.pair (readTick_reads.pair
      (readTypeCode_reads.pair (readBytes_reads.pair readScheduledActionId_reads)))))))).congr
    (fun x => by simp)

theorem readStepFields_reads : Reads readStepFields stepFields.encode
    (fun x => x.1 ≤ u64Max ∧ x.2.2.2.1.val ≤ u64Max ∧ x.2.2.2.2.2.1.Fits) :=
  (readU64_fits.pair (readInstanceId_reads.pair (readScheduledActionId_reads.pair
    (readTick_reads.pair (readU64Bits_reads.pair (readStepVerdict_reads.pair
      (readFixed_reads 32))))))).congr (fun x => by simp)

namespace WalRecordContent

def tag : WalRecordContent → ℕ
  | .submit .. => 0
  | .step .. => 1

def payload : WalRecordContent → Bytes
  | .submit seq inst principal actor caps atTick typeCode actionBytes id =>
    submitFields.encode (seq,inst,principal,actor,caps,atTick,typeCode,actionBytes,id)
  | .step seq inst poppedId now caps verdict digest =>
    stepFields.encode (seq,inst,poppedId,now,caps,verdict,digest)

theorem encode_eq (content : WalRecordContent) :
    content.encode = varint.encode content.tag ++ content.payload := by
  cases content with
  | submit => simp only [encode,tag,payload,submitFields,pair,List.append_assoc]
  | step => simp only [encode,tag,payload,stepFields,pair,fixed,List.append_assoc]

theorem variant_reads (n : ℕ) (R : Reader WalRecordContent) (h : variant n = some R) :
    Reads R payload (fun content => content.Fits ∧ content.tag = n) := by
  match n with
  | 0 =>
    cases h
    refine readSubmitFields_reads.map ?_ ?_
    · rintro content ⟨hf,ht⟩
      cases content with
      | submit seq inst principal actor caps atTick typeCode actionBytes id =>
        exact ⟨(seq,inst,principal,actor,caps,atTick,typeCode,actionBytes,id),hf,rfl,rfl⟩
      | step => cases ht
    · intro x content hx h
      cases h
      exact ⟨hx,rfl⟩
  | 1 =>
    cases h
    refine readStepFields_reads.map ?_ ?_
    · rintro content ⟨hf,ht⟩
      cases content with
      | submit => cases ht
      | step seq inst poppedId now caps verdict digest =>
        exact ⟨(seq,inst,poppedId,now,caps,verdict,digest),hf,rfl,rfl⟩
    · intro x content hx h
      cases h
      exact ⟨hx,rfl⟩
  | _+2 => cases h

end WalRecordContent

theorem readWalRecordContent_reads :
    Reads readWalRecordContent WalRecordContent.encode WalRecordContent.Fits :=
  readU32_fits.enum WalRecordContent.encode_eq
    (fun content => by cases content <;> exact ⟨by simp [WalRecordContent.tag,u32Max],rfl⟩)
    WalRecordContent.variant_reads

def SlotFits (slot : Option Bytes) : Prop := ∀ sig ∈ slot, sig.length ≤ u64Max

theorem slotFits_none : SlotFits none := fun _ h => absurd h (Option.not_mem_none _)

theorem slotFits_some {sig : Bytes} (h : sig.length ≤ u64Max) : SlotFits (some sig) := by
  intro sig' hs
  rwa [← Option.some.inj hs]

structure WalRecord.Fits (r : WalRecord) : Prop where
  content : r.content.Fits
  signature : SlotFits r.signature
  signaturePqc : SlotFits r.signaturePqc

def readWalRecord : Reader WalRecord :=
  (readWalRecordContent.pair ((readFixed 32).pair ((readFixed 32).pair
    (readBytes.option.pair readBytes.option)))).map
      (fun x => some ⟨x.1,x.2.1,x.2.2.1,x.2.2.2.1,x.2.2.2.2⟩)

theorem readWalRecord_reads : Reads readWalRecord WalRecord.encode WalRecord.Fits := by
  refine (readWalRecordContent_reads.pair ((readFixed_reads 32).pair ((readFixed_reads 32).pair
    (readBytes_reads.option.pair readBytes_reads.option)))).map ?_ ?_
  · intro r hr
    refine ⟨(r.content,r.prevChainHash,r.thisChainHash,r.signature,r.signaturePqc),
      ⟨hr.content,trivial,trivial,hr.signature,hr.signaturePqc⟩,?_,rfl⟩
    simp only [WalRecord.encode,fixed,List.append_assoc]
  · intro x r hx h
    cases h
    exact ⟨hx.1,hx.2.2.2.1,hx.2.2.2.2⟩

def TypeRegistryPin.code : Code TypeRegistryPin :=
  comap (pair TypeCode.code (fixed 32)) (fun p => (p.typeCode,p.schemaHash))
    (by rintro ⟨⟩ ⟨⟩ h; simpa using h)

def readTypeRegistryPin : Reader TypeRegistryPin :=
  (readTypeCode.pair (readFixed 32)).map (fun x => some ⟨x.1,x.2⟩)

def WalHeader.encode (h : WalHeader) : Bytes :=
  h.magic ++
  (varint.encode h.kernelSemver.1 ++ varint.encode h.kernelSemver.2.1 ++
    varint.encode h.kernelSemver.2.2) ++
  varint.encode h.postcardVersion ++ varint.encode h.blake3Version ++
  bytes.encode h.domainSeparationContext ++ h.worldId.toList ++
  (varint.encode h.abiVersion.1 ++ varint.encode h.abiVersion.2) ++
  h.manifestDigest.toList ++ (list TypeRegistryPin.code).encode h.typeRegistryPins ++
  (option (fixed 32)).encode h.verifyingKey ++ (option bytes).encode h.verifyingKeyPqc

def readWalHeader : Reader WalHeader :=
  ((readFixed 8).pair ((readU16.pair (readU16.pair readU16)).pair (readU32.pair (readU32.pair
    (readBytes.pair ((readFixed 32).pair ((readU16.pair readU16).pair ((readFixed 32).pair
      ((Reader.list readU64 readTypeRegistryPin).pair ((readFixed 32).option.pair
        readBytes.option)))))))))).map (fun x => some
    { magic := x.1.toList
      kernelSemver := x.2.1
      postcardVersion := x.2.2.1
      blake3Version := x.2.2.2.1
      domainSeparationContext := x.2.2.2.2.1
      worldId := x.2.2.2.2.2.1
      abiVersion := x.2.2.2.2.2.2.1
      manifestDigest := x.2.2.2.2.2.2.2.1
      typeRegistryPins := x.2.2.2.2.2.2.2.2.1
      verifyingKey := x.2.2.2.2.2.2.2.2.2.1
      verifyingKeyPqc := x.2.2.2.2.2.2.2.2.2.2 })

structure WalHeader.Fits (h : WalHeader) : Prop where
  magic : h.magic.length = 8
  semver : h.kernelSemver.1 < 2^16 ∧ h.kernelSemver.2.1 < 2^16 ∧ h.kernelSemver.2.2 < 2^16
  postcard : h.postcardVersion ≤ u32Max
  blake3 : h.blake3Version ≤ u32Max
  context : h.domainSeparationContext.length ≤ u64Max
  abi : h.abiVersion.1 < 2^16 ∧ h.abiVersion.2 < 2^16
  pins : h.typeRegistryPins.length ≤ u64Max
  pqc : SlotFits h.verifyingKeyPqc

theorem readTypeRegistryPin_reads :
    Reads readTypeRegistryPin TypeRegistryPin.code.encode (fun _ => True) :=
  (readTypeCode_reads.pair (readFixed_reads 32)).map
    (fun p _ => ⟨(p.typeCode,p.schemaHash),⟨trivial,trivial⟩,rfl,rfl⟩) (fun _ _ _ _ => trivial)

theorem readWalHeader_reads : Reads readWalHeader WalHeader.encode WalHeader.Fits := by
  refine ((readFixed_reads 8).pair ((readU16_reads.pair (readU16_reads.pair readU16_reads)).pair
    (readU32_fits.pair (readU32_fits.pair (readBytes_reads.pair ((readFixed_reads 32).pair
      ((readU16_reads.pair readU16_reads).pair ((readFixed_reads 32).pair
        ((readU64_fits.list readTypeRegistryPin_reads).pair ((readFixed_reads 32).option.pair
          readBytes_reads.option)))))))))).map ?_ ?_
  · intro h hh
    refine ⟨(⟨h.magic,hh.magic⟩,h.kernelSemver,h.postcardVersion,h.blake3Version,
      h.domainSeparationContext,h.worldId,h.abiVersion,h.manifestDigest,h.typeRegistryPins,
      h.verifyingKey,h.verifyingKeyPqc),⟨trivial,hh.semver,hh.postcard,hh.blake3,hh.context,trivial,
      hh.abi,trivial,⟨hh.pins,fun _ _ => trivial⟩,fun _ _ => trivial,hh.pqc⟩,?_,rfl⟩
    simp only [WalHeader.encode,fixed,List.append_assoc]
    rfl
  · rintro x h ⟨-,h1,h2,h3,h4,-,h5,-,h6,-,h7⟩ he
    cases he
    exact ⟨x.1.toList_length,h1,h2,h3,h4,h5,h6.1,h7⟩

namespace Wal

def serialize (w : Wal) : Bytes :=
  w.header.encode ++ (varint.encode w.records.length ++ w.records.flatMap WalRecord.encode)

def readWal : Reader Wal :=
  (readWalHeader.pair (.list readU64 readWalRecord)).map (fun x => some ⟨x.1,x.2⟩)

/-- Bytes after the last record are not looked at. -/
def deserialize (bs : Bytes) : Option Wal := (readWal bs).map Prod.fst

structure Fits (w : Wal) : Prop where
  header : w.header.Fits
  count : w.records.length ≤ u64Max
  records : ∀ r ∈ w.records, r.Fits

theorem readWal_reads : Reads readWal serialize Fits := by
  refine (readWalHeader_reads.pair (readU64_fits.sequence readWalRecord_reads)).map ?_ ?_
  · intro w hw
    exact ⟨(w.header,w.records),⟨hw.header,hw.count,hw.records⟩,rfl,rfl⟩
  · intro x w hx h
    cases h
    exact ⟨hx.1,hx.2.1,hx.2.2⟩

theorem deserialize_some {bs : Bytes} {w : Wal} :
    deserialize bs = some w ↔ ∃ rest, readWal bs = some (w,rest) := by
  unfold deserialize
  rw [Option.map_eq_some_iff]
  constructor
  · rintro ⟨x,hx,rfl⟩
    exact ⟨x.2,hx⟩
  · rintro ⟨rest,h⟩
    exact ⟨(w,rest),h,rfl⟩

theorem deserialize_back {w : Wal} (hw : w.Fits) (more : Bytes) :
    deserialize (w.serialize ++ more) = some w :=
  deserialize_some.mpr ⟨more,readWal_reads.back w more hw⟩

theorem deserialize_torn {w : Wal} (hw : w.Fits) {bs : Bytes} (hb : bs <+: w.serialize)
    (hne : bs ≠ w.serialize) : deserialize bs = none := by
  unfold deserialize
  rw [readWal_reads.torn hw hb hne]
  rfl

end Wal

/-- The file of a log is read back to that log, whatever follows it, and torn
anywhere it is not read. Conversely a log is read only if it fits, and appending
to its file does not change it; so no file continues that of another log. -/
theorem log_file_faithful :
    (∀ w : Wal, w.Fits → (∀ more, Wal.deserialize (w.serialize ++ more) = some w) ∧
      ∀ bs, bs <+: w.serialize → bs ≠ w.serialize → Wal.deserialize bs = none) ∧
    (∀ bs w, Wal.deserialize bs = some w →
      w.Fits ∧ ∀ more, Wal.deserialize (bs ++ more) = some w) ∧
    ∀ w w' : Wal, w.Fits → w'.Fits → w.serialize <+: w'.serialize → w = w' := by
  refine ⟨?_,?_,?_⟩
  · intro w hw
    exact ⟨Wal.deserialize_back hw,fun bs hbs hne => Wal.deserialize_torn hw hbs hne⟩
  · intro bs w h
    obtain ⟨rest,hr⟩ := Wal.deserialize_some.mp h
    exact ⟨Wal.readWal_reads.good bs w rest hr,fun more =>
      Wal.deserialize_some.mpr ⟨_,Wal.readWal_reads.more bs w rest more hr⟩⟩
  · rintro w w' hw hw' ⟨more,hmore⟩
    have h := Wal.deserialize_back hw' []
    rw [List.append_nil,← hmore,Wal.deserialize_back hw more] at h
    exact Option.some.inj h

def SignatureClass.Fits : SignatureClass → Prop
  | .hybrid _ _ signer => signer.verifyingKeyBytes.length ≤ u64Max ∧
      ∀ call msg sig, signer.sign call msg = .ok sig → sig.length ≤ u64Max
  | _ => True

structure Submission.Fits (s : Submission) : Prop where
  principal : s.principal.Fits
  atTick : s.atTick.val ≤ u64Max
  actionBytes : s.actionBytes.length ≤ u64Max

def Request.Fits : Request → Prop
  | .createInstance config => config.Fits
  | .submit s => s.Fits
  | _ => True

def Call.Fits : Call → Prop
  | .request r => r.Fits
  | .step now _ => now.val ≤ u64Max

def Micro.Fits : Micro → Prop
  | .request r => r.Fits
  | .pop _ now _ => now.val ≤ u64Max

structure WalWriter.Fits (w : WalWriter) : Prop where
  header : w.header.Fits
  records : ∀ r ∈ w.records, r.Fits
  sigClass : w.sigClass.Fits

section Writer
variable {c : Crypto} {w : WalWriter}

theorem withSignature_fits (worldId manifest : Block) {sigClass : SignatureClass}
    (h : sigClass.Fits) : (WalWriter.withSignature c worldId manifest sigClass).Fits := by
  have hmagic : WalHeader.MAGIC.length = 8 := by decide +kernel
  have hctx : WalHeader.DOMAIN_CTX.length ≤ u64Max := by decide +kernel
  refine ⟨⟨hmagic,show 0 < 2^16 ∧ 15 < 2^16 ∧ 0 < 2^16 by decide,show 1 ≤ u32Max by decide,
    show 1 ≤ u32Max by decide,hctx,show 0 < 2^16 ∧ 15 < 2^16 by decide,Nat.zero_le _,?_⟩,
    List.forall_mem_nil _,h⟩
  cases sigClass with
  | hybrid _ _ signer => exact slotFits_some h.1
  | _ => exact slotFits_none

theorem signatures_fit (h : w.sigClass.Fits) (body : Bytes) :
    SlotFits (w.signatures c body).1 ∧ SlotFits (w.signatures c body).2 := by
  have h64 (sig : List.Vector UInt8 64) : SlotFits (some sig.toList) :=
    slotFits_some (sig.toList_length.trans_le (by decide))
  unfold WalWriter.signatures
  cases hc : w.sigClass with
  | none => exact ⟨slotFits_none,slotFits_none⟩
  | ed25519 sk vk => exact ⟨h64 _,slotFits_none⟩
  | hybrid sk vk signer =>
    rw [hc] at h
    simp only [SignatureClass.signHybrid]
    cases hs : signer.sign w.records.length (domainSeparated body) with
    | error e => exact ⟨h64 _,slotFits_none⟩
    | ok pqc => exact ⟨h64 _,slotFits_some (h.2 _ _ _ hs)⟩

theorem pushSealed_fits (h : w.Fits) {content : WalRecordContent} (hc : content.Fits) (seq : ℕ) :
    (WalWriter.pushSealed c { w with nextSeq := seq } content).Fits := by
  refine ⟨h.header,?_,h.sigClass⟩
  intro r hr
  rcases List.mem_append.mp hr with hr | hr
  · exact h.records r hr
  · rw [List.mem_singleton.mp hr]
    obtain ⟨h1,h2⟩ := signatures_fit (c := c) (w := { w with nextSeq := seq }) h.sigClass
      (bodyBytes content w.prevHash)
    exact ⟨hc,h1,h2⟩

theorem appendSubmit_fits (h : w.Fits) {s : Submission} (hs : s.Fits) (id : ScheduledActionId) :
    (w.appendSubmit c s.inst s.principal s.actor s.caps.bits s.atTick s.actionTypeCode
      s.actionBytes id).Fits := by
  have hc : WalRecordContent.Fits (.submit (satAdd64 w.nextSeq 1) s.inst s.principal s.actor
      s.caps.bits s.atTick s.actionTypeCode s.actionBytes id) :=
    ⟨satAdd64_le _ _,hs.principal,hs.atTick,hs.actionBytes⟩
  exact pushSealed_fits h hc _

theorem appendStep_fits (h : w.Fits) {now : Tick} {verdict : StepVerdict} (hn : now.val ≤ u64Max)
    (hv : verdict.Fits) (inst : InstanceId) (poppedId : ScheduledActionId) (caps : BitVec 64)
    (digest : Block) : (w.appendStep c inst poppedId now caps verdict digest).Fits := by
  have hc : WalRecordContent.Fits (.step (satAdd64 w.nextSeq 1) inst poppedId now caps verdict
      digest) := ⟨satAdd64_le _ _,hn,hv⟩
  exact pushSealed_fits h hc _

end Writer

theorem gateLoop_denied_le (i : Instance) (instId : InstanceId) (principal : Principal)
    (eff : CapabilityMask) (now : Tick) (scratch : StepStage) (ops : List Op) :
    (gateLoop i instId principal eff now scratch ops).denied ≤ u32Max := by
  induction ops using List.reverseRecOn with
  | nil => exact Nat.zero_le _
  | append_singleton ops op ih =>
    unfold gateLoop at ih ⊢
    rw [List.foldl_append]
    generalize ops.foldl (gateOp i instId principal eff now) _ = g at ih
    change (gateOp i instId principal eff now g op).denied ≤ u32Max
    rcases gateOp_cases i instId principal eff now g op with ⟨_,-,he⟩ | ⟨-,_,-,he⟩ | ⟨-,-,he⟩
    · rw [he]
      exact Nat.min_le_right _ _
    · rw [he]
      exact Nat.min_le_right _ _
    · rw [he]
      exact ih

theorem Execution.verdict_fits (x : Execution) : x.verdict.Fits := by
  unfold verdict
  split
  · trivial
  · split
    · trivial
    · split
      · exact gateLoop_denied_le _ _ _ _ _ _ _
      · trivial

namespace Kernel
variable {c : Crypto} {k : Kernel}

theorem micro_writer_fits {a : Micro} (ha : a.Fits) (hk : ∀ w ∈ k.wal, w.Fits) :
    ∀ w ∈ ((micro c).next k a).wal, w.Fits := by
  cases a with
  | request r =>
    cases r with
    | submit s =>
      change ∀ w ∈ (k.submit c s).2.wal, w.Fits
      rcases submit_cases c k s with ⟨e,he⟩ | ⟨i,-,-,he⟩
      · rw [he]
        exact hk
      · rw [he]
        intro w' hw'
        obtain ⟨w,hw,rfl⟩ := Option.map_eq_some_iff.mp hw'
        exact appendSubmit_fits (hk w hw) ha _
    | forceUnload route caps =>
      change ∀ w ∈ (k.forceUnload route caps).2.wal, w.Fits
      unfold forceUnload
      split <;> exact hk
    | _ => exact hk
  | pop inst now caps =>
    change ∀ w ∈ (k.pop c inst now caps).wal, w.Fits
    cases hx : k.execution inst now caps with
    | none =>
      rw [pop_none c hx]
      exact hk
    | some x =>
      obtain ⟨_,hp⟩ := pop_some c hx
      rw [hp]
      intro w' hw'
      obtain ⟨w,hw,rfl⟩ := Option.map_eq_some_iff.mp hw'
      exact appendStep_fits (hk w hw) ha x.verdict_fits _ _ _ _

theorem run_writer_fits (as : List Micro) (ha : ∀ a ∈ as, a.Fits) (hk : ∀ w ∈ k.wal, w.Fits) :
    ∀ w ∈ ((micro c).run k as).wal, w.Fits := by
  induction as generalizing k with
  | nil => exact hk
  | cons a as ih =>
    exact ih (fun b hb => ha b (List.mem_cons_of_mem _ hb))
      (micro_writer_fits (ha a List.mem_cons_self) hk)

theorem words_fit (k : Kernel) (calls : List Call) (h : ∀ call ∈ calls, call.Fits) :
    ∀ a ∈ (expansion c).words k calls, a.Fits := by
  induction calls generalizing k with
  | nil =>
    intro a ha
    cases ha
  | cons call calls ih =>
    intro a ha
    rcases List.mem_append.mp ha with ha | ha
    · have hcall := h call List.mem_cons_self
      cases call with
      | request r =>
        rw [List.mem_singleton.mp ha]
        exact hcall
      | step now caps =>
        obtain ⟨inst,-,rfl⟩ := List.mem_map.mp ha
        exact hcall
    · exact ih _ (fun b hb => h b (List.mem_cons_of_mem _ hb)) a ha

end Kernel

/-- Calls with machine-sized arguments write a log that survives its file: the
file is read back to the exported log, and torn anywhere it is not read. -/
theorem exported_log_survives (c : Crypto) (worldId manifest : Block) {sigClass : SignatureClass}
    (hs : sigClass.Fits) (calls : List Call) (hc : ∀ call ∈ calls, call.Fits) {w : Wal}
    (hw : ((Kernel.machine c).run (.newWithWalSigned c worldId manifest sigClass) calls).exportWal =
      some w) (hn : w.records.length ≤ u64Max) :
    (∀ more, Wal.deserialize (w.serialize ++ more) = some w) ∧
      ∀ bs, bs <+: w.serialize → bs ≠ w.serialize → Wal.deserialize bs = none := by
  have hstart : ∀ v ∈ (Kernel.newWithWalSigned c worldId manifest sigClass).wal, v.Fits := by
    rintro _ ⟨⟩
    exact withSignature_fits worldId manifest hs
  rw [(Kernel.expansion c).run_eq] at hw
  obtain ⟨v,hv,rfl⟩ := Option.map_eq_some_iff.mp hw
  have hfits := Kernel.run_writer_fits _ (Kernel.words_fit _ calls hc) hstart v hv
  have hfile : (Wal.fromWriter v).Fits := ⟨hfits.header,hn,hfits.records⟩
  exact ⟨Wal.deserialize_back hfile,fun bs hbs hne => Wal.deserialize_torn hfile hbs hne⟩

def savedCalls : List Call := [
  .request (.registerAction (.clamp 7) (.constant [])),
  .request (.createInstance { defaultCaps := .SYSTEM }),
  .request (.submit ⟨⟨.succ 0⟩,.external ⟨5⟩,none,.SYSTEM,⟨300⟩,.clamp 7,[1,2]⟩),
  .step ⟨300⟩ .SYSTEM]

theorem exported_log_survives_hybrid : ∃ w : Wal, w.records.map (fun r => r.signaturePqc.isSome) =
    [false,true] ∧ Wal.deserialize w.serialize = some w := by
  let signer := standInHybrid (blockOfNat 3) (fun n => n ≠ 0)
  have hs : signer.Fits := by
    refine ⟨standInPqcKey_length.trans_le (by decide),?_⟩
    intro call msg sig h
    simp only [standInSigner] at h
    split at h
    · cases h
      rw [standInPqcSign_length]
      decide
    · cases h
  have hc : ∀ call ∈ savedCalls, call.Fits := by
    simp only [savedCalls,List.forall_mem_cons,List.not_mem_nil,false_imp_iff,implies_true,and_true]
    exact ⟨trivial,⟨Nat.zero_le _,Nat.zero_le _,Nat.zero_le _,Nat.zero_le _⟩,
      ⟨show 5 ≤ u64Max by decide,show 300 ≤ u64Max by decide,show 2 ≤ u64Max by decide⟩,
      show 300 ≤ u64Max by decide⟩
  have hlog : (((Kernel.machine standInPqc).run (.newWithWalSigned standInPqc zeroBlock zeroBlock
      (standInHybrid (blockOfNat 3) (fun n => n ≠ 0))) savedCalls).exportWal.map
        (fun w => w.records.map (fun r => r.signaturePqc.isSome))) = some [false,true] := by
    decide +kernel
  obtain ⟨w,hw,hslots⟩ := Option.map_eq_some_iff.mp hlog
  have hlen : w.records.length = 2 := by
    have h := congrArg List.length hslots
    rwa [List.length_map] at h
  have h := (exported_log_survives standInPqc zeroBlock zeroBlock hs savedCalls hc hw
    (by rw [hlen]; decide)).1 []
  rw [List.append_nil] at h
  exact ⟨w,hslots,h⟩

end ArkheKernel
