import ArkheKernel.PinnedKeys
import ArkheKernel.Transducer

/-!
# Appending under the hybrid class

A failure of the post-quantum provider does not reach the caller: the record is
sealed with the Ed25519 signature alone, under a header whose verifier demands
both. The log is undegraded, and verifies, as long as the provider answers.
-/

set_option autoImplicit false

namespace ArkheKernel
open PrefixCode

inductive WalAppend where
  | submit (inst : InstanceId) (principal : Principal) (actor : Option EntityId)
      (capsAtSubmit : BitVec 64) (atTick : Tick) (actionTypeCode : TypeCode) (actionBytes : Bytes)
      (allocatedId : ScheduledActionId)
  | step (inst : InstanceId) (poppedId : ScheduledActionId) (now : Tick) (sessionCaps : BitVec 64)
      (verdict : StepVerdict) (postStateDigest : Block)

def WalAppend.content (seq : ℕ) : WalAppend → WalRecordContent
  | .submit inst principal actor caps atTick typeCode actionBytes id =>
    .submit seq inst principal actor caps atTick typeCode actionBytes id
  | .step inst poppedId now caps verdict digest => .step seq inst poppedId now caps verdict digest

namespace WalWriter

def append (c : Crypto) (w : WalWriter) : WalAppend → WalWriter
  | .submit inst principal actor caps atTick typeCode actionBytes id =>
    w.appendSubmit c inst principal actor caps atTick typeCode actionBytes id
  | .step inst poppedId now caps verdict digest =>
    w.appendStep c inst poppedId now caps verdict digest

def appending (c : Crypto) : Transducer WalWriter WalAppend Unit where
  next := append c
  out _ _ := []

def nextBody (w : WalWriter) (a : WalAppend) : Bytes :=
  bodyBytes (a.content (satAdd64 w.nextSeq 1)) w.prevHash

/-- The provider returns a signature for the append. -/
def Answered (signer : PqcSigner) (w : WalWriter) (a : WalAppend) : Prop :=
  (signer.sign w.records.length (domainSeparated (w.nextBody a))).isOk = true

/-- The append leaves the writer as it was, or seals a record that carries both
signatures. -/
def Undegraded (c : Crypto) (w : WalWriter) (a : WalAppend) : Prop :=
  w.append c a = w ∨ ∃ r, (w.append c a).records = w.records ++ [r] ∧
    r.signature.isSome = true ∧ r.signaturePqc.isSome = true

end WalWriter

structure Provides (c : Crypto) (sk vk : Block) (signer : PqcSigner) : Prop where
  parses : c.ed25519KeyParses vk = true
  ed25519 : ∀ msg, c.ed25519VerifyStrict vk msg (c.ed25519Sign sk msg) = true
  keyLength : signer.verifyingKeyBytes.length = 1952
  pqc : ∀ call msg sig, signer.sign call msg = .ok sig →
    sig.length = 3309 ∧ c.mldsaVerify signer.verifyingKeyBytes msg sig = true

section Hybrid
variable {c : Crypto} {worldId manifest sk vk : Block} {signer : PqcSigner} {w : WalWriter}

theorem append_eq (w : WalWriter) (a : WalAppend) : w.append c a =
    WalWriter.pushSealed c { w with nextSeq := satAdd64 w.nextSeq 1 }
      (a.content (satAdd64 w.nextSeq 1)) := by
  cases a <;> rfl

theorem Sealing.append {sigClass : SignatureClass} (h : Sealing c worldId manifest sigClass w)
    (a : WalAppend) : Sealing c worldId manifest sigClass (w.append c a) := by
  cases a with
  | submit inst principal actor caps atTick typeCode actionBytes id =>
    exact .submit w inst principal actor caps atTick typeCode actionBytes id h
  | step inst poppedId now caps verdict digest => exact .step w inst poppedId now caps verdict digest h

theorem append_slots (hw : w.sigClass = .hybrid sk vk signer) (a : WalAppend) :
    ∃ r, (w.append c a).records = w.records ++ [r] ∧ r.prevChainHash = w.prevHash ∧
      r.content = a.content (satAdd64 w.nextSeq 1) ∧
      r.signature = some (c.ed25519Sign sk (domainSeparated (w.nextBody a))).toList ∧
      r.signaturePqc = (signer.sign w.records.length (domainSeparated (w.nextBody a))).toOption := by
  have hsig : WalWriter.signatures c { w with nextSeq := satAdd64 w.nextSeq 1 } (w.nextBody a) =
      (some (c.ed25519Sign sk (domainSeparated (w.nextBody a))).toList,
        (signer.sign w.records.length (domainSeparated (w.nextBody a))).toOption) := by
    simp only [WalWriter.signatures,hw,SignatureClass.signHybrid]
    cases signer.sign w.records.length (domainSeparated (w.nextBody a)) <;> rfl
  rw [append_eq]
  exact ⟨_,rfl,rfl,rfl,congrArg Prod.fst hsig,congrArg Prod.snd hsig⟩

theorem undegraded_iff (hw : w.sigClass = .hybrid sk vk signer) (a : WalAppend) :
    w.Undegraded c a ↔ w.Answered signer a := by
  obtain ⟨r,hr,-,-,hsig,hpqc⟩ := append_slots (c := c) hw a
  unfold WalWriter.Undegraded WalWriter.Answered
  rw [hr]
  constructor
  · rintro (he | ⟨q,hq,-,hs⟩)
    · rw [he] at hr
      simp at hr
    · obtain rfl : r = q := by simpa using hq
      rw [hpqc] at hs
      cases hx : signer.sign w.records.length (domainSeparated (w.nextBody a)) with
      | error e =>
        rw [hx] at hs
        cases hs
      | ok sig => rfl
  · intro h
    refine .inr ⟨r,rfl,by rw [hsig]; rfl,?_⟩
    rw [hpqc]
    cases hx : signer.sign w.records.length (domainSeparated (w.nextBody a)) with
    | error e =>
      rw [hx] at h
      cases h
    | ok sig => rfl

theorem append_signatureOk (hp : Provides c sk vk signer) (hw : w.sigClass = .hybrid sk vk signer)
    (a : WalAppend) : (∀ r ∈ (w.append c a).records,
        SignatureOk c (.hybrid vk signer.verifyingKeyBytes) r) ↔
      (∀ r ∈ w.records, SignatureOk c (.hybrid vk signer.verifyingKeyBytes) r) ∧
        w.Answered signer a := by
  obtain ⟨r,hr,hprev,hcontent,hsig,hpqc⟩ := append_slots (c := c) hw a
  have hbody : r.body = w.nextBody a := by
    rw [WalRecord.body,hprev,hcontent]
    rfl
  have hiff : SignatureOk c (.hybrid vk signer.verifyingKeyBytes) r ↔ w.Answered signer a := by
    unfold SignatureOk WalWriter.Answered
    simp only [Wal.checkSignatures,hsig,hpqc,hbody]
    cases hx : signer.sign w.records.length (domainSeparated (w.nextBody a)) with
    | error e => simp [Except.toOption,Except.isOk,Except.toBool]
    | ok sig =>
      obtain ⟨hl,hv⟩ := hp.pqc _ _ _ hx
      simp [Except.toOption,Except.isOk,Except.toBool,VerifierClass.verifyHybrid,
        VerifierClass.verifyEd25519_sign hp.ed25519,VerifierClass.verifyMldsa,hl,hv]
  rw [hr]
  constructor
  · intro h
    exact ⟨fun q hq => h q (List.mem_append_left _ hq),hiff.mp (h r (by simp))⟩
  · rintro ⟨h,ha⟩ q hq
    rcases List.mem_append.mp hq with hq | hq
    · exact h q hq
    · rw [List.mem_singleton.mp hq]
      exact hiff.mpr ha

/-- A sealed log verifies when all of its records carry what the keys call for. -/
theorem sealing_verifies_iff (hp : Provides c sk vk signer)
    (h : Sealing c worldId manifest (.hybrid sk vk signer) w) :
    (Wal.fromWriter w).verifyChain c worldId = .ok () ↔
      ∀ r ∈ w.records, SignatureOk c (.hybrid vk signer.verifyingKeyBytes) r := by
  have hc := sealing_chained h
  have hl := hc.linked
  rw [hc.chainKey] at hl
  have hv : VerifierClass.fromHeaderBytes c w.header.verifyingKey w.header.verifyingKeyPqc =
      .ok (.hybrid vk signer.verifyingKeyBytes) := by
    rw [hc.header]
    change (if c.ed25519KeyParses vk then (if _ then _ else _) else _) = _
    rw [if_pos hp.parses,if_neg (not_not.mpr hp.keyLength)]
  rw [verifyChain_iff]
  constructor
  · intro ⟨verifier,hv',_,hs⟩
    obtain rfl := Except.ok.inj (hv'.symm.trans hv)
    exact hs
  · intro hs
    exact ⟨_,hv,hl,hs⟩

variable (c sk vk signer w) in
/-- The invariant of a log that verifies: the writer still signs with the same
class, and its records carry what the keys call for. -/
def FullySigned : Prop := w.sigClass = .hybrid sk vk signer ∧
  ∀ r ∈ w.records, SignatureOk c (.hybrid vk signer.verifyingKeyBytes) r

theorem fullySigned_append (hp : Provides c sk vk signer) (h : FullySigned c sk vk signer w)
    (a : WalAppend) : FullySigned c sk vk signer (w.append c a) ↔ w.Answered signer a := by
  obtain ⟨hw,hs⟩ := h
  have hclass : (w.append c a).sigClass = .hybrid sk vk signer := by
    rw [append_eq]
    exact hw
  constructor
  · rintro ⟨-,h⟩
    exact ((append_signatureOk hp hw a).mp h).2
  · intro h
    exact ⟨hclass,(append_signatureOk hp hw a).mpr ⟨hs,h⟩⟩

end Hybrid

/-- Along every sequence of appends under the hybrid class, no append degrades
the log, and the log built so far verifies all along, exactly when the provider
returns a signature for every append. -/
theorem hybrid_undegraded_iff (c : Crypto) (worldId manifest sk vk : Block) (signer : PqcSigner)
    (hp : Provides c sk vk signer) (as : List WalAppend) :
    let M := WalWriter.appending c
    let w := WalWriter.withSignature c worldId manifest (.hybrid sk vk signer)
    ((∀ pre a post, as = pre ++ a::post → (M.run w pre).Undegraded c a) ↔
      M.Admits (WalWriter.Answered signer) w as) ∧
    ((∀ pre, pre <+: as → (Wal.fromWriter (M.run w pre)).verifyChain c worldId = .ok ()) ↔
      M.Admits (WalWriter.Answered signer) w as) := by
  intro M w
  have hsealing : ∀ pre, Sealing c worldId manifest (.hybrid sk vk signer) (M.run w pre) :=
    fun pre => M.run_invariant _ (fun _ a h => h.append a) w pre .start
  have hclass : ∀ pre, (M.run w pre).sigClass = .hybrid sk vk signer :=
    fun pre => (sealing_chained (hsealing pre)).sigClass
  constructor
  · rw [M.admits_iff]
    constructor
    · intro h pre a post he
      exact (undegraded_iff (hclass pre) a).mp (h pre a post he)
    · intro h pre a post he
      exact (undegraded_iff (hclass pre) a).mpr (h pre a post he)
  · rw [M.admits_iff_invariant (FullySigned c sk vk signer) _
      (fun _ a hv => fullySigned_append hp hv a) w as
        ⟨rfl,fun r hr => absurd hr List.not_mem_nil⟩]
    constructor
    · intro h pre hpre
      exact ⟨hclass pre,(sealing_verifies_iff hp (hsealing pre)).mp (h pre hpre)⟩
    · intro h pre hpre
      exact (sealing_verifies_iff hp (hsealing pre)).mpr (h pre hpre).2

theorem standInSigner_provides (secret : Block) (up : ℕ → Bool) :
    Provides standInPqc secret secret (standInSigner up) where
  parses := rfl
  ed25519 msg := by simp [standInPqc,standIn]
  keyLength := standInPqcKey_length
  pqc call msg sig h := by
    simp only [standInSigner] at h
    split at h
    · obtain rfl := Except.ok.inj h
      exact ⟨standInPqcSign_length msg,by simp [standInPqc,standInSigner]⟩
    · cases h

def twoAppends : List WalAppend := [
  .submit ⟨.succ 0⟩ .system none 0 ⟨0⟩ (.clamp 7) [] ⟨.succ 0⟩,
  .step ⟨.succ 0⟩ ⟨.succ 0⟩ ⟨0⟩ 0 .committed zeroBlock]

theorem hybrid_undegraded_iff_available : (Wal.fromWriter ((WalWriter.appending standInPqc).run
    (.withSignature standInPqc zeroBlock zeroBlock (standInHybrid (blockOfNat 3) (fun _ => true)))
      twoAppends)).verifyChain standInPqc zeroBlock = .ok () :=
  (hybrid_undegraded_iff standInPqc zeroBlock zeroBlock (blockOfNat 3) (blockOfNat 3)
    (standInSigner (fun _ => true)) (standInSigner_provides _ _) twoAppends).2.mpr
      ⟨rfl,rfl,trivial⟩ twoAppends (List.prefix_refl _)

/-- A provider that is down for the first append alone. The second record carries
both signatures, and the log never verifies again. -/
theorem hybrid_degrades :
    ¬ ∀ (worldId manifest sk vk : Block) (signer : PqcSigner), Provides standInPqc sk vk signer →
      ∀ as : List WalAppend,
        let M := WalWriter.appending standInPqc
        let w := WalWriter.withSignature standInPqc worldId manifest (.hybrid sk vk signer)
        (∀ pre a post, as = pre ++ a::post → (M.run w pre).Undegraded standInPqc a) ∧
          ∀ pre, pre <+: as →
            (Wal.fromWriter (M.run w pre)).verifyChain standInPqc worldId = .ok () := by
  intro h
  have hv := (h zeroBlock zeroBlock (blockOfNat 3) (blockOfNat 3) (standInSigner (fun n => n ≠ 0))
    (standInSigner_provides _ _) twoAppends).2 twoAppends (List.prefix_refl _)
  have hfails : (Wal.fromWriter ((WalWriter.appending standInPqc).run
      (.withSignature standInPqc zeroBlock zeroBlock
        (standInHybrid (blockOfNat 3) (fun n => n ≠ 0))) twoAppends)).verifyChain standInPqc
          zeroBlock = .error (.missingPqcSignature 0) := by
    decide +kernel
  cases hfails.symm.trans hv

end ArkheKernel
