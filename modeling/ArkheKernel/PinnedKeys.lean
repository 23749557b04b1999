import ArkheKernel.WalChain

/-!
# Pinned keys

Which signatures a verification demands is read off the header that it
verifies. An anchor that pins a key or a tier takes that choice from the header:
every record then carries the signatures that the pinned keys call for.
-/

set_option autoImplicit false

namespace ArkheKernel
open PrefixCode

namespace WalRecord

def Chained (c : Crypto) (key prev : Block) (r : WalRecord) : Prop :=
  r.prevChainHash = prev ∧ r.thisChainHash = chainLink c key prev r.content

/-- An Ed25519 signature under `K` over the signature domain followed by the
canonical body after `prev`. -/
def SignedBy (c : Crypto) (K prev : Block) (r : WalRecord) : Prop :=
  ∃ sig : List.Vector UInt8 64, r.signature = some sig.toList ∧
    c.ed25519VerifyStrict K (WAL_SIG_DOMAIN ++ bodyBytes r.content prev) sig = true

def SignedPqcBy (c : Crypto) (Q : Bytes) (prev : Block) (r : WalRecord) : Prop :=
  ∃ sig : Bytes, r.signaturePqc = some sig ∧ sig.length = 3309 ∧
    c.mldsaVerify Q (WAL_SIG_DOMAIN ++ bodyBytes r.content prev) sig = true

end WalRecord

def SignatureTier.Checked (c : Crypto) (hd : WalHeader) (key prev : Block) (r : WalRecord) :
    SignatureTier → Prop
  | .none => r.Chained c key prev
  | .ed25519 => r.Chained c key prev ∧ ∃ K, hd.verifyingKey = some K ∧ r.SignedBy c K prev
  | .hybrid => r.Chained c key prev ∧ (∃ K, hd.verifyingKey = some K ∧ r.SignedBy c K prev) ∧
      ∃ Q, hd.verifyingKeyPqc = some Q ∧ r.SignedPqcBy c Q prev

section Checks
variable {c : Crypto}

theorem SignatureTier.Checked.mono {hd : WalHeader} {key prev : Block} {r : WalRecord}
    {tier floor : SignatureTier} (h : tier.Checked c hd key prev r) (hf : floor.rank ≤ tier.rank) :
    floor.Checked c hd key prev r := by
  cases tier with
  | none =>
    cases floor with
    | none => exact h
    | _ => simp [SignatureTier.rank] at hf
  | ed25519 =>
    cases floor with
    | none => exact h.1
    | ed25519 => exact h
    | hybrid => simp [SignatureTier.rank] at hf
  | hybrid =>
    cases floor with
    | none => exact h.1
    | ed25519 => exact ⟨h.1,h.2.1⟩
    | hybrid => exact h

theorem VerifierClass.verifyEd25519_ok {K : Block} {body sig : Bytes} :
    verifyEd25519 c K body sig = .ok () ↔ ∃ s : List.Vector UInt8 64, sig = s.toList ∧
      c.ed25519VerifyStrict K (domainSeparated body) s = true := by
  unfold verifyEd25519
  constructor
  · intro h
    by_cases hl : sig.length = 64
    · rw [dif_pos hl] at h
      refine ⟨⟨sig,hl⟩,rfl,?_⟩
      by_contra hv
      rw [if_neg hv] at h
      cases h
    · rw [dif_neg hl] at h
      cases h
  · rintro ⟨s,rfl,hv⟩
    rw [dif_pos s.toList_length]
    exact if_pos hv

theorem VerifierClass.verifyMldsa_ok {Q msg sig : Bytes} : verifyMldsa c Q msg sig = .ok () ↔
    sig.length = 3309 ∧ c.mldsaVerify Q msg sig = true := by
  unfold verifyMldsa
  by_cases hl : sig.length = 3309
  · by_cases hv : c.mldsaVerify Q msg sig = true
    · simp [hl,hv]
    · simp [hl,hv]
  · simp [hl]

theorem signedBy_of_signed {K prev : Block} {r : WalRecord} {sig : Bytes}
    (hp : r.prevChainHash = prev) (hs : r.signature = some sig)
    (hv : VerifierClass.verifyEd25519 c K r.body sig = .ok ()) : r.SignedBy c K prev := by
  obtain ⟨s,rfl,ht⟩ := VerifierClass.verifyEd25519_ok.mp hv
  rw [WalRecord.body,hp] at ht
  exact ⟨s,hs,ht⟩

theorem SignatureOk.signedPqc {K prev : Block} {Q : Bytes} {r : WalRecord}
    (h : SignatureOk c (.hybrid K Q) r) (hp : r.prevChainHash = prev) : r.SignedPqcBy c Q prev := by
  unfold SignatureOk Wal.checkSignatures at h
  dsimp only at h
  split at h
  · cases h
  · cases h
  · next sig sigPqc _ hs =>
    split at h
    · next ho =>
      obtain ⟨hl,hv⟩ := VerifierClass.verifyMldsa_ok.mp (VerifierClass.verifyHybrid_ok ho).2
      rw [WalRecord.body,hp] at hv
      exact ⟨sigPqc,hs,hl,hv⟩
    · cases h

theorem fromHeaderBytes_cases {vk : Option Block} {vkPqc : Option Bytes} {verifier : VerifierClass}
    (h : VerifierClass.fromHeaderBytes c vk vkPqc = .ok verifier) :
    (vk = none ∧ vkPqc = none ∧ verifier = .none) ∨
    (∃ K, vk = some K ∧ vkPqc = none ∧ verifier = .ed25519 K) ∨
    ∃ K Q, vk = some K ∧ vkPqc = some Q ∧ verifier = .hybrid K Q := by
  unfold VerifierClass.fromHeaderBytes at h
  split at h
  · exact .inl ⟨rfl,rfl,(Except.ok.inj h).symm⟩
  · next K =>
    split at h
    · exact .inr (.inl ⟨K,rfl,rfl,(Except.ok.inj h).symm⟩)
    · cases h
  · next K Q =>
    split at h
    · split at h
      · cases h
      · exact .inr (.inr ⟨K,Q,rfl,rfl,(Except.ok.inj h).symm⟩)
    · cases h
  · cases h

/-- Verification makes the checks of the tier that the header advertises. -/
theorem SignatureOk.checked {w : Wal} {verifier : VerifierClass} {tier : SignatureTier}
    {key prev : Block} {r : WalRecord}
    (hv : VerifierClass.fromHeaderBytes c w.header.verifyingKey w.header.verifyingKeyPqc =
      .ok verifier) (ht : w.headerTier = .ok tier) (h : SignatureOk c verifier r)
    (hr : r.Chained c key prev) : tier.Checked c w.header key prev r := by
  rcases fromHeaderBytes_cases hv with ⟨hk,hq,rfl⟩ | ⟨K,hk,hq,rfl⟩ | ⟨K,Q,hk,hq,rfl⟩
  · simp only [Wal.headerTier,hk,hq,Option.isSome_none] at ht
    obtain rfl := Except.ok.inj ht
    exact hr
  · simp only [Wal.headerTier,hk,hq,Option.isSome_some,Option.isSome_none] at ht
    obtain rfl := Except.ok.inj ht
    obtain ⟨sig,hs,hsig⟩ := h.signed rfl
    exact ⟨hr,K,hk,signedBy_of_signed hr.1 hs hsig⟩
  · simp only [Wal.headerTier,hk,hq,Option.isSome_some] at ht
    obtain rfl := Except.ok.inj ht
    obtain ⟨sig,hs,hsig⟩ := h.signed rfl
    exact ⟨hr,⟨K,hk,signedBy_of_signed hr.1 hs hsig⟩,Q,hq,h.signedPqc hr.1⟩

end Checks

theorem headerTier_pqc {w : Wal} {tier : SignatureTier} {Q : Bytes}
    (ht : w.headerTier = .ok tier) (hq : w.header.verifyingKeyPqc = some Q) : tier = .hybrid := by
  unfold Wal.headerTier at ht
  rw [hq] at ht
  cases hk : w.header.verifyingKey with
  | none =>
    rw [hk] at ht
    cases ht
  | some K =>
    rw [hk] at ht
    exact (Except.ok.inj ht).symm

/-- In a log that verifies against an anchor, whatever its header and its slots
hold, every record carries a signature under the pinned Ed25519 key, both
signatures where an ML-DSA key is pinned, and has passed the checks of the
pinned tier. -/
theorem pinned_keys_enforced (c : Crypto) (w : Wal) (worldId : Block) (anchor : TrustAnchor)
    (h : w.verifyChainAnchored c worldId anchor = .ok ()) (pre post : List WalRecord)
    (r : WalRecord) (hr : w.records = pre ++ r :: post) :
    let key := buildChainKey c worldId
    let prev := HashChain.tip (chainLink c) key zeroBlock (pre.map WalRecord.content)
    (∀ K, anchor.ed25519VerifyingKey = some K → r.SignedBy c K prev) ∧
    (∀ Q, anchor.mldsaVerifyingKey = some Q → r.SignedPqcBy c Q prev ∧
      ∃ K, w.header.verifyingKey = some K ∧ r.SignedBy c K prev) ∧
    ∀ t, anchor.minTier = some t → t.Checked c w.header key prev r := by
  intro key prev
  have ha := (verifyChainAnchored_iff w worldId anchor).mp h
  obtain ⟨tier,htier,hfloor⟩ := ha.tier
  obtain ⟨verifier,hv,hl,hs⟩ := (verifyChain_iff w worldId).mp ha.chain
  have hmem : r ∈ w.records := by rw [hr]; simp
  rw [hr] at hl
  have hchained : r.Chained c key prev := by
    have hrest := ((linked_append zeroBlock pre (r::post)).mp hl).2
    exact ⟨hrest.1,hrest.2.1⟩
  have hchecked : tier.Checked c w.header key prev r :=
    (hs r hmem).checked hv htier hchained
  refine ⟨?_,?_,?_⟩
  · intro K hK
    obtain ⟨sig,hsig,hver⟩ := verifyChain_signed ha.chain (pinned_some ha.ed25519Key hK) r hmem
    exact signedBy_of_signed hchained.1 hsig hver
  · intro Q hQ
    have hq := pinned_some ha.mldsaKey hQ
    obtain rfl := headerTier_pqc htier hq
    obtain ⟨-,hed,Q',hq',hpqc⟩ := hchecked
    obtain rfl := Option.some.inj (hq.symm.trans hq')
    exact ⟨hpqc,hed⟩
  · intro t ht
    apply hchecked.mono
    rw [ht] at hfloor
    simpa using hfloor

def hybridLog : WalWriter :=
  (WalWriter.withSignature standInPqc zeroBlock zeroBlock
    (standInHybrid (blockOfNat 3) (fun _ => true))).appendStep standInPqc ⟨.succ 0⟩ ⟨.succ 0⟩ ⟨0⟩ 0
      .committed zeroBlock

theorem hybridLog_sealing : Sealing standInPqc zeroBlock zeroBlock
    (standInHybrid (blockOfNat 3) (fun _ => true)) hybridLog :=
  .step _ _ _ _ _ _ _ .start

theorem pinned_keys_enforced_hybrid : ∃ r ∈ hybridLog.records,
    r.SignedBy standInPqc (blockOfNat 3) zeroBlock ∧
      r.SignedPqcBy standInPqc standInPqcKey zeroBlock := by
  have hok : (Wal.fromWriter hybridLog).verifyChainAnchored standInPqc zeroBlock
      { minTier := some .hybrid, ed25519VerifyingKey := some (blockOfNat 3),
        mldsaVerifyingKey := some standInPqcKey } = .ok () := by
    rw [verifyChainAnchored_iff]
    exact ⟨⟨.hybrid,rfl,rfl⟩,by decide +kernel,by decide +kernel,rfl,
      sealing_verifies hybridLog_sealing (standIn_hybrid_faithful _),rfl⟩
  have hrec : ∃ r, hybridLog.records = [] ++ [r] := ⟨_,rfl⟩
  obtain ⟨r,hr⟩ := hrec
  obtain ⟨hed,hpqc,-⟩ := pinned_keys_enforced standInPqc _ zeroBlock _ hok [] [] r hr
  exact ⟨r,by rw [hr]; simp,hed _ rfl,(hpqc _ rfl).1⟩

end ArkheKernel
