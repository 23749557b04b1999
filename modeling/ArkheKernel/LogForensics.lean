import ArkheKernel.ReplayOutcome

/-!
# What a damaged or diverged log tells

Two verified logs of one world share a beginning and nothing else: a hash that
occurs in both stands at one position and pins everything before it. A record
changed in a verified log is reported where it stands, or by the record after.
-/

set_option autoImplicit false

namespace ArkheKernel
open PrefixCode

def WalError.atRecord : WalError → Option ℕ
  | .chainBroken i | .hashMismatch i | .missingSignature i | .signatureMismatch i
  | .missingPqcSignature i | .pqcSignatureMismatch i => some i
  | .invalidVerifyingKey | .pqcWithoutEd25519 | .tierDowngrade | .verifyingKeyMismatch
  | .manifestDigestMismatch | .chainTipMismatch => none

section Forensics
variable {c : Crypto}

theorem checkSignatures_at {verifier : VerifierClass} {i : ℕ} {body : Bytes} {rec : WalRecord}
    {e : WalError} (h : Wal.checkSignatures c verifier i body rec = .error e) :
    e.atRecord = some i := by
  unfold Wal.checkSignatures at h
  split at h
  · cases h
  · split at h
    · cases h
      rfl
    · split at h <;> cases h
      rfl
  · split at h
    · cases h
      rfl
    · cases h
      rfl
    · split at h <;> cases h
      rfl

theorem verifyFrom_append {verifier : VerifierClass} {key : Block} {i : ℕ} {prev : Block}
    {rs : List WalRecord} (h : Wal.verifyFrom c verifier key i prev rs = .ok ())
    (ss : List WalRecord) : Wal.verifyFrom c verifier key i prev (rs++ss) =
      Wal.verifyFrom c verifier key (i+rs.length)
        (HashChain.tip (chainLink c) key prev (rs.map WalRecord.content)) ss := by
  induction rs generalizing i prev with
  | nil => rfl
  | cons r rs ih =>
    obtain ⟨⟨hprev,hthis,hrest⟩,hsig⟩ := (verifyFrom_iff verifier key i prev _).mp h
    have hs := (checkSignatures_ok verifier i r.body r).mpr (hsig r List.mem_cons_self)
    unfold WalRecord.body at hs
    rw [hprev] at hs
    have hr : Wal.verifyFrom c verifier key (i+1) (chainLink c key prev r.content) rs = .ok () :=
      (verifyFrom_iff _ _ _ _ _).mpr ⟨hrest,fun q hq => hsig q (List.mem_cons_of_mem _ hq)⟩
    rw [List.cons_append,Wal.verifyFrom,if_neg (not_not.mpr hprev)]
    dsimp only
    rw [if_neg (not_not.mpr hthis.symm),hs]
    dsimp only
    rw [ih hr,List.length_cons,Nat.add_right_comm,Nat.add_assoc]
    rfl

theorem linked_hash {key prev : Block} {rs ss : List WalRecord} {r : WalRecord}
    (h : Linked c key prev (rs++r::ss)) : r.thisChainHash =
      HashChain.tip (chainLink c) key prev ((rs++[r]).map WalRecord.content) := by
  rw [linked_append] at h
  obtain ⟨-,-,hthis,-⟩ := h
  rw [List.map_append,HashChain.tip_append]
  exact hthis

end Forensics

theorem mem_hashed (c : Crypto) (w : Wal) (worldId : Block) {pre post : List WalRecord}
    {rec : WalRecord} (h : w.records = pre ++ rec::post) :
    hashInput (buildChainKey c worldId,HashChain.tip (chainLink c) (buildChainKey c worldId) zeroBlock
      (pre.map WalRecord.content),rec.content) ∈ w.hashed c worldId := by
  apply List.mem_map_of_mem
  rw [HashChain.mem_inputs_iff,Wal.contents,h,List.map_append,List.map_cons]
  exact ⟨rfl,_,_,rfl,rfl⟩

/-- Changing one record of a verified log, other than in its signatures, is
reported at that record or as a broken chain at the next. Only the last record
can be replaced unnoticed, by one that is sealed anew. -/
theorem tampering_located (c : Crypto) (w : Wal) (worldId : Block) (pre post : List WalRecord)
    (rec rec' : WalRecord) (hw : w.verifyChain c worldId = .ok ())
    (hsplit : w.records = pre ++ rec::post) (hne : rec'.link ≠ rec.link)
    (hcf : Set.InjOn (fun x : Block × Bytes => c.keyedHash x.1 x.2)
      {x | x ∈ w.hashed c worldId ∨ x ∈ Wal.hashed c ⟨w.header,pre ++ rec'::post⟩ worldId}) :
    (∃ e, Wal.verifyChain c ⟨w.header,pre ++ rec'::post⟩ worldId = .error e ∧
      (e.atRecord = some pre.length ∨ e = .chainBroken (pre.length+1))) ∨
    (post = [] ∧ Wal.verifyChain c ⟨w.header,pre ++ rec'::post⟩ worldId = .ok () ∧
      rec'.content ≠ rec.content) := by
  obtain ⟨v,hv,hl,hs⟩ := (verifyChain_iff w worldId).mp hw
  rw [hsplit] at hl hs
  obtain ⟨hlpre,hprev,hthis,hpost⟩ := (linked_append _ _ _).mp hl
  have hpre : Wal.verifyFrom c v (buildChainKey c worldId) 0 zeroBlock pre = .ok () :=
    (verifyFrom_iff _ _ _ _ _).mpr ⟨hlpre,fun r hr => hs r (List.mem_append_left _ hr)⟩
  have hverify : Wal.verifyChain c ⟨w.header,pre ++ rec'::post⟩ worldId =
      Wal.verifyFrom c v (buildChainKey c worldId) pre.length
        (HashChain.tip (chainLink c) (buildChainKey c worldId) zeroBlock
          (pre.map WalRecord.content)) (rec'::post) := by
    unfold Wal.verifyChain
    rw [hv]
    dsimp only
    rw [verifyFrom_append hpre,Nat.zero_add]
  have hin := mem_hashed c w worldId hsplit
  have hin' := mem_hashed c ⟨w.header,pre ++ rec'::post⟩ worldId rfl
  rw [hverify,Wal.verifyFrom]
  generalize HashChain.tip (chainLink c) (buildChainKey c worldId) zeroBlock
    (pre.map WalRecord.content) = tip at hprev hthis hpost hin hin' ⊢
  split_ifs with hp
  · exact .inl ⟨_,rfl,.inl rfl⟩
  · dsimp only
    split_ifs with ht
    · exact .inl ⟨_,rfl,.inl rfl⟩
    · rw [not_not] at hp ht
      have hcontent : rec'.content ≠ rec.content := by
        intro he
        apply hne
        unfold WalRecord.link
        rw [he,hp,hprev,← ht,he,hthis]
      cases hsig : Wal.checkSignatures c v pre.length (bodyBytes rec'.content tip) rec' with
      | error e => exact .inl ⟨e,rfl,.inl (checkSignatures_at hsig)⟩
      | ok _ =>
        cases post with
        | nil => exact .inr ⟨rfl,rfl,hcontent⟩
        | cons r post =>
          have hbroken : r.prevChainHash ≠ chainLink c (buildChainKey c worldId) tip rec'.content := by
            intro he
            rw [hpost.1] at he
            have hx := links_injOn hcf (Or.inl hin) (Or.inr hin') he
            exact hcontent (Prod.mk.inj (Prod.mk.inj hx).2).2.symm
          dsimp only
          rw [Wal.verifyFrom,if_pos hbroken]
          exact .inl ⟨_,rfl,.inr rfl⟩

def steppedLog (n : ℕ) : Wal := .fromWriter (stepLog zeroBlock zeroBlock (blockOfNat 3) n)

def deniedRecord : WalRecord :=
  ⟨.step 1 ⟨.succ 0⟩ ⟨.succ 0⟩ ⟨0⟩ 0 .authDenied zeroBlock,zeroBlock,zeroBlock,none,none⟩

def Wal.first (w : Wal) : WalRecord := w.records.headD deniedRecord

def Wal.nth (w : Wal) (n : ℕ) : WalRecord := w.records.getD n deniedRecord

theorem tampering_located_denied : ∃ e,
    Wal.verifyChain standIn ⟨(steppedLog 2).header,deniedRecord::(steppedLog 2).records.tail⟩
      zeroBlock = .error e ∧ (e.atRecord = some 0 ∨ e = .chainBroken 1) := by
  let w := steppedLog 2
  let w' : Wal := ⟨w.header,deniedRecord::w.records.tail⟩
  have hinj : ∀ x ∈ w.hashed standIn zeroBlock ++ w'.hashed standIn zeroBlock,
      ∀ y ∈ w.hashed standIn zeroBlock ++ w'.hashed standIn zeroBlock,
        standIn.keyedHash x.1 x.2 = standIn.keyedHash y.1 y.2 → x = y := by decide +kernel
  rcases tampering_located standIn w zeroBlock [] w.records.tail w.first deniedRecord
    (by decide +kernel) (by decide +kernel) (by decide +kernel)
    (fun x hx y hy he => hinj x (List.mem_append.mpr hx) y (List.mem_append.mpr hy) he) with
    h | ⟨hn,-⟩
  · exact h
  · exact absurd hn (by decide +kernel)

/-- A chain hash found in two verified logs of one world stands at one position,
and the logs agree up to there. -/
theorem shared_hash_pins_history (c : Crypto) (w w' : Wal) (worldId : Block)
    (pre post pre' post' : List WalRecord) (rec rec' : WalRecord)
    (hcf : KeyedCollisionFree c {x | x ∈ w.hashed c worldId ∨ x ∈ w'.hashed c worldId})
    (hw : w.verifyChain c worldId = .ok ()) (hw' : w'.verifyChain c worldId = .ok ())
    (hsplit : w.records = pre ++ rec::post) (hsplit' : w'.records = pre' ++ rec'::post')
    (hhash : rec.thisChainHash = rec'.thisChainHash) :
    pre.length = pre'.length ∧
      (pre++[rec]).map WalRecord.link = (pre'++[rec']).map WalRecord.link := by
  have hl := verifyChain_linked hw
  have hl' := verifyChain_linked hw'
  rw [hsplit] at hl
  rw [hsplit'] at hl'
  rw [linked_hash hl,linked_hash hl'] at hhash
  have hsub (u : Wal) (qs rs : List WalRecord) (r : WalRecord) (hu : u.records = qs ++ r::rs) :
      ∀ x ∈ HashChain.inputs (chainLink c) (buildChainKey c worldId) zeroBlock
        ((qs++[r]).map WalRecord.content), hashInput x ∈ u.hashed c worldId := by
    intro x hx
    apply List.mem_map_of_mem
    rw [Wal.contents,hu,← List.singleton_append,← List.append_assoc,List.map_append,
      HashChain.inputs_append]
    exact List.mem_append_left _ hx
  have hc := HashChain.tip_determines hcf.links (buildChainKey c worldId) _ _
    (fun x hx => Or.inl (hsub w pre post rec hsplit x hx))
    (fun x hx => Or.inr (hsub w' pre' post' rec' hsplit' x hx)) hhash
  rw [← List.singleton_append,← List.append_assoc,linked_append] at hl hl'
  have hlen := congrArg List.length hc
  simp only [List.length_map,List.length_append,List.length_singleton] at hlen
  exact ⟨by omega,linked_ext hl.1 hl'.1 hc⟩

theorem shared_hash_pins_history_stepped :
    ((steppedLog 3).records.take 1 ++ [(steppedLog 3).nth 1]).map WalRecord.link =
      ((steppedLog 2).records.take 1 ++ [(steppedLog 2).nth 1]).map WalRecord.link := by
  have hcf : KeyedCollisionFree standIn {x | x ∈ (steppedLog 3).hashed standIn zeroBlock ∨
      x ∈ (steppedLog 2).hashed standIn zeroBlock} := by
    apply keyedCollisionFree_of_list
      ((steppedLog 3).hashed standIn zeroBlock ++ (steppedLog 2).hashed standIn zeroBlock)
    · decide +kernel
    · decide +kernel
    · exact fun x hx => List.mem_append.mpr hx
  exact (shared_hash_pins_history standIn (steppedLog 3) (steppedLog 2) zeroBlock
    ((steppedLog 3).records.take 1) ((steppedLog 3).records.drop 2)
    ((steppedLog 2).records.take 1) [] ((steppedLog 3).nth 1) ((steppedLog 2).nth 1) hcf
    (by decide +kernel) (by decide +kernel) (by decide +kernel) (by decide +kernel)
    (by decide +kernel)).2

end ArkheKernel
