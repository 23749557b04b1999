import ArkheKernel.WalChain

/-!
# What the tip, the signatures and the header bind

The tip of a verified log binds its contents. Signatures bind a record to the
previous hash, which binds the world from the second record on. The manifest
digest is only ever compared with what the header says.
-/

set_option autoImplicit false

namespace ArkheKernel
open PrefixCode

theorem pinned_contents {c : Crypto} {worldId : Block} {w w' : Wal}
    (hcf : KeyedCollisionFree c {x | x ∈ w.hashed c worldId ∨ x ∈ w'.hashed c worldId})
    (hw : w.verifyChain c worldId = .ok ()) (hw' : w'.verifyChain c worldId = .ok ())
    (ht : w'.chainTip = w.chainTip) : w'.contents = w.contents := by
  apply HashChain.tip_determines hcf.links (buildChainKey c worldId)
  · exact fun x hx => Or.inr (List.mem_map_of_mem hx)
  · exact fun x hx => Or.inl (List.mem_map_of_mem hx)
  · rw [← verifyChain_tip hw',← verifyChain_tip hw,ht]

/-- Two verified logs with one tip agree record by record, and a log whose
contents differ from those of a pinned log is rejected. -/
theorem pinned_tip_pins_log (c : Crypto) (worldId : Block) (w w' : Wal)
    (hcf : KeyedCollisionFree c {x | x ∈ w.hashed c worldId ∨ x ∈ w'.hashed c worldId})
    (hw : w.verifyChain c worldId = .ok ()) :
    (w'.verifyChain c worldId = .ok () → w'.chainTip = w.chainTip →
      w'.records.length = w.records.length ∧
        w'.records.map WalRecord.link = w.records.map WalRecord.link) ∧
    ∀ anchor : TrustAnchor, anchor.expectedChainTip = some w.chainTip →
      w'.contents ≠ w.contents → ∃ e, w'.verifyChainAnchored c worldId anchor = .error e := by
  constructor
  · intro hw' ht
    have hc := pinned_contents hcf hw hw' ht
    have hl := congrArg List.length hc
    rw [Wal.contents,Wal.contents,List.length_map,List.length_map] at hl
    exact ⟨hl,linked_ext (verifyChain_linked hw') (verifyChain_linked hw) hc⟩
  · intro anchor hpin hne
    cases h : w'.verifyChainAnchored c worldId anchor with
    | error e => exact ⟨e,rfl⟩
    | ok u =>
      have ha := (verifyChainAnchored_iff w' worldId anchor).mp h
      have ht := Option.some.inj (pinned_some ha.tip hpin)
      exact absurd (pinned_contents hcf hw ha.chain ht) hne

def stepLog (worldId manifest secret : Block) : ℕ → WalWriter
  | 0 => .withSignature standIn worldId manifest (.newEd25519FromSecret standIn secret)
  | n+1 => (stepLog worldId manifest secret n).appendStep standIn ⟨.succ 0⟩ ⟨.succ 0⟩ ⟨0⟩ 0
      .committed zeroBlock

theorem stepLog_sealing (worldId manifest secret : Block) (n : ℕ) :
    Sealing standIn worldId manifest (.newEd25519FromSecret standIn secret)
      (stepLog worldId manifest secret n) := by
  induction n with
  | zero => exact .start
  | succ n ih => exact .step _ _ _ _ _ _ _ ih

theorem pinned_tip_pins_log_truncated : ∃ e,
    (Wal.fromWriter (stepLog zeroBlock zeroBlock (blockOfNat 3) 1)).verifyChainAnchored standIn
      zeroBlock { expectedChainTip := some (stepLog zeroBlock zeroBlock (blockOfNat 3) 2).chainTip } =
        .error e := by
  let w := Wal.fromWriter (stepLog zeroBlock zeroBlock (blockOfNat 3) 2)
  let w' := Wal.fromWriter (stepLog zeroBlock zeroBlock (blockOfNat 3) 1)
  have hcf : KeyedCollisionFree standIn
      {x | x ∈ w.hashed standIn zeroBlock ∨ x ∈ w'.hashed standIn zeroBlock} := by
    apply keyedCollisionFree_of_list (w.hashed standIn zeroBlock ++ w'.hashed standIn zeroBlock)
    · decide +kernel
    · decide +kernel
    · exact fun x hx => List.mem_append.mpr hx
  exact (pinned_tip_pins_log standIn zeroBlock w w' hcf (by decide +kernel)).2 _ rfl (by decide +kernel)

def WalWriter.signed (v : WalWriter) : List Bytes :=
  v.records.map (fun r => domainSeparated r.body)

/-- A writer that holds the key, opened for any world and any manifest. -/
def WalWriter.Holds (c : Crypto) (K : Block) (v : WalWriter) : Prop :=
  ∃ worldId manifest sigClass, sigClass.verifyingKeyBytes = some K ∧
    Sealing c worldId manifest sigClass v

/-- Signatures in the log that verify under the key are on messages that one of
the writers signed. -/
def Unforged (c : Crypto) (K : Block) (W : Set WalWriter) (w : Wal) : Prop :=
  ∀ r ∈ w.records, ∀ sig, r.signature = some sig →
    VerifierClass.verifyEd25519 c K r.body sig = .ok () →
      ∃ v ∈ W, domainSeparated r.body ∈ v.signed

section Splice
variable {c : Crypto} {K worldId : Block} {W : Set WalWriter} {w : Wal}

/-- A signed body was sealed by a writer with the same content after the same
previous hash. -/
theorem signed_record {v : WalWriter} {r : WalRecord} (h : domainSeparated r.body ∈ v.signed) :
    ∃ r' ∈ v.records, r'.content = r.content ∧ r'.prevChainHash = r.prevChainHash := by
  obtain ⟨r',hr',he⟩ := List.mem_map.mp h
  exact ⟨r',hr',bodyBytes_inj (domainSeparated_injective he)⟩

theorem Holds.chained {v : WalWriter} (h : v.Holds c K) :
    Linked c (buildChainKey c v.header.worldId) zeroBlock v.records := by
  obtain ⟨_,_,_,-,hs⟩ := h
  have hc := sealing_chained hs
  have hl := hc.linked
  rw [hc.chainKey,← hc.header] at hl
  exact hl

/-- Behind at least one record, a signed record places its log: the previous
hash is the tip of the log up to there, under the key of its world. -/
theorem signed_continues (hW : ∀ v ∈ W, v.Holds c K)
    (hcf : KeyedCollisionFree c {x | x ∈ w.hashed c worldId ∨
      ∃ v ∈ W, x ∈ (Wal.fromWriter v).hashed c v.header.worldId})
    {rs : List WalRecord} {q r : WalRecord} (hw : w.records = rs++[q]++[r])
    (hl : Linked c (buildChainKey c worldId) zeroBlock w.records)
    {v : WalWriter} (hv : v ∈ W) (hs : domainSeparated r.body ∈ v.signed) :
    buildChainKey c v.header.worldId = buildChainKey c worldId ∧
      w.contents <+: (Wal.fromWriter v).contents := by
  obtain ⟨r',hr',hcont,hprev⟩ := signed_record hs
  have hin := linked_input (Holds.chained (hW v hv)) hr'
  rw [hw,List.append_assoc] at hl
  have htip : r.prevChainHash = HashChain.tip (chainLink c) (buildChainKey c worldId) zeroBlock
      (rs.map WalRecord.content ++ [q.content]) := by
    rw [← List.append_assoc] at hl
    have hsplit := linked_split hl
    rw [List.map_append] at hsplit
    exact hsplit
  have hcontents : w.contents = rs.map WalRecord.content ++ [q.content] ++ [r.content] := by
    rw [Wal.contents,hw,List.map_append,List.map_append]
    rfl
  rw [hcont,hprev,htip] at hin
  rw [hcontents]
  apply HashChain.input_continues hcf.links _ _ _ _ _ _ _ _ hin
  · intro x hx
    left
    rw [Wal.hashed,hcontents,HashChain.inputs_append]
    exact List.mem_map_of_mem (List.mem_append_left _ hx)
  · exact fun x hx => Or.inr ⟨v,hv,List.mem_map_of_mem hx⟩

end Splice

/-- An accepted log continues one sealed log of its world, unless it is a single
record that starts no log of that world. The empty log counts as a prefix of
what any writer has yet to seal. -/
theorem spliced_log_iff (c : Crypto) (K worldId : Block) (W : Set WalWriter) (w : Wal)
    (anchor : TrustAnchor) (hW : ∀ v ∈ W, v.Holds c K)
    (hkeys : ∀ v ∈ W, buildChainKey c v.header.worldId = buildChainKey c worldId →
      v.header.worldId = worldId)
    (hcf : KeyedCollisionFree c {x | x ∈ w.hashed c worldId ∨
      ∃ v ∈ W, x ∈ (Wal.fromWriter v).hashed c v.header.worldId})
    (hsig : Unforged c K W w) (hK : anchor.ed25519VerifyingKey = some K)
    (hok : w.verifyChainAnchored c worldId anchor = .ok ()) :
    (w.contents = [] ∨ ∃ v ∈ W, v.header.worldId = worldId ∧
      w.contents <+: (Wal.fromWriter v).contents) ↔
    ∀ r, w.records = [r] → ∃ v ∈ W, v.header.worldId = worldId ∧
      (Wal.fromWriter v).contents.head? = some r.content := by
  have ha := (verifyChainAnchored_iff w worldId anchor).mp hok
  have hl := verifyChain_linked ha.chain
  constructor
  · intro h r hr
    have hc : w.contents = [r.content] := by rw [Wal.contents,hr]; rfl
    rw [hc] at h
    rcases h with h | ⟨v,hv,hworld,t,ht⟩
    · cases h
    · exact ⟨v,hv,hworld,by rw [← ht]; rfl⟩
  · intro h
    rcases List.eq_nil_or_concat w.records with hn | ⟨rs,r,hr⟩
    · left
      rw [Wal.contents,hn]
      rfl
    right
    rw [List.concat_eq_append] at hr
    rcases List.eq_nil_or_concat rs with rfl | ⟨qs,q,rfl⟩
    · -- nothing before the record speaks of the world
      obtain ⟨v,hv,hworld,hhead⟩ := h r hr
      refine ⟨v,hv,hworld,?_⟩
      obtain ⟨t,ht⟩ := List.head?_eq_some_iff.mp hhead
      have hc : w.contents = [r.content] := by rw [Wal.contents,hr]; rfl
      rw [hc,ht]
      exact ⟨t,rfl⟩
    · rw [List.concat_eq_append] at hr
      have hmem : r ∈ w.records := by rw [hr]; simp
      obtain ⟨sig,hs,hver⟩ := verifyChain_signed ha.chain (pinned_some ha.ed25519Key hK) r hmem
      obtain ⟨v,hv,hsigned⟩ := hsig r hmem sig hs hver
      obtain ⟨hkey,hinit⟩ := signed_continues hW hcf hr hl hv hsigned
      exact ⟨v,hv,hkeys v hv hkey,hinit⟩

theorem stepLog_holds (worldId manifest secret : Block) (n : ℕ) :
    (stepLog worldId manifest secret n).Holds standIn secret :=
  ⟨worldId,manifest,_,rfl,stepLog_sealing worldId manifest secret n⟩

theorem unforged_of_bodies {c : Crypto} {K : Block} {v : WalWriter} {w : Wal}
    (h : ∀ r ∈ w.records, r.body ∈ v.records.map WalRecord.body) : Unforged c K {v} w := by
  intro r hr sig _ _
  obtain ⟨r',hr',hb⟩ := List.mem_map.mp (h r hr)
  exact ⟨v,rfl,List.mem_map.mpr ⟨r',hr',by rw [hb]⟩⟩

theorem spliced_log_iff_two_records : ∃ v : WalWriter,
    (Wal.fromWriter (stepLog zeroBlock zeroBlock (blockOfNat 3) 2)).contents <+:
      (Wal.fromWriter v).contents := by
  let v := stepLog zeroBlock zeroBlock (blockOfNat 3) 2
  let w := Wal.fromWriter v
  have hcf : KeyedCollisionFree standIn {x | x ∈ w.hashed standIn zeroBlock ∨
      ∃ v' ∈ ({v} : Set WalWriter), x ∈ (Wal.fromWriter v').hashed standIn v'.header.worldId} := by
    apply keyedCollisionFree_of_list (w.hashed standIn zeroBlock)
    · decide +kernel
    · decide +kernel
    · intro x hx
      rcases hx with hx | ⟨v',rfl,hx⟩
      · exact hx
      · exact hx
  have hiff := spliced_log_iff standIn (blockOfNat 3) zeroBlock {v} w
    { ed25519VerifyingKey := some (blockOfNat 3) }
    (fun v' hv' => by rw [hv']; exact stepLog_holds _ _ _ _) (fun v' hv' _ => by rw [hv']; rfl) hcf
    (unforged_of_bodies (fun r hr => List.mem_map_of_mem hr)) rfl (by decide +kernel)
  have hlen : w.records.length = 2 := by decide +kernel
  rcases hiff.mpr (fun r hr => by rw [hr] at hlen; cases hlen) with hn | ⟨v',-,-,hp⟩
  · rw [← List.length_eq_zero_iff,Wal.contents,List.length_map,hlen] at hn
    cases hn
  · exact ⟨v',hp⟩

def transplanted (v : WalWriter) (worldId : Block) : Wal where
  header := v.header
  records := v.records.map (fun r => { r with
    thisChainHash := chainLink standIn (buildChainKey standIn worldId) r.prevChainHash r.content })

/-- The first record of a log of one world passes for a log of another. -/
theorem first_record_spliced :
    ¬ ∀ (K worldId : Block) (W : Set WalWriter) (w : Wal) (anchor : TrustAnchor),
      (∀ v ∈ W, v.Holds standIn K) →
      (∀ v ∈ W, buildChainKey standIn v.header.worldId = buildChainKey standIn worldId →
        v.header.worldId = worldId) →
      KeyedCollisionFree standIn {x | x ∈ w.hashed standIn worldId ∨
        ∃ v ∈ W, x ∈ (Wal.fromWriter v).hashed standIn v.header.worldId} →
      Unforged standIn K W w → anchor.ed25519VerifyingKey = some K →
      w.verifyChainAnchored standIn worldId anchor = .ok () →
      (w.contents = [] ∨ ∃ v ∈ W, v.header.worldId = worldId ∧
        w.contents <+: (Wal.fromWriter v).contents) := by
  intro h
  let v := stepLog zeroBlock zeroBlock (blockOfNat 3) 1
  let w := transplanted v (blockOfNat 7)
  have hcf : KeyedCollisionFree standIn {x | x ∈ w.hashed standIn (blockOfNat 7) ∨
      ∃ v' ∈ ({v} : Set WalWriter), x ∈ (Wal.fromWriter v').hashed standIn v'.header.worldId} := by
    apply keyedCollisionFree_of_list
      (w.hashed standIn (blockOfNat 7) ++ (Wal.fromWriter v).hashed standIn zeroBlock)
    · decide +kernel
    · decide +kernel
    · intro x hx
      rcases hx with hx | ⟨v',rfl,hx⟩
      · exact List.mem_append_left _ hx
      · exact List.mem_append_right _ hx
  have hworld : zeroBlock ≠ blockOfNat 7 := by decide +kernel
  rcases h (blockOfNat 3) (blockOfNat 7) {v} w { ed25519VerifyingKey := some (blockOfNat 3) }
    (fun v' hv' => by rw [hv']; exact stepLog_holds _ _ _ _) (fun v' _ hk => hk) hcf
    (unforged_of_bodies (by decide +kernel)) rfl (by decide +kernel) with hn | ⟨v',rfl,hw,-⟩
  · have hlen : w.contents.length = 1 := by decide +kernel
    rw [hn] at hlen
    cases hlen
  · exact hworld hw

theorem anchored_manifest_iff {c : Crypto} {worldId : Block} {w : Wal} {anchor : TrustAnchor}
    (hok : w.verifyChainAnchored c worldId { anchor with expectedManifestDigest := none } = .ok ())
    (M : Block) :
    w.verifyChainAnchored c worldId { anchor with expectedManifestDigest := some M } = .ok () ↔
      w.header.manifestDigest = M := by
  have ha := (verifyChainAnchored_iff w worldId _).mp hok
  rw [verifyChainAnchored_iff]
  constructor
  · intro h
    exact Option.some.inj (pinned_some h.manifest rfl)
  · intro h
    exact ⟨ha.tier,ha.ed25519Key,ha.mldsaKey,by simp [Wal.pinned,h],ha.chain,ha.tip⟩

/-- A log that passes every other check is accepted under no manifest but the
writer's exactly when its header still carries the writer's digest. -/
theorem manifest_bound_iff (c : Crypto) (worldId M : Block) (sigClass : SignatureClass)
    (v : WalWriter) (hv : Sealing c worldId M sigClass v) (w' : Wal) (anchor : TrustAnchor)
    (hok : w'.verifyChainAnchored c worldId { anchor with expectedManifestDigest := none } =
      .ok ()) :
    (∀ M', w'.verifyChainAnchored c worldId { anchor with expectedManifestDigest := some M' } =
      .ok () → M' = M) ↔ w'.header.manifestDigest = v.header.manifestDigest := by
  have hM : v.header.manifestDigest = M := by rw [(sealing_chained hv).header]; rfl
  rw [hM]
  constructor
  · intro h
    exact h _ ((anchored_manifest_iff hok _).mpr rfl)
  · intro h M' hM'
    exact ((anchored_manifest_iff hok M').mp hM').symm.trans h

theorem manifest_bound_iff_untouched :
    (Wal.fromWriter (stepLog zeroBlock (blockOfNat 5) (blockOfNat 3) 1)).verifyChainAnchored
      standIn zeroBlock { expectedManifestDigest := some (blockOfNat 6) } ≠ .ok () := by
  intro h
  have hall := (manifest_bound_iff standIn zeroBlock (blockOfNat 5) _ _
    (stepLog_sealing zeroBlock (blockOfNat 5) (blockOfNat 3) 1)
    (Wal.fromWriter (stepLog zeroBlock (blockOfNat 5) (blockOfNat 3) 1)) {} (by decide +kernel)).mpr rfl
  exact absurd (hall _ h) (by decide +kernel)

/-- The digest in the header is covered by neither the hashes nor the signatures. -/
theorem manifest_rewritten :
    ¬ ∀ (worldId M M' K : Block) (v : WalWriter) (w' : Wal) (anchor : TrustAnchor),
      Sealing standIn worldId M (.newEd25519FromSecret standIn K) v → v.records ≠ [] →
      KeyedCollisionFree standIn {x | x ∈ (Wal.fromWriter v).hashed standIn worldId ∨
        x ∈ w'.hashed standIn worldId} →
      Unforged standIn K {v} w' →
      anchor.minTier = some .ed25519 → anchor.ed25519VerifyingKey = some K →
      anchor.expectedChainTip = some v.chainTip → anchor.expectedManifestDigest = some M' →
      w'.verifyChainAnchored standIn worldId anchor = .ok () → M' = M := by
  intro h
  let v := stepLog zeroBlock (blockOfNat 5) (blockOfNat 3) 1
  let w' : Wal := ⟨{ v.header with manifestDigest := blockOfNat 6 },v.records⟩
  have hcf : KeyedCollisionFree standIn {x | x ∈ (Wal.fromWriter v).hashed standIn zeroBlock ∨
      x ∈ w'.hashed standIn zeroBlock} := by
    apply keyedCollisionFree_of_list ((Wal.fromWriter v).hashed standIn zeroBlock)
    · decide +kernel
    · decide +kernel
    · intro x hx
      rcases hx with hx | hx
      · exact hx
      · exact hx
  have he := h zeroBlock (blockOfNat 5) (blockOfNat 6) (blockOfNat 3) v w'
    { minTier := some .ed25519, ed25519VerifyingKey := some (blockOfNat 3),
      expectedChainTip := some v.chainTip, expectedManifestDigest := some (blockOfNat 6) }
    (stepLog_sealing _ _ _ _) (by decide +kernel) hcf
    (unforged_of_bodies (fun r hr => List.mem_map_of_mem hr)) rfl rfl rfl rfl (by decide +kernel)
  exact absurd he (by decide +kernel)

end ArkheKernel
