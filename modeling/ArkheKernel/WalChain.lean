import ArkheKernel.Wal

/-!
# What verification and sealing say about a chain

A log that verifies and a log that a writer sealed are both linked: every
record carries the running hash and the hash it moves it to. What is assumed
of the hash is stated on the inputs that are actually hashed.
-/

set_option autoImplicit false

namespace ArkheKernel
open PrefixCode

namespace WalRecord

def body (r : WalRecord) : Bytes := bodyBytes r.content r.prevChainHash

def link (r : WalRecord) : WalRecordContent × Block × Block :=
  (r.content,r.prevChainHash,r.thisChainHash)

end WalRecord

section Linked
variable (c : Crypto) (key : Block)

def Linked : Block → List WalRecord → Prop
  | _, [] => True
  | prev, r::rest => r.prevChainHash = prev ∧ r.thisChainHash = chainLink c key prev r.content ∧
      Linked (chainLink c key prev r.content) rest

variable {c key}

theorem linked_append (prev : Block) (rs ss : List WalRecord) :
    Linked c key prev (rs++ss) ↔ Linked c key prev rs ∧
      Linked c key (HashChain.tip (chainLink c) key prev (rs.map WalRecord.content)) ss := by
  induction rs generalizing prev with
  | nil => simp [Linked,HashChain.tip]
  | cons r rs ih => simp [Linked,HashChain.tip,ih,and_assoc]

theorem linked_ext {prev : Block} {rs ss : List WalRecord} (hr : Linked c key prev rs)
    (hs : Linked c key prev ss) (h : rs.map WalRecord.content = ss.map WalRecord.content) :
    rs.map WalRecord.link = ss.map WalRecord.link := by
  induction rs generalizing prev ss with
  | nil =>
    rw [List.map_nil,eq_comm,List.map_eq_nil_iff] at h
    rw [h]
  | cons r rs ih =>
    cases ss with
    | nil => cases h
    | cons s ss =>
      obtain ⟨hc,ht⟩ := List.cons.inj h
      obtain ⟨hrp,hrt,hrr⟩ := hr
      obtain ⟨hsp,hst,hss⟩ := hs
      have hlink : r.link = s.link := by
        rw [WalRecord.link,WalRecord.link,hrp,hrt,hsp,hst,hc]
      rw [hc] at hrr
      rw [List.map_cons,List.map_cons,hlink,ih hrr hss ht]

theorem linked_tip {prev : Block} {rs : List WalRecord} (h : Linked c key prev rs) :
    (rs.getLast?.map WalRecord.thisChainHash).getD prev =
      HashChain.tip (chainLink c) key prev (rs.map WalRecord.content) := by
  induction rs generalizing prev with
  | nil => rfl
  | cons r rs ih =>
    rw [List.map_cons,HashChain.tip,← ih h.2.2,List.getLast?_cons]
    cases rs.getLast? with
    | none => exact h.2.1
    | some s => rfl

theorem linked_split {prev : Block} {rs ss : List WalRecord} {r : WalRecord}
    (h : Linked c key prev (rs++r::ss)) :
    r.prevChainHash = HashChain.tip (chainLink c) key prev (rs.map WalRecord.content) :=
  ((linked_append prev rs (r::ss)).mp h).2.1

end Linked

section Verify
variable {c : Crypto}

/-- The signatures that the verifier demands of a record are there and hold. -/
def SignatureOk (c : Crypto) (verifier : VerifierClass) (r : WalRecord) : Prop :=
  Wal.checkSignatures c verifier 0 r.body r = .ok ()

theorem checkSignatures_ok (verifier : VerifierClass) (i : ℕ) (body : Bytes) (r : WalRecord) :
    Wal.checkSignatures c verifier i body r = .ok () ↔
      Wal.checkSignatures c verifier 0 body r = .ok () := by
  cases verifier with
  | none => exact Iff.rfl
  | ed25519 vk =>
    simp only [Wal.checkSignatures]
    cases r.signature with
    | none => simp
    | some sig =>
      dsimp only
      cases VerifierClass.verifyEd25519 c vk body sig <;> simp
  | hybrid vk pqc =>
    simp only [Wal.checkSignatures]
    cases r.signature with
    | none => simp
    | some sig =>
      cases r.signaturePqc with
      | none => simp
      | some sigPqc =>
        dsimp only
        cases VerifierClass.verifyHybrid c vk pqc body sig sigPqc <;> simp

theorem verifyFrom_iff (verifier : VerifierClass) (key : Block) (i : ℕ) (prev : Block)
    (rs : List WalRecord) : Wal.verifyFrom c verifier key i prev rs = .ok () ↔
      Linked c key prev rs ∧ ∀ r ∈ rs, SignatureOk c verifier r := by
  induction rs generalizing i prev with
  | nil => simp [Wal.verifyFrom,Linked]
  | cons r rs ih =>
    rw [Wal.verifyFrom]
    by_cases hp : r.prevChainHash = prev
    · rw [if_neg (not_not.mpr hp)]
      dsimp only
      by_cases ht : chainLink c key prev r.content = r.thisChainHash
      · rw [if_neg (not_not.mpr ht)]
        have hbody : r.body = bodyBytes r.content prev := by rw [WalRecord.body,hp]
        have hsig := checkSignatures_ok (c := c) verifier i (bodyBytes r.content prev) r
        rw [← hbody] at hsig ⊢
        cases hc : Wal.checkSignatures c verifier i r.body r with
        | error e =>
          rw [hc] at hsig
          have hn : ¬ SignatureOk c verifier r := fun h => by cases hsig.mpr h
          simp [hn]
        | ok u =>
          have hs : SignatureOk c verifier r := hsig.mp hc
          dsimp only
          rw [ih]
          simp [Linked,hp,ht,hs]
      · rw [if_pos ht]
        constructor
        · intro h
          cases h
        · intro ⟨hl,_⟩
          exact absurd hl.2.1.symm ht
    · rw [if_pos hp]
      constructor
      · intro h
        cases h
      · intro ⟨hl,_⟩
        exact absurd hl.1 hp

theorem verifyChain_iff (w : Wal) (worldId : Block) : w.verifyChain c worldId = .ok () ↔
    ∃ verifier,
      VerifierClass.fromHeaderBytes c w.header.verifyingKey w.header.verifyingKeyPqc = .ok verifier ∧
        Linked c (buildChainKey c worldId) zeroBlock w.records ∧
          ∀ r ∈ w.records, SignatureOk c verifier r := by
  unfold Wal.verifyChain
  cases h : VerifierClass.fromHeaderBytes c w.header.verifyingKey w.header.verifyingKeyPqc with
  | error e => simp
  | ok verifier =>
    dsimp only
    rw [verifyFrom_iff]
    simp

theorem verifyChain_linked {w : Wal} {worldId : Block} (h : w.verifyChain c worldId = .ok ()) :
    Linked c (buildChainKey c worldId) zeroBlock w.records := by
  obtain ⟨_,_,hl,_⟩ := (verifyChain_iff w worldId).mp h
  exact hl

theorem verifyChain_tip {w : Wal} {worldId : Block} (h : w.verifyChain c worldId = .ok ()) :
    w.chainTip = HashChain.tip (chainLink c) (buildChainKey c worldId) zeroBlock w.contents :=
  linked_tip (verifyChain_linked h)

def VerifierClass.key : VerifierClass → Option Block
  | .none => Option.none
  | .ed25519 vk => some vk
  | .hybrid vk _ => some vk

theorem fromHeaderBytes_key {vk : Option Block} {vkPqc : Option Bytes} {verifier : VerifierClass}
    (h : VerifierClass.fromHeaderBytes c vk vkPqc = .ok verifier) : verifier.key = vk := by
  unfold VerifierClass.fromHeaderBytes at h
  split at h
  · obtain rfl := Except.ok.inj h
    rfl
  · split at h
    · obtain rfl := Except.ok.inj h
      rfl
    · cases h
  · split at h
    · split at h
      · cases h
      · obtain rfl := Except.ok.inj h
        rfl
    · cases h
  · cases h

/-- A verifier with an Ed25519 key accepts no record without a signature that
verifies under it, in the hybrid tier too. -/
theorem SignatureOk.signed {verifier : VerifierClass} {r : WalRecord} {K : Block}
    (h : SignatureOk c verifier r) (hK : verifier.key = some K) :
    ∃ sig, r.signature = some sig ∧ VerifierClass.verifyEd25519 c K r.body sig = .ok () := by
  unfold SignatureOk Wal.checkSignatures at h
  cases verifier with
  | none => cases hK
  | ed25519 vk =>
    obtain rfl := Option.some.inj hK
    dsimp only at h
    split at h
    · cases h
    · next sig hs =>
      split at h
      · next ho => exact ⟨sig,hs,ho⟩
      · cases h
  | hybrid vk pqc =>
    obtain rfl := Option.some.inj hK
    dsimp only at h
    split at h
    · cases h
    · cases h
    · next sig sigPqc hs _ =>
      split at h
      · next ho => exact ⟨sig,hs,(VerifierClass.verifyHybrid_ok ho).1⟩
      · cases h

theorem verifyChain_signed {w : Wal} {worldId K : Block} (h : w.verifyChain c worldId = .ok ())
    (hK : w.header.verifyingKey = some K) : ∀ r ∈ w.records, ∃ sig, r.signature = some sig ∧
      VerifierClass.verifyEd25519 c K r.body sig = .ok () := by
  obtain ⟨verifier,hv,-,hs⟩ := (verifyChain_iff w worldId).mp h
  intro r hr
  exact (hs r hr).signed ((fromHeaderBytes_key hv).trans hK)

/-- Everything an anchored verification has checked. -/
structure AnchoredOk (c : Crypto) (w : Wal) (worldId : Block) (anchor : TrustAnchor) : Prop where
  tier : ∃ tier, w.headerTier = .ok tier ∧
    anchor.minTier.any (fun floor => tier.rank < floor.rank) = false
  ed25519Key : Wal.pinned anchor.ed25519VerifyingKey w.header.verifyingKey = true
  mldsaKey : Wal.pinned anchor.mldsaVerifyingKey w.header.verifyingKeyPqc = true
  manifest : Wal.pinned anchor.expectedManifestDigest (some w.header.manifestDigest) = true
  chain : w.verifyChain c worldId = .ok ()
  tip : Wal.pinned anchor.expectedChainTip (some w.chainTip) = true

theorem verifyChainAnchored_iff (w : Wal) (worldId : Block) (anchor : TrustAnchor) :
    w.verifyChainAnchored c worldId anchor = .ok () ↔ AnchoredOk c w worldId anchor := by
  constructor
  · intro h
    unfold Wal.verifyChainAnchored at h
    split at h
    · cases h
    next tier ht =>
    split at h
    · cases h
    next hf =>
    split at h
    · cases h
    next hk =>
    split at h
    · cases h
    next hq =>
    split at h
    · cases h
    next hm =>
    split at h
    · cases h
    next hc =>
    split at h
    · cases h
    next hp =>
    exact ⟨⟨tier,ht,by simpa using hf⟩,by simpa using hk,by simpa using hq,by simpa using hm,hc,
      by simpa using hp⟩
  · intro ⟨⟨tier,ht,hf⟩,hk,hq,hm,hc,hp⟩
    simp [Wal.verifyChainAnchored,ht,hf,hk,hq,hm,hc,hp]

theorem pinned_some {α : Type} [DecidableEq α] {expected found : Option α} {a : α}
    (h : Wal.pinned expected found = true) (he : expected = some a) : found = some a := by
  rw [he] at h
  exact of_decide_eq_true h

end Verify

section Hashing
variable (c : Crypto)

def hashInput (x : Block × Block × WalRecordContent) : Block × Bytes :=
  (x.1,x.2.1.toList ++ bodyBytes x.2.2 x.2.1)

def Wal.hashed (w : Wal) (worldId : Block) : List (Block × Bytes) :=
  (HashChain.inputs (chainLink c) (buildChainKey c worldId) zeroBlock w.contents).map hashInput

/-- No two of the given inputs collide and none hashes to the zero block. -/
structure KeyedCollisionFree (S : Set (Block × Bytes)) : Prop where
  inj : Set.InjOn (fun x : Block × Bytes => c.keyedHash x.1 x.2) S
  nonzero : ∀ x ∈ S, c.keyedHash x.1 x.2 ≠ zeroBlock

theorem hashInput_injective : Function.Injective hashInput := by
  intro ⟨k,p,a⟩ ⟨l,q,b⟩ h
  obtain ⟨hk,hb⟩ := Prod.mk.inj h
  obtain ⟨-,hbody⟩ := List.append_inj hb (by simp)
  obtain ⟨ha,hp⟩ := bodyBytes_inj hbody
  exact Prod.ext hk (Prod.ext hp ha)

variable {c}

/-- The body encoding is injective, so links collide only where hashes do. -/
theorem links_injOn {S : Set (Block × Bytes)}
    (h : Set.InjOn (fun x : Block × Bytes => c.keyedHash x.1 x.2) S) :
    Set.InjOn (fun x : Block × Block × WalRecordContent => chainLink c x.1 x.2.1 x.2.2)
      {x | hashInput x ∈ S} :=
  fun _ hx _ hy he => hashInput_injective (h hx hy he)

theorem KeyedCollisionFree.links {S : Set (Block × Bytes)} (h : KeyedCollisionFree c S) :
    HashChain.CollisionFree (chainLink c) zeroBlock {x | hashInput x ∈ S} where
  inj := links_injOn h.inj
  fresh x hx := h.nonzero (hashInput x) hx

theorem keyedCollisionFree_of_list (xs : List (Block × Bytes))
    (hinj : ∀ x ∈ xs, ∀ y ∈ xs, c.keyedHash x.1 x.2 = c.keyedHash y.1 y.2 → x = y)
    (hz : ∀ x ∈ xs, c.keyedHash x.1 x.2 ≠ zeroBlock) {S : Set (Block × Bytes)}
    (hS : ∀ x ∈ S, x ∈ xs) : KeyedCollisionFree c S where
  inj x hx y hy he := hinj x (hS x hx) y (hS y hy) he
  nonzero x hx := hz x (hS x hx)

end Hashing

section Sealing
variable {c : Crypto} {worldId manifest : Block} {sigClass : SignatureClass}

/-- The writers that a run of appends can produce. -/
inductive Sealing (c : Crypto) (worldId manifest : Block) (sigClass : SignatureClass) :
    WalWriter → Prop
  | start : Sealing c worldId manifest sigClass (.withSignature c worldId manifest sigClass)
  | submit (w : WalWriter) (inst : InstanceId) (principal : Principal) (actor : Option EntityId)
      (caps : BitVec 64) (atTick : Tick) (typeCode : TypeCode) (actionBytes : Bytes)
      (id : ScheduledActionId) (h : Sealing c worldId manifest sigClass w) :
      Sealing c worldId manifest sigClass
        (w.appendSubmit c inst principal actor caps atTick typeCode actionBytes id)
  | step (w : WalWriter) (inst : InstanceId) (poppedId : ScheduledActionId) (now : Tick)
      (caps : BitVec 64) (verdict : StepVerdict) (digest : Block)
      (h : Sealing c worldId manifest sigClass w) :
      Sealing c worldId manifest sigClass (w.appendStep c inst poppedId now caps verdict digest)

structure WalWriter.Chained (c : Crypto) (hd : WalHeader) (sigClass : SignatureClass)
    (w : WalWriter) : Prop where
  header : w.header = hd
  chainKey : w.chainKey = buildChainKey c hd.worldId
  sigClass : w.sigClass = sigClass
  linked : Linked c w.chainKey zeroBlock w.records
  tip : w.prevHash = HashChain.tip (chainLink c) w.chainKey zeroBlock
    (w.records.map WalRecord.content)

theorem linked_push {key tip : Block} {rs : List WalRecord} (h : Linked c key zeroBlock rs)
    (ht : tip = HashChain.tip (chainLink c) key zeroBlock (rs.map WalRecord.content))
    (content : WalRecordContent) (sig sigPqc : Option Bytes) :
    Linked c key zeroBlock (rs ++ [⟨content,tip,chainLink c key tip content,sig,sigPqc⟩]) := by
  rw [linked_append,← ht]
  exact ⟨h,rfl,rfl,trivial⟩

theorem WalWriter.Chained.push {hd : WalHeader} {w : WalWriter} (h : w.Chained c hd sigClass)
    (seq : ℕ) (content : WalRecordContent) :
    (WalWriter.pushSealed c { w with nextSeq := seq } content).Chained c hd sigClass where
  header := h.header
  chainKey := h.chainKey
  sigClass := h.sigClass
  linked := linked_push h.linked h.tip content _ _
  tip := by
    have hm : (WalWriter.pushSealed c { w with nextSeq := seq } content).records.map
        WalRecord.content = w.records.map WalRecord.content ++ [content] := by
      simp [WalWriter.pushSealed]
    rw [hm,HashChain.tip_append,HashChain.tip,HashChain.tip]
    change chainLink c w.chainKey w.prevHash content = _
    rw [h.tip]
    rfl

theorem sealing_chained {w : WalWriter} (h : Sealing c worldId manifest sigClass w) :
    w.Chained c (WalWriter.withSignature c worldId manifest sigClass).header sigClass := by
  induction h with
  | start => exact ⟨rfl,rfl,rfl,trivial,rfl⟩
  | submit w _ _ _ _ _ _ _ _ h ih => exact ih.push _ _
  | step w _ _ _ _ _ _ h ih => exact ih.push _ _

/-- The verifier that the keys of a class call for. -/
def SignatureClass.verifier : SignatureClass → VerifierClass
  | .none => .none
  | .ed25519 _ vk => .ed25519 vk
  | .hybrid _ vk signer => .hybrid vk signer.verifyingKeyBytes

theorem fromHeaderBytes_faithful (hf : sigClass.Faithful c) :
    VerifierClass.fromHeaderBytes c sigClass.verifyingKeyBytes sigClass.verifyingKeyPqcBytes =
      .ok sigClass.verifier := by
  cases sigClass with
  | none => rfl
  | ed25519 sk vk =>
    change (if c.ed25519KeyParses vk then _ else _) = _
    rw [if_pos hf.1]
    rfl
  | hybrid sk vk signer =>
    obtain ⟨hk,-,hl,-⟩ := hf
    change (if c.ed25519KeyParses vk then (if _ then _ else _) else _) = _
    rw [if_pos hk,if_neg (not_not.mpr hl)]
    rfl

theorem signatures_ok {w : WalWriter} (hf : w.sigClass.Faithful c) (content : WalRecordContent)
    (this : Block) : SignatureOk c w.sigClass.verifier
      ⟨content,w.prevHash,this,(w.signatures c (bodyBytes content w.prevHash)).1,
        (w.signatures c (bodyBytes content w.prevHash)).2⟩ := by
  unfold SignatureOk WalWriter.signatures
  cases hc : w.sigClass with
  | none => rfl
  | ed25519 sk vk =>
    rw [hc] at hf
    simp only [SignatureClass.signHybrid,SignatureClass.sign,SignatureClass.verifier,
      Wal.checkSignatures,Option.map_some,WalRecord.body]
    rw [VerifierClass.verifyEd25519_sign hf.2]
  | hybrid sk vk signer =>
    rw [hc] at hf
    obtain ⟨-,hver,-,hpqc⟩ := hf
    obtain ⟨sig,hs,hlen,hm⟩ :=
      hpqc w.records.length (domainSeparated (bodyBytes content w.prevHash))
    simp only [SignatureClass.signHybrid,SignatureClass.verifier,Wal.checkSignatures,
      WalRecord.body,hs,VerifierClass.verifyHybrid,VerifierClass.verifyMldsa]
    rw [VerifierClass.verifyEd25519_sign hver]
    simp [hlen,hm]

theorem sealing_signed {w : WalWriter} (h : Sealing c worldId manifest sigClass w)
    (hf : sigClass.Faithful c) : ∀ r ∈ w.records, SignatureOk c sigClass.verifier r := by
  have hpush : ∀ (w : WalWriter) (seq : ℕ) (content : WalRecordContent), w.sigClass = sigClass →
      (∀ r ∈ w.records, SignatureOk c sigClass.verifier r) →
      ∀ r ∈ (WalWriter.pushSealed c { w with nextSeq := seq } content).records,
        SignatureOk c sigClass.verifier r := by
    intro w seq content hw hall r hr
    rcases List.mem_append.mp hr with hr | hr
    · exact hall r hr
    · rw [List.mem_singleton.mp hr,← hw]
      rw [← hw] at hf
      exact signatures_ok (w := { w with nextSeq := seq }) hf content _
  induction h with
  | start => exact fun r hr => absurd hr List.not_mem_nil
  | submit w _ _ _ _ _ _ _ _ h ih => exact hpush w _ _ (sealing_chained h).sigClass ih
  | step w _ _ _ _ _ _ h ih => exact hpush w _ _ (sealing_chained h).sigClass ih

/-- What a faithful writer seals verifies for its own world. -/
theorem sealing_verifies {w : WalWriter} (h : Sealing c worldId manifest sigClass w)
    (hf : sigClass.Faithful c) : (Wal.fromWriter w).verifyChain c worldId = .ok () := by
  have hc := sealing_chained h
  have hl := hc.linked
  rw [hc.chainKey] at hl
  rw [verifyChain_iff]
  refine ⟨sigClass.verifier,?_,hl,sealing_signed h hf⟩
  change VerifierClass.fromHeaderBytes c w.header.verifyingKey w.header.verifyingKeyPqc = _
  rw [hc.header]
  exact fromHeaderBytes_faithful hf

theorem sealing_chainTip {w : WalWriter} (h : Sealing c worldId manifest sigClass w) :
    (Wal.fromWriter w).chainTip = w.prevHash := by
  have hc := sealing_chained h
  rw [hc.tip]
  exact linked_tip hc.linked

theorem linked_input {key : Block} {rs : List WalRecord} {r : WalRecord}
    (h : Linked c key zeroBlock rs) (hr : r ∈ rs) : (key,r.prevChainHash,r.content) ∈
      HashChain.inputs (chainLink c) key zeroBlock (rs.map WalRecord.content) := by
  obtain ⟨pre,post,rfl⟩ := List.append_of_mem hr
  rw [HashChain.mem_inputs_iff]
  exact ⟨rfl,pre.map WalRecord.content,post.map WalRecord.content,by simp,(linked_split h).symm⟩

end Sealing
end ArkheKernel
