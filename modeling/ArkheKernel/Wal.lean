import ArkheKernel.HashChain
import ArkheKernel.WalRecord

/-!
# The write-ahead log

The writer chains records under a key derived from the world identifier and
signs them under its class. The verifier walks the records with the running
hash. Both are described by one relation between consecutive records.
-/

set_option autoImplicit false

namespace ArkheKernel
open PrefixCode

structure TypeRegistryPin where
  typeCode : TypeCode
  schemaHash : Block
  deriving DecidableEq

structure WalHeader where
  magic : Bytes
  kernelSemver : ℕ × ℕ × ℕ
  postcardVersion : ℕ
  blake3Version : ℕ
  domainSeparationContext : Bytes
  worldId : Block
  abiVersion : ℕ × ℕ
  manifestDigest : Block
  typeRegistryPins : List TypeRegistryPin
  verifyingKey : Option Block
  verifyingKeyPqc : Option Bytes
  deriving DecidableEq

namespace WalHeader

def MAGIC : Bytes := asciiBytes "ARKHEWAL"
def CURRENT_KERNEL_SEMVER : ℕ × ℕ × ℕ := (0,15,0)
def ABI_VERSION : ℕ × ℕ := (0,15)
def POSTCARD_MAJOR : ℕ := 1
def BLAKE3_MAJOR : ℕ := 1
def DOMAIN_CTX : Bytes := asciiBytes "arkhe-kernel v0.15 WAL chain domain separation context"

end WalHeader

inductive SignatureTier where
  | none
  | ed25519
  | hybrid
  deriving DecidableEq, Repr

def SignatureTier.rank : SignatureTier → ℕ
  | .none => 0
  | .ed25519 => 1
  | .hybrid => 2

structure TrustAnchor where
  minTier : Option SignatureTier := none
  ed25519VerifyingKey : Option Block := none
  mldsaVerifyingKey : Option Bytes := none
  expectedManifestDigest : Option Block := none
  expectedChainTip : Option Block := none
  deriving DecidableEq

inductive WalError where
  | chainBroken (atRecord : ℕ)
  | hashMismatch (atRecord : ℕ)
  | invalidVerifyingKey
  | missingSignature (atRecord : ℕ)
  | signatureMismatch (atRecord : ℕ)
  | missingPqcSignature (atRecord : ℕ)
  | pqcSignatureMismatch (atRecord : ℕ)
  | pqcWithoutEd25519
  | tierDowngrade
  | verifyingKeyMismatch
  | manifestDigestMismatch
  | chainTipMismatch
  deriving DecidableEq, Repr

def buildChainKey (c : Crypto) (worldId : Block) : Block :=
  c.deriveKey WalHeader.DOMAIN_CTX worldId

def chainLink (c : Crypto) (key prev : Block) (content : WalRecordContent) : Block :=
  c.keyedHash key (prev.toList ++ bodyBytes content prev)

structure WalWriter where
  header : WalHeader
  records : List WalRecord
  nextSeq : ℕ
  prevHash : Block
  chainKey : Block
  sigClass : SignatureClass

namespace WalWriter

def withSignature (c : Crypto) (worldId manifestDigest : Block) (sigClass : SignatureClass) :
    WalWriter where
  header :=
    { magic := WalHeader.MAGIC
      kernelSemver := WalHeader.CURRENT_KERNEL_SEMVER
      postcardVersion := WalHeader.POSTCARD_MAJOR
      blake3Version := WalHeader.BLAKE3_MAJOR
      domainSeparationContext := WalHeader.DOMAIN_CTX
      worldId
      abiVersion := WalHeader.ABI_VERSION
      manifestDigest
      typeRegistryPins := []
      verifyingKey := sigClass.verifyingKeyBytes
      verifyingKeyPqc := sigClass.verifyingKeyPqcBytes }
  records := []
  nextSeq := 0
  prevHash := zeroBlock
  chainKey := buildChainKey c worldId
  sigClass

def new (c : Crypto) (worldId manifestDigest : Block) : WalWriter :=
  withSignature c worldId manifestDigest .none

def rebuildFromHeader (c : Crypto) (header : WalHeader) : WalWriter where
  header
  records := []
  nextSeq := 0
  prevHash := zeroBlock
  chainKey := buildChainKey c header.worldId
  sigClass := .none

/-- The two signature slots of a record. A class that cannot sign twice signs
once; the call number is the number of records already sealed. -/
def signatures (c : Crypto) (w : WalWriter) (body : Bytes) : Option Bytes × Option Bytes :=
  match w.sigClass.signHybrid c w.records.length body with
  | some hyb => (some hyb.ed25519.toList, some hyb.pqc)
  | none => ((w.sigClass.sign c body).map List.Vector.toList, none)

def pushSealed (c : Crypto) (w : WalWriter) (content : WalRecordContent) : WalWriter :=
  let thisHash := chainLink c w.chainKey w.prevHash content
  let sigs := w.signatures c (bodyBytes content w.prevHash)
  { w with
    records := w.records ++ [
      { content
        prevChainHash := w.prevHash
        thisChainHash := thisHash
        signature := sigs.1
        signaturePqc := sigs.2 }]
    prevHash := thisHash }

def appendSubmit (c : Crypto) (w : WalWriter) (inst : InstanceId) (principal : Principal)
    (actor : Option EntityId) (capsAtSubmit : BitVec 64) (atTick : Tick) (actionTypeCode : TypeCode)
    (actionBytes : Bytes) (allocatedId : ScheduledActionId) : WalWriter :=
  let seq := satAdd64 w.nextSeq 1
  pushSealed c { w with nextSeq := seq }
    (.submit seq inst principal actor capsAtSubmit atTick actionTypeCode actionBytes allocatedId)

def appendStep (c : Crypto) (w : WalWriter) (inst : InstanceId) (poppedId : ScheduledActionId)
    (now : Tick) (sessionCaps : BitVec 64) (verdict : StepVerdict) (postStateDigest : Block) :
    WalWriter :=
  let seq := satAdd64 w.nextSeq 1
  pushSealed c { w with nextSeq := seq }
    (.step seq inst poppedId now sessionCaps verdict postStateDigest)

def chainTip (w : WalWriter) : Block := w.prevHash

def recordCount (w : WalWriter) : ℕ := w.records.length

end WalWriter

structure Wal where
  header : WalHeader
  records : List WalRecord
  deriving DecidableEq

namespace Wal

def fromWriter (w : WalWriter) : Wal := ⟨w.header,w.records⟩

def contents (w : Wal) : List WalRecordContent := w.records.map WalRecord.content

def chainTip (w : Wal) : Block := (w.records.getLast?.map WalRecord.thisChainHash).getD zeroBlock

/-- The signature checks of one record. In the branch without keys the source
never calls the verifier, whose own branch for it panics. -/
def checkSignatures (c : Crypto) (verifier : VerifierClass) (i : ℕ) (body : Bytes)
    (rec : WalRecord) : Except WalError Unit :=
  match verifier with
  | .none => .ok ()
  | .ed25519 vk =>
    match rec.signature with
    | none => .error (.missingSignature i)
    | some sig =>
      match VerifierClass.verifyEd25519 c vk body sig with
      | .ok () => .ok ()
      | .error _ => .error (.signatureMismatch i)
  | .hybrid vk pqc =>
    match rec.signature, rec.signaturePqc with
    | none, _ => .error (.missingSignature i)
    | some _, none => .error (.missingPqcSignature i)
    | some sig, some sigPqc =>
      match VerifierClass.verifyHybrid c vk pqc body sig sigPqc with
      | .ok () => .ok ()
      | .error _ => .error (.pqcSignatureMismatch i)

def verifyFrom (c : Crypto) (verifier : VerifierClass) (chainKey : Block) :
    ℕ → Block → List WalRecord → Except WalError Unit
  | _, _, [] => .ok ()
  | i, prev, rec::rest =>
    if rec.prevChainHash ≠ prev then .error (.chainBroken i)
    else
      let computed := chainLink c chainKey prev rec.content
      if computed ≠ rec.thisChainHash then .error (.hashMismatch i)
      else
        match checkSignatures c verifier i (bodyBytes rec.content prev) rec with
        | .error e => .error e
        | .ok () => verifyFrom c verifier chainKey (i+1) computed rest

def initError : VerifierInitError → WalError
  | .invalidEd25519Key | .invalidPqcKey => .invalidVerifyingKey
  | .pqcWithoutEd25519 => .pqcWithoutEd25519

def verifyChain (c : Crypto) (w : Wal) (worldId : Block) : Except WalError Unit :=
  match VerifierClass.fromHeaderBytes c w.header.verifyingKey w.header.verifyingKeyPqc with
  | .error e => .error (initError e)
  | .ok verifier => verifyFrom c verifier (buildChainKey c worldId) 0 zeroBlock w.records

def headerTier (w : Wal) : Except WalError SignatureTier :=
  match w.header.verifyingKey.isSome, w.header.verifyingKeyPqc.isSome with
  | false, false => .ok .none
  | true, false => .ok .ed25519
  | true, true => .ok .hybrid
  | false, true => .error .pqcWithoutEd25519

/-- A pinned value must be the one found; an unset pin imposes nothing. -/
def pinned {α : Type} [DecidableEq α] (expected found : Option α) : Bool :=
  match expected with
  | none => true
  | some e => found = some e

def verifyChainAnchored (c : Crypto) (w : Wal) (worldId : Block) (anchor : TrustAnchor) :
    Except WalError Unit :=
  match w.headerTier with
  | .error e => .error e
  | .ok tier =>
    if anchor.minTier.any (fun floor => tier.rank < floor.rank) then .error .tierDowngrade
    else if !pinned anchor.ed25519VerifyingKey w.header.verifyingKey then
      .error .verifyingKeyMismatch
    else if !pinned anchor.mldsaVerifyingKey w.header.verifyingKeyPqc then
      .error .verifyingKeyMismatch
    else if !pinned anchor.expectedManifestDigest (some w.header.manifestDigest) then
      .error .manifestDigestMismatch
    else
      match w.verifyChain c worldId with
      | .error e => .error e
      | .ok () =>
        if !pinned anchor.expectedChainTip (some w.chainTip) then .error .chainTipMismatch
        else .ok ()

end Wal
end ArkheKernel
