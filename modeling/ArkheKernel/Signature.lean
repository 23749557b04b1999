import ArkheKernel.Abi

/-!
# Signatures and the primitives they rest on

The hash and signature primitives are third-party code and enter as the fields
of one structure. Which of them a log uses is the choice of a signature class;
which of them a verifier demands is read off the keys in the log header.
-/

set_option autoImplicit false

namespace ArkheKernel
open PrefixCode

abbrev Block := List.Vector UInt8 32

def zeroBlock : Block := List.Vector.replicate 32 0

def asciiBytes (s : String) : Bytes := s.toList.map (fun ch => UInt8.ofNat ch.toNat)

/-- The primitives of the blake3, ed25519 and ml-dsa libraries. -/
structure Crypto where
  deriveKey : Bytes → Block → Block
  keyedHash : Block → Bytes → Block
  hash : Bytes → Block
  ed25519PublicKey : Block → Block
  ed25519Sign : Block → Bytes → List.Vector UInt8 64
  ed25519KeyParses : Block → Bool
  ed25519VerifyStrict : Block → Bytes → List.Vector UInt8 64 → Bool
  mldsaVerify : Bytes → Bytes → Bytes → Bool

inductive PqcSignError where
  | provider (message : String)
  deriving DecidableEq, Repr

/-- A provider may answer every call differently; calls are numbered. -/
structure PqcSigner where
  sign : ℕ → Bytes → Except PqcSignError Bytes
  verifyingKeyBytes : Bytes

inductive SignatureClass where
  | none
  | ed25519 (signingKey verifyingKey : Block)
  | hybrid (ed25519SigningKey ed25519VerifyingKey : Block) (pqcSigner : PqcSigner)

structure HybridSignature where
  ed25519 : List.Vector UInt8 64
  pqc : Bytes
  deriving DecidableEq

def WAL_SIG_DOMAIN : Bytes := asciiBytes "arkhe-kernel v0.14 WAL record signature domain"

def domainSeparated (bodyBytes : Bytes) : Bytes := WAL_SIG_DOMAIN ++ bodyBytes

theorem domainSeparated_injective : Function.Injective domainSeparated := by
  intro a b h
  exact List.append_cancel_left h

namespace SignatureClass

def newEd25519FromSecret (c : Crypto) (secret : Block) : SignatureClass :=
  .ed25519 secret (c.ed25519PublicKey secret)

def verifyingKeyBytes : SignatureClass → Option Block
  | .none => Option.none
  | .ed25519 _ vk => some vk
  | .hybrid _ vk _ => some vk

def verifyingKeyPqcBytes : SignatureClass → Option Bytes
  | .none => Option.none
  | .ed25519 .. => Option.none
  | .hybrid _ _ signer => some signer.verifyingKeyBytes

def sign (c : Crypto) (bodyBytes : Bytes) : SignatureClass → Option (List.Vector UInt8 64)
  | .none => Option.none
  | .ed25519 sk _ => some (c.ed25519Sign sk (domainSeparated bodyBytes))
  | .hybrid sk _ _ => some (c.ed25519Sign sk (domainSeparated bodyBytes))

/-- No pair is returned when the provider fails; the caller then falls back to
the Ed25519 signature alone. -/
def signHybrid (c : Crypto) (call : ℕ) (bodyBytes : Bytes) : SignatureClass → Option HybridSignature
  | .hybrid sk _ signer =>
    match signer.sign call (domainSeparated bodyBytes) with
    | .ok pqc => some ⟨c.ed25519Sign sk (domainSeparated bodyBytes),pqc⟩
    | .error _ => Option.none
  | _ => Option.none

/-- The signer does not fail and its signatures verify under its keys. -/
def Faithful (c : Crypto) : SignatureClass → Prop
  | .none => True
  | .ed25519 sk vk => c.ed25519KeyParses vk = true ∧
      ∀ msg, c.ed25519VerifyStrict vk msg (c.ed25519Sign sk msg) = true
  | .hybrid sk vk signer => c.ed25519KeyParses vk = true ∧
      (∀ msg, c.ed25519VerifyStrict vk msg (c.ed25519Sign sk msg) = true) ∧
      signer.verifyingKeyBytes.length = 1952 ∧
      ∀ call msg, ∃ sig, signer.sign call msg = .ok sig ∧ sig.length = 3309 ∧
        c.mldsaVerify signer.verifyingKeyBytes msg sig = true

end SignatureClass

inductive VerifierInitError where
  | invalidEd25519Key
  | invalidPqcKey
  | pqcWithoutEd25519
  deriving DecidableEq, Repr

inductive SignatureVerifyError where
  | wrongLength
  | mismatch
  deriving DecidableEq, Repr

inductive VerifierClass where
  | none
  | ed25519 (vk : Block)
  | hybrid (vk : Block) (pqc : Bytes)
  deriving DecidableEq

namespace VerifierClass

def fromHeaderBytes (c : Crypto) (vkEd25519 : Option Block) (vkPqc : Option Bytes) :
    Except VerifierInitError VerifierClass :=
  match vkEd25519, vkPqc with
  | Option.none, Option.none => .ok .none
  | some vk, Option.none =>
    if c.ed25519KeyParses vk then .ok (.ed25519 vk) else .error .invalidEd25519Key
  | some vk, some vkp =>
    if c.ed25519KeyParses vk then
      if vkp.length ≠ 1952 then .error .invalidPqcKey else .ok (.hybrid vk vkp)
    else .error .invalidEd25519Key
  | Option.none, some _ => .error .pqcWithoutEd25519

def verifyEd25519 (c : Crypto) (vk : Block) (bodyBytes sig : Bytes) :
    Except SignatureVerifyError Unit :=
  if h : sig.length = 64 then
    if c.ed25519VerifyStrict vk (domainSeparated bodyBytes) ⟨sig,h⟩ then .ok ()
    else .error .mismatch
  else .error .wrongLength

def verifyMldsa (c : Crypto) (vk : Bytes) (msg sig : Bytes) : Except SignatureVerifyError Unit :=
  if sig.length ≠ 3309 then .error .wrongLength
  else if c.mldsaVerify vk msg sig then .ok () else .error .mismatch

/-- Both signatures must verify; every post-quantum failure counts as a mismatch. -/
def verifyHybrid (c : Crypto) (vk : Block) (pqc : Bytes) (bodyBytes sig sigPqc : Bytes) :
    Except SignatureVerifyError Unit :=
  match verifyEd25519 c vk bodyBytes sig with
  | .error e => .error e
  | .ok () =>
    match verifyMldsa c pqc (domainSeparated bodyBytes) sigPqc with
    | .ok () => .ok ()
    | .error _ => .error .mismatch

theorem verifyEd25519_sign {c : Crypto} {vk sk : Block} {body : Bytes}
    (h : ∀ msg, c.ed25519VerifyStrict vk msg (c.ed25519Sign sk msg) = true) :
    verifyEd25519 c vk body (c.ed25519Sign sk (domainSeparated body)).toList = .ok () := by
  unfold verifyEd25519
  rw [dif_pos (c.ed25519Sign sk (domainSeparated body)).toList_length]
  exact if_pos (h _)

theorem verifyHybrid_ok {c : Crypto} {vk : Block} {pqc body sig sigPqc : Bytes}
    (h : verifyHybrid c vk pqc body sig sigPqc = .ok ()) :
    verifyEd25519 c vk body sig = .ok () ∧
      verifyMldsa c pqc (domainSeparated body) sigPqc = .ok () := by
  unfold verifyHybrid at h
  split at h
  · cases h
  · next he =>
    split at h
    · next hm => exact ⟨he,hm⟩
    · cases h

end VerifierClass

def blockOfNat (n : ℕ) : Block := List.Vector.ofFn (fun i => UInt8.ofNat (n/256^i.val))

def natOfBytes (bs : Bytes) : ℕ := bs.foldl (fun n b => n*256+b.toNat) 1

def standInSign (secret : Block) (msg : Bytes) : List.Vector UInt8 64 :=
  ⟨secret.toList ++ (blockOfNat (natOfBytes msg%(2^255-19))).toList,by simp⟩

/-- Small computable primitives for evaluating the model: digests are residues
of the input, a public key is its secret, and verifying recomputes. -/
def standIn : Crypto where
  deriveKey _ material := material
  keyedHash key input := blockOfNat (natOfBytes (key.toList++input)%(2^255-19))
  hash input := blockOfNat (natOfBytes input%(2^255-19))
  ed25519PublicKey secret := secret
  ed25519Sign := standInSign
  ed25519KeyParses _ := true
  ed25519VerifyStrict vk msg sig := sig = standInSign vk msg
  mldsaVerify vk msg sig := sig = vk.take 32 ++ (blockOfNat (natOfBytes msg%(2^255-19))).toList

def standInPqcKey : Bytes := List.replicate 1952 7

def standInPqcSign (vk msg : Bytes) : Bytes :=
  vk.take 32 ++ (blockOfNat (natOfBytes msg%(2^255-19))).toList ++ List.replicate 3245 0

def standInPqc : Crypto := { standIn with mldsaVerify vk msg sig := sig = standInPqcSign vk msg }

def standInSigner (up : ℕ → Bool) : PqcSigner where
  sign call msg :=
    if up call then .ok (standInPqcSign standInPqcKey msg) else .error (.provider "unavailable")
  verifyingKeyBytes := standInPqcKey

theorem standInPqcKey_length : standInPqcKey.length = 1952 := List.length_replicate

theorem standInPqcSign_length (msg : Bytes) : (standInPqcSign standInPqcKey msg).length = 3309 := by
  rw [standInPqcSign,List.length_append,List.length_append,List.length_take,
    List.Vector.toList_length,List.length_replicate,standInPqcKey_length]
  rfl

def standInHybrid (secret : Block) (up : ℕ → Bool) : SignatureClass :=
  .hybrid secret secret (standInSigner up)

theorem standIn_hybrid_faithful (secret : Block) :
    (standInHybrid secret (fun _ => true)).Faithful standInPqc := by
  refine ⟨rfl,fun msg => by simp [standInPqc,standIn],standInPqcKey_length,?_⟩
  intro call msg
  exact ⟨_,rfl,standInPqcSign_length msg,by simp [standInPqc,standInSigner]⟩

theorem standIn_ed25519_faithful (secret : Block) :
    (SignatureClass.newEd25519FromSecret standIn secret).Faithful standIn :=
  ⟨rfl,fun msg => by simp [standIn]⟩

end ArkheKernel
