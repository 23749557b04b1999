import ArkheKernel.Signature

/-!
# Log records and their canonical bodies

A record holds one non-reproducible fact: an admitted submission, or the
outcome of one pop. What is hashed and signed is a separate body type that
mirrors the stored content field by field and appends the previous hash.
-/

set_option autoImplicit false

namespace ArkheKernel
open OrderedMap PrefixCode

inductive SkipReason where
  | unregistered
  | deserFailed
  deriving DecidableEq, Repr

inductive StepVerdict where
  | committed
  | authDenied
  | budgetPartial (denied : ℕ)
  | skipped (reason : SkipReason)
  deriving DecidableEq, Repr

inductive WalRecordContent where
  | submit (seq : ℕ) (inst : InstanceId) (principal : Principal) (actor : Option EntityId)
      (capsAtSubmit : BitVec 64) (atTick : Tick) (actionTypeCode : TypeCode) (actionBytes : Bytes)
      (allocatedId : ScheduledActionId)
  | step (seq : ℕ) (inst : InstanceId) (poppedId : ScheduledActionId) (now : Tick)
      (sessionCaps : BitVec 64) (verdict : StepVerdict) (postStateDigest : Block)
  deriving DecidableEq

def WalRecordContent.seq : WalRecordContent → ℕ
  | .submit seq .. => seq
  | .step seq .. => seq

structure WalRecord where
  content : WalRecordContent
  prevChainHash : Block
  thisChainHash : Block
  signature : Option Bytes
  signaturePqc : Option Bytes
  deriving DecidableEq

inductive WalRecordBodyContent where
  | submit (seq : ℕ) (inst : InstanceId) (principal : Principal) (actor : Option EntityId)
      (capsAtSubmit : BitVec 64) (atTick : Tick) (actionTypeCode : TypeCode) (actionBytes : Bytes)
      (allocatedId : ScheduledActionId)
  | step (seq : ℕ) (inst : InstanceId) (poppedId : ScheduledActionId) (now : Tick)
      (sessionCaps : BitVec 64) (verdict : StepVerdict) (postStateDigest : Block)
  deriving DecidableEq

structure WalRecordBody where
  content : WalRecordBodyContent
  prevChainHash : Block
  deriving DecidableEq

def WalRecordBody.fromContent (content : WalRecordContent) (prev : Block) : WalRecordBody where
  content := match content with
    | .submit seq inst principal actor caps atTick typeCode actionBytes id =>
      .submit seq inst principal actor caps atTick typeCode actionBytes id
    | .step seq inst poppedId now caps verdict digest =>
      .step seq inst poppedId now caps verdict digest
  prevChainHash := prev

def WalRecordBody.fromRecord (rec : WalRecord) (prev : Block) : WalRecordBody :=
  .fromContent rec.content prev

theorem WalRecordBody.fromContent_inj {a b : WalRecordContent} {p q : Block}
    (h : fromContent a p = fromContent b q) : a = b ∧ p = q := by
  obtain ⟨hc,hp⟩ := WalRecordBody.mk.inj h
  refine ⟨?_,hp⟩
  cases a <;> cases b <;> simp_all

def SkipReason.tag : SkipReason → ℕ
  | .unregistered => 0
  | .deserFailed => 1

def SkipReason.code : Code SkipReason :=
  comap varint SkipReason.tag (by intro a b h; cases a <;> cases b <;> first | rfl | cases h)

def StepVerdict.tag : StepVerdict → ℕ
  | .committed => 0
  | .authDenied => 1
  | .budgetPartial _ => 2
  | .skipped _ => 3

def StepVerdict.payload : StepVerdict → Bytes
  | .budgetPartial denied => varint.encode denied
  | .skipped reason => SkipReason.code.encode reason
  | _ => []

theorem StepVerdict.payload_delimits (a b : StepVerdict) (r s : Bytes) (ht : a.tag = b.tag)
    (h : a.payload ++ r = b.payload ++ s) : a = b ∧ r = s := by
  cases a with
  | committed => cases b <;> first | exact ⟨rfl,h⟩ | cases ht
  | authDenied => cases b <;> first | exact ⟨rfl,h⟩ | cases ht
  | budgetPartial m =>
    cases b with
    | budgetPartial n =>
      obtain ⟨rfl,hr⟩ := varint.delimits _ _ _ _ h
      exact ⟨rfl,hr⟩
    | _ => cases ht
  | skipped m =>
    cases b with
    | skipped n =>
      obtain ⟨rfl,hr⟩ := SkipReason.code.delimits _ _ _ _ h
      exact ⟨rfl,hr⟩
    | _ => cases ht

def StepVerdict.code : Code StepVerdict := enum StepVerdict.tag StepVerdict.payload payload_delimits

abbrev SubmitFields := ℕ × InstanceId × Principal × Option EntityId × BitVec 64 × Tick × TypeCode ×
  Bytes × ScheduledActionId

def submitFields : Code SubmitFields :=
  pair varint (pair InstanceId.code (pair Principal.code (pair (option EntityId.code)
    (pair u64BitsCode (pair Tick.code (pair TypeCode.code (pair bytes ScheduledActionId.code)))))))

abbrev StepFields := ℕ × InstanceId × ScheduledActionId × Tick × BitVec 64 × StepVerdict × Block

def stepFields : Code StepFields :=
  pair varint (pair InstanceId.code (pair ScheduledActionId.code (pair Tick.code
    (pair u64BitsCode (pair StepVerdict.code (fixed 32))))))

def WalRecordBodyContent.tag : WalRecordBodyContent → ℕ
  | .submit .. => 0
  | .step .. => 1

def WalRecordBodyContent.payload : WalRecordBodyContent → Bytes
  | .submit seq inst principal actor caps atTick typeCode actionBytes id =>
    submitFields.encode (seq,inst,principal,actor,caps,atTick,typeCode,actionBytes,id)
  | .step seq inst poppedId now caps verdict digest =>
    stepFields.encode (seq,inst,poppedId,now,caps,verdict,digest)

theorem WalRecordBodyContent.payload_delimits (a b : WalRecordBodyContent) (r s : Bytes)
    (ht : a.tag = b.tag) (h : a.payload ++ r = b.payload ++ s) : a = b ∧ r = s := by
  cases a with
  | submit =>
    cases b with
    | submit =>
      obtain ⟨he,hr⟩ := submitFields.delimits _ _ _ _ h
      exact ⟨by simpa using he,hr⟩
    | step => cases ht
  | step =>
    cases b with
    | submit => cases ht
    | step =>
      obtain ⟨he,hr⟩ := stepFields.delimits _ _ _ _ h
      exact ⟨by simpa using he,hr⟩

def WalRecordBodyContent.code : Code WalRecordBodyContent :=
  enum WalRecordBodyContent.tag WalRecordBodyContent.payload payload_delimits

def WalRecordBody.code : Code WalRecordBody :=
  comap (pair WalRecordBodyContent.code (fixed 32)) (fun b => (b.content,b.prevChainHash))
    (by rintro ⟨⟩ ⟨⟩ h; simpa using h)

/-- The bytes that are hashed and signed for a content after a previous hash. -/
def bodyBytes (content : WalRecordContent) (prev : Block) : Bytes :=
  WalRecordBody.code.encode (.fromContent content prev)

theorem bodyBytes_inj {a b : WalRecordContent} {p q : Block} (h : bodyBytes a p = bodyBytes b q) :
    a = b ∧ p = q :=
  WalRecordBody.fromContent_inj (WalRecordBody.code.injective h)

end ArkheKernel
