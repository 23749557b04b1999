import ArkheKernel.WalChain

/-!
# The stored record and the sealed body

What is hashed and signed is encoded from a body type of its own. Here the
stored types are encoded field by field, in the order of their declarations, and
compared with the body.
-/

set_option autoImplicit false

namespace ArkheKernel
open PrefixCode

def WalRecordContent.encode : WalRecordContent → Bytes
  | .submit seq inst principal actor capsAtSubmit atTick actionTypeCode actionBytes allocatedId =>
    varint.encode 0 ++ varint.encode seq ++ InstanceId.code.encode inst ++
      Principal.code.encode principal ++ (option EntityId.code).encode actor ++
      u64BitsCode.encode capsAtSubmit ++ Tick.code.encode atTick ++
      TypeCode.code.encode actionTypeCode ++ bytes.encode actionBytes ++
      ScheduledActionId.code.encode allocatedId
  | .step seq inst poppedId now sessionCaps verdict postStateDigest =>
    varint.encode 1 ++ varint.encode seq ++ InstanceId.code.encode inst ++
      ScheduledActionId.code.encode poppedId ++ Tick.code.encode now ++
      u64BitsCode.encode sessionCaps ++ StepVerdict.code.encode verdict ++ postStateDigest.toList

def WalRecord.encode (r : WalRecord) : Bytes :=
  r.content.encode ++ r.prevChainHash.toList ++ r.thisChainHash.toList ++
    (option bytes).encode r.signature ++ (option bytes).encode r.signaturePqc

theorem bodyBytes_eq (content : WalRecordContent) (prev : Block) :
    bodyBytes content prev = content.encode ++ prev.toList := by
  cases content with
  | submit seq inst principal actor caps atTick typeCode actionBytes id =>
    simp only [bodyBytes,WalRecordBody.code,WalRecordBody.fromContent,WalRecordBodyContent.code,
      WalRecordBodyContent.tag,WalRecordBodyContent.payload,submitFields,comap,pair,enum,fixed,
      WalRecordContent.encode,List.append_assoc]
  | step seq inst poppedId now caps verdict digest =>
    simp only [bodyBytes,WalRecordBody.code,WalRecordBody.fromContent,WalRecordBodyContent.code,
      WalRecordBodyContent.tag,WalRecordBodyContent.payload,stepFields,comap,pair,enum,fixed,
      WalRecordContent.encode,List.append_assoc]

/-- The sealed body is the stored content followed by the previous hash, and no
two contents or previous hashes share a body. -/
theorem body_matches_record :
    (∀ content prev, bodyBytes content prev = content.encode ++ prev.toList) ∧
    Function.Injective (fun x : WalRecordContent × Block => bodyBytes x.1 x.2) := by
  constructor
  · exact bodyBytes_eq
  · intro ⟨a,p⟩ ⟨b,q⟩ h
    obtain ⟨hc,hp⟩ := bodyBytes_inj h
    exact Prod.ext hc hp

end ArkheKernel
