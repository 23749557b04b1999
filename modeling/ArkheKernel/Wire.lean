import ArkheKernel.Abi
import ArkheKernel.Reader

/-!
# The types of the interface, read back

Stored values are read field by field with the widths of their machine types.
What a reader can return is exactly what fits those widths. The order of the
fields is that of the derived encodings, in the documented format of postcard.
-/

set_option autoImplicit false

namespace ArkheKernel
open PrefixCode

theorem readU64_fits : Reads readU64 varint.encode (fun n => n ≤ u64Max) :=
  readU64_reads.congr (fun n => by unfold u64Max; omega)

theorem readU32_fits : Reads readU32 varint.encode (fun n => n ≤ u32Max) :=
  readU32_reads.congr (fun n => by unfold u32Max; omega)

def readNonZero : Reader NonZeroU64 :=
  readU64.map (fun n => if h : 0 < n ∧ n ≤ u64Max then some ⟨n,h.1,h.2⟩ else none)

def readInstanceId : Reader InstanceId := readNonZero.map (fun raw => some ⟨raw⟩)

def readEntityId : Reader EntityId := readNonZero.map (fun raw => some ⟨raw⟩)

def readScheduledActionId : Reader ScheduledActionId := readNonZero.map (fun raw => some ⟨raw⟩)

def readTick : Reader Tick := readU64.map (fun n => some ⟨n⟩)

def readTypeCode : Reader TypeCode := readU32.map (fun n => if h : n ≤ u32Max then some ⟨n,h⟩ else none)

def readU64Bits : Reader (BitVec 64) := readU64.map (fun n => some (.ofNat 64 n))

def readBytes : Reader Bytes := .list readU64 readByte

def Principal.Fits : Principal → Prop
  | .external id => id.val ≤ u64Max
  | _ => True

def Principal.variant : ℕ → Option (Reader Principal)
  | 0 => some (.pure .unauthenticated)
  | 1 => some (readU64.map (fun n => some (.external ⟨n⟩)))
  | 2 => some (.pure .system)
  | _ => none

def readPrincipal : Reader Principal := .enum readU32 Principal.variant

theorem readNonZero_reads : Reads readNonZero NonZeroU64.code.encode (fun _ => True) :=
  readU64_fits.map (fun b _ => ⟨b.get,b.le,rfl,dif_pos ⟨b.pos,b.le⟩⟩) (fun _ _ _ _ => trivial)

theorem readInstanceId_reads : Reads readInstanceId InstanceId.code.encode (fun _ => True) :=
  readNonZero_reads.comap (fun _ => rfl) (fun _ => rfl)

theorem readEntityId_reads : Reads readEntityId EntityId.code.encode (fun _ => True) :=
  readNonZero_reads.comap (fun _ => rfl) (fun _ => rfl)

theorem readScheduledActionId_reads :
    Reads readScheduledActionId ScheduledActionId.code.encode (fun _ => True) :=
  readNonZero_reads.comap (fun _ => rfl) (fun _ => rfl)

theorem readTick_reads : Reads readTick Tick.code.encode (fun t => t.val ≤ u64Max) :=
  readU64_fits.comap (fun _ => rfl) (fun _ => rfl)

theorem readTypeCode_reads : Reads readTypeCode TypeCode.code.encode (fun _ => True) :=
  readU32_fits.map (fun t _ => ⟨t.val,t.le,rfl,dif_pos t.le⟩) (fun _ _ _ _ => trivial)

theorem readU64Bits_reads : Reads readU64Bits u64BitsCode.encode (fun _ => True) := by
  refine readU64_reads.map (fun b _ => ⟨b.toNat,b.isLt,rfl,?_⟩) (fun _ _ _ _ => trivial)
  rw [BitVec.ofNat_toNat,BitVec.setWidth_eq]

theorem readBytes_reads : Reads readBytes bytes.encode (fun bs => bs.length ≤ u64Max) :=
  (readU64_fits.list readByte_reads).congr (fun _ => ⟨fun h => ⟨h,fun _ _ => trivial⟩,And.left⟩)

theorem Principal.variant_reads (n : ℕ) (R : Reader Principal) (h : Principal.variant n = some R) :
    Reads R Principal.payload (fun p => p.Fits ∧ p.tag = n) := by
  match n with
  | 0 =>
    cases h
    exact .pure rfl (fun p => by cases p <;> simp [Fits,tag])
  | 1 =>
    cases h
    refine readU64_fits.map ?_ ?_
    · rintro p ⟨hp,ht⟩
      cases p with
      | external id => exact ⟨id.val,hp,rfl,rfl⟩
      | _ => cases ht
    · intro id p hid hp
      cases hp
      exact ⟨hid,rfl⟩
  | 2 =>
    cases h
    exact .pure rfl (fun p => by cases p <;> simp [Fits,tag])
  | _+3 => cases h

theorem readPrincipal_reads : Reads readPrincipal Principal.code.encode Principal.Fits :=
  readU32_fits.enum (fun _ => rfl) (fun p => by cases p <;> exact ⟨by simp [Principal.tag,u32Max],rfl⟩)
    Principal.variant_reads

end ArkheKernel
