import ArkheKernel.OrderedMap
import ArkheKernel.PrefixCode

/-!
# Identifiers, authority and saturating arithmetic

Unsigned counters are natural numbers that saturate at the maximum of their
machine type. Identifiers that exclude zero carry the exclusion, and the bound
of the machine type, as fields.
-/

set_option autoImplicit false

namespace ArkheKernel
open OrderedMap PrefixCode

def u32Max : ℕ := 2^32-1

def u64Max : ℕ := 2^64-1

def satAdd32 (a b : ℕ) : ℕ := min (a+b) u32Max

def satAdd64 (a b : ℕ) : ℕ := min (a+b) u64Max

def satAdd128 (a b : ℕ) : ℕ := min (a+b) (2^128-1)

theorem satAdd64_le (a b : ℕ) : satAdd64 a b ≤ u64Max := Nat.min_le_right _ _

theorem satAdd64_pos (a : ℕ) : 0 < satAdd64 a 1 := by
  unfold satAdd64 u64Max
  omega

theorem satAdd64_eq {a b : ℕ} (h : a+b ≤ u64Max) : satAdd64 a b = a+b := Nat.min_eq_left h

structure NonZeroU64 where
  get : ℕ
  pos : 0 < get
  le : get ≤ u64Max
  deriving DecidableEq, Repr

theorem NonZeroU64.get_injective : Function.Injective NonZeroU64.get := by
  rintro ⟨a,ha,_⟩ ⟨b,hb,_⟩ h
  simpa using h

instance : LinearOrder NonZeroU64 := LinearOrder.lift' NonZeroU64.get NonZeroU64.get_injective

def NonZeroU64.succ (n : ℕ) : NonZeroU64 := ⟨satAdd64 n 1,satAdd64_pos n,satAdd64_le n 1⟩

def NonZeroU64.code : Code NonZeroU64 := comap varint NonZeroU64.get NonZeroU64.get_injective

structure InstanceId where
  raw : NonZeroU64
  deriving DecidableEq, Repr

theorem InstanceId.raw_injective : Function.Injective InstanceId.raw := by
  rintro ⟨a⟩ ⟨b⟩ h
  simpa using h

instance : LinearOrder InstanceId := LinearOrder.lift' InstanceId.raw InstanceId.raw_injective

def InstanceId.get (i : InstanceId) : ℕ := i.raw.get

def InstanceId.code : Code InstanceId := comap NonZeroU64.code InstanceId.raw InstanceId.raw_injective

structure EntityId where
  raw : NonZeroU64
  deriving DecidableEq, Repr

theorem EntityId.raw_injective : Function.Injective EntityId.raw := by
  rintro ⟨a⟩ ⟨b⟩ h
  simpa using h

instance : LinearOrder EntityId := LinearOrder.lift' EntityId.raw EntityId.raw_injective

def EntityId.code : Code EntityId := comap NonZeroU64.code EntityId.raw EntityId.raw_injective

structure ScheduledActionId where
  raw : NonZeroU64
  deriving DecidableEq, Repr

theorem ScheduledActionId.raw_injective : Function.Injective ScheduledActionId.raw := by
  rintro ⟨a⟩ ⟨b⟩ h
  simpa using h

instance : LinearOrder ScheduledActionId :=
  LinearOrder.lift' ScheduledActionId.raw ScheduledActionId.raw_injective

def ScheduledActionId.get (i : ScheduledActionId) : ℕ := i.raw.get

def ScheduledActionId.code : Code ScheduledActionId :=
  comap NonZeroU64.code ScheduledActionId.raw ScheduledActionId.raw_injective

structure Tick where
  val : ℕ
  deriving DecidableEq, Repr

theorem Tick.val_injective : Function.Injective Tick.val := by
  rintro ⟨a⟩ ⟨b⟩ h
  simpa using h

instance : LinearOrder Tick := LinearOrder.lift' Tick.val Tick.val_injective

def Tick.code : Code Tick := comap varint Tick.val Tick.val_injective

/-- Type codes are bounded, because despawning scans a closed range of them. -/
structure TypeCode where
  val : ℕ
  le : val ≤ u32Max
  deriving DecidableEq, Repr

theorem TypeCode.val_injective : Function.Injective TypeCode.val := by
  rintro ⟨a,_⟩ ⟨b,_⟩ h
  simpa using h

instance : LinearOrder TypeCode := LinearOrder.lift' TypeCode.val TypeCode.val_injective

def TypeCode.code : Code TypeCode := comap varint TypeCode.val TypeCode.val_injective

def TypeCode.clamp (n : ℕ) : TypeCode := ⟨min n u32Max,Nat.min_le_right n u32Max⟩

def TypeCode.zero : TypeCode := ⟨0,Nat.zero_le _⟩

def TypeCode.max : TypeCode := ⟨u32Max,le_refl _⟩

theorem TypeCode.zero_le (t : TypeCode) : TypeCode.zero ≤ t := Nat.zero_le t.val

theorem TypeCode.le_max (t : TypeCode) : t ≤ TypeCode.max := t.le

structure RouteId where
  val : ℕ
  deriving DecidableEq, Repr

theorem RouteId.val_injective : Function.Injective RouteId.val := by
  rintro ⟨a⟩ ⟨b⟩ h
  simpa using h

instance : LinearOrder RouteId := LinearOrder.lift' RouteId.val RouteId.val_injective

def RouteId.code : Code RouteId := comap varint RouteId.val RouteId.val_injective

structure ExternalId where
  val : ℕ
  deriving DecidableEq, Repr

inductive Principal where
  | unauthenticated
  | external (id : ExternalId)
  | system
  deriving DecidableEq, Repr

def Principal.tag : Principal → ℕ
  | .unauthenticated => 0
  | .external _ => 1
  | .system => 2

def Principal.payload : Principal → Bytes
  | .external e => varint.encode e.val
  | _ => []

def Principal.code : Code Principal := enum Principal.tag Principal.payload (by
  rintro (_ | ⟨⟨a⟩⟩ | _) (_ | ⟨⟨b⟩⟩ | _) r s ht h <;>
    simp only [Principal.tag, Principal.payload, OfNat.zero_ne_ofNat,
      OfNat.ofNat_ne_zero, OfNat.one_ne_ofNat, OfNat.ofNat_ne_one, zero_ne_one, one_ne_zero] at ht h ⊢
  · exact ⟨trivial,h⟩
  · obtain ⟨rfl,hr⟩ := varint.delimits _ _ _ _ h
    exact ⟨rfl,hr⟩
  · exact ⟨trivial,h⟩)

structure CapabilityMask where
  bits : BitVec 64
  deriving DecidableEq, Repr

namespace CapabilityMask

def empty : CapabilityMask := ⟨0⟩
def SYSTEM : CapabilityMask := ⟨1⟩
def ADMIN_UNLOAD : CapabilityMask := ⟨2⟩

def inter (a b : CapabilityMask) : CapabilityMask := ⟨a.bits &&& b.bits⟩

instance : AndOp CapabilityMask := ⟨inter⟩

def contains (a b : CapabilityMask) : Bool := a.bits &&& b.bits = b.bits

def Subset (a b : CapabilityMask) : Prop := b.contains a = true

theorem and_bits (a b : CapabilityMask) : (a &&& b).bits = a.bits &&& b.bits := rfl

theorem contains_iff (a b : CapabilityMask) : a.contains b = true ↔ a.bits &&& b.bits = b.bits := by
  simp [contains]

theorem Subset.refl (a : CapabilityMask) : Subset a a := by
  rw [Subset, contains_iff, BitVec.and_self]

theorem Subset.trans {a b c : CapabilityMask} (hab : Subset a b) (hbc : Subset b c) :
    Subset a c := by
  rw [Subset, contains_iff] at *
  rw [← hab, ← BitVec.and_assoc, hbc]

theorem and_subset_left (a b : CapabilityMask) : Subset (a &&& b) a := by
  rw [Subset, contains_iff, and_bits, ← BitVec.and_assoc, BitVec.and_self]

theorem and_subset_right (a b : CapabilityMask) : Subset (a &&& b) b := by
  rw [Subset, contains_iff, and_bits, BitVec.and_comm a.bits, ← BitVec.and_assoc, BitVec.and_self]

theorem empty_subset (a : CapabilityMask) : Subset empty a := by
  rw [Subset, contains_iff]
  exact BitVec.and_zero

theorem Subset.contains {a b m : CapabilityMask} (h : Subset a b) (ha : a.contains m = true) :
    b.contains m = true := Subset.trans ha h

theorem bits_injective : Function.Injective CapabilityMask.bits := by
  rintro ⟨a⟩ ⟨b⟩ h
  simpa using h

end CapabilityMask

def u64BitsCode : Code (BitVec 64) := comap varint BitVec.toNat (fun _ _ h => BitVec.eq_of_toNat_eq h)

def CapabilityMask.code : Code CapabilityMask :=
  comap u64BitsCode CapabilityMask.bits CapabilityMask.bits_injective

inductive ArkheError where
  | instanceNotFound
  | capabilityDenied
  | quotaExceeded
  deriving DecidableEq, Repr

end ArkheKernel
