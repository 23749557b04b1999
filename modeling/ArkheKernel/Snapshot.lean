import ArkheKernel.Agreement
import ArkheKernel.IdAllocation

/-!
# Snapshots

A snapshot copies every field of every instance and the instance counter. It is
decoded with a check of the three scheduler tables; observers, actions and the
log are left to the caller.
-/

set_option autoImplicit false

namespace ArkheKernel
open OrderedMap PrefixCode

structure InstanceSnapshot where
  id : InstanceId
  config : InstanceConfig
  entities : BTreeMap EntityId EntityMeta
  components : BTreeMap ComponentKey Bytes
  scheduler : Scheduler
  idCounters : IdCounters
  ledger : ResourceLedger
  inflightRefs : BTreeMap RouteId ℕ
  signalInbox : BTreeMap RouteId (List InboundSignal)
  inboxSeq : ℕ
  wallRemainder : ℕ
  localTick : ℕ

def Instance.toSnapshot (i : Instance) : InstanceSnapshot where
  id := i.id
  config := i.config
  entities := i.entities
  components := i.components
  scheduler := i.scheduler
  idCounters := i.idCounters
  ledger := i.ledger
  inflightRefs := i.inflightRefs
  signalInbox := i.signalInbox
  inboxSeq := i.inboxSeq
  wallRemainder := i.wallRemainder
  localTick := i.localTick

def Instance.fromSnapshot (s : InstanceSnapshot) : Instance where
  id := s.id
  config := s.config
  entities := s.entities
  components := s.components
  scheduler := s.scheduler
  idCounters := s.idCounters
  ledger := s.ledger
  inflightRefs := s.inflightRefs
  signalInbox := s.signalInbox
  inboxSeq := s.inboxSeq
  wallRemainder := s.wallRemainder
  localTick := s.localTick

def InstanceSnapshot.code : Code InstanceSnapshot :=
  comap Instance.code Instance.fromSnapshot (fun _ _ h => congrArg Instance.toSnapshot h)

inductive SnapshotError where
  | serializeFailed (message : String)
  | deserializeFailed (message : String)
  | inconsistent (message : String)
  | integrityMismatch
  deriving DecidableEq

structure KernelSnapshot where
  instances : BTreeMap InstanceId InstanceSnapshot
  nextInstanceId : ℕ

namespace KernelSnapshot

def code : Code KernelSnapshot :=
  comap (pair (mapCode InstanceId.code InstanceSnapshot.code) varint)
    (fun s => (s.instances,s.nextInstanceId)) (by rintro ⟨⟩ ⟨⟩ h; simpa using h)

/-- The encoder into a growable buffer has no failure on these types. -/
def serialize (s : KernelSnapshot) : Except SnapshotError Bytes := .ok (code.encode s)

def checkInstance (p : InstanceId × InstanceSnapshot) : Except String Unit :=
  p.2.scheduler.validate.mapError
    (fun reason => "instance InstanceId(" ++ toString p.1.get ++ "): " ++ reason)

def validateStructure (s : KernelSnapshot) : Except SnapshotError Unit :=
  (checkAll checkInstance s.instances.toList).mapError .inconsistent

section Decode
variable (fromBytes : Bytes → Except String KernelSnapshot)

def deserialize (bytes : Bytes) : Except SnapshotError KernelSnapshot := do
  let s ← (fromBytes bytes).mapError .deserializeFailed
  s.validateStructure
  pure s

def digest (c : Crypto) (bytes : Bytes) : Block := c.hash bytes

def deserializeVerified (c : Crypto) (bytes : Bytes) (expectedDigest : Block) :
    Except SnapshotError KernelSnapshot :=
  if c.hash bytes ≠ expectedDigest then .error .integrityMismatch
  else deserialize fromBytes bytes

end Decode

theorem mapError_ok {ε ε' : Type} {f : ε → ε'} {a : Except ε Unit} :
    a.mapError f = .ok () ↔ a = .ok () := by
  cases a with
  | error e =>
    constructor
    · intro h
      cases h
    · intro h
      cases h
  | ok u => exact ⟨fun _ => rfl,fun _ => rfl⟩

/-- The check accepts exactly the snapshots whose schedulers are all valid. -/
theorem validateStructure_ok (s : KernelSnapshot) : s.validateStructure = .ok () ↔
    ∀ (id : InstanceId) (i : InstanceSnapshot), s.instances[id]? = some i → i.scheduler.Valid := by
  rw [validateStructure,mapError_ok,checkAll_ok]
  constructor
  · intro h id i hi
    have hc := h (id,i) ((mem_toList _ _ _).mpr hi)
    rw [checkInstance,mapError_ok] at hc
    exact Scheduler.validate_ok_iff.mp hc
  · rintro h ⟨id,i⟩ hp
    rw [checkInstance,mapError_ok]
    exact Scheduler.validate_ok_iff.mpr (h id i ((mem_toList _ _ _).mp hp))

theorem deserialize_ok {fromBytes : Bytes → Except String KernelSnapshot} {bytes : Bytes}
    {s : KernelSnapshot} (h : fromBytes bytes = .ok s) (hv : s.validateStructure = .ok ()) :
    deserialize fromBytes bytes = .ok s := by
  unfold deserialize
  rw [h]
  change (do s.validateStructure; pure s) = _
  rw [hv]
  rfl

end KernelSnapshot

namespace Kernel

def snapshot (k : Kernel) : KernelSnapshot where
  instances := k.instances.map (fun _ i => i.toSnapshot)
  nextInstanceId := k.nextInstanceId

def fromSnapshot (s : KernelSnapshot) : Kernel where
  instances := s.instances.map (fun _ i => .fromSnapshot i)
  actionRegistry := ∅
  observers := .new
  nextInstanceId := s.nextInstanceId
  manifestDigest := zeroBlock
  wal := none
  stepScratch := {}

def reregister (k : Kernel) (actions : List (TypeCode × ActionRegistration)) : Kernel :=
  actions.foldl (fun k p => k.registerAction p.1 p.2) k

theorem snapshot_validates {k : Kernel}
    (h : ∀ (id : InstanceId) (i : Instance), k.instances[id]? = some i → i.scheduler.Valid) :
    k.snapshot.validateStructure = .ok () := by
  rw [KernelSnapshot.validateStructure_ok]
  intro id s hs
  change (k.instances.map (fun _ i => i.toSnapshot))[id]? = some s at hs
  rw [get_map] at hs
  obtain ⟨i,hi,rfl⟩ := Option.map_eq_some_iff.mp hs
  exact h id i hi

theorem fromSnapshot_instances (k : Kernel) : (fromSnapshot k.snapshot).instances = k.instances := by
  apply ext_get
  intro id
  change ((k.instances.map (fun _ i => i.toSnapshot)).map (fun _ s => Instance.fromSnapshot s))[id]? =
    k.instances[id]?
  rw [get_map,get_map,Option.map_map]
  exact Option.map_id'

theorem reregister_frame (k : Kernel) (actions : List (TypeCode × ActionRegistration)) :
    k.reregister actions = { k with
      actionRegistry := actions.foldl (fun m p => m.insert p.1 p.2) k.actionRegistry } := by
  induction actions generalizing k with
  | nil => rfl
  | cons p actions ih => exact ih _

end Kernel

theorem insertAll_eq {V : Type} {m : BTreeMap TypeCode V} {ps : List (TypeCode × V)}
    (h : ∀ t v, (t,v) ∈ ps ↔ m[t]? = some v) :
    ps.foldl (fun n p => n.insert p.1 p.2) (∅ : BTreeMap TypeCode V) = m := by
  have hfold : ∀ qs : List (TypeCode × V), (∀ p ∈ qs, m[p.1]? = some p.2) → ∀ t,
      (qs.foldl (fun n p => n.insert p.1 p.2) (∅ : BTreeMap TypeCode V))[t]? =
        if t ∈ qs.map Prod.fst then m[t]? else none := by
    intro qs
    induction qs using List.reverseRecOn with
    | nil => intro _ t; simp
    | append_singleton qs p ih =>
      intro hq t
      have hi := ih (fun q hm => hq q (List.mem_append_left _ hm)) t
      have hp := hq p (by simp)
      rw [List.foldl_append,List.foldl_cons,List.foldl_nil,get_insert,hi]
      have hm : t ∈ (qs ++ [p]).map Prod.fst ↔ t ∈ qs.map Prod.fst ∨ t = p.1 := by simp
      by_cases ht : t = p.1
      · rw [if_pos ht,if_pos (hm.mpr (Or.inr ht)),ht,hp]
      · rw [if_neg ht]
        simp only [hm,ht,or_false]
  apply ext_get
  intro t
  rw [hfold ps (fun p hp => (h p.1 p.2).mp hp)]
  split
  · rfl
  · next hn =>
    cases hm : m[t]? with
    | none => rfl
    | some v => exact absurd (List.mem_map_of_mem ((h t v).mpr hm)) hn

theorem restored_indistinct (k : Kernel) {actions : List (TypeCode × ActionRegistration)}
    (h : ∀ t r, (t,r) ∈ actions ↔ k.actionRegistry[t]? = some r) :
    Indistinct ((Kernel.fromSnapshot k.snapshot).reregister actions) k := by
  rw [Kernel.reregister_frame]
  exact ⟨k.fromSnapshot_instances,insertAll_eq h,rfl,fun w hw => by cases hw⟩

theorem Indistinct.snapshot {k k' : Kernel} (h : Indistinct k k') : k.snapshot = k'.snapshot := by
  unfold Kernel.snapshot
  rw [h.instances,h.counter]

section Reachable
variable (c : Crypto) (manifest : Block) (wal : Option WalWriter) (calls : List Call)

theorem run_valid
    (hb : ∀ j, (scheduledOf j ((Kernel.machine c).trace (.build manifest wal) calls)).length <
      u64Max) (id : InstanceId) (i : Instance)
    (hi : ((Kernel.machine c).run (.build manifest wal) calls).instances[id]? = some i) :
    i.scheduler.Valid := by
  obtain ⟨hq,hn⟩ := Kernel.run_accounted c manifest wal calls id i hi (le_of_lt (hb id))
  have hu : i.Unsaturated := ⟨by rw [hn]; exact hb id,by rw [hq.nextSeq]; exact hb id⟩
  exact (indexed_preserved.reachable c manifest wal calls (fun _ _ => trivial) id i hi hu).valid

/-- The snapshot of a reachable kernel is accepted when it is read back, and the
kernel restored from it, with the same actions, answers every further call as
the original does and has the same snapshot afterwards. -/
theorem snapshot_restore_transparent (fromBytes : Bytes → Except String KernelSnapshot)
    (hfrom : ∀ s, fromBytes (KernelSnapshot.code.encode s) = .ok s)
    (hb : ∀ j, (scheduledOf j ((Kernel.machine c).trace (.build manifest wal) calls)).length <
      u64Max)
    (actions : List (TypeCode × ActionRegistration))
    (ha : ∀ t r, (t,r) ∈ actions ↔
      ((Kernel.machine c).run (.build manifest wal) calls).actionRegistry[t]? = some r) :
    let k := (Kernel.machine c).run (.build manifest wal) calls
    ∃ bytes s, k.snapshot.serialize = .ok bytes ∧
      KernelSnapshot.deserialize fromBytes bytes = .ok s ∧
      ∀ further : List Call,
        let restored := (Kernel.fromSnapshot s).reregister actions
        (Kernel.responding c).trace restored further = (Kernel.responding c).trace k further ∧
        ((Kernel.machine c).run restored further).snapshot =
          ((Kernel.machine c).run k further).snapshot := by
  intro k
  have hv : k.snapshot.validateStructure = .ok () :=
    Kernel.snapshot_validates (run_valid c manifest wal calls hb)
  refine ⟨_,k.snapshot,rfl,KernelSnapshot.deserialize_ok (hfrom _) hv,?_⟩
  intro further restored
  obtain ⟨hagree,hanswers⟩ := (restored_indistinct k ha).run c further
  exact ⟨hanswers,hagree.snapshot⟩

end Reachable

theorem snapshot_restore_transparent_child :
    let k := (Kernel.machine standIn).run (.build zeroBlock none) parentCalls
    ∃ bytes s, k.snapshot.serialize = .ok bytes ∧
      KernelSnapshot.deserialize KernelSnapshot.code.invert bytes = .ok s ∧
      (Kernel.responding standIn).trace
          ((Kernel.fromSnapshot s).reregister k.actionRegistry.toList) [.step ⟨4⟩ .SYSTEM] =
        (Kernel.responding standIn).trace k [.step ⟨4⟩ .SYSTEM] := by
  intro k
  obtain ⟨bytes,s,hb,hs,h⟩ := snapshot_restore_transparent standIn zeroBlock none parentCalls
    KernelSnapshot.code.invert KernelSnapshot.code.invert_encode parentCalls_short
    k.actionRegistry.toList (fun t r => mem_toList _ t r)
  exact ⟨bytes,s,hb,hs,(h [.step ⟨4⟩ .SYSTEM]).1⟩

end ArkheKernel
