import ArkheKernel.Ledger
import ArkheKernel.Scheduler

/-!
# Instance state

The state container of one instance, its mutators, and the canonical encoding
of all its fields that the state digest hashes.
-/

set_option autoImplicit false

namespace ArkheKernel
open OrderedMap PrefixCode

inductive QuotaReductionPolicy where
  | reject
  | grandfatherExisting
  | throttleProportional
  deriving DecidableEq, Repr

structure InstanceConfig where
  defaultCaps : CapabilityMask := .empty
  maxEntities : ℕ := 0
  maxScheduled : ℕ := 0
  maxInboxPerRoute : ℕ := 0
  memoryBudgetBytes : ℕ := 0
  parent : Option InstanceId := none
  quotaReduction : QuotaReductionPolicy := .reject
  deriving DecidableEq, Repr

structure EntityMeta where
  owner : Principal
  created : Tick
  deriving DecidableEq, Repr

structure InboundSignal where
  source : InstanceId
  principal : Principal
  payload : Bytes
  seq : ℕ
  deriving DecidableEq

structure IdCounters where
  nextEntity : ℕ := 0
  nextScheduled : ℕ := 0
  nextSourceSeq : ℕ := 0
  deriving DecidableEq, Repr

structure Instance where
  id : InstanceId
  config : InstanceConfig
  entities : BTreeMap EntityId EntityMeta
  components : BTreeMap ComponentKey Bytes
  scheduler : Scheduler
  idCounters : IdCounters
  ledger : ResourceLedger
  inflightRefs : BTreeMap RouteId ℕ
  signalInbox : BTreeMap RouteId (List InboundSignal)
  inboxSeq : ℕ
  wallRemainder : ℕ
  localTick : ℕ

namespace Instance

def new (id : InstanceId) (config : InstanceConfig) : Instance :=
  { id, config, entities := ∅, components := ∅, scheduler := .new, idCounters := {},
    ledger := .new, inflightRefs := ∅, signalInbox := ∅, inboxSeq := 0, wallRemainder := 0,
    localTick := 0 }

def entitiesLen (i : Instance) : ℕ := i.entities.size

def componentsLen (i : Instance) : ℕ := i.components.size

def insertEntity (i : Instance) (id : EntityId) (m : EntityMeta) : Instance :=
  { i with entities := i.entities.insert id m }

def removeEntity (i : Instance) (id : EntityId) : Instance :=
  { i with
    components := eraseAll i.components (rowsOf id i.components)
    entities := i.entities.erase id }

def insertComponent (i : Instance) (key : ComponentKey) (bytes : Bytes) : Instance :=
  { i with components := i.components.insert key bytes }

def removeComponent (i : Instance) (key : ComponentKey) : Instance :=
  { i with components := i.components.erase key }

def inboxLen (i : Instance) (route : RouteId) : ℕ :=
  match i.signalInbox[route]? with
  | some queue => queue.length
  | none => 0

def deliverSignal (i : Instance) (route : RouteId) (signal : InboundSignal) : Instance :=
  { i with
    inboxSeq := satAdd64 i.inboxSeq 1
    signalInbox := i.signalInbox.insert route
      (i.signalInbox.getD route [] ++ [{ signal with seq := i.inboxSeq }]) }

def creditRef (i : Instance) (route : RouteId) : Instance :=
  { i with inflightRefs := i.inflightRefs.insert route (satAdd32 (i.inflightRefs.getD route 0) 1) }

theorem removeEntity_mem (i : Instance) (id : EntityId) (k : ComponentKey) :
    k ∈ (i.removeEntity id).components ↔ k.entity ≠ id ∧ k ∈ i.components := by
  have he : k ∈ (i.removeEntity id).components ↔ k ∉ rowsOf id i.components ∧ k ∈ i.components :=
    mem_eraseAll _ _ _
  rw [he,mem_rowsOf]
  constructor
  · intro ⟨hn,hk⟩
    exact ⟨fun hc => hn ⟨hk,hc⟩,hk⟩
  · intro ⟨hn,hk⟩
    exact ⟨fun hc => hn hc.2,hk⟩

end Instance

def mapCode {K V : Type} [LinearOrder K] (A : Code K) (B : Code V) : Code (BTreeMap K V) :=
  comap (list (pair A B)) Std.ExtTreeMap.toList (fun _ _ h => Std.ExtTreeMap.toList_inj.mp h)

def setCode {K : Type} [LinearOrder K] (A : Code K) : Code (BTreeSet K) :=
  comap (list A) Std.ExtTreeSet.toList (fun _ _ h => Std.ExtTreeSet.toList_inj.mp h)

def QuotaReductionPolicy.tag : QuotaReductionPolicy → ℕ
  | .reject => 0
  | .grandfatherExisting => 1
  | .throttleProportional => 2

def QuotaReductionPolicy.code : Code QuotaReductionPolicy :=
  comap varint QuotaReductionPolicy.tag (by intro a b h; cases a <;> cases b <;> first | rfl | cases h)

def InstanceConfig.code : Code InstanceConfig :=
  comap (pair CapabilityMask.code (pair varint (pair varint (pair varint (pair varint
      (pair (option InstanceId.code) QuotaReductionPolicy.code))))))
    (fun c => (c.defaultCaps,c.maxEntities,c.maxScheduled,c.maxInboxPerRoute,c.memoryBudgetBytes,
      c.parent,c.quotaReduction))
    (by rintro ⟨⟩ ⟨⟩ h; simpa using h)

def EntityMeta.code : Code EntityMeta :=
  comap (pair Principal.code Tick.code) (fun m => (m.owner,m.created))
    (by rintro ⟨⟩ ⟨⟩ h; simpa using h)

def InboundSignal.code : Code InboundSignal :=
  comap (pair InstanceId.code (pair Principal.code (pair bytes varint)))
    (fun s => (s.source,s.principal,s.payload,s.seq)) (by rintro ⟨⟩ ⟨⟩ h; simpa using h)

def ScheduledEntry.code : Code ScheduledEntry :=
  comap (pair ScheduledActionId.code (pair Tick.code (pair (option EntityId.code)
      (pair Principal.code (pair TypeCode.code (pair bytes CapabilityMask.code))))))
    (fun e => (e.id,e.atTick,e.actor,e.principal,e.actionTypeCode,e.actionBytes,e.capsCeiling))
    (by rintro ⟨⟩ ⟨⟩ h; simpa using h)

def Scheduler.code : Code Scheduler :=
  comap (pair (mapCode SchedKey.code ScheduledEntry.code)
      (pair (mapCode ScheduledActionId.code SchedKey.code)
        (pair (mapCode EntityId.code (setCode ScheduledActionId.code)) (pair varint varint))))
    (fun s => (s.ready,s.byId,s.byActor,s.nextSeq,s.nextId)) (by rintro ⟨⟩ ⟨⟩ h; simpa using h)

def IdCounters.code : Code IdCounters :=
  comap (pair varint (pair varint varint)) (fun c => (c.nextEntity,c.nextScheduled,c.nextSourceSeq))
    (by rintro ⟨⟩ ⟨⟩ h; simpa using h)

def ResourceLedger.code : Code ResourceLedger :=
  comap (pair (setCode EntityId.code) (pair (mapCode ComponentKey.code varint) varint))
    (fun l => (l.entities,l.componentSizes,l.totalBytes)) (by rintro ⟨⟩ ⟨⟩ h; simpa using h)

/-- Every field of the instance, in declaration order. -/
def Instance.code : Code Instance :=
  comap (pair InstanceId.code (pair InstanceConfig.code
      (pair (mapCode EntityId.code EntityMeta.code) (pair (mapCode ComponentKey.code bytes)
        (pair Scheduler.code (pair IdCounters.code (pair ResourceLedger.code
          (pair (mapCode RouteId.code varint)
            (pair (mapCode RouteId.code (list InboundSignal.code))
              (pair varint (pair varint varint)))))))))))
    (fun i => (i.id,i.config,i.entities,i.components,i.scheduler,i.idCounters,i.ledger,
      i.inflightRefs,i.signalInbox,i.inboxSeq,i.wallRemainder,i.localTick))
    (by rintro ⟨⟩ ⟨⟩ h; simpa using h)

end ArkheKernel
