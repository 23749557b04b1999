import ArkheKernel.Snapshot
import ArkheKernel.Wire

/-!
# The snapshot as a file

Every table of an instance is stored as a count and its bindings, and rebuilt by
inserting them one after the other. Within the machine types a snapshot is read
back as it was taken; a file that is accepted holds such a snapshot.
-/

set_option autoImplicit false

namespace ArkheKernel
open OrderedMap PrefixCode

section Tables
variable {K V : Type} [LinearOrder K] {A : Code K} {B : Code V} {R : Reader K} {S : Reader V}
  {p : K → Prop} {q : V → Prop}

/-- A later binding of a key replaces an earlier one. -/
def readMap (R : Reader K) (S : Reader V) : Reader (BTreeMap K V) :=
  (Reader.list readU64 (R.pair S)).map (fun ps => some (.ofList ps compare))

def readSet (R : Reader K) : Reader (BTreeSet K) :=
  (Reader.list readU64 R).map (fun ks => some (.ofList ks compare))

def MapFits (p : K → Prop) (q : V → Prop) (m : BTreeMap K V) : Prop :=
  m.size ≤ u64Max ∧ Within p q m

theorem readMap_reads (hR : Reads R A.encode p) (hS : Reads S B.encode q) :
    Reads (readMap R S) (mapCode A B).encode (MapFits p q) := by
  have hpair : Reads (R.pair S) (pair A B).encode (fun x => p x.1 ∧ q x.2) := hR.pair hS
  refine (readU64_fits.list hpair).map ?_ ?_
  · intro m hm
    refine ⟨m.toList,⟨?_,?_⟩,rfl,congrArg some (ofList_toList m)⟩
    · rw [Std.ExtTreeMap.length_toList]
      exact hm.1
    · intro x hx
      exact hm.2 x.1 x.2 ((mem_toList m x.1 x.2).mp hx)
  · intro ps m hps hm
    obtain rfl := Option.some.inj hm
    exact ⟨Std.ExtTreeMap.size_ofList_le.trans hps.1,
      fun k v hk => hps.2 (k,v) (mem_of_get_ofList hk)⟩

theorem readSet_reads (hR : Reads R A.encode (fun _ => True)) :
    Reads (readSet R) (setCode A).encode (fun s => s.size ≤ u64Max) := by
  refine (readU64_fits.list hR).map ?_ ?_
  · intro s hs
    refine ⟨s.toList,⟨?_,fun _ _ => trivial⟩,rfl,congrArg some (set_ofList_toList s)⟩
    rw [Std.ExtTreeSet.length_toList]
    exact hs
  · intro ks s hks hs
    obtain rfl := Option.some.inj hs
    exact Std.ExtTreeSet.size_ofList_le.trans hks.1

end Tables

def readRouteId : Reader RouteId := readU32.map (fun n => some ⟨n⟩)

def readCapabilityMask : Reader CapabilityMask := readU64Bits.map (fun bits => some ⟨bits⟩)

def QuotaReductionPolicy.ofTag : ℕ → Option QuotaReductionPolicy
  | 0 => some .reject
  | 1 => some .grandfatherExisting
  | 2 => some .throttleProportional
  | _ => none

def readQuotaReductionPolicy : Reader QuotaReductionPolicy := readU32.map QuotaReductionPolicy.ofTag

def readInstanceConfig : Reader InstanceConfig :=
  (readCapabilityMask.pair (readU32.pair (readU32.pair (readU32.pair (readU64.pair
    (readInstanceId.option.pair readQuotaReductionPolicy)))))).map (fun x => some
      ⟨x.1,x.2.1,x.2.2.1,x.2.2.2.1,x.2.2.2.2.1,x.2.2.2.2.2.1,x.2.2.2.2.2.2⟩)

def readComponentKey : Reader ComponentKey :=
  (readEntityId.pair readTypeCode).map (fun x => some ⟨x.1,x.2⟩)

def readEntityMeta : Reader EntityMeta := (readPrincipal.pair readTick).map (fun x => some ⟨x.1,x.2⟩)

def readInboundSignal : Reader InboundSignal :=
  (readInstanceId.pair (readPrincipal.pair (readBytes.pair readU64))).map (fun x => some
    ⟨x.1,x.2.1,x.2.2.1,x.2.2.2⟩)

def readSchedKey : Reader SchedKey :=
  (readTick.pair (readU64.pair readScheduledActionId)).map (fun x => some ⟨x.1,x.2.1,x.2.2⟩)

def readScheduledEntry : Reader ScheduledEntry :=
  (readScheduledActionId.pair (readTick.pair (readEntityId.option.pair (readPrincipal.pair
    (readTypeCode.pair (readBytes.pair readCapabilityMask)))))).map (fun x => some
      ⟨x.1,x.2.1,x.2.2.1,x.2.2.2.1,x.2.2.2.2.1,x.2.2.2.2.2.1,x.2.2.2.2.2.2⟩)

def readScheduler : Reader Scheduler :=
  ((readMap readSchedKey readScheduledEntry).pair ((readMap readScheduledActionId readSchedKey).pair
    ((readMap readEntityId (readSet readScheduledActionId)).pair (readU64.pair readU64)))).map
      (fun x => some ⟨x.1,x.2.1,x.2.2.1,x.2.2.2.1,x.2.2.2.2⟩)

def readIdCounters : Reader IdCounters :=
  (readU64.pair (readU64.pair readU64)).map (fun x => some ⟨x.1,x.2.1,x.2.2⟩)

def readResourceLedger : Reader ResourceLedger :=
  ((readSet readEntityId).pair ((readMap readComponentKey readU64).pair readU64)).map (fun x => some
    ⟨x.1,x.2.1,x.2.2⟩)

def readInstanceSnapshot : Reader InstanceSnapshot :=
  (readInstanceId.pair (readInstanceConfig.pair ((readMap readEntityId readEntityMeta).pair
    ((readMap readComponentKey readBytes).pair (readScheduler.pair (readIdCounters.pair
      (readResourceLedger.pair ((readMap readRouteId readU32).pair
        ((readMap readRouteId (.list readU64 readInboundSignal)).pair
          (readU64.pair (readU128.pair readU64))))))))))).map (fun x => some
    { id := x.1
      config := x.2.1
      entities := x.2.2.1
      components := x.2.2.2.1
      scheduler := x.2.2.2.2.1
      idCounters := x.2.2.2.2.2.1
      ledger := x.2.2.2.2.2.2.1
      inflightRefs := x.2.2.2.2.2.2.2.1
      signalInbox := x.2.2.2.2.2.2.2.2.1
      inboxSeq := x.2.2.2.2.2.2.2.2.2.1
      wallRemainder := x.2.2.2.2.2.2.2.2.2.2.1
      localTick := x.2.2.2.2.2.2.2.2.2.2.2 })

def RouteId.Fits (r : RouteId) : Prop := r.val ≤ u32Max

def InstanceConfig.Fits (c : InstanceConfig) : Prop :=
  c.maxEntities ≤ u32Max ∧ c.maxScheduled ≤ u32Max ∧ c.maxInboxPerRoute ≤ u32Max ∧
    c.memoryBudgetBytes ≤ u64Max

def EntityMeta.Fits (m : EntityMeta) : Prop := m.owner.Fits ∧ m.created.val ≤ u64Max

def InboundSignal.Fits (s : InboundSignal) : Prop :=
  s.principal.Fits ∧ s.payload.length ≤ u64Max ∧ s.seq ≤ u64Max

def SchedKey.Fits (k : SchedKey) : Prop := k.atTick.val ≤ u64Max ∧ k.seq ≤ u64Max

def ScheduledEntry.Fits (e : ScheduledEntry) : Prop :=
  e.atTick.val ≤ u64Max ∧ e.principal.Fits ∧ e.actionBytes.length ≤ u64Max

def Scheduler.Fits (s : Scheduler) : Prop :=
  MapFits SchedKey.Fits ScheduledEntry.Fits s.ready ∧ MapFits (fun _ => True) SchedKey.Fits s.byId ∧
    MapFits (fun _ => True) (fun ids => ids.size ≤ u64Max) s.byActor ∧ s.nextSeq ≤ u64Max ∧
      s.nextId ≤ u64Max

def IdCounters.Fits (c : IdCounters) : Prop :=
  c.nextEntity ≤ u64Max ∧ c.nextScheduled ≤ u64Max ∧ c.nextSourceSeq ≤ u64Max

def ResourceLedger.Fits (l : ResourceLedger) : Prop :=
  l.entities.size ≤ u64Max ∧ MapFits (fun _ => True) (· ≤ u64Max) l.componentSizes ∧
    l.totalBytes ≤ u64Max

structure InstanceSnapshot.Fits (s : InstanceSnapshot) : Prop where
  config : s.config.Fits
  entities : MapFits (fun _ => True) EntityMeta.Fits s.entities
  components : MapFits (fun _ => True) (fun bs => bs.length ≤ u64Max) s.components
  scheduler : s.scheduler.Fits
  idCounters : s.idCounters.Fits
  ledger : s.ledger.Fits
  inflightRefs : MapFits RouteId.Fits (· ≤ u32Max) s.inflightRefs
  signalInbox : MapFits RouteId.Fits (fun q => q.length ≤ u64Max ∧ ∀ s ∈ q, s.Fits) s.signalInbox
  inboxSeq : s.inboxSeq ≤ u64Max
  wallRemainder : s.wallRemainder < 2^128
  localTick : s.localTick ≤ u64Max

theorem readRouteId_reads : Reads readRouteId RouteId.code.encode RouteId.Fits :=
  readU32_fits.comap (fun _ => rfl) (fun _ => rfl)

theorem readCapabilityMask_reads :
    Reads readCapabilityMask CapabilityMask.code.encode (fun _ => True) :=
  readU64Bits_reads.comap (fun _ => rfl) (fun _ => rfl)

theorem readQuotaReductionPolicy_reads :
    Reads readQuotaReductionPolicy QuotaReductionPolicy.code.encode (fun _ => True) :=
  readU32_fits.map (fun r _ => ⟨r.tag,by cases r <;> decide,rfl,by cases r <;> rfl⟩)
    (fun _ _ _ _ => trivial)

theorem readInstanceConfig_reads :
    Reads readInstanceConfig InstanceConfig.code.encode InstanceConfig.Fits :=
  ((readCapabilityMask_reads.pair (readU32_fits.pair (readU32_fits.pair (readU32_fits.pair
    (readU64_fits.pair (readInstanceId_reads.option.pair readQuotaReductionPolicy_reads)))))).comap
      (fun _ => rfl) (fun _ => rfl)).congr (fun c => by simp [InstanceConfig.Fits])

theorem readComponentKey_reads :
    Reads readComponentKey ComponentKey.code.encode (fun _ => True) :=
  ((readEntityId_reads.pair readTypeCode_reads).comap (fun _ => rfl) (fun _ => rfl)).congr
    (fun _ => by simp)

theorem readEntityMeta_reads : Reads readEntityMeta EntityMeta.code.encode EntityMeta.Fits :=
  ((readPrincipal_reads.pair readTick_reads).comap (fun _ => rfl) (fun _ => rfl)).congr
    (fun _ => Iff.rfl)

theorem readInboundSignal_reads :
    Reads readInboundSignal InboundSignal.code.encode InboundSignal.Fits :=
  ((readInstanceId_reads.pair (readPrincipal_reads.pair (readBytes_reads.pair readU64_fits))).comap
    (fun _ => rfl) (fun _ => rfl)).congr (fun s => by simp [InboundSignal.Fits])

theorem readSchedKey_reads : Reads readSchedKey SchedKey.code.encode SchedKey.Fits :=
  ((readTick_reads.pair (readU64_fits.pair readScheduledActionId_reads)).comap
    (fun _ => rfl) (fun _ => rfl)).congr (fun k => by simp [SchedKey.Fits])

theorem readScheduledEntry_reads :
    Reads readScheduledEntry ScheduledEntry.code.encode ScheduledEntry.Fits :=
  ((readScheduledActionId_reads.pair (readTick_reads.pair (readEntityId_reads.option.pair
    (readPrincipal_reads.pair (readTypeCode_reads.pair (readBytes_reads.pair
      readCapabilityMask_reads)))))).comap (fun _ => rfl) (fun _ => rfl)).congr
        (fun e => by simp [ScheduledEntry.Fits])

theorem readScheduler_reads : Reads readScheduler Scheduler.code.encode Scheduler.Fits :=
  (((readMap_reads readSchedKey_reads readScheduledEntry_reads).pair
    ((readMap_reads readScheduledActionId_reads readSchedKey_reads).pair
      ((readMap_reads readEntityId_reads (readSet_reads readScheduledActionId_reads)).pair
        (readU64_fits.pair readU64_fits)))).comap (fun _ => rfl) (fun _ => rfl)).congr
          (fun _ => Iff.rfl)

theorem readIdCounters_reads : Reads readIdCounters IdCounters.code.encode IdCounters.Fits :=
  ((readU64_fits.pair (readU64_fits.pair readU64_fits)).comap (fun _ => rfl) (fun _ => rfl)).congr
    (fun _ => Iff.rfl)

theorem readResourceLedger_reads :
    Reads readResourceLedger ResourceLedger.code.encode ResourceLedger.Fits :=
  (((readSet_reads readEntityId_reads).pair
    ((readMap_reads readComponentKey_reads readU64_fits).pair readU64_fits)).comap
      (fun _ => rfl) (fun _ => rfl)).congr (fun _ => Iff.rfl)

theorem readInstanceSnapshot_reads :
    Reads readInstanceSnapshot InstanceSnapshot.code.encode InstanceSnapshot.Fits := by
  refine (readInstanceId_reads.pair (readInstanceConfig_reads.pair
    ((readMap_reads readEntityId_reads readEntityMeta_reads).pair
      ((readMap_reads readComponentKey_reads readBytes_reads).pair
        (readScheduler_reads.pair (readIdCounters_reads.pair (readResourceLedger_reads.pair
          ((readMap_reads readRouteId_reads readU32_fits).pair
            ((readMap_reads readRouteId_reads (readU64_fits.list readInboundSignal_reads)).pair
              (readU64_fits.pair (readU128_reads.pair readU64_fits))))))))))).map ?_ ?_
  · intro s hs
    exact ⟨(s.id,s.config,s.entities,s.components,s.scheduler,s.idCounters,s.ledger,s.inflightRefs,
      s.signalInbox,s.inboxSeq,s.wallRemainder,s.localTick),
      ⟨trivial,hs.config,hs.entities,hs.components,hs.scheduler,hs.idCounters,hs.ledger,
        hs.inflightRefs,hs.signalInbox,hs.inboxSeq,hs.wallRemainder,hs.localTick⟩,rfl,rfl⟩
  · rintro x s ⟨-,h1,h2,h3,h4,h5,h6,h7,h8,h9,h10,h11⟩ hs
    cases hs
    exact ⟨h1,h2,h3,h4,h5,h6,h7,h8,h9,h10,h11⟩

namespace KernelSnapshot

structure Fits (s : KernelSnapshot) : Prop where
  instances : MapFits (fun _ => True) InstanceSnapshot.Fits s.instances
  nextInstanceId : s.nextInstanceId ≤ u64Max

def read : Reader KernelSnapshot :=
  ((readMap readInstanceId readInstanceSnapshot).pair readU64).map (fun x => some ⟨x.1,x.2⟩)

theorem read_reads : Reads read code.encode Fits := by
  refine ((readMap_reads readInstanceId_reads readInstanceSnapshot_reads).pair readU64_fits).map ?_ ?_
  · intro s hs
    exact ⟨(s.instances,s.nextInstanceId),⟨hs.instances,hs.nextInstanceId⟩,rfl,rfl⟩
  · intro x s hx hs
    cases hs
    exact ⟨hx.1,hx.2⟩

/-- Bytes after the counter are not looked at. The text of a refusal is the
library's own. -/
def fromBytes (refusal : Bytes → String) (bs : Bytes) : Except String KernelSnapshot :=
  match read bs with
  | some (s,_) => .ok s
  | none => .error (refusal bs)

def decode (refusal : Bytes → String) (bs : Bytes) : Except SnapshotError KernelSnapshot :=
  deserialize (fromBytes refusal) bs

variable {refusal : Bytes → String} {bs : Bytes} {s : KernelSnapshot}

theorem fromBytes_ok : fromBytes refusal bs = .ok s ↔ ∃ rest, read bs = some (s,rest) := by
  unfold fromBytes
  cases read bs with
  | none => simp
  | some x => simp [Prod.ext_iff]

theorem decode_ok : decode refusal bs = .ok s ↔
    fromBytes refusal bs = .ok s ∧ s.validateStructure = .ok () := by
  constructor
  · intro h
    unfold decode deserialize at h
    cases hb : fromBytes refusal bs with
    | error e =>
      rw [hb] at h
      cases h
    | ok t =>
      rw [hb] at h
      change (do t.validateStructure; Pure.pure t) = Except.ok s at h
      cases hv : t.validateStructure with
      | error e =>
        rw [hv] at h
        cases h
      | ok u =>
        rw [hv] at h
        cases h
        exact ⟨rfl,hv⟩
  · intro ⟨hb,hv⟩
    exact deserialize_ok hb hv

theorem decode_back {file : Bytes} (hs : s.Fits) (hv : s.validateStructure = .ok ())
    (hfile : s.serialize = .ok file) (more : Bytes) : decode refusal (file ++ more) = .ok s := by
  obtain rfl := Except.ok.inj hfile
  exact decode_ok.mpr ⟨fromBytes_ok.mpr ⟨more,read_reads.back s more hs⟩,hv⟩

theorem decode_torn {file : Bytes} (hs : s.Fits) (hfile : s.serialize = .ok file) (hb : bs <+: file)
    (hne : bs ≠ file) : decode refusal bs = .error (.deserializeFailed (refusal bs)) := by
  obtain rfl := Except.ok.inj hfile
  unfold decode deserialize fromBytes
  rw [read_reads.torn hs hb hne]
  rfl

end KernelSnapshot

/-- A snapshot with valid schedulers is read back from its file, whatever follows
it, and a torn file is refused as undecodable. Conversely only such snapshots are
ever accepted, and storing one anew gives a file that is accepted as the same. -/
theorem snapshot_file_faithful (refusal : Bytes → String) :
    (∀ s : KernelSnapshot, s.Fits →
      (∀ (id : InstanceId) (i : InstanceSnapshot), s.instances[id]? = some i → i.scheduler.Valid) →
      ∃ file, s.serialize = .ok file ∧
        (∀ more, KernelSnapshot.decode refusal (file ++ more) = .ok s) ∧
        ∀ bs, bs <+: file → bs ≠ file → KernelSnapshot.decode refusal bs =
          .error (.deserializeFailed (refusal bs))) ∧
    ∀ bs s, KernelSnapshot.decode refusal bs = .ok s → s.Fits ∧
      (∀ (id : InstanceId) (i : InstanceSnapshot), s.instances[id]? = some i → i.scheduler.Valid) ∧
      (∀ more, KernelSnapshot.decode refusal (bs ++ more) = .ok s) ∧
      ∃ file, s.serialize = .ok file ∧ KernelSnapshot.decode refusal file = .ok s := by
  have hread := KernelSnapshot.read_reads
  constructor
  · intro s hs hv
    have hvalid := s.validateStructure_ok.mpr hv
    exact ⟨_,rfl,KernelSnapshot.decode_back hs hvalid rfl,
      fun bs hbs hne => KernelSnapshot.decode_torn hs rfl hbs hne⟩
  · intro bs s h
    obtain ⟨hb,hvalid⟩ := KernelSnapshot.decode_ok.mp h
    obtain ⟨rest,hr⟩ := KernelSnapshot.fromBytes_ok.mp hb
    have hfits := hread.good bs s rest hr
    refine ⟨hfits,s.validateStructure_ok.mp hvalid,?_,_,rfl,?_⟩
    · intro more
      exact KernelSnapshot.decode_ok.mpr
        ⟨KernelSnapshot.fromBytes_ok.mpr ⟨_,hread.more bs s rest more hr⟩,hvalid⟩
    · rw [← List.append_nil (KernelSnapshot.code.encode s)]
      exact KernelSnapshot.decode_back hfits hvalid rfl []

end ArkheKernel
