import ArkheKernel.Abi

/-!
# Scheduler

Three tables are updated by hand in every operation: the ready queue ordered
by `(at, seq, id)`, the key of every pending id, and the pending ids of every
actor. The queue alone decides what runs next.
-/

set_option autoImplicit false

namespace ArkheKernel
open OrderedMap PrefixCode

structure SchedKey where
  atTick : Tick
  seq : ℕ
  id : ScheduledActionId
  deriving DecidableEq, Repr

def SchedKey.lex (k : SchedKey) : Tick ×ₗ (ℕ ×ₗ ScheduledActionId) :=
  toLex (k.atTick, toLex (k.seq,k.id))

theorem SchedKey.lex_injective : Function.Injective SchedKey.lex := by
  rintro ⟨a,s,i⟩ ⟨b,t,j⟩ h
  simpa [SchedKey.lex] using h

instance : LinearOrder SchedKey := LinearOrder.lift' SchedKey.lex SchedKey.lex_injective

theorem SchedKey.le_iff (k l : SchedKey) : k ≤ l ↔ k.atTick < l.atTick ∨
    k.atTick = l.atTick ∧ (k.seq < l.seq ∨ k.seq = l.seq ∧ k.id ≤ l.id) := by
  change k.lex ≤ l.lex ↔ _
  rw [SchedKey.lex,SchedKey.lex,Prod.Lex.toLex_le_toLex,Prod.Lex.toLex_le_toLex]

def SchedKey.code : Code SchedKey :=
  comap (pair Tick.code (pair varint ScheduledActionId.code)) (fun k => (k.atTick,k.seq,k.id))
    (by rintro ⟨a,s,i⟩ ⟨b,t,j⟩ h; simpa using h)

structure ScheduledEntry where
  id : ScheduledActionId
  atTick : Tick
  actor : Option EntityId
  principal : Principal
  actionTypeCode : TypeCode
  actionBytes : Bytes
  capsCeiling : CapabilityMask
  deriving DecidableEq

structure Scheduler where
  ready : BTreeMap SchedKey ScheduledEntry
  byId : BTreeMap ScheduledActionId SchedKey
  byActor : BTreeMap EntityId (BTreeSet ScheduledActionId)
  nextSeq : ℕ
  nextId : ℕ

namespace Scheduler

def new : Scheduler := ⟨∅,∅,∅,0,0⟩

def len (s : Scheduler) : ℕ := s.ready.size

def indexActor (m : BTreeMap EntityId (BTreeSet ScheduledActionId)) (actor : Option EntityId)
    (id : ScheduledActionId) : BTreeMap EntityId (BTreeSet ScheduledActionId) :=
  match actor with
  | none => m
  | some a => m.insert a ((m.getD a ∅).insert id)

def unindexActor (m : BTreeMap EntityId (BTreeSet ScheduledActionId)) (actor : Option EntityId)
    (id : ScheduledActionId) : BTreeMap EntityId (BTreeSet ScheduledActionId) :=
  match actor with
  | none => m
  | some a =>
    match m[a]? with
    | none => m
    | some ids => if (ids.erase id).isEmpty then m.erase a else m.insert a (ids.erase id)

/-- Insertion under a caller-chosen id; the entry's own id, tick and actor are
the arguments of the source. -/
def scheduleWithId (s : Scheduler) (e : ScheduledEntry) : Scheduler :=
  let key : SchedKey := ⟨e.atTick,s.nextSeq,e.id⟩
  { ready := s.ready.insert key e
    byId := s.byId.insert e.id key
    byActor := indexActor s.byActor e.actor e.id
    nextSeq := satAdd64 s.nextSeq 1
    nextId := if s.nextId < e.id.get then e.id.get else s.nextId }

def schedule (s : Scheduler) (atTick : Tick) (actor : Option EntityId) (principal : Principal)
    (capsCeiling : CapabilityMask) (typeCode : TypeCode) (bytes : Bytes) :
    ScheduledActionId × Scheduler :=
  let id : ScheduledActionId := ⟨NonZeroU64.succ s.nextId⟩
  let key : SchedKey := ⟨atTick,s.nextSeq,id⟩
  let entry : ScheduledEntry :=
    { id, atTick, actor, principal
      actionTypeCode := typeCode
      actionBytes := bytes
      capsCeiling }
  (id, {
    ready := s.ready.insert key entry
    byId := s.byId.insert id key
    byActor := indexActor s.byActor actor id
    nextSeq := satAdd64 s.nextSeq 1
    nextId := satAdd64 s.nextId 1 })

/-- A key of `byId` without its row in `ready` makes the source panic. -/
def cancelPanics (s : Scheduler) (id : ScheduledActionId) : Prop :=
  ∃ key, s.byId[id]? = some key ∧ s.ready[key]? = none

def cancel (s : Scheduler) (id : ScheduledActionId) : Option ScheduledEntry × Scheduler :=
  match s.byId[id]? with
  | none => (none, s)
  | some key =>
    match s.ready[key]? with
    | none => (none, { s with byId := s.byId.erase id })
    | some e => (some e, { s with
        ready := s.ready.erase key
        byId := s.byId.erase id
        byActor := unindexActor s.byActor e.actor id })

/-- The head of the queue, if it is due. The removal cannot miss, because the
key has just been read from the same table. -/
def popDue (s : Scheduler) (now : Tick) : Option (ScheduledEntry × Scheduler) :=
  match firstKeyValue s.ready with
  | none => none
  | some (key,e) =>
    if now < key.atTick then none
    else some (e, { s with
      ready := s.ready.erase key
      byId := s.byId.erase e.id
      byActor := unindexActor s.byActor e.actor e.id })

def popPanics (s : Scheduler) (now : Tick) : Prop :=
  ∃ key e, firstKeyValue s.ready = some (key,e) ∧ key.atTick ≤ now ∧ s.ready[key]? = none

def cancelRow (acc : List ScheduledEntry × Scheduler) (id : ScheduledActionId) :
    List ScheduledEntry × Scheduler :=
  match acc.2.byId[id]? with
  | none => acc
  | some key =>
    match acc.2.ready[key]? with
    | none => (acc.1, { acc.2 with byId := acc.2.byId.erase id })
    | some e => (acc.1 ++ [e], { acc.2 with
        ready := acc.2.ready.erase key
        byId := acc.2.byId.erase id })

def cancelByActor (s : Scheduler) (actor : EntityId) : List ScheduledEntry × Scheduler :=
  match s.byActor[actor]? with
  | none => ([], s)
  | some ids => ids.toList.foldl cancelRow ([], { s with byActor := s.byActor.erase actor })

theorem pop_panics_never (s : Scheduler) (now : Tick) : ¬ s.popPanics now := by
  intro ⟨key,e,hf,_,hn⟩
  rw [(firstKeyValue_some hf).1] at hn
  cases hn

theorem popDue_none (s : Scheduler) (now : Tick) (h : s.popDue now = none) :
    ∀ k ∈ s.ready, now < k.atTick := by
  intro k hk
  unfold popDue at h
  split at h
  · next hf => exact absurd hk ((firstKeyValue_none _).mp hf k)
  · next key e hf =>
    split at h
    · next hlt =>
      have hle := (SchedKey.le_iff key k).mp ((firstKeyValue_some hf).2 k hk)
      rcases hle with hl | ⟨he,-⟩
      · exact hlt.trans hl
      · exact he ▸ hlt
    · cases h

theorem popDue_some {s s' : Scheduler} {now : Tick} {e : ScheduledEntry}
    (h : s.popDue now = some (e,s')) : ∃ key, s.ready[key]? = some e ∧ key.atTick ≤ now ∧
      (∀ k ∈ s.ready, key ≤ k) ∧ s' = { s with
        ready := s.ready.erase key
        byId := s.byId.erase e.id
        byActor := unindexActor s.byActor e.actor e.id } := by
  unfold popDue at h
  split at h
  · cases h
  · next key e' hf =>
    split at h
    · cases h
    · next hle =>
      obtain ⟨rfl,rfl⟩ := Prod.mk.inj (Option.some.inj h)
      obtain ⟨hg,hmin⟩ := firstKeyValue_some hf
      exact ⟨key,hg,not_lt.mp hle,hmin,rfl⟩

theorem popDue_isSome {s : Scheduler} {now : Tick} {k : SchedKey} (hk : k ∈ s.ready)
    (hd : k.atTick ≤ now) : ∃ p, s.popDue now = some p := by
  cases hp : s.popDue now with
  | none => exact absurd (popDue_none s now hp k hk) (not_lt.mpr hd)
  | some p => exact ⟨p,rfl⟩

theorem popDue_counters {s s' : Scheduler} {now : Tick} {e : ScheduledEntry}
    (h : s.popDue now = some (e,s')) : s'.nextSeq = s.nextSeq ∧ s'.nextId = s.nextId := by
  obtain ⟨key,-,-,-,rfl⟩ := popDue_some h
  exact ⟨rfl,rfl⟩

theorem popDue_ready {s s' : Scheduler} {now : Tick} {e : ScheduledEntry}
    (h : s.popDue now = some (e,s')) (k : SchedKey) (e' : ScheduledEntry)
    (hk : s'.ready[k]? = some e') : s.ready[k]? = some e' := by
  obtain ⟨key,-,-,-,rfl⟩ := popDue_some h
  simp only [get_erase] at hk
  split at hk
  · cases hk
  · exact hk

theorem scheduleWithId_ready (s : Scheduler) (e : ScheduledEntry) (k : SchedKey) :
    (s.scheduleWithId e).ready[k]? =
      if k = ⟨e.atTick,s.nextSeq,e.id⟩ then some e else s.ready[k]? :=
  get_insert _ _ _ _

theorem scheduleWithId_nextId (s : Scheduler) (e : ScheduledEntry) :
    (s.scheduleWithId e).nextId = max s.nextId e.id.get := by
  unfold scheduleWithId
  dsimp only
  split <;> omega

end Scheduler
end ArkheKernel
