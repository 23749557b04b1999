import ArkheKernel.PendingList
import ArkheKernel.SchedulerIndex
import ArkheKernel.Transducer

/-!
# The scheduler is a pending list

Sequence numbers order the ready queue among equal ticks, so the queue is a
list in insertion order that is kept sorted by tick. Every call of the
scheduler does to its three tables what the list operation does to the list,
as long as no counter is exhausted when an entry goes in.
-/

set_option autoImplicit false

namespace ArkheKernel
open OrderedMap PrefixCode

inductive SchedulerCall where
  | schedule (atTick : Tick) (actor : Option EntityId) (principal : Principal)
      (capsCeiling : CapabilityMask) (typeCode : TypeCode) (bytes : Bytes)
  | scheduleWithId (entry : ScheduledEntry)
  | cancel (id : ScheduledActionId)
  | cancelByActor (actor : EntityId)
  | popDue (now : Tick)

inductive SchedulerReply where
  | done
  | id (id : ScheduledActionId)
  | entry (e : Option ScheduledEntry)
  | entries (es : List ScheduledEntry)
  deriving DecidableEq

namespace Scheduler

def answer (s : Scheduler) : SchedulerCall → SchedulerReply × Scheduler
  | .schedule atTick actor principal capsCeiling typeCode bytes =>
    let r := s.schedule atTick actor principal capsCeiling typeCode bytes
    (.id r.1,r.2)
  | .scheduleWithId e => (.done,s.scheduleWithId e)
  | .cancel id => (.entry (s.cancel id).1,(s.cancel id).2)
  | .cancelByActor actor => (.entries (s.cancelByActor actor).1,(s.cancelByActor actor).2)
  | .popDue now =>
    match s.popDue now with
    | none => (.entry none,s)
    | some (e,s') => (.entry (some e),s')

/-- Before an insertion neither counter is exhausted, and an id chosen by the
caller is not pending. -/
def Allows (s : Scheduler) : SchedulerCall → Prop
  | .schedule .. => s.nextId < u64Max ∧ s.nextSeq < u64Max
  | .scheduleWithId e => s.nextId < u64Max ∧ s.nextSeq < u64Max ∧ e.id ∉ s.byId
  | _ => True

instance (s : Scheduler) : (call : SchedulerCall) → Decidable (s.Allows call)
  | .schedule .. => inferInstanceAs (Decidable (_ ∧ _))
  | .scheduleWithId _ => inferInstanceAs (Decidable (_ ∧ _ ∧ _))
  | .cancel _ | .cancelByActor _ | .popDue _ => .isTrue trivial

def machine : Transducer Scheduler SchedulerCall SchedulerReply where
  next s call := (s.answer call).2
  out s call := [(s.answer call).1]

end Scheduler

structure Pending where
  entries : List ScheduledEntry
  lastId : ℕ

namespace Pending

def empty : Pending := ⟨[],0⟩

def answer (l : Pending) : SchedulerCall → SchedulerReply × Pending
  | .schedule atTick actor principal capsCeiling actionTypeCode actionBytes =>
    let id : ScheduledActionId := ⟨NonZeroU64.succ l.lastId⟩
    (.id id,
      ⟨l.entries ++ [⟨id,atTick,actor,principal,actionTypeCode,actionBytes,capsCeiling⟩],id.get⟩)
  | .scheduleWithId e => (.done,⟨l.entries ++ [e],max l.lastId e.id.get⟩)
  | .cancel id =>
    let r := PendingList.withdraw ScheduledEntry.id id l.entries
    (.entry r.1,{ l with entries := r.2 })
  | .cancelByActor actor =>
    let r := PendingList.withdrawAll ScheduledEntry.id (fun e => e.actor = some actor) l.entries
    (.entries r.1,{ l with entries := r.2 })
  | .popDue now =>
    let r := PendingList.pop ScheduledEntry.atTick now l.entries
    (.entry r.1,{ l with entries := r.2 })

def machine : Transducer Pending SchedulerCall SchedulerReply where
  next l call := (l.answer call).2
  out l call := [(l.answer call).1]

end Pending

namespace Scheduler

/-- The queue holds exactly the given entries, numbered in insertion order. -/
structure Represents (s : Scheduler) (rows : List (ℕ × ScheduledEntry)) : Prop where
  valid : s.Valid
  sorted : rows.Pairwise (fun a b => a.1 < b.1)
  ready_iff : ∀ (key : SchedKey) (e : ScheduledEntry), s.ready[key]? = some e ↔
    (key.seq,e) ∈ rows ∧ key.atTick = e.atTick ∧ key.id = e.id

theorem new_represents : new.Represents [] where
  valid := new_valid
  sorted := .nil
  ready_iff key e := by simp [new]

section Rows
variable {s : Scheduler} {rows : List (ℕ × ScheduledEntry)}

theorem Represents.row (h : s.Represents rows) {r : ℕ × ScheduledEntry} (hr : r ∈ rows) :
    s.ready[(⟨r.2.atTick,r.1,r.2.id⟩ : SchedKey)]? = some r.2 :=
  (h.ready_iff _ _).mpr ⟨hr,rfl,rfl⟩

theorem Represents.byId (h : s.Represents rows) {r : ℕ × ScheduledEntry} (hr : r ∈ rows) :
    s.byId[r.2.id]? = some ⟨r.2.atTick,r.1,r.2.id⟩ :=
  (h.valid.keyed _ _ (h.row hr)).2

theorem Represents.found (h : s.Represents rows) {id : ScheduledActionId} {key : SchedKey}
    (hid : s.byId[id]? = some key) :
    ∃ e, s.ready[key]? = some e ∧ e.id = id ∧ (key.seq,e) ∈ rows := by
  obtain ⟨hm,hk⟩ := h.valid.covered id key hid
  obtain ⟨e,he⟩ := (mem_iff_get _ _).mp hm
  obtain ⟨hr,-,hi⟩ := (h.ready_iff key e).mp he
  exact ⟨e,he,hi.symm.trans hk,hr⟩

theorem Represents.distinct (h : s.Represents rows) :
    PendingList.Distinct ScheduledEntry.id (rows.map Prod.snd) := by
  apply List.pairwise_map.mpr
  apply h.sorted.imp_of_mem
  intro a b ha hb hlt he
  have hka := h.byId ha
  rw [he,h.byId hb] at hka
  have hseq : b.1 = a.1 := congrArg SchedKey.seq (Option.some.inj hka)
  omega

theorem Represents.lists_iff (h : s.Represents rows) (actor : EntityId) (id : ScheduledActionId) :
    Lists s.byActor actor id ↔ ∃ r ∈ rows, r.2.id = id ∧ r.2.actor = some actor := by
  rw [h.valid.lists_iff]
  constructor
  · intro ⟨key,e,hid,he,ha⟩
    obtain ⟨e',he',hi,hr⟩ := h.found hid
    obtain rfl : e = e' := Option.some.inj (he.symm.trans he')
    exact ⟨_,hr,hi,ha⟩
  · intro ⟨r,hr,hid,ha⟩
    exact ⟨_,r.2,hid ▸ h.byId hr,h.row hr,ha⟩

theorem Represents.below (h : s.Represents rows) {r : ℕ × ScheduledEntry} (hr : r ∈ rows) :
    r.1 < s.nextSeq :=
  (h.valid.counted _ (mem_of_get (h.row hr))).1

theorem Represents.append (h : s.Represents rows) {e : ScheduledEntry} (hid : e.id ∉ s.byId)
    (hseq : s.nextSeq < u64Max) : (s.scheduleWithId e).Represents (rows ++ [(s.nextSeq,e)]) where
  valid := h.valid.schedule hid hseq
  sorted := by
    rw [List.pairwise_append]
    refine ⟨h.sorted,List.pairwise_singleton _ _,?_⟩
    intro a ha b hb
    rw [List.mem_singleton.mp hb]
    exact h.below ha
  ready_iff key e' := by
    rw [scheduleWithId_ready,List.mem_append,List.mem_singleton,Prod.mk.injEq]
    by_cases hk : key = ⟨e.atTick,s.nextSeq,e.id⟩
    · have hn : (s.nextSeq,e') ∉ rows := fun hr => lt_irrefl _ (h.below hr)
      subst hk
      simp only [if_pos,Option.some.injEq,hn,false_or,true_and]
      constructor
      · rintro rfl
        exact ⟨rfl,rfl,rfl⟩
      · exact fun hr => hr.1.symm
    · rw [if_neg hk,h.ready_iff]
      constructor
      · exact fun ⟨hr,hs⟩ => ⟨Or.inl hr,hs⟩
      · rintro ⟨hr | ⟨hs,rfl⟩,ht,hi⟩
        · exact ⟨hr,ht,hi⟩
        · have hkey : key = ⟨e'.atTick,s.nextSeq,e'.id⟩ := by rw [← ht,← hs,← hi]
          exact absurd hkey hk

theorem Represents.remove (h : s.Represents rows) {key : SchedKey} {e : ScheduledEntry}
    (hkey : s.ready[key]? = some e) : Represents { s with
      ready := s.ready.erase key
      byId := s.byId.erase e.id
      byActor := unindexActor s.byActor e.actor e.id }
        (rows.filter (fun r => r.2.id ≠ e.id)) where
  valid := h.valid.remove hkey
  sorted := List.Pairwise.filter _ h.sorted
  ready_iff key' e' := by
    rw [get_erase,List.mem_filter,decide_eq_true_eq]
    by_cases hk : key' = key
    · rw [if_pos hk,hk]
      constructor
      · intro hn
        cases hn
      · intro ⟨⟨hr,hne⟩,hs⟩
        have he := (h.ready_iff key e').mpr ⟨hr,hs⟩
        exact absurd (congrArg ScheduledEntry.id (Option.some.inj (he.symm.trans hkey))) hne
    · rw [if_neg hk,h.ready_iff]
      constructor
      · intro ⟨hr,hs⟩
        have hb := (h.valid.keyed _ _ ((h.ready_iff key' e').mpr ⟨hr,hs⟩)).2
        exact ⟨⟨hr,fun hi => hk ((h.valid.key_iff hkey hb).mpr hi)⟩,hs⟩
      · exact fun ⟨⟨hr,_⟩,hs⟩ => ⟨hr,hs⟩

theorem schedule_eq (h : s.Represents rows) (hid : s.nextId < u64Max) (atTick : Tick)
    (actor : Option EntityId) (principal : Principal) (capsCeiling : CapabilityMask)
    (typeCode : TypeCode) (bytes : Bytes) :
    let id : ScheduledActionId := ⟨NonZeroU64.succ s.nextId⟩
    id ∉ s.byId ∧ id.get = s.nextId+1 ∧
      s.schedule atTick actor principal capsCeiling typeCode bytes =
        (id,s.scheduleWithId ⟨id,atTick,actor,principal,typeCode,bytes,capsCeiling⟩) := by
  intro id
  have hget : id.get = s.nextId+1 := satAdd64_eq (by omega)
  refine ⟨?_,hget,?_⟩
  · intro hm
    obtain ⟨key,hk⟩ := (mem_iff_get _ _).mp hm
    obtain ⟨hr,hi⟩ := h.valid.covered id key hk
    have hle := (h.valid.counted key hr).2
    rw [hi] at hle
    omega
  · have hnext : satAdd64 s.nextId 1 = if s.nextId < id.get then id.get else s.nextId := by
      rw [if_pos (by omega)]
      rfl
    unfold schedule scheduleWithId
    dsimp only
    rw [hnext]

theorem cancel_panics_never (h : s.Represents rows) (id : ScheduledActionId) :
    ¬s.cancelPanics id := by
  rintro ⟨key,hid,hn⟩
  obtain ⟨e,he,-⟩ := h.found hid
  rw [hn] at he
  cases he

theorem cancel_pending (h : s.Represents rows) (id : ScheduledActionId) :
    (s.cancel id).1 = (PendingList.withdraw ScheduledEntry.id id (rows.map Prod.snd)).1 ∧
      (s.cancel id).2.Represents (rows.filter (fun r => r.2.id ≠ id)) ∧
      (s.cancel id).2.nextId = s.nextId := by
  unfold cancel
  cases hid : s.byId[id]? with
  | none =>
    have hne : ∀ r ∈ rows, r.2.id ≠ id := by
      intro r hr hi
      rw [← hi,h.byId hr] at hid
      cases hid
    have hfind : (rows.map Prod.snd).find? (fun e => e.id = id) = none := by
      rw [List.find?_eq_none]
      intro e he
      obtain ⟨r,hr,rfl⟩ := List.mem_map.mp he
      simpa using hne r hr
    have hrows : rows.filter (fun r => r.2.id ≠ id) = rows :=
      List.filter_eq_self.mpr (fun r hr => by simpa using hne r hr)
    rw [hrows]
    exact ⟨hfind.symm,h,rfl⟩
  | some key =>
    obtain ⟨e,he,rfl,hr⟩ := h.found hid
    have hmem : e ∈ rows.map Prod.snd := List.mem_map_of_mem hr
    dsimp only
    rw [he]
    exact ⟨(h.distinct.find hmem).symm,h.remove he,rfl⟩

theorem popDue_pending (h : s.Represents rows) (now : Tick) :
    (s.popDue now = none ∧
      PendingList.pop ScheduledEntry.atTick now (rows.map Prod.snd) = (none,rows.map Prod.snd)) ∨
    ∃ e s', s.popDue now = some (e,s') ∧ e ∈ rows.map Prod.snd ∧
      PendingList.pop ScheduledEntry.atTick now (rows.map Prod.snd) =
        (some e,(rows.map Prod.snd).erase e) ∧
      s'.Represents (rows.filter (fun r => r.2.id ≠ e.id)) ∧ s'.nextId = s.nextId := by
  cases hp : s.popDue now with
  | none =>
    left
    refine ⟨rfl,PendingList.pop_none ?_⟩
    intro e he
    obtain ⟨r,hr,rfl⟩ := List.mem_map.mp he
    exact popDue_none s now hp _ (mem_of_get (h.row hr))
  | some p =>
    right
    obtain ⟨e,s'⟩ := p
    obtain ⟨key,hkey,hle,hmin,hs'⟩ := popDue_some hp
    obtain ⟨hr,ht,hi⟩ := (h.ready_iff key e).mp hkey
    have hfirst : (rows.map Prod.snd).argmin ScheduledEntry.atTick = some e := by
      apply PendingList.argmin_rows h.sorted hr
      intro q hq
      have hk := (SchedKey.le_iff _ _).mp (hmin _ (mem_of_get (h.row hq)))
      rw [ht] at hk
      exact hk.imp id (fun hs => ⟨hs.1,hs.2.elim le_of_lt (fun he => he.1.le)⟩)
    rw [ht] at hle
    refine ⟨e,s',rfl,List.mem_map_of_mem hr,PendingList.pop_some hfirst hle,?_,?_⟩
    · rw [hs']
      exact h.remove hkey
    · rw [hs']

theorem unindexActor_erase (m : BTreeMap EntityId (BTreeSet ScheduledActionId)) (a : EntityId)
    (id : ScheduledActionId) : (unindexActor m (some a) id).erase a = m.erase a := by
  apply ext_get
  intro b
  rw [get_erase,get_erase,unindexActor_get]
  by_cases hb : b = a
  · simp [hb]
  · rw [if_neg hb,if_neg hb,if_neg (fun he => hb (Option.some.inj he).symm)]

theorem cancelRow_eq {id : ScheduledActionId} {key : SchedKey} {e : ScheduledEntry}
    (hid : s.byId[id]? = some key) (he : s.ready[key]? = some e) (acc : List ScheduledEntry)
    (m : BTreeMap EntityId (BTreeSet ScheduledActionId)) :
    cancelRow (acc,{ s with byActor := m }) id =
      (acc ++ [e],{ (s.cancel id).2 with byActor := m }) := by
  unfold cancelRow cancel
  dsimp only
  rw [hid]
  dsimp only
  rw [he]

/-- The bulk cancel of ids of one actor takes out exactly their rows, in order. -/
theorem cancelRows_pending {a : EntityId} (ids : List ScheduledActionId) (hn : ids.Nodup)
    (h : s.Represents rows)
    (ha : ∀ id ∈ ids, ∃ r ∈ rows, r.2.id = id ∧ r.2.actor = some a) (acc : List ScheduledEntry)
    (m : BTreeMap EntityId (BTreeSet ScheduledActionId)) :
    ∃ (es : List ScheduledEntry) (s' : Scheduler),
      ids.foldl cancelRow (acc,{ s with byActor := m }) =
        (acc ++ es,{ s' with byActor := m }) ∧
      s'.Represents (rows.filter (fun r => r.2.id ∉ ids)) ∧ es.map ScheduledEntry.id = ids ∧
      (∀ e ∈ es, e ∈ rows.map Prod.snd) ∧ s'.byActor.erase a = s.byActor.erase a ∧
      s'.nextId = s.nextId := by
  induction ids generalizing s rows acc with
  | nil => exact ⟨[],s,by simp,by simpa using h,rfl,by simp,rfl,rfl⟩
  | cons id ids ih =>
    obtain ⟨r,hr,rfl,hra⟩ := ha id List.mem_cons_self
    obtain ⟨hout,hnd⟩ := List.nodup_cons.mp hn
    obtain ⟨-,hrep,hnext⟩ := cancel_pending h r.2.id
    have hrest : ∀ id ∈ ids, ∃ q ∈ rows.filter (fun q => q.2.id ≠ r.2.id),
        q.2.id = id ∧ q.2.actor = some a := by
      intro id hid
      obtain ⟨q,hq,rfl,hqa⟩ := ha id (List.mem_cons_of_mem _ hid)
      refine ⟨q,List.mem_filter.mpr ⟨hq,?_⟩,rfl,hqa⟩
      exact decide_eq_true (fun he => hout (he ▸ hid))
    obtain ⟨es,s',hfold,hrep',hmap,hmem,hact,hnext'⟩ := ih hnd hrep hrest (acc ++ [r.2])
    have hcancel : (s.cancel r.2.id).2.byActor = unindexActor s.byActor (some a) r.2.id := by
      unfold cancel
      rw [h.byId hr]
      dsimp only
      rw [h.row hr]
      dsimp only
      rw [hra]
    refine ⟨r.2::es,s',?_,?_,by simp [hmap],?_,?_,hnext'.trans hnext⟩
    · rw [List.foldl_cons,cancelRow_eq (h.byId hr) (h.row hr),hfold,List.append_assoc]
      rfl
    · have hrows : rows.filter (fun q => q.2.id ∉ r.2.id::ids) =
          rows.filter (fun q => decide (q.2.id ∉ ids) && decide (q.2.id ≠ r.2.id)) := by
        apply List.filter_congr
        intro q _
        by_cases hq : q.2.id = r.2.id <;> simp [hq]
      rw [hrows,← List.filter_filter]
      exact hrep'
    · intro e he
      rcases List.mem_cons.mp he with rfl | he
      · exact List.mem_map_of_mem hr
      · obtain ⟨q,hq,rfl⟩ := List.mem_map.mp (hmem e he)
        exact List.mem_map_of_mem (List.mem_filter.mp hq).1
    · rw [hact,hcancel,unindexActor_erase]

theorem Represents.actor_none (h : s.Represents rows) {a : EntityId} (hm : s.byActor[a]? = none) :
    ∀ r ∈ rows, r.2.actor ≠ some a := by
  intro r hr ha
  obtain ⟨ids,hids,-⟩ := (h.lists_iff a r.2.id).mpr ⟨r,hr,rfl,ha⟩
  rw [hm] at hids
  cases hids

theorem Represents.actor_ids (h : s.Represents rows) {a : EntityId}
    {ids : BTreeSet ScheduledActionId} (hm : s.byActor[a]? = some ids) (id : ScheduledActionId) :
    id ∈ ids.toList ↔ ∃ r ∈ rows, r.2.id = id ∧ r.2.actor = some a := by
  rw [← h.lists_iff,Std.ExtTreeSet.mem_toList]
  simp [Lists,hm]

theorem Represents.rows_kept (h : s.Represents rows) {a : EntityId}
    {ids : List ScheduledActionId}
    (hids : ∀ id, id ∈ ids ↔ ∃ r ∈ rows, r.2.id = id ∧ r.2.actor = some a) :
    rows.filter (fun r => r.2.id ∉ ids) =
      rows.filter (fun r => !decide (r.2.actor = some a)) := by
  apply List.filter_congr
  intro r hr
  have hgone : r.2.id ∈ ids ↔ r.2.actor = some a := by
    rw [hids]
    constructor
    · rintro ⟨q,hq,hi,ha⟩
      rwa [← h.distinct.eq (List.mem_map_of_mem hq) (List.mem_map_of_mem hr) hi]
    · exact fun ha => ⟨r,hr,rfl,ha⟩
  simp only [hgone,decide_not]

theorem Represents.actor_gone (h : s.Represents rows) {a : EntityId}
    (hn : ∀ r ∈ rows, r.2.actor ≠ some a) : a ∉ s.byActor := by
  intro hin
  obtain ⟨set,hset⟩ := (mem_iff_get _ _).mp hin
  have hne := h.valid.nonempty a set hset
  rw [← Bool.not_eq_true,set_isEmpty_iff] at hne
  apply hne
  intro id hid
  obtain ⟨r,hr,-,ha⟩ := (h.lists_iff a id).mp ⟨set,hset,hid⟩
  exact hn r hr ha

theorem cancelByActor_pending (h : s.Represents rows) (a : EntityId) :
    (s.cancelByActor a).1 = (PendingList.withdrawAll ScheduledEntry.id
        (fun e => e.actor = some a) (rows.map Prod.snd)).1 ∧
      (s.cancelByActor a).2.Represents (rows.filter (fun r => !decide (r.2.actor = some a))) ∧
      (s.cancelByActor a).2.nextId = s.nextId := by
  unfold cancelByActor
  cases hm : s.byActor[a]? with
  | none =>
    have hne := h.actor_none hm
    have hrows : rows.filter (fun r => !decide (r.2.actor = some a)) = rows :=
      List.filter_eq_self.mpr (fun r hr => by simpa using hne r hr)
    have hnil : ∀ e ∈ rows.map Prod.snd, decide (e.actor = some a) ≠ true := by
      intro e he
      obtain ⟨r,hr,rfl⟩ := List.mem_map.mp he
      simpa using hne r hr
    rw [hrows,PendingList.withdrawAll_none hnil]
    exact ⟨rfl,h,rfl⟩
  | some ids =>
    have hids := h.actor_ids hm
    have hsorted : ids.toList.Pairwise (· < ·) :=
      (Std.ExtTreeSet.ordered_toList (t := ids)).imp compare_lt_iff_lt.mp
    obtain ⟨es,s',hfold,hrep,hmap,hmem,hact,hnext⟩ := cancelRows_pending ids.toList
      (hsorted.imp ne_of_lt) h (fun id hid => (hids id).mp hid) [] (s.byActor.erase a)
    rw [h.rows_kept hids] at hrep
    have hempty : a ∉ s'.byActor :=
      hrep.actor_gone (fun r hr => by simpa using (List.mem_filter.mp hr).2)
    have hs' : { s' with byActor := s.byActor.erase a } = s' := by
      rw [← hact,erase_of_not_mem hempty]
    dsimp only
    rw [hfold,hs']
    refine ⟨PendingList.withdrawAll_eq h.distinct hsorted ?_ hmap hmem,hrep,hnext⟩
    intro id
    rw [hids]
    constructor
    · rintro ⟨r,hr,hi,ha⟩
      exact ⟨r.2,List.mem_map_of_mem hr,hi,by simpa using ha⟩
    · rintro ⟨e,he,hi,ha⟩
      obtain ⟨r,hr,rfl⟩ := List.mem_map.mp he
      exact ⟨r,hr,hi,by simpa using ha⟩

end Rows

def Refines (s : Scheduler) (l : Pending) : Prop :=
  ∃ rows, s.Represents rows ∧ l.entries = rows.map Prod.snd ∧ l.lastId = s.nextId

theorem map_filter_rows (rows : List (ℕ × ScheduledEntry)) (p : ScheduledEntry → Bool) :
    (rows.filter (fun r => p r.2)).map Prod.snd = (rows.map Prod.snd).filter p := by
  rw [List.filter_map]
  rfl

theorem answer_refines (s : Scheduler) (l : Pending) (call : SchedulerCall) (hok : s.Allows call)
    (h : s.Refines l) : (s.answer call).2.Refines (l.answer call).2 ∧
      (s.answer call).1 = (l.answer call).1 := by
  obtain ⟨rows,hr,hl,hlast⟩ := h
  obtain ⟨entries,lastId⟩ := l
  dsimp only at hl hlast
  subst hl hlast
  cases call with
  | schedule atTick actor principal capsCeiling typeCode bytes =>
    obtain ⟨hnew,hget,he⟩ := schedule_eq hr hok.1 atTick actor principal capsCeiling typeCode bytes
    simp only [answer,Pending.answer]
    rw [he]
    refine ⟨⟨_,hr.append hnew hok.2,by rw [List.map_append]; rfl,?_⟩,rfl⟩
    rw [scheduleWithId_nextId]
    dsimp only
    rw [hget]
    omega
  | scheduleWithId e =>
    refine ⟨⟨_,hr.append hok.2.2 hok.2.1,by rw [List.map_append]; rfl,?_⟩,rfl⟩
    exact (scheduleWithId_nextId s e).symm
  | cancel id =>
    obtain ⟨hout,hrep,hnext⟩ := cancel_pending hr id
    refine ⟨⟨_,hrep,?_,hnext.symm⟩,congrArg SchedulerReply.entry hout⟩
    exact (map_filter_rows rows (fun e => e.id ≠ id)).symm
  | cancelByActor actor =>
    obtain ⟨hout,hrep,hnext⟩ := cancelByActor_pending hr actor
    refine ⟨⟨_,hrep,?_,hnext.symm⟩,congrArg SchedulerReply.entries hout⟩
    exact (map_filter_rows rows (fun e => !decide (e.actor = some actor))).symm
  | popDue now =>
    simp only [answer,Pending.answer]
    rcases popDue_pending hr now with ⟨hp,hl⟩ | ⟨e,s',hp,he,hl,hrep,hnext⟩
    · rw [hp,hl]
      exact ⟨⟨rows,hr,rfl,rfl⟩,rfl⟩
    · rw [hp,hl]
      refine ⟨⟨_,hrep,?_,hnext.symm⟩,rfl⟩
      rw [map_filter_rows rows (fun a => a.id ≠ e.id)]
      exact hr.distinct.erase he

theorem machine_refines (s : Scheduler) (l : Pending) (call : SchedulerCall) (hok : s.Allows call)
    (h : s.Refines l) : (machine.next s call).Refines (Pending.machine.next l call) ∧
      machine.out s call = Pending.machine.out l call := by
  obtain ⟨hs,ho⟩ := answer_refines s l call hok h
  exact ⟨hs,congrArg (fun r => [r]) ho⟩

end Scheduler

/-- The scheduler answers every sequence of calls as the pending list does, and
after each of them holds exactly the pending entries, passes its own check and
is out of reach of the panics of `cancel` and `popDue`. -/
theorem scheduler_refines_pending_list (calls : List SchedulerCall)
    (hok : Scheduler.machine.Admits Scheduler.Allows .new calls) :
    Scheduler.machine.trace .new calls = Pending.machine.trace .empty calls ∧
    ∀ pre post, calls = pre ++ post →
      (∃ rows, (Scheduler.machine.run .new pre).Represents rows ∧
        (Pending.machine.run .empty pre).entries = rows.map Prod.snd) ∧
      (Scheduler.machine.run .new pre).validate = .ok () ∧
      (∀ id, ¬(Scheduler.machine.run .new pre).cancelPanics id) ∧
      ∀ now, ¬(Scheduler.machine.run .new pre).popPanics now := by
  have hstart : Scheduler.new.Refines .empty := ⟨[],Scheduler.new_represents,rfl,rfl⟩
  have hrun := fun cs hc => Scheduler.machine.run_refines Pending.machine Scheduler.Refines
    Scheduler.Allows Scheduler.machine_refines .new .empty cs hc hstart
  refine ⟨(hrun calls hok).2,?_⟩
  rintro pre post rfl
  obtain ⟨rows,hr,hl,-⟩ := (hrun pre ((Scheduler.machine.admits_append _ _ _ _).mp hok).1).1
  exact ⟨⟨rows,hr,hl⟩,Scheduler.validate_ok_iff.mpr hr.valid,
    Scheduler.cancel_panics_never hr,Scheduler.pop_panics_never _⟩

def mixedSchedule : List SchedulerCall := [
  .schedule ⟨5⟩ (some ⟨.succ 0⟩) .system .SYSTEM (.clamp 7) [],
  .scheduleWithId ⟨⟨.succ 40⟩,⟨3⟩,some ⟨.succ 1⟩,.system,.clamp 7,[],.SYSTEM⟩,
  .schedule ⟨3⟩ (some ⟨.succ 0⟩) .system .SYSTEM (.clamp 7) [],
  .schedule ⟨9⟩ none .system .SYSTEM (.clamp 7) [],
  .popDue ⟨2⟩,
  .popDue ⟨3⟩,
  .cancelByActor ⟨.succ 0⟩,
  .cancel ⟨.succ 42⟩,
  .popDue ⟨9⟩]

theorem scheduler_refines_pending_list_mixed :
    Scheduler.machine.trace .new mixedSchedule = Pending.machine.trace .empty mixedSchedule := by
  apply (scheduler_refines_pending_list mixedSchedule _).1
  decide +kernel

end ArkheKernel
