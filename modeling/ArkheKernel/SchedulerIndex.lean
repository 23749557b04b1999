import ArkheKernel.Scheduler

/-!
# The three tables agree

`validate` is the check that a decoded snapshot has to pass. It accepts exactly
the schedulers whose queue, id table and actor table describe the same entries
under counters that dominate them. Popping keeps this; scheduling keeps it when
the id is not pending and the sequence counter is not exhausted.
-/

set_option autoImplicit false

namespace ArkheKernel
open OrderedMap

def check (p : Prop) [Decidable p] (message : String) : Except String Unit :=
  if p then .ok () else .error message

def checkAll {α : Type} (f : α → Except String Unit) : List α → Except String Unit
  | [] => .ok ()
  | a::as => do f a; checkAll f as

theorem check_ok {p : Prop} [Decidable p] {message : String} : check p message = .ok () ↔ p := by
  unfold check
  by_cases h : p <;> simp [h]

theorem andThen_ok {a b : Except String Unit} : (do a; b) = .ok () ↔ a = .ok () ∧ b = .ok () := by
  cases a with
  | error e =>
    constructor
    · intro h
      cases h
    · intro h
      cases h.1
  | ok u => exact ⟨fun h => ⟨rfl,h⟩,fun h => h.2⟩

theorem checkAll_ok {α : Type} {f : α → Except String Unit} {as : List α} :
    checkAll f as = .ok () ↔ ∀ a ∈ as, f a = .ok () := by
  induction as with
  | nil => exact ⟨fun _ a ha => absurd ha List.not_mem_nil,fun _ => rfl⟩
  | cons a as ih => rw [checkAll,andThen_ok,ih,List.forall_mem_cons]

namespace Scheduler

def checkEntry (s : Scheduler) (p : SchedKey × ScheduledEntry) : Except String Unit := do
  check (p.2.id = p.1.id) "scheduler entry id does not match its key"
  check (s.byId[p.2.id]? = some p.1) "scheduler by_id does not map back to the ready key"

def checkActorId (s : Scheduler) (actor : EntityId) (id : ScheduledActionId) :
    Except String Unit :=
  match s.byId[id]? with
  | none => .error "scheduler by_actor references an unknown id"
  | some key => check ((s.ready[key]?).map ScheduledEntry.actor = some (some actor))
      "scheduler by_actor actor mismatch"

def checkActor (s : Scheduler) (p : EntityId × BTreeSet ScheduledActionId) :
    Except String Unit := do
  check (p.2.isEmpty = false) "scheduler by_actor holds an empty actor set"
  checkAll (s.checkActorId p.1) p.2.toList

def checkIndexed (s : Scheduler) (p : SchedKey × ScheduledEntry) : Except String Unit :=
  match p.2.actor with
  | none => .ok ()
  | some actor => check ((s.byActor[actor]?).any (fun ids => ids.contains p.2.id))
      "scheduler ready entry missing from its by_actor index"

def checkCounters (s : Scheduler) (p : SchedKey × ScheduledEntry) : Except String Unit := do
  check (p.1.seq < s.nextSeq) "scheduler next_seq not monotonic over live keys"
  check (p.1.id.get ≤ s.nextId) "scheduler next_id not monotonic over live ids"

def validate (s : Scheduler) : Except String Unit := do
  check (s.ready.size = s.byId.size) "scheduler ready/by_id size mismatch"
  checkAll s.checkEntry s.ready.toList
  checkAll s.checkActor s.byActor.toList
  checkAll s.checkIndexed s.ready.toList
  checkAll s.checkCounters s.ready.toList

def Lists (m : BTreeMap EntityId (BTreeSet ScheduledActionId)) (actor : EntityId)
    (id : ScheduledActionId) : Prop := ∃ ids, m[actor]? = some ids ∧ id ∈ ids

/-- The three tables describe the same entries, below the counters. -/
structure Valid (s : Scheduler) : Prop where
  keyed : ∀ (key : SchedKey) (e : ScheduledEntry), s.ready[key]? = some e → e.id = key.id ∧ s.byId[e.id]? = some key
  covered : ∀ (id : ScheduledActionId) (key : SchedKey), s.byId[id]? = some key → key ∈ s.ready ∧ key.id = id
  nonempty : ∀ (actor : EntityId) (ids : BTreeSet ScheduledActionId), s.byActor[actor]? = some ids → ids.isEmpty = false
  lists_iff : ∀ actor id, Lists s.byActor actor id ↔
    ∃ (key : SchedKey) (e : ScheduledEntry), s.byId[id]? = some key ∧ s.ready[key]? = some e ∧ e.actor = some actor
  counted : ∀ key ∈ s.ready, key.seq < s.nextSeq ∧ key.id.get ≤ s.nextId

section Checks
variable {s : Scheduler}

theorem checkEntries_ok : checkAll s.checkEntry s.ready.toList = .ok () ↔
    ∀ (key : SchedKey) (e : ScheduledEntry), s.ready[key]? = some e → e.id = key.id ∧ s.byId[e.id]? = some key := by
  rw [checkAll_ok]
  constructor
  · intro h key e he
    have hc := h (key,e) ((mem_toList _ _ _).mpr he)
    rw [checkEntry,andThen_ok,check_ok,check_ok] at hc
    exact hc
  · rintro h ⟨key,e⟩ hp
    rw [checkEntry,andThen_ok,check_ok,check_ok]
    exact h key e ((mem_toList _ _ _).mp hp)

theorem checkActorId_ok {actor : EntityId} {id : ScheduledActionId} :
    s.checkActorId actor id = .ok () ↔
      ∃ (key : SchedKey) (e : ScheduledEntry), s.byId[id]? = some key ∧ s.ready[key]? = some e ∧ e.actor = some actor := by
  unfold checkActorId
  cases hid : s.byId[id]? with
  | none => simp
  | some key => simp [check_ok]

theorem checkActors_ok : checkAll s.checkActor s.byActor.toList = .ok () ↔
    (∀ (actor : EntityId) (ids : BTreeSet ScheduledActionId), s.byActor[actor]? = some ids → ids.isEmpty = false) ∧
    ∀ actor id, Lists s.byActor actor id →
      ∃ (key : SchedKey) (e : ScheduledEntry), s.byId[id]? = some key ∧ s.ready[key]? = some e ∧ e.actor = some actor := by
  rw [checkAll_ok]
  constructor
  · intro h
    have hc : ∀ (actor : EntityId) (ids : BTreeSet ScheduledActionId), s.byActor[actor]? = some ids → ids.isEmpty = false ∧
        ∀ id ∈ ids.toList, s.checkActorId actor id = .ok () := by
      intro actor ids hids
      have hp := h (actor,ids) ((mem_toList _ _ _).mpr hids)
      rw [checkActor,andThen_ok,check_ok,checkAll_ok] at hp
      exact hp
    refine ⟨fun actor ids hids => (hc actor ids hids).1,?_⟩
    intro actor id ⟨ids,hids,hid⟩
    exact checkActorId_ok.mp ((hc actor ids hids).2 id (Std.ExtTreeSet.mem_toList.mpr hid))
  · rintro ⟨hne,hl⟩ ⟨actor,ids⟩ hp
    have hids := (mem_toList _ _ _).mp hp
    rw [checkActor,andThen_ok,check_ok,checkAll_ok]
    refine ⟨hne actor ids hids,?_⟩
    intro id hid
    exact checkActorId_ok.mpr (hl actor id ⟨ids,hids,Std.ExtTreeSet.mem_toList.mp hid⟩)

theorem checkIndexed_ok : checkAll s.checkIndexed s.ready.toList = .ok () ↔
    ∀ (key : SchedKey) (e : ScheduledEntry) (actor : EntityId), s.ready[key]? = some e → e.actor = some actor → Lists s.byActor actor e.id := by
  have hany : ∀ (o : Option (BTreeSet ScheduledActionId)) (id : ScheduledActionId),
      o.any (fun ids => ids.contains id) = true ↔ ∃ ids, o = some ids ∧ id ∈ ids := by
    intro o id
    cases o <;> simp
  rw [checkAll_ok]
  constructor
  · intro h key e actor he ha
    have hp := h (key,e) ((mem_toList _ _ _).mpr he)
    unfold checkIndexed at hp
    rw [ha] at hp
    exact (hany _ _).mp (check_ok.mp hp)
  · rintro h ⟨key,e⟩ hp
    unfold checkIndexed
    dsimp only
    split
    · rfl
    · next actor ha =>
      exact check_ok.mpr ((hany _ _).mpr (h key e actor ((mem_toList _ _ _).mp hp) ha))

theorem checkCounters_ok : checkAll s.checkCounters s.ready.toList = .ok () ↔
    ∀ key ∈ s.ready, key.seq < s.nextSeq ∧ key.id.get ≤ s.nextId := by
  rw [checkAll_ok]
  constructor
  · intro h key hk
    obtain ⟨e,he⟩ := (mem_iff_get _ _).mp hk
    have hp := h (key,e) ((mem_toList _ _ _).mpr he)
    rw [checkCounters,andThen_ok,check_ok,check_ok] at hp
    exact hp
  · rintro h ⟨key,e⟩ hp
    rw [checkCounters,andThen_ok,check_ok,check_ok]
    exact h key (mem_of_get ((mem_toList _ _ _).mp hp))

/-- The size comparison closes the one direction that no loop checks. -/
theorem validate_ok_iff : s.validate = .ok () ↔ s.Valid := by
  have hsize : (∀ (key : SchedKey) (e : ScheduledEntry), s.ready[key]? = some e → e.id = key.id ∧ s.byId[e.id]? = some key) →
      (s.ready.size = s.byId.size ↔
        ∀ (id : ScheduledActionId) (key : SchedKey), s.byId[id]? = some key → key ∈ s.ready ∧ key.id = id) := by
    intro hk
    apply size_eq_iff_inverse
    intro key hm
    obtain ⟨e,he⟩ := (mem_iff_get _ _).mp hm
    obtain ⟨hid,hb⟩ := hk key e he
    rw [← hid,hb]
  rw [validate,andThen_ok,andThen_ok,andThen_ok,andThen_ok,check_ok,checkEntries_ok,checkActors_ok,
    checkIndexed_ok,checkCounters_ok]
  constructor
  · intro ⟨hs,hk,⟨hne,hl⟩,hx,hc⟩
    refine ⟨hk,(hsize hk).mp hs,hne,?_,hc⟩
    intro actor id
    refine ⟨hl actor id,?_⟩
    intro ⟨key,e,hid,he,ha⟩
    have hi := hx key e actor he ha
    rwa [(hk key e he).1,((hsize hk).mp hs id key hid).2] at hi
  · intro h
    refine ⟨(hsize h.keyed).mpr h.covered,h.keyed,⟨h.nonempty,fun actor id => (h.lists_iff actor id).mp⟩,?_,
      h.counted⟩
    intro key e actor he ha
    exact (h.lists_iff actor e.id).mpr ⟨key,e,(h.keyed key e he).2,he,ha⟩

end Checks

instance (s : Scheduler) : Decidable s.Valid :=
  decidable_of_iff (s.validate = .ok ()) validate_ok_iff

section Index
variable {m : BTreeMap EntityId (BTreeSet ScheduledActionId)} {id : ScheduledActionId}

theorem indexActor_lists (actor : Option EntityId) (a : EntityId) (i : ScheduledActionId) :
    Lists (indexActor m actor id) a i ↔ Lists m a i ∨ (actor = some a ∧ i = id) := by
  cases actor with
  | none => simp [indexActor]
  | some b =>
    unfold Lists indexActor
    dsimp only
    rw [get_insert]
    by_cases hb : a = b
    · subst hb
      cases hm : m[a]? with
      | none =>
        simp [Std.ExtTreeMap.getD_eq_getD_getElem?,hm]
        exact eq_comm
      | some ids =>
        simp [Std.ExtTreeMap.getD_eq_getD_getElem?,hm]
        tauto
    · have hb' : b ≠ a := fun he => hb he.symm
      simp [hb,hb']

theorem indexActor_nonempty (actor : Option EntityId)
    (h : ∀ (a : EntityId) (ids : BTreeSet ScheduledActionId), m[a]? = some ids →
      ids.isEmpty = false) (a : EntityId) (ids : BTreeSet ScheduledActionId)
    (ha : (indexActor m actor id)[a]? = some ids) : ids.isEmpty = false := by
  cases actor with
  | none => exact h a ids ha
  | some b =>
    rcases get_insert_some.mp ha with ⟨-,rfl⟩ | ⟨-,ha⟩
    · simp
    · exact h a ids ha

theorem unindexActor_get (actor : Option EntityId) (a : EntityId) :
    (unindexActor m actor id)[a]? = if actor = some a
      then ((m[a]?).map (fun ids => ids.erase id)).filter (fun ids => !ids.isEmpty)
      else m[a]? := by
  cases actor with
  | none => simp [unindexActor]
  | some b =>
    unfold unindexActor
    dsimp only
    by_cases hb : b = a
    · subst hb
      rw [if_pos rfl]
      cases hm : m[b]? with
      | none => simp [hm]
      | some ids => cases he : (ids.erase id).isEmpty <;> simp [Option.filter,he]
    · have hb' : some b ≠ some a := fun he => hb (Option.some.inj he)
      have ha : a ≠ b := fun he => hb he.symm
      rw [if_neg hb']
      cases hm : m[b]? with
      | none => rfl
      | some ids =>
        dsimp only
        split
        · rw [get_erase,if_neg ha]
        · rw [get_insert,if_neg ha]

theorem unindexActor_lists (actor : Option EntityId) (a : EntityId) (i : ScheduledActionId) :
    Lists (unindexActor m actor id) a i ↔ Lists m a i ∧ ¬ (actor = some a ∧ i = id) := by
  unfold Lists
  rw [unindexActor_get]
  by_cases ha : actor = some a
  · rw [if_pos ha]
    cases hm : m[a]? with
    | none => simp
    | some ids =>
      have hne : ∀ j, j ∈ ids.erase id → (ids.erase id).isEmpty = false := by
        intro j hj
        rw [← Bool.not_eq_true,set_isEmpty_iff]
        exact fun hall => hall j hj
      constructor
      · rintro ⟨ids',hf,hi⟩
        obtain ⟨he,-⟩ := Option.filter_eq_some_iff.mp hf
        obtain rfl := Option.some.inj he
        obtain ⟨hi',hin⟩ := (set_mem_erase _ _ _).mp hi
        exact ⟨⟨ids,rfl,hin⟩,fun hc => hi' hc.2⟩
      · rintro ⟨⟨ids',he,hi⟩,hn⟩
        obtain rfl := Option.some.inj he
        have hi' : i ∈ ids.erase id := (set_mem_erase _ _ _).mpr ⟨fun hc => hn ⟨ha,hc⟩,hi⟩
        exact ⟨ids.erase id,by simp [hne i hi'],hi'⟩
  · rw [if_neg ha]
    simp [ha]

theorem unindexActor_nonempty (actor : Option EntityId)
    (h : ∀ (a : EntityId) (ids : BTreeSet ScheduledActionId), m[a]? = some ids →
      ids.isEmpty = false) (a : EntityId) (ids : BTreeSet ScheduledActionId)
    (ha : (unindexActor m actor id)[a]? = some ids) : ids.isEmpty = false := by
  rw [unindexActor_get] at ha
  split at ha
  · have hf := (Option.filter_eq_some_iff.mp ha).2
    simpa using hf
  · exact h a ids ha

end Index

theorem new_valid : new.Valid where
  keyed key e h := by simp [new] at h
  covered id key h := by simp [new] at h
  nonempty actor ids h := by simp [new] at h
  lists_iff actor id := by simp [new,Lists]
  counted key h := by simp [new] at h

theorem Valid.key_iff {s : Scheduler} (h : s.Valid) {key : SchedKey} {e : ScheduledEntry}
    (hkey : s.ready[key]? = some e) {k : SchedKey} {i : ScheduledActionId}
    (hi : s.byId[i]? = some k) : k = key ↔ i = e.id := by
  obtain ⟨hid,hback⟩ := h.keyed key e hkey
  constructor
  · intro hk
    rw [← (h.covered i k hi).2,hk,hid]
  · intro he
    rw [he,hback] at hi
    exact (Option.some.inj hi).symm

theorem Valid.pending_remove {s : Scheduler} (h : s.Valid) {key : SchedKey} {e : ScheduledEntry}
    (hkey : s.ready[key]? = some e) (i : ScheduledActionId) (p : ScheduledEntry → Prop) :
    (∃ k e', (s.byId.erase e.id)[i]? = some k ∧ (s.ready.erase key)[k]? = some e' ∧ p e') ↔
    (∃ k e', s.byId[i]? = some k ∧ s.ready[k]? = some e' ∧ p e') ∧ ¬ (p e ∧ i = e.id) := by
  constructor
  · rintro ⟨k,e',hi,hk,hp⟩
    rw [get_erase] at hi hk
    split at hi
    · cases hi
    · next hne =>
      split at hk
      · cases hk
      · exact ⟨⟨k,e',hi,hk,hp⟩,fun hc => hne hc.2⟩
  · rintro ⟨⟨k,e',hi,hk,hp⟩,hn⟩
    have hne : k ≠ key := by
      intro hkk
      rw [hkk,hkey] at hk
      obtain rfl := Option.some.inj hk
      exact hn ⟨hp,(h.key_iff hkey hi).mp hkk⟩
    refine ⟨k,e',?_,?_,hp⟩
    · rw [get_erase,if_neg (fun he => hne ((h.key_iff hkey hi).mpr he))]
      exact hi
    · rw [get_erase,if_neg hne]
      exact hk

theorem Valid.remove {s : Scheduler} (h : s.Valid) {key : SchedKey} {e : ScheduledEntry}
    (hkey : s.ready[key]? = some e) : Valid { s with
      ready := s.ready.erase key
      byId := s.byId.erase e.id
      byActor := unindexActor s.byActor e.actor e.id } where
  keyed k e' hk := by
    rw [get_erase] at hk ⊢
    split at hk
    · cases hk
    · next hne =>
      obtain ⟨hi,hb⟩ := h.keyed k e' hk
      rw [if_neg (fun he => hne ((h.key_iff hkey hb).mpr he))]
      exact ⟨hi,hb⟩
  covered i k hi := by
    rw [get_erase] at hi
    split at hi
    · cases hi
    · next hne =>
      obtain ⟨hm,hk⟩ := h.covered i k hi
      exact ⟨(mem_erase _ _ _).mpr ⟨fun he => hne ((h.key_iff hkey hi).mp he),hm⟩,hk⟩
  nonempty := unindexActor_nonempty e.actor h.nonempty
  lists_iff actor i := by
    rw [h.pending_remove hkey i (fun e' => e'.actor = some actor),← h.lists_iff]
    exact unindexActor_lists _ _ _
  counted k hk := h.counted k ((mem_erase _ _ _).mp hk).2

theorem Valid.pop {s s' : Scheduler} (h : s.Valid) {now : Tick} {e : ScheduledEntry}
    (hp : s.popDue now = some (e,s')) : s'.Valid := by
  obtain ⟨key,hkey,-,-,rfl⟩ := popDue_some hp
  exact h.remove hkey

theorem Valid.next_key {s : Scheduler} (h : s.Valid) {key : SchedKey} (hk : key ∈ s.ready)
    (atTick : Tick) (id : ScheduledActionId) : key ≠ ⟨atTick,s.nextSeq,id⟩ := by
  intro he
  have hlt := (h.counted key hk).1
  rw [he] at hlt
  exact lt_irrefl _ hlt

theorem Valid.pending_schedule {s : Scheduler} (h : s.Valid) {e : ScheduledEntry}
    (hid : e.id ∉ s.byId) (id : ScheduledActionId) (p : ScheduledEntry → Prop) :
    (∃ key e', (s.scheduleWithId e).byId[id]? = some key ∧
      (s.scheduleWithId e).ready[key]? = some e' ∧ p e') ↔
    (∃ key e', s.byId[id]? = some key ∧ s.ready[key]? = some e' ∧ p e') ∨ (p e ∧ id = e.id) := by
  change (∃ key e', (s.byId.insert e.id _)[id]? = some key ∧ _) ↔ _
  constructor
  · rintro ⟨key,e',hi,hk,hp⟩
    rw [scheduleWithId_ready] at hk
    rcases get_insert_some.mp hi with ⟨he,rfl⟩ | ⟨-,hi⟩
    · rw [if_pos rfl] at hk
      obtain rfl := Option.some.inj hk
      exact Or.inr ⟨hp,he⟩
    · rw [if_neg (h.next_key (h.covered id key hi).1 _ _)] at hk
      exact Or.inl ⟨key,e',hi,hk,hp⟩
  · rintro (⟨key,e',hi,hk,hp⟩ | ⟨hp,rfl⟩)
    · have hne : id ≠ e.id := fun he => hid (he ▸ mem_of_get hi)
      refine ⟨key,e',?_,?_,hp⟩
      · rw [get_insert,if_neg hne]
        exact hi
      · rw [scheduleWithId_ready,if_neg (h.next_key (mem_of_get hk) _ _)]
        exact hk
    · refine ⟨_,e,get_insert_self _ _ _,?_,hp⟩
      rw [scheduleWithId_ready,if_pos rfl]

theorem Valid.schedule {s : Scheduler} (h : s.Valid) {e : ScheduledEntry} (hid : e.id ∉ s.byId)
    (hseq : s.nextSeq < u64Max) : (s.scheduleWithId e).Valid where
  keyed key e' hk := by
    rw [scheduleWithId_ready] at hk
    change e'.id = key.id ∧ (s.byId.insert e.id _)[e'.id]? = some key
    rw [get_insert]
    split at hk
    · next he =>
      obtain rfl := Option.some.inj hk
      rw [if_pos rfl,he]
      exact ⟨rfl,rfl⟩
    · obtain ⟨hi,hb⟩ := h.keyed key e' hk
      have hne : e'.id ≠ e.id := fun he => hid (he ▸ mem_of_get hb)
      rw [if_neg hne]
      exact ⟨hi,hb⟩
  covered id key hi := by
    change key ∈ s.ready.insert _ e ∧ key.id = id
    rw [mem_insert]
    rcases get_insert_some.mp hi with ⟨rfl,rfl⟩ | ⟨-,hi⟩
    · exact ⟨Or.inl rfl,rfl⟩
    · obtain ⟨hm,hk⟩ := h.covered id key hi
      exact ⟨Or.inr hm,hk⟩
  nonempty := indexActor_nonempty e.actor h.nonempty
  lists_iff actor id := by
    rw [h.pending_schedule hid id (fun e' => e'.actor = some actor),← h.lists_iff]
    exact indexActor_lists _ _ _
  counted key hk := by
    rw [scheduleWithId_nextId]
    change key.seq < satAdd64 s.nextSeq 1 ∧ key.id.get ≤ max s.nextId e.id.get
    have hnext : satAdd64 s.nextSeq 1 = s.nextSeq+1 := satAdd64_eq (by omega)
    rw [hnext]
    rcases (mem_insert _ _ _ _).mp hk with rfl | hk
    · exact ⟨Nat.lt_succ_self _,le_max_right _ _⟩
    · obtain ⟨hs,hi⟩ := h.counted key hk
      exact ⟨Nat.lt_succ_of_lt hs,le_max_of_le_left hi⟩

end Scheduler
end ArkheKernel
