import ArkheKernel.SchedulerIndex
import ArkheKernel.ExactlyOnce

/-!
# Allocated ids are not pending

Ids are minted from a counter of the instance, not from the scheduler. While
that counter dominates the pending ids, neither a submission nor a child can
collide with one, and the scheduler stays valid until a counter is exhausted.
-/

set_option autoImplicit false

namespace ArkheKernel
open OrderedMap

/-- A valid scheduler, and an id counter that dominates what is pending in it. -/
structure Instance.Indexed (i : Instance) : Prop where
  valid : i.scheduler.Valid
  dominated : ∀ id ∈ i.scheduler.byId, id.get ≤ i.idCounters.nextScheduled

/-- No counter that scheduling draws from has reached its last value. -/
structure Instance.Unsaturated (i : Instance) : Prop where
  ids : i.idCounters.nextScheduled < u64Max
  seqs : i.scheduler.nextSeq < u64Max

namespace Scheduler
variable {s : Scheduler}

theorem mem_scheduleWithId (e : ScheduledEntry) (id : ScheduledActionId) :
    id ∈ (s.scheduleWithId e).byId ↔ id = e.id ∨ id ∈ s.byId :=
  mem_insert _ _ _ _

theorem mem_popDue {s' : Scheduler} {now : Tick} {e : ScheduledEntry}
    (h : s.popDue now = some (e,s')) {id : ScheduledActionId} (hid : id ∈ s'.byId) :
    id ∈ s.byId := by
  obtain ⟨_,-,-,-,rfl⟩ := popDue_some h
  exact ((mem_erase _ _ _).mp hid).2

theorem scheduleAll_nextSeq (cs : List ScheduledEntry)
    (h : (cs.foldl scheduleWithId s).nextSeq < u64Max) : s.nextSeq+cs.length < u64Max := by
  induction cs generalizing s with
  | nil => exact h
  | cons e cs ih =>
    have hi := ih h
    have hn : (s.scheduleWithId e).nextSeq = satAdd64 s.nextSeq 1 := rfl
    rw [hn] at hi
    unfold satAdd64 at hi
    rw [List.length_cons]
    omega

theorem Valid.pending_mem (h : s.Valid) {e : ScheduledEntry} (he : e ∈ s.pending) :
    e.id ∈ s.byId := by
  obtain ⟨⟨key,v⟩,hv,rfl⟩ := List.mem_map.mp he
  exact mem_of_get (h.keyed key v ((mem_toList _ _ _).mp hv)).2

theorem Valid.scheduleAll (h : s.Valid) {n : ℕ} (hn : ∀ id ∈ s.byId, id.get ≤ n)
    (cs : List ScheduledEntry)
    (hids : cs.map (fun e => e.id.get) = List.range' (n+1) cs.length)
    (hseq : s.nextSeq+cs.length < u64Max) : (cs.foldl scheduleWithId s).Valid ∧
      ∀ id ∈ (cs.foldl scheduleWithId s).byId, id.get ≤ n+cs.length := by
  induction cs generalizing s n with
  | nil => exact ⟨h,hn⟩
  | cons e cs ih =>
    rw [List.map_cons,List.length_cons,List.range'_succ,List.cons.injEq] at hids
    rw [List.length_cons] at hseq
    have hnew : e.id ∉ s.byId := by
      intro hm
      have hle := hn e.id hm
      omega
    have hnext : (s.scheduleWithId e).nextSeq = s.nextSeq+1 := satAdd64_eq (by omega)
    have hbound : ∀ id ∈ (s.scheduleWithId e).byId, id.get ≤ n+1 := by
      intro id hid
      rcases (mem_scheduleWithId e id).mp hid with rfl | hid
      · exact le_of_eq hids.1
      · exact Nat.le_succ_of_le (hn id hid)
    obtain ⟨hv,hb⟩ := ih (h.schedule hnew (by omega)) hbound hids.2 (by omega)
    refine ⟨hv,?_⟩
    intro id hid
    rw [List.length_cons]
    have hle := hb id hid
    omega

end Scheduler

namespace Execution
variable (x : Execution)

theorem gate_advance : x.gate.stage.idCounters.nextScheduledAdvance =
    min x.gate.stage.children.length u64Max := by
  apply gateLoop_invariant x.start x.instId x.entry.principal x.caps x.now
    (fun s _ => s.idCounters.nextScheduledAdvance = min s.children.length u64Max) {} x.ops
  · rfl
  · exact fun _ _ _ h => h
  · intro s n op _ _ _ h
    cases op with
    | scheduleAction atTick actor typeCode actionBytes =>
      change satAdd64 s.idCounters.nextScheduledAdvance 1 =
        min ((s.scheduleDeltas ++ _).filterMap ScheduledEntryDelta.added).length u64Max
      rw [h,List.filterMap_append,List.length_append]
      change min (min s.children.length u64Max+1) u64Max = min (s.children.length+1) u64Max
      omega
    | _ => exact h

theorem after_unsaturated (h : x.after.Unsaturated) :
    x.before.idCounters.nextScheduled+x.children.length < u64Max ∧
      x.rest.nextSeq+x.children.length < u64Max := by
  refine ⟨?_,?_⟩
  · have hid := h.ids
    by_cases hc : x.commits = true
    · have hs : x.children = x.gate.stage.children := by rw [children,stage,if_pos hc]
      have he : x.after = (applyStage x.start x.gate.stage).1 := if_pos hc
      obtain ⟨_,_,hf⟩ := applyStage_frame x.start x.gate.stage
      rw [he,hf] at hid
      change satAdd64 x.before.idCounters.nextScheduled
        x.gate.stage.idCounters.nextScheduledAdvance < u64Max at hid
      rw [x.gate_advance] at hid
      unfold satAdd64 at hid
      rw [hs]
      omega
    · have hs : x.children = [] := by rw [children,stage,if_neg hc]; rfl
      have he : x.after = x.start := if_neg hc
      rw [he] at hid
      rw [hs]
      exact hid
  · have hseq := h.seqs
    rw [x.after_scheduler] at hseq
    exact Scheduler.scheduleAll_nextSeq _ hseq

theorem before_unsaturated (h : x.after.Unsaturated) : x.before.Unsaturated := by
  obtain ⟨hi,hs⟩ := x.after_unsaturated h
  rw [(Scheduler.popDue_counters x.popped).1] at hs
  exact ⟨by omega,by omega⟩

theorem children_ids (h : x.after.Unsaturated) : x.children.map (fun e => e.id.get) =
    List.range' (x.before.idCounters.nextScheduled+1) x.children.length := by
  obtain ⟨next,hs⟩ := x.stage_staged
  exact (hs.numbered (le_of_lt (x.after_unsaturated h).1)).2.2

theorem children_fresh (hb : x.before.Indexed) (h : x.after.Unsaturated) :
    (x.children.map ScheduledEntry.id).Nodup ∧
      ∀ e ∈ x.children, e.id ∉ x.before.scheduler.byId := by
  have hids := x.children_ids h
  refine ⟨?_,?_⟩
  · have hr : (x.children.map (fun e => e.id.get)).Nodup := by
      rw [hids]
      exact List.nodup_range'
    have hm : x.children.map (fun e => e.id.get) =
        (x.children.map ScheduledEntry.id).map ScheduledActionId.get := by
      rw [List.map_map]
      rfl
    rw [hm] at hr
    exact hr.of_map _
  · intro e he hid
    have hle := hb.dominated e.id hid
    have hmem : e.id.get ∈ List.range' (x.before.idCounters.nextScheduled+1)
        x.children.length := by
      rw [← hids]
      exact List.mem_map_of_mem he
    have hlt := (List.mem_range'_1.mp hmem).1
    omega

theorem after_indexed (hb : x.before.Indexed) (h : x.after.Unsaturated) : x.after.Indexed := by
  obtain ⟨hi,hs⟩ := x.after_unsaturated h
  have hrest : ∀ id ∈ x.rest.byId, id.get ≤ x.before.idCounters.nextScheduled :=
    fun id hid => hb.dominated id (Scheduler.mem_popDue x.popped hid)
  obtain ⟨hv,hd⟩ := (hb.valid.pop x.popped).scheduleAll hrest x.children (x.children_ids h) hs
  refine ⟨?_,?_⟩
  · rw [x.after_scheduler]
    exact hv
  · rw [x.after_scheduler,x.after_nextScheduled (le_of_lt hi)]
    exact hd

end Execution

section Admission
variable {i : Instance} (s : Submission)

theorem submit_unsaturated (h : (i.submit s).2.Unsaturated) :
    i.idCounters.nextScheduled+1 < u64Max ∧ i.scheduler.nextSeq+1 < u64Max := by
  have hi : satAdd64 i.idCounters.nextScheduled 1 < u64Max := h.ids
  have hs : satAdd64 i.scheduler.nextSeq 1 < u64Max := h.seqs
  unfold satAdd64 at hi hs
  omega

theorem Instance.Indexed.minted_fresh (h : i.Indexed) (hu : i.idCounters.nextScheduled < u64Max) :
    (i.submit s).1 ∉ i.scheduler.byId := by
  intro hid
  have hle := h.dominated _ hid
  have hget : (i.submit s).1.get = i.idCounters.nextScheduled+1 := satAdd64_eq (by omega)
  omega

theorem Instance.Indexed.submitWithId (h : i.Indexed) {id : ScheduledActionId}
    (hid : id ∉ i.scheduler.byId) (hseq : i.scheduler.nextSeq < u64Max) :
    (i.submitWithId s id).Indexed := by
  refine ⟨h.valid.schedule hid hseq,?_⟩
  intro id' hid'
  change id'.get ≤ if i.idCounters.nextScheduled < id.get then id.get
    else i.idCounters.nextScheduled
  rcases (Scheduler.mem_scheduleWithId _ _).mp hid' with he | hid'
  · have hget : id'.get = id.get := congrArg ScheduledActionId.get he
    split <;> omega
  · have hle := h.dominated id' hid'
    split <;> omega

theorem Instance.Indexed.submit (h : i.Indexed) (hu : (i.submit s).2.Unsaturated) :
    (i.submit s).2.Indexed := by
  obtain ⟨hi,hs⟩ := submit_unsaturated s hu
  refine ⟨h.valid.schedule (h.minted_fresh s (by omega)) (by omega),?_⟩
  intro id hid
  change id.get ≤ satAdd64 i.idCounters.nextScheduled 1
  rw [satAdd64_eq (by omega)]
  rcases (Scheduler.mem_scheduleWithId _ _).mp hid with rfl | hid
  · exact le_of_eq (satAdd64_eq (by omega))
  · exact Nat.le_succ_of_le (h.dominated id hid)

end Admission

theorem new_indexed (id : InstanceId) (config : InstanceConfig) :
    (Instance.new id config).Indexed :=
  ⟨Scheduler.new_valid,fun id hid => by simp [Instance.new,Scheduler.new] at hid⟩

/-- An instance stays indexed as long as its counters last. -/
theorem indexed_preserved :
    Kernel.Preserved (fun _ => True) (fun _ i => i.Unsaturated → i.Indexed) where
  created id config _ := new_indexed id config
  admitted _ i s h hu := by
    obtain ⟨hi,hs⟩ := submit_unsaturated s hu
    exact (h ⟨by omega,by omega⟩).submit s hu
  executed x _ h hu := x.after_indexed (h (x.before_unsaturated hu)) hu
  signals _ i _ _ _ h hu := by
    obtain ⟨hv,hd⟩ := h ⟨hu.ids,hu.seqs⟩
    exact ⟨hv,hd⟩

end ArkheKernel
