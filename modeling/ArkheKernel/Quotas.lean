import ArkheKernel.IdAllocation

/-!
# Count quotas

Entities and schedules are counted against a projection that is made before the
commit, submissions when they are admitted, signals when they are routed. Each
place keeps its count within the quota, whatever the others do.
-/

set_option autoImplicit false

namespace ArkheKernel
open OrderedMap

/-- Every count of the instance is within its quota, where zero is no quota. -/
structure Instance.WithinQuotas (i : Instance) : Prop where
  entities : 0 < i.config.maxEntities → i.config.maxEntities ≤ u32Max →
    i.entitiesLen ≤ i.config.maxEntities
  scheduled : 0 < i.config.maxScheduled → i.config.maxScheduled ≤ u32Max →
    i.scheduler.len ≤ i.config.maxScheduled
  inbox : 0 < i.config.maxInboxPerRoute → ∀ route, i.inboxLen route ≤ i.config.maxInboxPerRoute

theorem satAdd64_lt {a b q : ℕ} (h : satAdd64 a b < q) (hq : q ≤ u32Max) : a+b < q := by
  have hmax : u32Max < u64Max := by decide
  unfold satAdd64 at h
  omega

theorem applyStateOp_entities (i : Instance) (d : StagedStateDelta)
    (hd : ∀ id m, d ≠ .spawnEntity id m) : (applyStateOp i d).entities.size ≤ i.entities.size := by
  cases d with
  | spawnEntity id m => exact absurd rfl (hd id m)
  | despawnEntity id => exact size_erase_le _ _
  | setComponent entity typeCode bytes size =>
    by_cases h : (i.entities[entity]?).isSome
    · have he : applyStateOp i (.setComponent entity typeCode bytes size) =
          i.insertComponent ⟨entity,typeCode⟩ bytes := if_pos h
      rw [he]
      exact le_refl i.entities.size
    · have he : applyStateOp i (.setComponent entity typeCode bytes size) = i := if_neg h
      rw [he]
  | removeComponent entity typeCode size => exact le_refl i.entities.size

structure Projected (i : Instance) (quota : ℕ) (s : StepStage) : Prop where
  live : (s.stateOps.foldl applyStateOp i).entities.size ≤
    i.entitiesLen+s.idCounters.nextEntityAdvance
  within : i.entitiesLen+s.idCounters.nextEntityAdvance ≤ quota

theorem dispatch_projected {i : Instance} {quota : ℕ} (h0 : 0 < quota) (hq : quota ≤ u32Max)
    (hc : i.config.maxEntities = quota) (e : Effect) (s : StepStage) (now : Tick) (next : ℕ)
    (caps : CapabilityMask) (hs : skipOp i s e.op = none) (h : Projected i quota s) :
    Projected i quota (dispatch e s now next caps).1 := by
  have hmax : u32Max < u64Max := by decide
  have hw := h.within
  unfold dispatch
  cases ho : e.op with
  | spawnEntity id owner =>
    have hn := (skipOp_none hs).2.1
    rw [ho,entityQuotaExceeded,hc,decide_eq_true h0,Bool.true_and] at hn
    have hlt := satAdd64_lt (not_le.mp (of_decide_eq_false hn)) hq
    have hadv : satAdd64 s.idCounters.nextEntityAdvance 1 = s.idCounters.nextEntityAdvance+1 :=
      satAdd64_eq (by omega)
    refine ⟨?_,?_⟩
    · dsimp only
      rw [List.foldl_append,hadv]
      have hl := h.live
      have hins := size_insert_le (s.stateOps.foldl applyStateOp i).entities id ⟨owner,now⟩
      exact hins.trans (by omega)
    · dsimp only
      rw [hadv]
      omega
  | despawnEntity id =>
    refine ⟨?_,hw⟩
    dsimp only
    rw [List.foldl_append]
    exact (applyStateOp_entities _ (.despawnEntity id) (fun _ _ => nofun)).trans h.live
  | setComponent entity typeCode bytes size =>
    refine ⟨?_,hw⟩
    dsimp only
    rw [List.foldl_append]
    exact (applyStateOp_entities _ (.setComponent entity typeCode bytes size) (fun _ _ => nofun)).trans h.live
  | removeComponent entity typeCode size =>
    refine ⟨?_,hw⟩
    dsimp only
    rw [List.foldl_append]
    exact (applyStateOp_entities _ (.removeComponent entity typeCode size) (fun _ _ => nofun)).trans h.live
  | _ => exact ⟨h.live,hw⟩

theorem Execution.after_entities (x : Execution) (h0 : 0 < x.before.config.maxEntities)
    (hq : x.before.config.maxEntities ≤ u32Max)
    (hb : x.before.entitiesLen ≤ x.before.config.maxEntities) :
    x.after.entitiesLen ≤ x.before.config.maxEntities := by
  unfold Execution.after
  split
  · have hp : Projected x.start x.before.config.maxEntities x.gate.stage :=
      gateLoop_invariant x.start x.instId x.entry.principal x.caps x.now
        (fun s _ => Projected x.start x.before.config.maxEntities s) {} x.ops
        ⟨le_refl _,hb⟩ (fun _ _ _ h => ⟨h.live,h.within⟩)
        (fun s next op _ _ hs h => dispatch_projected (i := x.start) h0 hq rfl _ s x.now next x.caps hs h)
    unfold Instance.entitiesLen
    rw [(applyStage_maps x.start x.gate.stage).1]
    exact hp.live.trans hp.within
  · exact hb

theorem scheduleWithId_len (s : Scheduler) (e : ScheduledEntry) :
    (s.scheduleWithId e).len ≤ s.len+1 :=
  size_insert_le _ _ _

theorem scheduleAll_len (s : Scheduler) (cs : List ScheduledEntry) :
    (cs.foldl Scheduler.scheduleWithId s).len ≤ s.len+cs.length := by
  induction cs generalizing s with
  | nil => exact le_refl _
  | cons e cs ih =>
    have h := ih (s.scheduleWithId e)
    have he := scheduleWithId_len s e
    rw [List.foldl_cons,List.length_cons]
    omega

theorem popDue_len {s s' : Scheduler} {now : Tick} {e : ScheduledEntry}
    (h : s.popDue now = some (e,s')) : s'.len ≤ s.len := by
  obtain ⟨key,-,-,-,rfl⟩ := Scheduler.popDue_some h
  exact size_erase_le _ _

theorem Execution.gate_children (x : Execution) (h0 : 0 < x.before.config.maxScheduled)
    (hq : x.before.config.maxScheduled ≤ u32Max)
    (hb : x.rest.len ≤ x.before.config.maxScheduled) :
    x.rest.len+x.gate.stage.children.length ≤ x.before.config.maxScheduled := by
  have hmax : u32Max < u64Max := by decide
  have h := gateLoop_invariant x.start x.instId x.entry.principal x.caps x.now
    (fun s _ => x.rest.len+s.children.length ≤ x.before.config.maxScheduled ∧
      s.idCounters.nextScheduledAdvance = s.children.length) {} x.ops
    ⟨hb,rfl⟩ (fun _ _ _ h => h) (by
      intro s next op _ _ hs h
      cases op with
      | scheduleAction atTick actor typeCode actionBytes =>
        obtain ⟨hle,hadv⟩ := h
        have hn := (skipOp_none hs).2.2
        have hc : x.start.config = x.before.config := rfl
        have hl : x.start.scheduler = x.rest := rfl
        rw [scheduledQuotaExceeded,hc,hl,decide_eq_true h0,Bool.true_and] at hn
        have hlt := satAdd64_lt (not_le.mp (of_decide_eq_false hn)) hq
        have hlen : (dispatch ⟨x.instId,x.entry.principal,
            .scheduleAction atTick actor typeCode actionBytes⟩ s x.now next
              x.caps).1.children.length = s.children.length+1 := by
          change ((s.scheduleDeltas ++ [_]).filterMap ScheduledEntryDelta.added).length = _
          rw [List.filterMap_append,List.length_append]
          rfl
        rw [hlen]
        refine ⟨by omega,?_⟩
        change satAdd64 s.idCounters.nextScheduledAdvance 1 = _
        rw [hadv]
        exact satAdd64_eq (by omega)
      | _ => exact h)
  exact h.1

theorem Execution.after_scheduled (x : Execution) (h0 : 0 < x.before.config.maxScheduled)
    (hq : x.before.config.maxScheduled ≤ u32Max)
    (hb : x.before.scheduler.len ≤ x.before.config.maxScheduled) :
    x.after.scheduler.len ≤ x.before.config.maxScheduled := by
  have hrest : x.rest.len ≤ x.before.config.maxScheduled := (popDue_len x.popped).trans hb
  have hg := x.gate_children h0 hq hrest
  have hc : x.children.length ≤ x.gate.stage.children.length := by
    unfold Execution.children Execution.stage
    split
    · exact le_refl _
    · exact Nat.zero_le _
  rw [x.after_scheduler]
  exact (scheduleAll_len x.rest x.children).trans (by omega)

theorem Instance.accept_inboxLen (i : Instance) (source : InstanceId) (sig : PendingSignal)
    (route : RouteId) : (i.accept source sig).inboxLen route =
      if route = sig.route then i.inboxLen route+1 else i.inboxLen route := by
  unfold Instance.inboxLen Instance.accept Instance.deliverSignal Instance.creditRef
  dsimp only
  by_cases h : route = sig.route
  · rw [if_pos h,h,get_insert_self,Std.ExtTreeMap.getD_eq_getD_getElem?]
    cases i.signalInbox[sig.route]? with
    | none => rfl
    | some q =>
      dsimp only
      rw [Option.getD_some,List.length_append]
      rfl
  · rw [if_neg h,get_insert_ne _ _ h]

theorem within_quotas_guarded :
    Kernel.Guarded (fun _ => True) (fun _ i => i.WithinQuotas) where
  created id config := by
    refine ⟨fun _ _ => Nat.zero_le _,fun _ _ => Nat.zero_le _,?_⟩
    intro _ route
    have hlen : (Instance.new id config).inboxLen route = 0 := by
      simp [Instance.inboxLen,Instance.new]
    rw [hlen]
    exact Nat.zero_le _
  admitted id i s hfull h := by
    refine ⟨h.entities,?_,h.inbox⟩
    intro h0 hq
    have hlt : i.scheduler.len < i.config.maxScheduled := by
      have hc : 0 < i.config.maxScheduled := h0
      rw [Instance.schedulerFull,decide_eq_true hc,Bool.true_and] at hfull
      exact not_le.mp (of_decide_eq_false hfull)
    exact (scheduleWithId_len _ _).trans hlt
  executed x _ h := by
    refine ⟨?_,?_,?_⟩
    · rw [x.after_config]
      exact fun h0 hq => x.after_entities h0 hq (h.entities h0 hq)
    · rw [x.after_config]
      exact fun h0 hq => x.after_scheduled h0 hq (h.scheduled h0 hq)
    · rw [x.after_config]
      intro h0 route
      have hlen : x.after.inboxLen route = x.before.inboxLen route := by
        rw [Instance.inboxLen,Instance.inboxLen,x.after_signals.2.1]
      rw [hlen]
      exact h.inbox h0 route
  accepted id i source sig hfull h := by
    refine ⟨h.entities,h.scheduled,?_⟩
    intro h0 route
    have hc : 0 < i.config.maxInboxPerRoute := h0
    change (i.accept source sig).inboxLen route ≤ i.config.maxInboxPerRoute
    rw [i.accept_inboxLen]
    split
    · next hr =>
      rw [Instance.inboxFull,decide_eq_true hc,Bool.true_and] at hfull
      rw [hr]
      exact not_le.mp (of_decide_eq_false hfull)
    · exact h.inbox h0 route
  unloaded _ _ _ h := ⟨h.entities,h.scheduled,h.inbox⟩

/-- In every reachable state every nonzero quota bounds its count: live entities,
pending entries, and the signals queued on any route. The first two quotas are
32-bit fields. -/
theorem count_quotas_hold (c : Crypto) (manifest : Block) (wal : Option WalWriter)
    (calls : List Call) (id : InstanceId) (i : Instance)
    (hi : ((Kernel.machine c).run (.build manifest wal) calls).instances[id]? = some i)
    (he : i.config.maxEntities ≤ u32Max) (hs : i.config.maxScheduled ≤ u32Max) :
    (0 < i.config.maxEntities → i.entitiesLen ≤ i.config.maxEntities) ∧
    (0 < i.config.maxScheduled → i.scheduler.len ≤ i.config.maxScheduled) ∧
    (0 < i.config.maxInboxPerRoute →
      ∀ route, i.inboxLen route ≤ i.config.maxInboxPerRoute) := by
  have h := within_quotas_guarded.reachable c manifest wal calls (fun _ _ => trivial) id i hi
  exact ⟨fun h0 => h.entities h0 he,fun h0 => h.scheduled h0 hs,h.inbox⟩

def greedyConfig : InstanceConfig :=
  { defaultCaps := .SYSTEM, maxEntities := 1, maxScheduled := 2, maxInboxPerRoute := 1 }

def greedyCalls : List Call := [
  .request (.registerAction (.clamp 7) (.constant [
    .spawnEntity ⟨.succ 0⟩ .system, .spawnEntity ⟨.succ 1⟩ .system,
    .scheduleAction ⟨2⟩ none (.clamp 7) [], .scheduleAction ⟨2⟩ none (.clamp 7) [],
    .sendSignal ⟨.succ 0⟩ ⟨1⟩ [], .sendSignal ⟨.succ 0⟩ ⟨1⟩ []])),
  .request (.createInstance greedyConfig),
  .request (.submit ⟨⟨.succ 0⟩,.system,none,.SYSTEM,⟨1⟩,.clamp 7,[]⟩),
  .request (.submit ⟨⟨.succ 0⟩,.system,none,.SYSTEM,⟨1⟩,.clamp 7,[]⟩),
  .step ⟨1⟩ .SYSTEM]

theorem count_quotas_hold_greedy : ∃ i : Instance,
    ((Kernel.machine standIn).run (.build zeroBlock none) greedyCalls).instances[
      (⟨.succ 0⟩ : InstanceId)]? = some i ∧
    i.entitiesLen ≤ 1 ∧ i.scheduler.len ≤ 2 ∧ ∀ route, i.inboxLen route ≤ 1 := by
  have hc : (((Kernel.machine standIn).run (.build zeroBlock none) greedyCalls).instances[
      (⟨.succ 0⟩ : InstanceId)]?).map (fun i =>
        (i.config.maxEntities,i.config.maxScheduled,i.config.maxInboxPerRoute)) = some (1,2,1) := by
    decide +kernel
  obtain ⟨i,hi,hm⟩ := Option.map_eq_some_iff.mp hc
  simp only [Prod.mk.injEq] at hm
  obtain ⟨he,hs,hr⟩ := hm
  obtain ⟨h1,h2,h3⟩ := count_quotas_hold standIn zeroBlock none greedyCalls ⟨.succ 0⟩ i hi
    (by rw [he]; decide) (by rw [hs]; decide)
  rw [he] at h1
  rw [hs] at h2
  rw [hr] at h3
  exact ⟨i,hi,h1 (by decide),h2 (by decide),h3 (by decide)⟩

end ArkheKernel
