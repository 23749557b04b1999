import ArkheKernel.Descent

/-!
# Every admitted action runs exactly once and in order

Submissions and committed schedule operations draw ids from one counter. The
history of an instance lists what was ever scheduled in it and what was popped;
the queue holds exactly the rest, keyed by position in that history.
-/

set_option autoImplicit false

namespace ArkheKernel
open OrderedMap PrefixCode

def Scheduler.pending (s : Scheduler) : List ScheduledEntry := s.ready.toList.map Prod.snd

/-- A created instance starts a new history under its id. -/
def Item.scheduling (j : InstanceId) (acc : List ScheduledEntry) : Item → List ScheduledEntry
  | .created id _ => if id = j then [] else acc
  | .admitted id e => if id = j then acc ++ [e] else acc
  | .executed x => if x.instId = j then acc ++ x.children else acc

def Item.popping (j : InstanceId) (acc : List ScheduledEntry) : Item → List ScheduledEntry
  | .created id _ => if id = j then [] else acc
  | .admitted _ _ => acc
  | .executed x => if x.instId = j then acc ++ [x.entry] else acc

def scheduledOf (j : InstanceId) (tr : List Item) : List ScheduledEntry :=
  tr.foldl (Item.scheduling j) []

def poppedOf (j : InstanceId) (tr : List Item) : List ScheduledEntry :=
  tr.foldl (Item.popping j) []

def Item.popOf : Item → Option (InstanceId × ScheduledEntry)
  | .executed x => some (x.instId,x.entry)
  | _ => none

def popsOf (items : List Item) : List (InstanceId × ScheduledEntry) := items.filterMap Item.popOf

theorem scheduledOf_append (j : InstanceId) (tr items : List Item) :
    scheduledOf j (tr++items) = items.foldl (Item.scheduling j) (scheduledOf j tr) :=
  List.foldl_append

theorem poppedOf_append (j : InstanceId) (tr items : List Item) :
    poppedOf j (tr++items) = items.foldl (Item.popping j) (poppedOf j tr) :=
  List.foldl_append

/-- `S` was scheduled, in this order and under consecutive ids; `P` was popped. -/
structure Queue (s : Scheduler) (S P : List ScheduledEntry) : Prop where
  ids : S.map (fun e => e.id.get) = List.range' 1 S.length
  nextId : s.nextId = S.length
  nextSeq : s.nextSeq = S.length
  ready : ∀ key e, s.ready[key]? = some e → ∃ n, S[n]? = some e ∧
    key = (⟨e.atTick,n,e.id⟩ : SchedKey)
  accounted : S.Perm (P ++ s.pending)

theorem queue_new : Queue .new [] [] where
  ids := rfl
  nextId := rfl
  nextSeq := rfl
  ready key e h := by simp [Scheduler.new] at h
  accounted := by simp [Scheduler.pending,Scheduler.new]

variable {s : Scheduler} {S P : List ScheduledEntry}

theorem Queue.nodup (h : Queue s S P) : (S.map ScheduledEntry.id).Nodup := by
  have hr : (S.map (fun e => e.id.get)).Nodup := by
    rw [h.ids]
    exact List.nodup_range'
  have hm : S.map (fun e => e.id.get) = (S.map ScheduledEntry.id).map ScheduledActionId.get := by
    rw [List.map_map]
    rfl
  rw [hm] at hr
  exact hr.of_map _

theorem Queue.schedule (h : Queue s S P) (e : ScheduledEntry) (he : e.id.get = S.length+1)
    (hb : S.length < u64Max) : Queue (s.scheduleWithId e) (S++[e]) P := by
  have hfresh : s.ready[(⟨e.atTick,s.nextSeq,e.id⟩ : SchedKey)]? = none := by
    rw [← not_mem_iff_get,mem_iff_get]
    intro ⟨e',he'⟩
    obtain ⟨n,hn,hk⟩ := h.ready _ _ he'
    have hseq : s.nextSeq = n := congrArg SchedKey.seq hk
    have hlt := (List.getElem?_eq_some_iff.mp hn).1
    rw [h.nextSeq] at hseq
    omega
  refine ⟨?_,?_,?_,?_,?_⟩
  · rw [List.map_append,h.ids,List.length_append,List.length_singleton,List.range'_concat,
      List.map_singleton,he,Nat.add_comm S.length 1,Nat.one_mul]
  · rw [Scheduler.scheduleWithId_nextId,h.nextId,he,List.length_append,List.length_singleton]
    omega
  · change satAdd64 s.nextSeq 1 = _
    rw [h.nextSeq,satAdd64_eq (by omega),List.length_append,List.length_singleton]
  · intro key e' hk
    rw [Scheduler.scheduleWithId_ready] at hk
    split at hk
    · next hkey =>
      obtain rfl := Option.some.inj hk
      exact ⟨S.length,by simp,by rw [hkey,h.nextSeq]⟩
    · obtain ⟨n,hn,hkey⟩ := h.ready key e' hk
      exact ⟨n,by rw [List.getElem?_append_left (List.getElem?_eq_some_iff.mp hn).1]; exact hn,hkey⟩
  · have hp : (s.scheduleWithId e).pending.Perm (e :: s.pending) :=
      (toList_insert_perm e hfresh).map Prod.snd
    have hcons : (S++[e]).Perm (e :: S) := List.perm_append_singleton e S
    refine hcons.trans ?_
    refine (h.accounted.cons e).trans ?_
    exact List.perm_middle.symm.trans (hp.symm.append_left P)

theorem Queue.scheduleAll (h : Queue s S P) (cs : List ScheduledEntry)
    (hi : cs.map (fun e => e.id.get) = List.range' (S.length+1) cs.length)
    (hb : S.length+cs.length ≤ u64Max) :
    Queue (cs.foldl Scheduler.scheduleWithId s) (S++cs) P := by
  induction cs generalizing s S with
  | nil => simpa using h
  | cons e cs ih =>
    rw [List.map_cons,List.length_cons,List.range'_succ,List.cons.injEq] at hi
    rw [List.length_cons] at hb
    have hs := h.schedule e hi.1 (by omega)
    have hlen : (S++[e]).length = S.length+1 := by simp
    have ht := ih hs (by rw [hlen]; exact hi.2) (by rw [hlen]; omega)
    rw [List.append_assoc] at ht
    exact ht

theorem Queue.pop (h : Queue s S P) {now : Tick} {e : ScheduledEntry} {rest : Scheduler}
    (hp : s.popDue now = some (e,rest)) : Queue rest S (P++[e]) := by
  obtain ⟨key,hk,-,-,hrest⟩ := Scheduler.popDue_some hp
  have hperm : s.pending.Perm (e :: rest.pending) := by
    rw [hrest]
    exact (toList_erase_perm hk).map Prod.snd
  refine ⟨h.ids,?_,?_,?_,?_⟩
  · rw [(Scheduler.popDue_counters hp).2]
    exact h.nextId
  · rw [(Scheduler.popDue_counters hp).1]
    exact h.nextSeq
  · intro key' e' hk'
    exact h.ready key' e' (Scheduler.popDue_ready hp key' e' hk')
  · rw [List.append_assoc,List.singleton_append]
    exact h.accounted.trans (hperm.append_left P)

/-- The popped entry precedes every pending one by tick, then by position. -/
theorem Queue.least (h : Queue s S P) {now : Tick} {e : ScheduledEntry} {rest : Scheduler}
    (hp : s.popDue now = some (e,rest)) : e ∈ s.pending ∧ e.atTick ≤ now ∧
      ∀ e' ∈ s.pending, e.atTick < e'.atTick ∨
        e.atTick = e'.atTick ∧ S.idxOf e ≤ S.idxOf e' := by
  obtain ⟨key,hk,hdue,hmin,-⟩ := Scheduler.popDue_some hp
  obtain ⟨n,hn,hkey⟩ := h.ready key e hk
  have hnd : S.Nodup := h.nodup.of_map _
  have hidx : ∀ m e', S[m]? = some e' → S.idxOf e' = m := by
    intro m e' hm
    obtain ⟨hlt,rfl⟩ := List.getElem?_eq_some_iff.mp hm
    exact hnd.idxOf_getElem m hlt
  refine ⟨List.mem_map.mpr ⟨(key,e),(mem_toList _ _ _).mpr hk,rfl⟩,by rw [hkey] at hdue; exact hdue,?_⟩
  intro e' he'
  obtain ⟨⟨key',v⟩,hv,rfl⟩ := List.mem_map.mp he'
  have hk' := (mem_toList _ _ _).mp hv
  obtain ⟨m,hm,hkey'⟩ := h.ready key' v hk'
  have hle := (SchedKey.le_iff _ _).mp (hmin key' (mem_of_get hk'))
  rw [hkey,hkey'] at hle
  rw [hidx n e hn,hidx m v hm]
  rcases hle with hlt | ⟨heq,hlt | ⟨hseq,-⟩⟩
  · exact Or.inl hlt
  · exact Or.inr ⟨heq,le_of_lt hlt⟩
  · exact Or.inr ⟨heq,le_of_eq hseq⟩

def Accounted (i : Instance) (S P : List ScheduledEntry) : Prop :=
  S.length ≤ u64Max → Queue i.scheduler S P ∧ i.idCounters.nextScheduled = S.length

def AllAccounted (m : BTreeMap InstanceId Instance) (tr : List Item) : Prop :=
  ∀ j i, m[j]? = some i → Accounted i (scheduledOf j tr) (poppedOf j tr)

theorem accounted_submit {i : Instance} (h : Accounted i S P) (sub : Submission) :
    Accounted (i.submit sub).2 (S++[sub.entry (i.submit sub).1]) P := by
  intro hb
  rw [List.length_append,List.length_singleton] at hb
  obtain ⟨hq,hc⟩ := h (by omega)
  have hid : satAdd64 i.idCounters.nextScheduled 1 = S.length+1 := by
    rw [hc,satAdd64_eq hb]
  refine ⟨hq.schedule (sub.entry (i.submit sub).1) hid (by omega),?_⟩
  rw [List.length_append,List.length_singleton]
  exact hid

theorem accounted_execute (x : Execution) (h : Accounted x.before S P) :
    Accounted x.after (S++x.children) (P++[x.entry]) := by
  intro hb
  rw [List.length_append] at hb
  obtain ⟨hq,hc⟩ := h (by omega)
  have hn : ∃ next, Staged x.entry.principal x.caps S.length x.stage next := by
    rw [← hc]
    exact x.stage_staged
  obtain ⟨next,hs⟩ := hn
  have hids := (hs.numbered hb).2.2
  refine ⟨?_,?_⟩
  · rw [x.after_scheduler]
    exact (hq.pop x.popped).scheduleAll x.children hids hb
  · rw [x.after_nextScheduled (by rw [hc]; exact hb),hc,List.length_append]

theorem accounted_receive {i : Instance} (h : Accounted i S P) (source id : InstanceId)
    (sigs : List PendingSignal) : Accounted (i.receiveAll source id sigs) S P := by
  obtain ⟨_,_,_,he⟩ := i.receiveAll_frame source id sigs
  rw [he]
  exact h

theorem accounted_change {m m' : BTreeMap InstanceId Instance} {items tr : List Item}
    (hc : Kernel.Change m items m') (h : AllAccounted m tr) : AllAccounted m' (tr++items) := by
  intro j i hi
  rw [scheduledOf_append,poppedOf_append]
  cases hc with
  | created id config =>
    rw [get_insert] at hi
    simp only [List.foldl_cons,List.foldl_nil,Item.scheduling,Item.popping]
    by_cases hj : j = id
    · rw [if_pos hj] at hi
      obtain rfl := Option.some.inj hi
      rw [if_pos hj.symm,if_pos hj.symm]
      exact fun _ => ⟨queue_new,rfl⟩
    · rw [if_neg hj] at hi
      rw [if_neg (fun hc => hj hc.symm),if_neg (fun hc => hj hc.symm)]
      exact h j i hi
  | admitted sub i' hi' hq =>
    rw [get_insert] at hi
    simp only [List.foldl_cons,List.foldl_nil,Item.scheduling,Item.popping]
    by_cases hj : j = sub.inst
    · rw [if_pos hj] at hi
      obtain rfl := Option.some.inj hi
      rw [if_pos hj.symm,hj]
      exact accounted_submit (h _ _ hi') sub
    · rw [if_neg hj] at hi
      rw [if_neg (fun hc => hj hc.symm)]
      exact h j i hi
  | executed x hx =>
    rw [x.settle_get] at hi
    simp only [List.foldl_cons,List.foldl_nil,Item.scheduling,Item.popping]
    by_cases hj : j = x.instId
    · rw [if_pos hj] at hi
      obtain rfl := Option.some.inj hi
      rw [if_pos hj.symm,if_pos hj.symm,hj]
      exact accounted_receive (accounted_execute x (h _ _ hx)) _ _ _
    · rw [if_neg hj] at hi
      obtain ⟨i',hi',rfl⟩ := Option.map_eq_some_iff.mp hi
      rw [if_neg (fun hc => hj hc.symm),if_neg (fun hc => hj hc.symm)]
      exact accounted_receive (h j i' hi') _ _ _
  | unloaded route =>
    rw [get_map] at hi
    obtain ⟨i',hi',rfl⟩ := Option.map_eq_some_iff.mp hi
    exact h j i' hi'
  | silent => exact h j i hi

namespace Kernel
variable (c : Crypto)

theorem run_accounted (manifest : Block) (wal : Option WalWriter) (calls : List Call) :
    AllAccounted ((machine c).run (build manifest wal) calls).instances
      ((machine c).trace (build manifest wal) calls) := by
  rw [(expansion c).run_eq,(expansion c).trace_eq]
  have h := (micro c).history_invariant (fun k tr => AllAccounted k.instances tr)
    (fun k tr a hk => accounted_change (micro_change c k a) hk) (build manifest wal) []
    ((expansion c).words (build manifest wal) calls)
    (fun j i hi => by simp [build] at hi)
  simpa using h

def due (k : Kernel) (now : Tick) (j : InstanceId) : Option ScheduledEntry :=
  (k.instances[j]?).bind (fun i => (i.scheduler.popDue now).map Prod.fst)

theorem due_execution (k : Kernel) (j : InstanceId) (now : Tick) (caps : CapabilityMask) :
    k.due now j = (k.execution j now caps).map Execution.entry := by
  unfold due execution
  cases hi : k.instances[j]? with
  | none => rfl
  | some i =>
    dsimp only [Option.bind_some]
    cases hx : Execution.ofPop j i k.actionRegistry now caps with
    | none =>
      rw [Execution.ofPop_none.mp hx]
      rfl
    | some x =>
      obtain ⟨-,rfl,-,rfl,-⟩ := Execution.ofPop_some hx
      rw [x.popped]
      rfl

theorem due_pop_ne (k : Kernel) {j id : InstanceId} (hj : j ≠ id) (now : Tick)
    (caps : CapabilityMask) : (k.pop c id now caps).due now j = k.due now j := by
  cases h : k.execution id now caps with
  | none => rw [pop_none c h]
  | some x =>
    obtain ⟨scratch,hs⟩ := pop_some c h
    obtain ⟨-,rfl,-⟩ := execution_some h
    rw [hs]
    unfold due
    dsimp only
    rw [x.settle_get,if_neg hj]
    cases k.instances[j]? with
    | none => rfl
    | some i =>
      obtain ⟨_,_,_,he⟩ := i.receiveAll_frame x.instId j x.stage.pendingSignals
      rw [Option.map_some,Option.bind_some,Option.bind_some,he]

theorem popsOf_pops (k : Kernel) (ids : List InstanceId) (hn : ids.Nodup) (now : Tick)
    (caps : CapabilityMask) :
    popsOf ((micro c).trace k (ids.map (fun id => .pop id now caps))) =
      ids.filterMap (fun id => (k.due now id).map (fun e => (id,e))) := by
  induction ids generalizing k with
  | nil => rfl
  | cons id ids ih =>
    obtain ⟨hid,hrest⟩ := List.nodup_cons.mp hn
    have ht := ih (k.pop c id now caps) hrest
    have hdue : ids.filterMap (fun j => ((k.pop c id now caps).due now j).map (fun e => (j,e))) =
        ids.filterMap (fun j => (k.due now j).map (fun e => (j,e))) := by
      apply List.filterMap_congr
      intro j hj
      have hne : j ≠ id := by
        intro he
        rw [he] at hj
        exact hid hj
      rw [due_pop_ne c k hne now caps]
    rw [hdue] at ht
    rw [List.map_cons,Transducer.trace,popsOf,List.filterMap_append,List.filterMap_cons]
    change List.filterMap Item.popOf ((k.execution id now caps).map Item.executed).toList ++
      popsOf ((micro c).trace (k.pop c id now caps) _) = _
    rw [ht,due_execution k id now caps]
    cases hx : k.execution id now caps with
    | none => rfl
    | some x =>
      obtain ⟨-,rfl,-⟩ := execution_some hx
      rfl

theorem step_pops (k : Kernel) (now : Tick) (caps : CapabilityMask) :
    popsOf ((machine c).out k (.step now caps)) =
      k.instances.keys.filterMap (fun id => (k.due now id).map (fun e => (id,e))) :=
  popsOf_pops c k _ (keys_nodup _) now caps

theorem step_pops_fst (k : Kernel) (now : Tick) (caps : CapabilityMask) :
    (popsOf ((machine c).out k (.step now caps))).map Prod.fst =
      k.instances.keys.filter (fun id => (k.due now id).isSome) := by
  rw [step_pops]
  generalize k.instances.keys = ids
  induction ids with
  | nil => rfl
  | cons id ids ih =>
    rw [List.filterMap_cons,List.filter_cons]
    cases hd : k.due now id with
    | none => simpa using ih
    | some e => simpa using ih

theorem mem_step_pops (k : Kernel) (now : Tick) (caps : CapabilityMask) (j : InstanceId)
    (e : ScheduledEntry) : (j,e) ∈ popsOf ((machine c).out k (.step now caps)) ↔
      ∃ i rest, k.instances[j]? = some i ∧ i.scheduler.popDue now = some (e,rest) := by
  rw [step_pops,List.mem_filterMap]
  constructor
  · rintro ⟨id,-,hm⟩
    obtain ⟨e',hd,he⟩ := Option.map_eq_some_iff.mp hm
    obtain ⟨rfl,rfl⟩ := Prod.mk.inj he
    obtain ⟨i,hi,hp⟩ := Option.bind_eq_some_iff.mp hd
    obtain ⟨⟨e'',rest⟩,hr,rfl⟩ := Option.map_eq_some_iff.mp hp
    exact ⟨i,rest,hi,hr⟩
  · intro ⟨i,rest,hi,hp⟩
    exact ⟨j,(mem_keys _ _).mpr (mem_of_get hi),by simp [due,hi,hp]⟩

end Kernel

theorem Queue.due_iff (h : Queue s S P) (now : Tick) :
    (∃ e rest, s.popDue now = some (e,rest)) ↔ ∃ e ∈ s.pending, e.atTick ≤ now := by
  constructor
  · intro ⟨e,rest,hp⟩
    obtain ⟨hm,hd,-⟩ := h.least hp
    exact ⟨e,hm,hd⟩
  · intro ⟨e,hm,hd⟩
    obtain ⟨⟨key,v⟩,hv,rfl⟩ := List.mem_map.mp hm
    have hk := (mem_toList _ _ _).mp hv
    obtain ⟨n,-,hkey⟩ := h.ready key v hk
    have hdue : key.atTick ≤ now := by
      rw [hkey]
      exact hd
    obtain ⟨⟨e,rest⟩,hp⟩ := Scheduler.popDue_isSome (mem_of_get hk) hdue
    exact ⟨e,rest,hp⟩

/-- Ids are never reused, every scheduled entry is pending or was popped once,
the two counters agree, and a step pops from exactly the instances that had a
due entry, in ascending order, the one that comes first by tick and then by
order of scheduling. The history of an id starts anew at a creation that replaces
its instance. -/
theorem admitted_actions_run_once (c : Crypto) (manifest : Block) (wal : Option WalWriter)
    (calls : List Call) (now : Tick) (caps : CapabilityMask)
    (hb : ∀ j, (scheduledOf j ((Kernel.machine c).trace (.build manifest wal) calls)).length <
      u64Max) :
    let k := (Kernel.machine c).run (.build manifest wal) calls
    let tr := (Kernel.machine c).trace (.build manifest wal) calls
    let pops := popsOf ((Kernel.machine c).out k (.step now caps))
    (∀ j i, k.instances[j]? = some i →
      ((scheduledOf j tr).map ScheduledEntry.id).Nodup ∧
      ((scheduledOf j tr).map ScheduledEntry.id).Perm
        ((poppedOf j tr).map ScheduledEntry.id ++ i.scheduler.pending.map ScheduledEntry.id) ∧
      i.idCounters.nextScheduled = i.scheduler.nextId) ∧
    (pops.map Prod.fst).Pairwise (· < ·) ∧
    (∀ j, j ∈ pops.map Prod.fst ↔
      ∃ i, k.instances[j]? = some i ∧ ∃ e ∈ i.scheduler.pending, e.atTick ≤ now) ∧
    ∀ j e, (j,e) ∈ pops → ∃ i, k.instances[j]? = some i ∧ e ∈ i.scheduler.pending ∧
      e.atTick ≤ now ∧ ∀ e' ∈ i.scheduler.pending, e.atTick < e'.atTick ∨
        e.atTick = e'.atTick ∧ (scheduledOf j tr).idxOf e ≤ (scheduledOf j tr).idxOf e' := by
  intro k tr pops
  have hq : ∀ j i, k.instances[j]? = some i →
      Queue i.scheduler (scheduledOf j tr) (poppedOf j tr) ∧
        i.idCounters.nextScheduled = (scheduledOf j tr).length :=
    fun j i hi => Kernel.run_accounted c manifest wal calls j i hi (le_of_lt (hb j))
  refine ⟨?_,?_,?_,?_⟩
  · intro j i hi
    obtain ⟨h,hc⟩ := hq j i hi
    refine ⟨h.nodup,?_,hc.trans h.nextId.symm⟩
    have hp := h.accounted.map ScheduledEntry.id
    rw [List.map_append] at hp
    exact hp
  · rw [Kernel.step_pops_fst]
    exact (keys_sorted _).filter _
  · intro j
    rw [List.mem_map]
    constructor
    · intro ⟨⟨j',e⟩,hm,hj⟩
      obtain rfl : j' = j := hj
      obtain ⟨i,rest,hi,hp⟩ := (Kernel.mem_step_pops c k now caps j' e).mp hm
      exact ⟨i,hi,((hq j' i hi).1.due_iff now).mp ⟨e,rest,hp⟩⟩
    · intro ⟨i,hi,hd⟩
      obtain ⟨e,rest,hp⟩ := ((hq j i hi).1.due_iff now).mpr hd
      exact ⟨(j,e),(Kernel.mem_step_pops c k now caps j e).mpr ⟨i,rest,hi,hp⟩,rfl⟩
  · intro j e hm
    obtain ⟨i,rest,hi,hp⟩ := (Kernel.mem_step_pops c k now caps j e).mp hm
    exact ⟨i,hi,(hq j i hi).1.least hp⟩

def Item.schedulings : Item → ℕ
  | .created .. => 0
  | .admitted .. => 1
  | .executed x => x.children.length

theorem scheduledOf_length_le (j : InstanceId) (tr : List Item) :
    (scheduledOf j tr).length ≤ (tr.map Item.schedulings).sum := by
  induction tr using List.reverseRecOn with
  | nil => simp [scheduledOf]
  | append_singleton tr item ih =>
    rw [scheduledOf_append,List.map_append,List.sum_append]
    simp only [List.foldl_cons,List.foldl_nil,List.map_cons,List.map_nil,List.sum_singleton]
    cases item with
    | created id config =>
      simp only [Item.scheduling,Item.schedulings]
      split
      · exact Nat.zero_le _
      · omega
    | admitted id e =>
      simp only [Item.scheduling,Item.schedulings]
      split
      · rw [List.length_append,List.length_singleton]
        omega
      · omega
    | executed x =>
      simp only [Item.scheduling,Item.schedulings]
      split
      · rw [List.length_append]
        omega
      · omega

def parentCalls : List Call := [
  .request (.registerAction (.clamp 7) (.constant [.scheduleAction ⟨3⟩ none (.clamp 7) []])),
  .request (.createInstance { defaultCaps := .SYSTEM }),
  .request (.submit ⟨⟨.succ 0⟩,.system,none,.SYSTEM,⟨1⟩,.clamp 7,[]⟩),
  .step ⟨2⟩ .SYSTEM]

theorem parentCalls_short (j : InstanceId) : (scheduledOf j ((Kernel.machine standIn).trace
    (.build zeroBlock none) parentCalls)).length < u64Max := by
  have hle := scheduledOf_length_le j
    ((Kernel.machine standIn).trace (.build zeroBlock none) parentCalls)
  have hs : (((Kernel.machine standIn).trace (.build zeroBlock none) parentCalls).map
      Item.schedulings).sum = 2 := by decide +kernel
  rw [hs] at hle
  exact lt_of_le_of_lt hle (by decide)

theorem admitted_actions_run_once_parent :
    ((popsOf ((Kernel.machine standIn).out
      ((Kernel.machine standIn).run (.build zeroBlock none) parentCalls)
        (.step ⟨4⟩ .SYSTEM))).map Prod.fst).Pairwise (· < ·) :=
  (admitted_actions_run_once standIn zeroBlock none parentCalls ⟨4⟩ .SYSTEM parentCalls_short).2.1

end ArkheKernel
