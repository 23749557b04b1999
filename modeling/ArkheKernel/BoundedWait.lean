import ArkheKernel.Acceptance
import ArkheKernel.ExactlyOnce
import ArkheKernel.Isolation

/-!
# Waiting is bounded

Every pop of an instance takes the least key of its queue. A pending entry
therefore waits for the keys ahead of it and for those scheduled later under an
earlier tick, and for nothing else: each step that finds the entry due removes
one of them, until the entry itself is taken.
-/

set_option autoImplicit false

namespace ArkheKernel
open OrderedMap PrefixCode

namespace Scheduler

/-- How many pending keys come before `κ`. -/
def ahead (s : Scheduler) (κ : SchedKey) : ℕ := (s.ready.keys.filter (· < κ)).length

end Scheduler

def Item.enqueued (j : InstanceId) : Item → List ScheduledEntry
  | .created _ _ => []
  | .admitted id e => if id = j then [e] else []
  | .executed x => if x.instId = j then x.children else []

def overtakers (j : InstanceId) (t : Tick) (tr : List Item) : ℕ :=
  ((tr.flatMap (Item.enqueued j)).filter (fun e => e.atTick < t)).length

def Call.isDue (t : Tick) : Call → Bool
  | .request _ => false
  | .step now _ => t ≤ now

def Micro.isDue (j : InstanceId) (t : Tick) : Micro → Bool
  | .request _ => false
  | .pop inst now _ => inst = j && t ≤ now

theorem keys_erase_perm {K V : Type} [LinearOrder K] {m : BTreeMap K V} {a : K} (h : a ∈ m) :
    m.keys.Perm (a :: (m.erase a).keys) := by
  obtain ⟨v,hv⟩ := (mem_iff_get m a).mp h
  have hp := (toList_erase_perm hv).map Prod.fst
  rw [List.map_cons,Std.ExtTreeMap.map_fst_toList_eq_keys,
    Std.ExtTreeMap.map_fst_toList_eq_keys] at hp
  exact hp

theorem keys_insert_count {K V : Type} [LinearOrder K] (m : BTreeMap K V) (a : K) (v : V)
    (p : K → Bool) : ((m.insert a v).keys.filter p).length ≤
      (m.keys.filter p).length + if p a then 1 else 0 := by
  by_cases h : a ∈ m
  · have hk : (m.insert a v).keys = m.keys := by
      apply keys_congr
      intro b
      rw [mem_insert]
      exact ⟨fun hb => hb.elim (fun he => he ▸ h) id,Or.inr⟩
    rw [hk]
    exact Nat.le_add_right _ _
  · have hp : (m.insert a v).keys.Perm (a :: m.keys) := by
      have ht := (toList_insert_perm v ((not_mem_iff_get m a).mp h)).map Prod.fst
      rw [List.map_cons,Std.ExtTreeMap.map_fst_toList_eq_keys,
        Std.ExtTreeMap.map_fst_toList_eq_keys] at ht
      exact ht
    rw [(hp.filter p).length_eq,List.filter_cons]
    split <;> simp

/-- The entry `e` is pending under `κ` behind at most `n` keys, and whatever is
scheduled next comes later in sequence. -/
structure Waits (κ : SchedKey) (e : ScheduledEntry) (n : ℕ) (s : Scheduler) : Prop where
  pending : s.ready[κ]? = some e
  later : κ.seq < s.nextSeq
  room : κ.seq < u64Max
  ahead : s.ahead κ ≤ n

section Scheduler
variable {κ : SchedKey} {e : ScheduledEntry} {n : ℕ} {s : Scheduler}

theorem Waits.schedule (h : Waits κ e n s) (e' : ScheduledEntry) :
    Waits κ e (n + if e'.atTick < κ.atTick then 1 else 0) (s.scheduleWithId e') where
  pending := by
    rw [Scheduler.scheduleWithId_ready,if_neg]
    · exact h.pending
    · intro hk
      have hs := congrArg SchedKey.seq hk
      exact absurd hs (ne_of_lt h.later)
  later := by
    change κ.seq < satAdd64 s.nextSeq 1
    have hl := h.later
    have hr := h.room
    unfold satAdd64
    omega
  room := h.room
  ahead := by
    have hc := keys_insert_count s.ready ⟨e'.atTick,s.nextSeq,e'.id⟩ e' (fun k => k < κ)
    refine hc.trans (Nat.add_le_add h.ahead ?_)
    by_cases ht : e'.atTick < κ.atTick
    · rw [if_pos ht]
      split <;> simp
    · rw [if_neg ht,if_neg]
      rw [decide_eq_true_eq,not_lt,SchedKey.le_iff]
      rcases lt_or_eq_of_le (not_lt.mp ht) with hlt | he
      · exact Or.inl hlt
      · exact Or.inr ⟨he,Or.inl h.later⟩

theorem Waits.scheduleAll (h : Waits κ e n s) (cs : List ScheduledEntry) :
    Waits κ e (n + (cs.filter (fun e' => e'.atTick < κ.atTick)).length)
      (cs.foldl Scheduler.scheduleWithId s) := by
  induction cs generalizing n s with
  | nil => exact h
  | cons e' cs ih =>
    have ht := ih (h.schedule e')
    have hn : n + ((e'::cs).filter (fun e' => e'.atTick < κ.atTick)).length =
        (n + if e'.atTick < κ.atTick then 1 else 0) +
          (cs.filter (fun e' => e'.atTick < κ.atTick)).length := by
      rw [List.filter_cons]
      by_cases he : e'.atTick < κ.atTick
      · simp only [he,decide_true,if_true,List.length_cons]
        omega
      · simp only [he,decide_false,Bool.false_eq_true,if_false,Nat.add_zero]
    rw [hn]
    exact ht

theorem Waits.pop (h : Waits κ e n s) {now : Tick} {e' : ScheduledEntry} {rest : Scheduler}
    (hp : s.popDue now = some (e',rest)) :
    e' = e ∨ ∃ n', n = n'+1 ∧ Waits κ e n' rest := by
  obtain ⟨key,hk,-,hmin,rfl⟩ := Scheduler.popDue_some hp
  rcases lt_or_eq_of_le (hmin κ (mem_of_get h.pending)) with hlt | rfl
  · right
    have hcount : s.ahead κ = Scheduler.ahead { s with
        ready := s.ready.erase key
        byId := s.byId.erase e'.id
        byActor := Scheduler.unindexActor s.byActor e'.actor e'.id } κ + 1 := by
      have hperm := ((keys_erase_perm (mem_of_get hk)).filter (fun k => k < κ)).length_eq
      rw [List.filter_cons,if_pos (decide_eq_true hlt),List.length_cons] at hperm
      exact hperm
    have hle := h.ahead
    refine ⟨n-1,by omega,?_,h.later,h.room,by omega⟩
    change (s.ready.erase key)[κ]? = some e
    rw [get_erase,if_neg (ne_of_gt hlt)]
    exact h.pending
  · left
    exact Option.some.inj (hk.symm.trans h.pending)

end Scheduler

def WaitsIn (j : InstanceId) (κ : SchedKey) (e : ScheduledEntry) (k : Kernel) (n : ℕ) : Prop :=
  ∃ i : Instance, k.instances[j]? = some i ∧ Waits κ e n i.scheduler

def Ran (j : InstanceId) (e : ScheduledEntry) (tr : List Item) : Prop :=
  ∃ x, .executed x ∈ tr ∧ x.instId = j ∧ x.entry = e

theorem overtakers_append (j : InstanceId) (t : Tick) (tr tr' : List Item) :
    overtakers j t (tr++tr') = overtakers j t tr + overtakers j t tr' := by
  rw [overtakers,List.flatMap_append,List.filter_append,List.length_append]
  rfl

section Run
variable (c : Crypto) {j : InstanceId} {κ : SchedKey} {e : ScheduledEntry} {k : Kernel} {n : ℕ}

theorem WaitsIn.request (h : WaitsIn j κ e k n) (hk : k.Numbered) (r : Request)
    (hn : (k.serve c r).nextInstanceId < u64Max) :
    WaitsIn j κ e (k.serve c r) (n + overtakers j κ.atTick (k.served c r)) := by
  obtain ⟨i,hi,hw⟩ := h
  cases r with
  | createInstance config =>
    change satAdd64 k.nextInstanceId 1 < u64Max at hn
    have hlt : k.nextInstanceId < u64Max := by
      unfold satAdd64 at hn
      omega
    have hne : j ≠ (k.createInstance config).1 := by
      intro he
      exact hk.creates_fresh hlt config (he ▸ mem_of_get hi)
    refine ⟨i,?_,hw⟩
    change (k.instances.insert (k.createInstance config).1 _)[j]? = some i
    rw [get_insert_ne _ _ hne]
    exact hi
  | submit s =>
    unfold Kernel.serve Kernel.served
    dsimp only
    rcases Kernel.submit_cases c k s with ⟨err,he⟩ | ⟨i',hi',-,he⟩
    · rw [he]
      exact ⟨i,hi,hw⟩
    · rw [he]
      dsimp only
      by_cases hj : s.inst = j
      · subst hj
        obtain rfl := Option.some.inj (hi'.symm.trans hi)
        refine ⟨_,get_insert_self _ _ _,?_⟩
        have hs := hw.scheduleAll [s.entry (i'.submit s).1]
        have ho : overtakers s.inst κ.atTick [.admitted s.inst (s.entry (i'.submit s).1)] =
            ([s.entry (i'.submit s).1].filter (fun e' => e'.atTick < κ.atTick)).length := by
          simp [overtakers,Item.enqueued]
        rw [ho]
        exact hs
      · refine ⟨i,by rw [get_insert_ne _ _ (Ne.symm hj)]; exact hi,?_⟩
        simpa [overtakers,Item.enqueued,hj] using hw
  | forceUnload route caps =>
    simp only [Kernel.serve,Kernel.forceUnload]
    split
    · exact ⟨i,hi,hw⟩
    · refine ⟨{ i with inflightRefs := i.inflightRefs.erase route },?_,hw⟩
      dsimp only
      rw [get_map,hi]
      rfl
  | registerAction typeCode reg => exact ⟨i,hi,hw⟩
  | registerObserver obs mask => exact ⟨i,hi,hw⟩

theorem WaitsIn.pop (h : WaitsIn j κ e k n) (inst : InstanceId) (now : Tick)
    (caps : CapabilityMask) :
    Ran j e ((Kernel.micro c).out k (.pop inst now caps)) ∨
    ∃ n', WaitsIn j κ e (k.pop c inst now caps) n' ∧
      n' + (if Micro.isDue j κ.atTick (.pop inst now caps) then 1 else 0) ≤
        n + overtakers j κ.atTick ((Kernel.micro c).out k (.pop inst now caps)) := by
  obtain ⟨i,hi,hw⟩ := h
  cases hx : k.execution inst now caps with
  | none =>
    right
    refine ⟨n,⟨i,by rw [Kernel.pop_none c hx]; exact hi,hw⟩,?_⟩
    rw [if_neg,Nat.add_zero]
    · exact Nat.le_add_right _ _
    · intro hdue
      simp only [Micro.isDue,Bool.and_eq_true,decide_eq_true_eq] at hdue
      obtain ⟨rfl,hle⟩ := hdue
      obtain ⟨p,hp⟩ := Scheduler.popDue_isSome (mem_of_get hw.pending) hle
      unfold Kernel.execution at hx
      rw [hi] at hx
      rw [Execution.ofPop_none.mp hx] at hp
      cases hp
  | some x =>
    obtain ⟨_,hs⟩ := Kernel.pop_some c hx
    obtain ⟨hb,rfl,-⟩ := Kernel.execution_some hx
    have hout : (Kernel.micro c).out k (.pop x.instId now caps) = [.executed x] := by
      change ((k.execution x.instId now caps).map Item.executed).toList = _
      rw [hx]
      rfl
    rw [hout,hs]
    by_cases hj : x.instId = j
    · subst hj
      obtain rfl := Option.some.inj (hb.symm.trans hi)
      rcases hw.pop x.popped with he | ⟨n',rfl,hrest⟩
      · exact Or.inl ⟨x,List.mem_singleton.mpr rfl,rfl,he⟩
      · right
        obtain ⟨_,_,_,hr⟩ :=
          x.after.receiveAll_frame x.instId x.instId x.stage.pendingSignals
        have hsched : (x.after.receiveAll x.instId x.instId x.stage.pendingSignals).scheduler =
            x.children.foldl Scheduler.scheduleWithId x.rest := by
          rw [hr]
          exact x.after_scheduler
        have ho : overtakers x.instId κ.atTick [.executed x] =
            (x.children.filter (fun e' => e'.atTick < κ.atTick)).length := by
          simp [overtakers,Item.enqueued]
        refine ⟨n' + overtakers x.instId κ.atTick [.executed x],
          ⟨_,by dsimp only; rw [x.settle_get,if_pos rfl],?_⟩,?_⟩
        · rw [hsched,ho]
          exact hrest.scheduleAll x.children
        · split <;> omega
    · right
      refine ⟨n,⟨_,by dsimp only; rw [x.settle_get,if_neg (Ne.symm hj),hi,Option.map_some],?_⟩,?_⟩
      · obtain ⟨_,_,_,hr⟩ := i.receiveAll_frame x.instId j x.stage.pendingSignals
        rw [hr]
        exact hw
      · rw [if_neg (by simp [Micro.isDue,hj])]
        exact Nat.le_add_right _ _

theorem numbered_counter (k : Kernel) (a : Micro)
    (h : ((Kernel.micro c).next k a).nextInstanceId < u64Max) : k.nextInstanceId < u64Max := by
  by_cases ha : ∃ config, a = .request (.createInstance config)
  · obtain ⟨config,rfl⟩ := ha
    change satAdd64 k.nextInstanceId 1 < u64Max at h
    unfold satAdd64 at h
    omega
  · rw [(micro_creates_nothing c k a (fun config he => ha ⟨config,he⟩)).2] at h
    exact h

theorem run_counter (k : Kernel) (as : List Micro)
    (h : ((Kernel.micro c).run k as).nextInstanceId < u64Max) : k.nextInstanceId < u64Max := by
  induction as generalizing k with
  | nil => exact h
  | cons a as ih => exact numbered_counter c k a (ih _ h)

/-- Each due pop is paid for by a key that was ahead, or by one that overtook. -/
theorem WaitsIn.run (h : WaitsIn j κ e k n) (hk : k.Numbered) (as : List Micro)
    (hn : ((Kernel.micro c).run k as).nextInstanceId < u64Max) :
    Ran j e ((Kernel.micro c).trace k as) ∨
    as.countP (Micro.isDue j κ.atTick) ≤
      n + overtakers j κ.atTick ((Kernel.micro c).trace k as) := by
  induction as generalizing k n with
  | nil => exact Or.inr (Nat.zero_le _)
  | cons a as ih =>
    rw [Transducer.trace,overtakers_append,List.countP_cons]
    have hstep : Ran j e ((Kernel.micro c).out k a) ∨
        ∃ n', WaitsIn j κ e ((Kernel.micro c).next k a) n' ∧
          n' + (if Micro.isDue j κ.atTick a then 1 else 0) ≤
            n + overtakers j κ.atTick ((Kernel.micro c).out k a) := by
      cases a with
      | request r =>
        exact Or.inr ⟨_,h.request c hk r (run_counter c _ as hn),le_refl _⟩
      | pop inst now caps => exact h.pop c inst now caps
    rcases hstep with ⟨x,hx,hj,he⟩ | ⟨n',hw,hle⟩
    · exact Or.inl ⟨x,List.mem_append_left _ hx,hj,he⟩
    · rcases ih hw (hk.micro_next c a) hn with ⟨x,hx,hj,he⟩ | hdue
      · exact Or.inl ⟨x,List.mem_append_right _ hx,hj,he⟩
      · right
        omega

theorem words_due (t : Tick) (k : Kernel) (calls : List Call) (hj : j ∈ k.instances) :
    ((Kernel.expansion c).words k calls).countP (Micro.isDue j t) = calls.countP (Call.isDue t) := by
  induction calls generalizing k with
  | nil => rfl
  | cons call calls ih =>
    have hnext : j ∈ ((Kernel.machine c).next k call).instances :=
      (run_mem (c := c) k [call] j).mpr (Or.inl hj)
    rw [Transducer.Expansion.words,List.countP_append,ih _ hnext,List.countP_cons,Nat.add_comm]
    congr 1
    cases call with
    | request r => rfl
    | step now caps =>
      change (k.pops now caps).countP _ = _
      have hf : (k.pops now caps).filter (Micro.isDue j t) =
          ((k.pops now caps).filter (Micro.concerns j)).filter (Micro.isDue j t) := by
        rw [List.filter_filter]
        apply List.filter_congr
        intro a _
        cases a with
        | request r => simp [Micro.isDue]
        | pop inst now caps =>
          simp only [Micro.isDue,Micro.concerns]
          cases decide (inst = j) <;> simp
      rw [List.countP_eq_length_filter,hf,Kernel.pops,pops_concerning j _ (keys_nodup _),
        if_pos ((mem_keys _ _).mpr hj)]
      by_cases ht : t ≤ now <;> simp [Micro.isDue,Call.isDue,ht]

end Run

/-- In a reachable kernel a pending entry waits for at most the keys ahead of it
and the entries scheduled in its instance, from now on, under an earlier tick:
once more due steps than that were made, it has been executed. -/
theorem waiting_is_bounded (c : Crypto) (manifest : Block) (wal : Option WalWriter)
    (calls later : List Call) (j : InstanceId) (i : Instance) (κ : SchedKey) (e : ScheduledEntry)
    (hi : ((Kernel.machine c).run (Kernel.build manifest wal) calls).instances[j]? = some i)
    (he : i.scheduler.ready[κ]? = some e)
    (hids : (scheduledOf j ((Kernel.machine c).trace (Kernel.build manifest wal) calls)).length ≤
      u64Max)
    (hinsts : ((Kernel.machine c).run (Kernel.build manifest wal)
      (calls++later)).nextInstanceId < u64Max)
    (hlong : i.scheduler.ahead κ + overtakers j κ.atTick
        ((Kernel.machine c).trace ((Kernel.machine c).run (Kernel.build manifest wal) calls) later) <
      later.countP (Call.isDue κ.atTick)) :
    ∃ x, .executed x ∈ (Kernel.machine c).trace
        ((Kernel.machine c).run (Kernel.build manifest wal) calls) later ∧
      x.instId = j ∧ x.entry = e := by
  let k := (Kernel.machine c).run (Kernel.build manifest wal) calls
  have hq := (Kernel.run_accounted c manifest wal calls j i hi hids).1
  obtain ⟨m,hm,hkey⟩ := hq.ready κ e he
  have hlt := (List.getElem?_eq_some_iff.mp hm).1
  have hseq : κ.seq = m := by rw [hkey]
  have hw : WaitsIn j κ e k (i.scheduler.ahead κ) :=
    ⟨i,hi,he,by rw [hseq,hq.nextSeq]; exact hlt,by omega,le_refl _⟩
  have hk : k.Numbered := by
    apply Kernel.Numbered.run
    intro id hid
    exact absurd hid Std.ExtTreeMap.not_mem_empty
  rw [Transducer.run_append,(Kernel.expansion c).run_eq k] at hinsts
  rw [(Kernel.expansion c).trace_eq k] at hlong ⊢
  rcases hw.run c hk _ hinsts with hran | hdue
  · exact hran
  · rw [words_due c κ.atTick k later (mem_of_get hi)] at hdue
    exact absurd hlong (not_lt.mpr hdue)

def pairCalls : List Call := [
  .request (.registerAction (.clamp 7) (.constant [.scheduleAction ⟨5⟩ none (.clamp 7) []])),
  .request (.createInstance { defaultCaps := .SYSTEM }),
  .request (.submit ⟨⟨.succ 0⟩,.system,none,.SYSTEM,⟨4⟩,.clamp 7,[]⟩),
  .request (.submit ⟨⟨.succ 0⟩,.system,none,.SYSTEM,⟨4⟩,.clamp 7,[]⟩)]

def pairKey : SchedKey := ⟨⟨4⟩,1,⟨.succ 1⟩⟩

theorem pairCalls_short : (scheduledOf ⟨.succ 0⟩ ((Kernel.machine standIn).trace
    (.build zeroBlock none) pairCalls)).length ≤ u64Max := by
  apply (scheduledOf_length_le _ _).trans
  have h : (((Kernel.machine standIn).trace (.build zeroBlock none) pairCalls).map
      Item.schedulings).sum = 2 := by
    decide +kernel
  rw [h]
  decide

theorem waiting_is_bounded_pair : ∃ x : Execution, x.instId = ⟨.succ 0⟩ ∧ x.entry.id = ⟨.succ 1⟩ ∧
    .executed x ∈ (Kernel.machine standIn).trace
      ((Kernel.machine standIn).run (.build zeroBlock none) pairCalls)
      [.step ⟨9⟩ .SYSTEM, .step ⟨3⟩ .SYSTEM, .step ⟨4⟩ .SYSTEM] := by
  let k := (Kernel.machine standIn).run (.build zeroBlock none) pairCalls
  have hi : ((k.instances[(⟨.succ 0⟩ : InstanceId)]?).bind (fun i =>
      (i.scheduler.ready[pairKey]?).map (fun e => (e.id,i.scheduler.ahead pairKey)))) =
        some (⟨.succ 1⟩,1) := by
    decide +kernel
  obtain ⟨i,hi,hrow⟩ := Option.bind_eq_some_iff.mp hi
  obtain ⟨e,he,hpair⟩ := Option.map_eq_some_iff.mp hrow
  obtain ⟨hid,hahead⟩ := Prod.mk.inj hpair
  obtain ⟨x,hx,hj,hxe⟩ := waiting_is_bounded standIn zeroBlock none pairCalls
    [.step ⟨9⟩ .SYSTEM, .step ⟨3⟩ .SYSTEM, .step ⟨4⟩ .SYSTEM] ⟨.succ 0⟩ i pairKey e hi he
    pairCalls_short (by decide +kernel) (by rw [hahead]; decide +kernel)
  exact ⟨x,hj,by rw [hxe,hid],hx⟩

end ArkheKernel
