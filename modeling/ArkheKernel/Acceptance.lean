import ArkheKernel.LogDeterminacy
import ArkheKernel.Snapshot

/-!
# What an accepted snapshot guarantees

Acceptance checks the scheduler tables and no counter that ids are minted from.
Where those counters dominate the ids in use, a restored kernel keeps minting
fresh ids and valid schedulers until a counter is exhausted.
-/

set_option autoImplicit false

namespace ArkheKernel
open OrderedMap

/-- The instance counter dominates the ids of the instances. -/
def Kernel.Numbered (k : Kernel) : Prop := ∀ id ∈ k.instances, id.get ≤ k.nextInstanceId

/-- Counters that dominate every id of the snapshot that they mint. -/
structure KernelSnapshot.Counted (s : KernelSnapshot) : Prop where
  instances : ∀ id ∈ s.instances, id.get ≤ s.nextInstanceId
  scheduled : ∀ (id : InstanceId) (i : InstanceSnapshot), s.instances[id]? = some i →
    ∀ e ∈ i.scheduler.byId, e.get ≤ i.idCounters.nextScheduled

section Numbered
variable (c : Crypto) {k : Kernel}

theorem Kernel.Numbered.micro_next (h : k.Numbered) (a : Micro) :
    ((Kernel.micro c).next k a).Numbered := by
  by_cases ha : ∃ config, a = .request (.createInstance config)
  · obtain ⟨config,rfl⟩ := ha
    intro id hid
    change id.get ≤ satAdd64 k.nextInstanceId 1
    rcases (mem_insert _ _ _ _).mp hid with rfl | hid
    · exact le_refl _
    · have hle := h id hid
      have hmax : id.get ≤ u64Max := id.raw.le
      unfold satAdd64
      omega
  · have hn := micro_creates_nothing c k a (fun config he => ha ⟨config,he⟩)
    intro id hid
    rw [change_mem (Kernel.micro_change c k a) id,hn.1] at hid
    rw [hn.2]
    exact h id (hid.resolve_right List.not_mem_nil)

theorem Kernel.Numbered.run (h : k.Numbered) (calls : List Call) :
    ((Kernel.machine c).run k calls).Numbered := by
  rw [(Kernel.expansion c).run_eq]
  exact (Kernel.micro c).run_invariant Kernel.Numbered (fun _ a hk => hk.micro_next c a) k _ h

theorem Kernel.Numbered.creates_fresh (h : k.Numbered) (hn : k.nextInstanceId < u64Max)
    (config : InstanceConfig) : (k.createInstance config).1 ∉ k.instances := by
  intro hid
  have hle := h _ hid
  have hget : (k.createInstance config).1.get = k.nextInstanceId+1 := satAdd64_eq (by omega)
  omega

end Numbered

section Restored
variable (c : Crypto) {s : KernelSnapshot}

theorem restored_numbered (h : s.Counted) : (Kernel.fromSnapshot s).Numbered := by
  intro id hid
  apply h.instances
  change id ∈ s.instances.map (fun _ i => Instance.fromSnapshot i) at hid
  rw [mem_iff_get,get_map] at hid
  obtain ⟨i,hi⟩ := hid
  obtain ⟨v,hv,-⟩ := Option.map_eq_some_iff.mp hi
  exact mem_of_get hv

theorem restored_indexed (hv : s.validateStructure = .ok ()) (h : s.Counted) :
    Kernel.Everywhere (fun _ i => i.Unsaturated → i.Indexed)
      (Kernel.fromSnapshot s).instances := by
  intro id i hi hu
  change (s.instances.map (fun _ i => Instance.fromSnapshot i))[id]? = some i at hi
  rw [get_map] at hi
  obtain ⟨v,hv',rfl⟩ := Option.map_eq_some_iff.mp hi
  exact ⟨s.validateStructure_ok.mp hv id v hv',h.scheduled id v hv'⟩

/-- An accepted snapshot whose counters dominate its ids restores a kernel in
which, until the counter concerned is exhausted, a creation takes an unused id,
a submission and the children of an action take ids that are not pending, and
every scheduler passes the check that the next snapshot has to pass. -/
theorem accepted_snapshot_well_formed (hv : s.validateStructure = .ok ()) (hs : s.Counted)
    (calls : List Call) :
    let k := (Kernel.machine c).run (.fromSnapshot s) calls
    (∀ config, k.nextInstanceId < u64Max → (k.createInstance config).1 ∉ k.instances) ∧
    (∀ (sub : Submission) id (i : Instance), (k.submit c sub).1 = .ok id →
      k.instances[sub.inst]? = some i → i.Unsaturated →
        ∀ e ∈ i.scheduler.pending, e.id ≠ id) ∧
    (∀ x, .executed x ∈ (Kernel.machine c).trace (.fromSnapshot s) calls → x.after.Unsaturated →
      (x.children.map ScheduledEntry.id).Nodup ∧
        ∀ child ∈ x.children, ∀ e ∈ x.before.scheduler.pending, e.id ≠ child.id) ∧
    (∀ (id : InstanceId) (i : Instance), k.instances[id]? = some i → i.Unsaturated →
      i.scheduler.validate = .ok ()) ∧
    ((∀ (id : InstanceId) (i : Instance), k.instances[id]? = some i → i.Unsaturated) →
      k.snapshot.validateStructure = .ok ()) := by
  intro k
  have hstart := restored_indexed hv hs
  have hindexed : Kernel.Everywhere (fun _ i => i.Unsaturated → i.Indexed) k.instances := by
    change Kernel.Everywhere _ ((Kernel.machine c).run _ calls).instances
    rw [(Kernel.expansion c).run_eq]
    exact indexed_preserved.micro_run c _ _ (fun _ _ => trivial) hstart
  refine ⟨?_,?_,?_,?_,?_⟩
  · exact fun config hn => ((restored_numbered hs).run c calls).creates_fresh hn config
  · intro sub id i hid hi hu e he hne
    have hmint : id = (i.submit sub).1 := by
      rcases Kernel.submit_cases c k sub with ⟨err,hk⟩ | ⟨j,hj,-,hk⟩
      · rw [hk] at hid
        cases hid
      · rw [hk] at hid
        rw [hi] at hj
        obtain rfl := Option.some.inj hj
        exact (Except.ok.inj hid).symm
    have hfresh := (hindexed _ i hi hu).minted_fresh sub hu.ids
    rw [← hmint,← hne] at hfresh
    exact hfresh ((hindexed _ i hi hu).valid.pending_mem he)
  · intro x hx hu
    rw [(Kernel.expansion c).trace_eq] at hx
    have hb := indexed_preserved.micro_trace c _ _ (fun _ _ => trivial) hstart x hx
      (x.before_unsaturated hu)
    obtain ⟨hnodup,hfresh⟩ := x.children_fresh hb hu
    refine ⟨hnodup,?_⟩
    intro child hchild e he hne
    exact hfresh child hchild (hne ▸ hb.valid.pending_mem he)
  · exact fun id i hi hu => Scheduler.validate_ok_iff.mpr (hindexed id i hi hu).valid
  · exact fun hu => Kernel.snapshot_validates (fun id i hi => (hindexed id i hi (hu id i hi)).valid)

end Restored

def snapshotAround (scheduler : Scheduler) (nextInstanceId : ℕ) : KernelSnapshot where
  instances := (∅ : BTreeMap InstanceId InstanceSnapshot).insert ⟨.succ 0⟩
    { Instance.new ⟨.succ 0⟩ { defaultCaps := .SYSTEM } with scheduler := scheduler }.toSnapshot
  nextInstanceId

def firstSubmission : Submission := ⟨⟨.succ 0⟩,.system,none,.SYSTEM,⟨1⟩,.clamp 7,[]⟩

def staleScheduler : Scheduler := Scheduler.new.scheduleWithId (firstSubmission.entry ⟨.succ 0⟩)

def pendingSnapshot : KernelSnapshot where
  instances := (∅ : BTreeMap InstanceId InstanceSnapshot).insert ⟨.succ 0⟩
    { Instance.new ⟨.succ 0⟩ { defaultCaps := .SYSTEM } with
      scheduler := staleScheduler, idCounters := { nextScheduled := 1 } }.toSnapshot
  nextInstanceId := 1

theorem pendingSnapshot_counted : pendingSnapshot.Counted where
  instances id hid := by
    rcases (mem_insert _ _ _ _).mp hid with rfl | hid
    · decide
    · exact absurd hid Std.ExtTreeMap.not_mem_empty
  scheduled id i hi e he := by
    change ((∅ : BTreeMap InstanceId InstanceSnapshot).insert _ _)[id]? = some i at hi
    rcases get_insert_some.mp hi with ⟨-,rfl⟩ | ⟨-,hi⟩
    · rcases (mem_insert _ _ _ _).mp he with rfl | he
      · exact le_refl 1
      · exact absurd he Std.ExtTreeMap.not_mem_empty
    · simp at hi

theorem accepted_snapshot_well_formed_pending :
    let k := (Kernel.machine standIn).run (.fromSnapshot pendingSnapshot) parentCalls
    (k.createInstance {}).1 ∉ k.instances ∧
      ∃ (id : ScheduledActionId) (i : Instance), (k.submit standIn firstSubmission).1 = .ok id ∧
        k.instances[(⟨.succ 0⟩ : InstanceId)]? = some i ∧ i.scheduler.pending.length = 2 ∧
          (∀ e ∈ i.scheduler.pending, e.id ≠ id) ∧ i.scheduler.validate = .ok () := by
  intro k
  obtain ⟨hc,hs,-,hv,-⟩ := accepted_snapshot_well_formed standIn (s := pendingSnapshot)
    (by decide +kernel) pendingSnapshot_counted parentCalls
  have hid : (k.submit standIn firstSubmission).1 = .ok ⟨.succ 3⟩ := by decide +kernel
  have hi : (k.instances[(⟨.succ 0⟩ : InstanceId)]?).map (fun i =>
      (i.scheduler.pending.length,i.idCounters.nextScheduled,i.scheduler.nextSeq)) =
        some (2,3,3) := by decide +kernel
  obtain ⟨i,hi,hm⟩ := Option.map_eq_some_iff.mp hi
  obtain ⟨hlen,hrest⟩ := Prod.mk.inj hm
  obtain ⟨hnext,hseq⟩ := Prod.mk.inj hrest
  have hu : i.Unsaturated := ⟨by rw [hnext]; decide,by rw [hseq]; decide⟩
  exact ⟨hc {} (by decide +kernel),_,i,hid,hi,hlen,hs _ _ i hid hi hu,hv _ i hi hu⟩

/-- Accepted snapshots in which a creation hands out an id in use, in which a
submission is given a pending id, and in which it exhausts the sequence counter. -/
theorem accepted_snapshot_ill_formed :
    ((snapshotAround .new 0).validateStructure = .ok () ∧
      ((Kernel.fromSnapshot (snapshotAround .new 0)).createInstance {}).1 ∈
        (Kernel.fromSnapshot (snapshotAround .new 0)).instances) ∧
    ((snapshotAround staleScheduler 1).validateStructure = .ok () ∧
      ((Kernel.fromSnapshot (snapshotAround staleScheduler 1)).submit standIn firstSubmission).1 =
        .ok ⟨.succ 0⟩ ∧ (⟨.succ 0⟩ : ScheduledActionId) ∈ staleScheduler.byId) ∧
    ((snapshotAround { Scheduler.new with nextSeq := u64Max } 1).validateStructure = .ok () ∧
      ((Kernel.fromSnapshot (snapshotAround { Scheduler.new with nextSeq := u64Max } 1)).submit
        standIn firstSubmission).2.snapshot.validateStructure ≠ .ok ()) := by
  refine ⟨⟨?_,?_⟩,⟨?_,?_,?_⟩,⟨?_,?_⟩⟩ <;> decide +kernel

end ArkheKernel
