import ArkheKernel.Run

/-!
# Store and ledger in lockstep

The entity and component maps are written by one pass over the staged state
operations, the ledger by another over the staged ledger operations. Dispatch
stages the two lists pairwise, and each pair keeps the two sides equal.
-/

set_option autoImplicit false

namespace ArkheKernel
open OrderedMap PrefixCode

/-- Equal keys on both sides, and no component without its entity. -/
structure Lockstep (entities : BTreeMap EntityId EntityMeta)
    (components : BTreeMap ComponentKey Bytes) (ledger : ResourceLedger) : Prop where
  entities_iff : ∀ e, e ∈ entities ↔ e ∈ ledger.entities
  components_iff : ∀ k, k ∈ components ↔ k ∈ ledger.componentSizes
  live : ∀ k ∈ components, k.entity ∈ entities

def Instance.InLockstep (i : Instance) : Prop := Lockstep i.entities i.components i.ledger

def StagedStateDelta.ledgerOp : StagedStateDelta → LedgerOp
  | .spawnEntity id _ => .addEntity id
  | .despawnEntity id => .removeEntity id
  | .setComponent entity typeCode _ size => .addComponent entity typeCode size
  | .removeComponent entity typeCode size => .removeComponent entity typeCode size

def StepStage.Paired (s : StepStage) : Prop :=
  s.ledgerOps = s.stateOps.map StagedStateDelta.ledgerOp

theorem dispatch_paired (e : Effect) (s : StepStage) (now : Tick) (n : ℕ) (caps : CapabilityMask)
    (h : s.Paired) : (dispatch e s now n caps).1.Paired := by
  unfold StepStage.Paired at *
  unfold dispatch
  cases e.op <;> simp [h,StagedStateDelta.ledgerOp]

theorem Execution.gate_paired (x : Execution) : x.gate.stage.Paired :=
  gateLoop_invariant _ _ _ _ _ (fun s _ => s.Paired) _ _ rfl (fun _ _ _ h => h)
    (fun s n _ _ _ _ h => dispatch_paired _ s _ n _ h)

section Pair
variable {i : Instance} {l : ResourceLedger} (h : Lockstep i.entities i.components l)
include h

theorem spawn_lockstep (id : EntityId) (m : EntityMeta) :
    Lockstep (i.insertEntity id m).entities (i.insertEntity id m).components
      (l.addEntity id).2 where
  entities_iff e := by
    rw [ResourceLedger.addEntity_mem,← h.entities_iff]
    exact mem_insert _ _ _ _
  components_iff k := h.components_iff k
  live k hk := (mem_insert _ _ _ _).mpr (Or.inr (h.live k hk))

theorem despawn_lockstep (id : EntityId) :
    Lockstep (i.removeEntity id).entities (i.removeEntity id).components
      (l.removeEntity id).2 where
  entities_iff e := by
    rw [ResourceLedger.removeEntity_mem,← h.entities_iff]
    exact mem_erase _ _ _
  components_iff k := by
    rw [i.removeEntity_mem,ResourceLedger.removeEntity_mem_sizes,← h.components_iff]
    -- an entity unknown to the ledger has no rows that the guard could spare
    have hrow : k ∈ i.components → k.entity ∈ l.entities :=
      fun hk => (h.entities_iff _).mp (h.live k hk)
    constructor
    · intro ⟨hne,hk⟩
      exact ⟨fun hc => hne hc.2,hk⟩
    · intro ⟨hn,hk⟩
      exact ⟨fun he => hn ⟨he ▸ hrow hk,he⟩,hk⟩
  live k hk := by
    rw [i.removeEntity_mem] at hk
    exact (mem_erase _ _ _).mpr ⟨hk.1,h.live k hk.2⟩

theorem set_lockstep (entity : EntityId) (typeCode : TypeCode) (bytes : Bytes) (size : ℕ) :
    Lockstep (applyStateOp i (.setComponent entity typeCode bytes size)).entities
      (applyStateOp i (.setComponent entity typeCode bytes size)).components
      (l.addComponent entity typeCode size).2 := by
  have hguard : (i.entities[entity]?).isSome = true ↔ entity ∈ l.entities := by
    rw [← h.entities_iff,mem_iff_get,Option.isSome_iff_exists]
  by_cases hs : (i.entities[entity]?).isSome
  · have he : applyStateOp i (.setComponent entity typeCode bytes size) =
        i.insertComponent ⟨entity,typeCode⟩ bytes := if_pos hs
    rw [he]
    refine ⟨?_,?_,?_⟩
    · intro e
      rw [ResourceLedger.addComponent_entities]
      exact h.entities_iff e
    · intro k
      rw [ResourceLedger.addComponent_mem,← h.components_iff]
      rw [and_iff_right (hguard.mp hs)]
      exact mem_insert i.components ⟨entity,typeCode⟩ k bytes
    · intro k hk
      rcases (mem_insert _ _ _ _).mp hk with rfl | hk
      · exact (h.entities_iff _).mpr (hguard.mp hs)
      · exact h.live k hk
  · have he : applyStateOp i (.setComponent entity typeCode bytes size) = i := if_neg hs
    have hn : entity ∉ l.entities := fun hm => hs (hguard.mpr hm)
    rw [he]
    refine ⟨?_,?_,h.live⟩
    · intro e
      rw [ResourceLedger.addComponent_entities]
      exact h.entities_iff e
    · intro k
      rw [ResourceLedger.addComponent_mem,h.components_iff]
      simp [hn]

theorem remove_lockstep (entity : EntityId) (typeCode : TypeCode) (size : ℕ) :
    Lockstep (i.removeComponent ⟨entity,typeCode⟩).entities
      (i.removeComponent ⟨entity,typeCode⟩).components
      (l.removeComponent entity typeCode size).2 where
  entities_iff e := by
    rw [ResourceLedger.removeComponent_entities]
    exact h.entities_iff e
  components_iff k := by
    rw [ResourceLedger.removeComponent_mem,← h.components_iff]
    have he := mem_erase i.components ⟨entity,typeCode⟩ k
    refine he.trans ⟨?_,?_⟩
    · intro ⟨hne,hk⟩
      exact ⟨fun hc => hne hc.2,hk⟩
    · intro ⟨hn,hk⟩
      -- the store is not guarded; its row exists only for an entity the ledger knows
      refine ⟨fun hc => hn ⟨?_,hc⟩,hk⟩
      have hl := (h.entities_iff _).mp (h.live k hk)
      rw [hc] at hl
      exact hl
  live k hk := h.live k ((mem_erase _ _ _).mp hk).2

theorem pair_lockstep (d : StagedStateDelta) : Lockstep (applyStateOp i d).entities
    (applyStateOp i d).components (applyLedgerOp l d.ledgerOp) := by
  cases d with
  | spawnEntity id m => exact spawn_lockstep h id m
  | despawnEntity id => exact despawn_lockstep h id
  | setComponent entity typeCode bytes size => exact set_lockstep h entity typeCode bytes size
  | removeComponent entity typeCode size => exact remove_lockstep h entity typeCode size

end Pair

theorem stage_lockstep (ds : List StagedStateDelta) (i : Instance) (l : ResourceLedger)
    (h : Lockstep i.entities i.components l) : Lockstep (ds.foldl applyStateOp i).entities
      (ds.foldl applyStateOp i).components ((ds.map StagedStateDelta.ledgerOp).foldl applyLedgerOp l) := by
  induction ds generalizing i l with
  | nil => exact h
  | cons d ds ih => exact ih _ _ (pair_lockstep h d)

theorem applyStage_lockstep (i : Instance) (s : StepStage) (hp : s.Paired) (h : i.InLockstep) :
    (applyStage i s).1.InLockstep := by
  have hs := stage_lockstep s.stateOps i i.ledger h
  have hm := applyStage_maps i s
  obtain ⟨_,_,hf⟩ := applyStage_frame i s
  have hl : (applyStage i s).1.ledger = s.ledgerOps.foldl applyLedgerOp i.ledger := by rw [hf]
  unfold Instance.InLockstep
  rw [hm.1,hm.2,hl,hp]
  exact hs

theorem Execution.after_lockstep (x : Execution) (h : x.before.InLockstep) :
    x.after.InLockstep := by
  unfold Execution.after
  split
  · exact applyStage_lockstep x.start x.gate.stage x.gate_paired h
  · exact h

theorem new_lockstep (id : InstanceId) (config : InstanceConfig) :
    (Instance.new id config).InLockstep where
  entities_iff e := by simp [Instance.new,ResourceLedger.new]
  components_iff k := by simp [Instance.new,ResourceLedger.new]
  live k hk := by simp [Instance.new] at hk

theorem lockstep_preserved : Kernel.Preserved (fun _ => True) (fun _ i => i.InLockstep) where
  created id config := new_lockstep id config
  admitted _ _ _ h := h
  executed x _ h := x.after_lockstep h
  signals _ _ _ _ _ h := h

/-- In every reachable state the store and the ledger of every instance know
the same entities and the same components, and every component is attached to
a live entity. -/
theorem store_ledger_lockstep (c : Crypto) (manifest : Block) (wal : Option WalWriter)
    (calls : List Call) (id : InstanceId) (i : Instance)
    (hi : ((Kernel.machine c).run (Kernel.build manifest wal) calls).instances[id]? = some i) :
    (∀ e, e ∈ i.entities ↔ e ∈ i.ledger.entities) ∧
      (∀ k, k ∈ i.components ↔ k ∈ i.ledger.componentSizes) ∧
      ∀ k ∈ i.components, k.entity ∈ i.entities := by
  have h : i.InLockstep :=
    lockstep_preserved.reachable c manifest wal calls (fun _ _ => trivial) id i hi
  exact ⟨h.entities_iff,h.components_iff,h.live⟩

def respawnCalls : List Call := [
  .request (.registerAction (.clamp 7) (.constant [
    .setComponent ⟨.succ 0⟩ (.clamp 1) [1] 8, .spawnEntity ⟨.succ 0⟩ .system,
    .setComponent ⟨.succ 0⟩ (.clamp 2) [2] 8, .despawnEntity ⟨.succ 0⟩,
    .spawnEntity ⟨.succ 0⟩ .system, .setComponent ⟨.succ 0⟩ (.clamp 3) [3] 8])),
  .request (.createInstance {}),
  .request (.submit ⟨⟨.succ 0⟩,.external ⟨1⟩,none,.empty,⟨0⟩,.clamp 7,[]⟩),
  .step ⟨0⟩ .empty]

theorem store_ledger_lockstep_respawn : ∃ i : Instance, i.componentsLen = 1 ∧
    ∀ k, k ∈ i.components ↔ k ∈ i.ledger.componentSizes := by
  let k := (Kernel.machine standIn).run (.build zeroBlock none) respawnCalls
  have hc : (k.instances[(⟨.succ 0⟩ : InstanceId)]?).map Instance.componentsLen = some 1 := by
    decide +kernel
  obtain ⟨i,hi,hlen⟩ := Option.map_eq_some_iff.mp hc
  exact ⟨i,hlen,(store_ledger_lockstep standIn zeroBlock none respawnCalls ⟨.succ 0⟩ i hi).2.1⟩

end ArkheKernel
