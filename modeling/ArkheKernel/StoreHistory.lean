import ArkheKernel.Chronicle
import ArkheKernel.EntityWorld
import ArkheKernel.Sequential

/-!
# The store is the history of its writes

The accepted operations of the committed executions of an instance are a list
of writes to a world of entities. The two maps of the instance hold that world.
-/

set_option autoImplicit false

namespace ArkheKernel
open OrderedMap PrefixCode

abbrev StoreWorld := EntityWorld.World EntityId EntityMeta TypeCode Bytes

abbrev StoreWrite := EntityWorld.Write EntityId EntityMeta TypeCode Bytes

def Instance.world (i : Instance) : StoreWorld := fun e =>
  (i.entities[e]?).map (fun m => ⟨m,fun t => i.components[(⟨e,t⟩ : ComponentKey)]?⟩)

def StagedStateDelta.write : StagedStateDelta → StoreWrite
  | .spawnEntity id m => .spawn id m
  | .despawnEntity id => .despawn id
  | .setComponent entity typeCode bytes _ => .set entity typeCode bytes
  | .removeComponent entity typeCode _ => .remove entity typeCode

def Op.write (now : Tick) : Op → Option StoreWrite
  | .spawnEntity id owner => some (.spawn id ⟨owner,now⟩)
  | .despawnEntity id => some (.despawn id)
  | .setComponent entity typeCode bytes _ => some (.set entity typeCode bytes)
  | .removeComponent entity typeCode _ => some (.remove entity typeCode)
  | .emitEvent .. | .scheduleAction .. | .sendSignal .. => none

def Execution.writes (x : Execution) : List StoreWrite :=
  if x.commits then x.accepted.filterMap (Op.write x.now) else []

def writing : Chronicle (List StoreWrite) where
  start := []
  onAdmission ws _ := ws
  onExecution ws x := ws ++ x.writes

def writesOf (j : InstanceId) (tr : List Item) : List StoreWrite := writing.of j tr

section World
variable {i : Instance} {l : ResourceLedger}

theorem world_info (i : Instance) (e : EntityId) :
    EntityWorld.info i.world e = i.entities[e]? := by
  rw [EntityWorld.info,Instance.world,Option.map_map]
  exact Option.map_id'

theorem world_component (h : ∀ k ∈ i.components, k.entity ∈ i.entities) (e : EntityId)
    (t : TypeCode) : EntityWorld.component i.world e t = i.components[(⟨e,t⟩ : ComponentKey)]? := by
  unfold EntityWorld.component Instance.world
  cases he : i.entities[e]? with
  | some m => rfl
  | none =>
    rw [← not_mem_iff_get] at he
    symm
    rw [Option.map_none,Option.bind_none,← not_mem_iff_get]
    exact fun hk => he (h _ hk)

theorem applyStateOp_entity (i : Instance) (d : StagedStateDelta) (e : EntityId) :
    (applyStateOp i d).entities[e]? = (d.write.onInfo e).getD i.entities[e]? := by
  cases d with
  | spawnEntity id m =>
    change (i.entities.insert id m)[e]? = _
    rw [get_insert]
    rcases eq_or_ne id e with rfl | he
    · simp [StagedStateDelta.write,EntityWorld.Write.onInfo]
    · simp [StagedStateDelta.write,EntityWorld.Write.onInfo,he,he.symm]
  | despawnEntity id =>
    change (i.entities.erase id)[e]? = _
    rw [get_erase]
    rcases eq_or_ne id e with rfl | he
    · simp [StagedStateDelta.write,EntityWorld.Write.onInfo]
    · simp [StagedStateDelta.write,EntityWorld.Write.onInfo,he,he.symm]
  | setComponent entity typeCode bytes size =>
    rw [applyStateOp]
    split <;> rfl
  | removeComponent entity typeCode size => rfl

theorem applyStateOp_component (i : Instance) (d : StagedStateDelta) (e : EntityId) (t : TypeCode) :
    (applyStateOp i d).components[(⟨e,t⟩ : ComponentKey)]? =
      (d.write.onComponent e t (i.entities[e]?).isSome).getD
        i.components[(⟨e,t⟩ : ComponentKey)]? := by
  cases d with
  | spawnEntity id m => rfl
  | despawnEntity id =>
    change (eraseAll i.components (rowsOf id i.components))[(⟨e,t⟩ : ComponentKey)]? = _
    rw [get_eraseAll]
    simp only [mem_rowsOf,StagedStateDelta.write,EntityWorld.Write.onComponent]
    rcases eq_or_ne id e with rfl | he
    · by_cases hk : (⟨id,t⟩ : ComponentKey) ∈ i.components
      · simp [hk]
      · simp [(not_mem_iff_get _ _).mp hk]
    · simp [he,he.symm]
  | setComponent entity typeCode bytes size =>
    have hkey : (⟨e,t⟩ : ComponentKey) = ⟨entity,typeCode⟩ ↔ entity = e ∧ typeCode = t := by
      rw [ComponentKey.mk.injEq,eq_comm,@eq_comm _ t]
    simp only [applyStateOp,StagedStateDelta.write,EntityWorld.Write.onComponent]
    split
    · next hs =>
      change (i.components.insert ⟨entity,typeCode⟩ bytes)[(⟨e,t⟩ : ComponentKey)]? = _
      rw [get_insert]
      by_cases hk : entity = e ∧ typeCode = t
      · rw [if_pos (hkey.mpr hk),if_pos ⟨hk.1,hk.2,by rw [← hk.1]; exact hs⟩]
        rfl
      · rw [if_neg (fun h => hk (hkey.mp h)),if_neg (fun h => hk ⟨h.1,h.2.1⟩)]
        rfl
    · next hs =>
      rw [if_neg (fun h => hs (by rw [h.1]; exact h.2.2))]
      rfl
  | removeComponent entity typeCode size =>
    have hkey : (⟨e,t⟩ : ComponentKey) = ⟨entity,typeCode⟩ ↔ entity = e ∧ typeCode = t := by
      rw [ComponentKey.mk.injEq,eq_comm,@eq_comm _ t]
    change (i.components.erase ⟨entity,typeCode⟩)[(⟨e,t⟩ : ComponentKey)]? = _
    rw [get_erase]
    simp only [StagedStateDelta.write,EntityWorld.Write.onComponent]
    by_cases hk : entity = e ∧ typeCode = t
    · rw [if_pos (hkey.mpr hk),if_pos hk]
      rfl
    · rw [if_neg (fun h => hk (hkey.mp h)),if_neg hk]
      rfl

theorem applyStateOp_world (h : Lockstep i.entities i.components l) (d : StagedStateDelta) :
    (applyStateOp i d).world = EntityWorld.write i.world d.write := by
  have h' := pair_lockstep h d
  apply EntityWorld.World.ext_info
  · intro e
    rw [world_info,EntityWorld.write_info,world_info,applyStateOp_entity]
  · intro e t
    rw [world_component h'.live,EntityWorld.write_component,world_component h.live,world_info,
      applyStateOp_component]

theorem applyStateOps_world (h : Lockstep i.entities i.components l) (ds : List StagedStateDelta) :
    (ds.foldl applyStateOp i).world =
      (ds.map StagedStateDelta.write).foldl EntityWorld.write i.world := by
  induction ds generalizing i l with
  | nil => rfl
  | cons d ds ih =>
    rw [List.foldl_cons,ih (pair_lockstep h d),applyStateOp_world h,List.map_cons,List.foldl_cons]

theorem world_congr {i j : Instance} (he : i.entities = j.entities)
    (hc : i.components = j.components) : i.world = j.world := by
  unfold Instance.world
  rw [he,hc]

end World

section Gates
variable (i : Instance) (instId : InstanceId) (principal : Principal) (caps : CapabilityMask)
  (now : Tick)

theorem dispatch_writes (s : StepStage) (next : ℕ) (op : Op) :
    (dispatch ⟨instId,principal,op⟩ s now next caps).1.stateOps.map StagedStateDelta.write =
      s.stateOps.map StagedStateDelta.write ++ (op.write now).toList := by
  cases op <;> simp [dispatch,Op.write,StagedStateDelta.write]

theorem gates_writes (ops : List Op) (g : GateState) :
    (ops.foldl (gateOp i instId principal caps now) g).stage.stateOps.map StagedStateDelta.write =
      g.stage.stateOps.map StagedStateDelta.write ++
        (acceptedFrom i instId principal caps now g ops).filterMap (Op.write now) := by
  induction ops generalizing g with
  | nil => simp [acceptedFrom]
  | cons op ops ih =>
    rw [List.foldl_cons,ih,acceptedFrom]
    rcases gateOp_cases i instId principal caps now g op with ⟨e,he,hg⟩ | ⟨-,r,hr,hg⟩ | ⟨ha,hs,hg⟩
    · rw [authorized_error he,Bool.false_and,if_neg Bool.false_ne_true,hg]
    · rw [hr,Option.isNone_some,Bool.and_false,if_neg Bool.false_ne_true,hg]
    · rw [authorized_iff.mpr ha,hs,Option.isNone_none,Bool.and_true,if_pos rfl,hg]
      dsimp only
      rw [dispatch_writes,List.append_assoc,List.filterMap_cons]
      cases op.write now <;> rfl

end Gates

namespace Execution
variable (x : Execution)

theorem stage_writes : x.stage.stateOps.map StagedStateDelta.write = x.writes := by
  unfold stage writes
  split
  · exact gates_writes _ _ _ _ _ _ _
  · rfl

theorem after_world (h : x.before.InLockstep) :
    x.after.world = x.writes.foldl EntityWorld.write x.before.world := by
  rw [← x.stage_writes]
  unfold after stage
  split
  · have hm := applyStage_maps x.start x.gate.stage
    rw [world_congr hm.1 hm.2]
    exact applyStateOps_world (i := x.start) h _
  · rfl

end Execution

theorem writing_kept : writing.Kept (fun i ws => i.InLockstep ∧ i.world = EntityWorld.run ws) where
  created id config := by
    refine ⟨new_lockstep id config,?_⟩
    funext e
    simp [Instance.world,Instance.new,EntityWorld.run,writing]
  admitted _ _ _ h := h
  executed x ws h := by
    refine ⟨x.after_lockstep h.1,?_⟩
    rw [x.after_world h.1,h.2]
    exact (EntityWorld.run_append _ _).symm
  signals _ _ _ _ _ h := h

/-- In every run the two maps of an instance hold the world that its committed
writes make, executed one after the other on a world where components live
inside their entities. -/
theorem store_is_world (c : Crypto) (manifest : Block) (wal : Option WalWriter) (calls : List Call)
    (j : InstanceId) (i : Instance)
    (hi : ((Kernel.machine c).run (Kernel.build manifest wal) calls).instances[j]? = some i) :
    let w := EntityWorld.run
      (writesOf j ((Kernel.machine c).trace (Kernel.build manifest wal) calls))
    i.world = w ∧ (∀ e, i.entities[e]? = EntityWorld.info w e) ∧
      ∀ e t, i.components[(⟨e,t⟩ : ComponentKey)]? = EntityWorld.component w e t := by
  intro w
  obtain ⟨hl,hw⟩ := writing_kept.reachable c manifest wal calls j i hi
  have hw' : i.world = w := hw
  refine ⟨hw',?_,?_⟩
  · intro e
    rw [← hw',world_info]
  · intro e t
    rw [← hw',world_component hl.live]

theorem store_is_world_respawn : ∃ i : Instance, i.componentsLen = 1 ∧
    i.world = EntityWorld.run (writesOf ⟨.succ 0⟩
      ((Kernel.machine standIn).trace (.build zeroBlock none) respawnCalls)) := by
  let k := (Kernel.machine standIn).run (.build zeroBlock none) respawnCalls
  have hc : (k.instances[(⟨.succ 0⟩ : InstanceId)]?).map Instance.componentsLen = some 1 := by
    decide +kernel
  obtain ⟨i,hi,hlen⟩ := Option.map_eq_some_iff.mp hc
  exact ⟨i,hlen,(store_is_world standIn zeroBlock none respawnCalls ⟨.succ 0⟩ i hi).1⟩

end ArkheKernel
