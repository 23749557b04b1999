import ArkheKernel.StoreHistory

/-!
# Reading an instance

The view is the only read surface that the kernel hands out. Its answers are
read off the history of the instance: an entity is listed under the metadata of
its last spawn, a component under the bytes of its last effective set.
-/

set_option autoImplicit false

namespace ArkheKernel
open OrderedMap PrefixCode

structure InstanceView where
  inst : Instance

namespace InstanceView
variable (v : InstanceView)

def id : InstanceId := v.inst.id

def entityCount : ℕ := v.inst.entitiesLen

def componentCount : ℕ := v.inst.componentsLen

def localTick : ℕ := v.inst.localTick

def entityMeta (entity : EntityId) : Option EntityMeta := v.inst.entities[entity]?

def component (entity : EntityId) (typeCode : TypeCode) : Option Bytes :=
  v.inst.components[(⟨entity,typeCode⟩ : ComponentKey)]?

def entities : List (EntityId × EntityMeta) := v.inst.entities.toList

def componentsByType (typeCode : TypeCode) : List (EntityId × Bytes) :=
  v.inst.components.toList.filterMap (fun p =>
    if p.1.typeCode = typeCode then some (p.1.entity,p.2) else none)

end InstanceView

def Kernel.instanceView (k : Kernel) (id : InstanceId) : Option InstanceView :=
  (k.instances[id]?).map InstanceView.mk

namespace InstanceView
variable (v : InstanceView)

theorem mem_entities (e : EntityId) (m : EntityMeta) :
    (e,m) ∈ v.entities ↔ v.entityMeta e = some m := mem_toList _ _ _

theorem entities_ascending : (v.entities.map Prod.fst).Pairwise (· < ·) := by
  rw [entities,Std.ExtTreeMap.map_fst_toList_eq_keys]
  exact keys_sorted _

theorem mem_componentsByType (e : EntityId) (t : TypeCode) (b : Bytes) :
    (e,b) ∈ v.componentsByType t ↔ v.component e t = some b := by
  rw [componentsByType,List.mem_filterMap,component,← mem_toList]
  constructor
  · rintro ⟨⟨⟨e',t'⟩,b'⟩,hm,hp⟩
    dsimp only at hp
    split at hp
    · next ht =>
      obtain ⟨rfl,rfl⟩ := Prod.mk.inj (Option.some.inj hp)
      rw [← ht]
      exact hm
    · cases hp
  · exact fun hm => ⟨_,hm,if_pos rfl⟩

theorem componentsByType_ascending (t : TypeCode) :
    ((v.componentsByType t).map Prod.fst).Pairwise (· < ·) := by
  have hs : v.inst.components.toList.Pairwise (fun p q => p.1 < q.1) := by
    have hk := keys_sorted v.inst.components
    rw [← Std.ExtTreeMap.map_fst_toList_eq_keys,List.pairwise_map] at hk
    exact hk
  rw [List.pairwise_map]
  apply hs.filterMap
  intro p q hlt a ha b hb
  split at ha
  · next htp =>
    split at hb
    · next htq =>
      obtain rfl := Option.some.inj ha
      obtain rfl := Option.some.inj hb
      have hle := (ComponentKey.le_iff p.1 q.1).mp (le_of_lt hlt)
      rcases hle with hl | ⟨he,-⟩
      · exact hl
      · have hpq : p.1 = q.1 := by
          rw [show p.1 = ⟨p.1.entity,p.1.typeCode⟩ from rfl,he,htp,← htq]
        exact absurd hlt (by rw [hpq]; exact lt_irrefl _)
    · cases hb
  · cases ha

end InstanceView

/-- In every run, what a view lists and looks up is what the committed writes of
the instance say: an entity with the metadata of its last spawn, a component
with the bytes of its last set under a live entity. Both lists ascend, and every
listed component belongs to a listed entity. -/
theorem view_reads_history (c : Crypto) (manifest : Block) (wal : Option WalWriter)
    (calls : List Call) (j : InstanceId) (v : InstanceView)
    (hv : ((Kernel.machine c).run (Kernel.build manifest wal) calls).instanceView j = some v) :
    let ws := writesOf j ((Kernel.machine c).trace (Kernel.build manifest wal) calls)
    (∀ e m, (e,m) ∈ v.entities ↔ EntityWorld.Spawned ws e m) ∧
    (∀ e t b, (e,b) ∈ v.componentsByType t ↔ EntityWorld.Attached ws e t b) ∧
    (v.entities.map Prod.fst).Pairwise (· < ·) ∧
    (∀ t, ((v.componentsByType t).map Prod.fst).Pairwise (· < ·)) ∧
    ∀ t, (v.componentsByType t).map Prod.fst ⊆ v.entities.map Prod.fst := by
  intro ws
  obtain ⟨i,hi,rfl⟩ := Option.map_eq_some_iff.mp hv
  obtain ⟨hl,hw⟩ := writing_kept.reachable c manifest wal calls j i hi
  have hw' : i.world = EntityWorld.run ws := hw
  refine ⟨?_,?_,InstanceView.entities_ascending _,InstanceView.componentsByType_ascending _,?_⟩
  · intro e m
    rw [InstanceView.mem_entities,← EntityWorld.run_info_iff,← hw',world_info]
    rfl
  · intro e t b
    rw [InstanceView.mem_componentsByType,← EntityWorld.run_component_iff,← hw',world_component hl.live]
    rfl
  · intro t e he
    obtain ⟨⟨e',b⟩,hm,rfl⟩ := List.mem_map.mp he
    have hk := mem_of_get ((InstanceView.mem_componentsByType _ e' t b).mp hm)
    obtain ⟨m,hm⟩ := (mem_iff_get _ _).mp (hl.live _ hk)
    exact List.mem_map.mpr ⟨(e',m),(InstanceView.mem_entities _ e' m).mpr hm,rfl⟩

theorem view_reads_history_respawn : ∃ v : InstanceView,
    v.componentsByType (.clamp 3) = [(⟨.succ 0⟩,[3])] ∧ v.componentsByType (.clamp 2) = [] ∧
    EntityWorld.Attached (writesOf ⟨.succ 0⟩
      ((Kernel.machine standIn).trace (.build zeroBlock none) respawnCalls))
        ⟨.succ 0⟩ (.clamp 3) [3] := by
  let k := (Kernel.machine standIn).run (.build zeroBlock none) respawnCalls
  have hc : (k.instanceView ⟨.succ 0⟩).map (fun v =>
      (v.componentsByType (.clamp 3),v.componentsByType (.clamp 2))) =
        some ([(⟨.succ 0⟩,[3])],[]) := by
    decide +kernel
  obtain ⟨v,hv,hrows⟩ := Option.map_eq_some_iff.mp hc
  obtain ⟨h₃,h₂⟩ := Prod.mk.inj hrows
  obtain ⟨-,hset,-⟩ := view_reads_history standIn zeroBlock none respawnCalls ⟨.succ 0⟩ v hv
  exact ⟨v,h₃,h₂,(hset _ _ _).mp (by rw [h₃]; exact List.mem_singleton.mpr rfl)⟩

end ArkheKernel
