import ArkheKernel.Abi

/-!
# Resource ledger

Live entities, the declared size of every component and a running byte total.
Removing an entity scans the closed key range of its rows; with bounded type
codes that range is exactly the rows of the entity.
-/

set_option autoImplicit false

namespace ArkheKernel
open OrderedMap PrefixCode

structure ComponentKey where
  entity : EntityId
  typeCode : TypeCode
  deriving DecidableEq, Repr

def ComponentKey.lex (k : ComponentKey) : EntityId ×ₗ TypeCode := toLex (k.entity,k.typeCode)

theorem ComponentKey.lex_injective : Function.Injective ComponentKey.lex := by
  rintro ⟨e,t⟩ ⟨f,u⟩ h
  simpa [ComponentKey.lex] using h

instance : LinearOrder ComponentKey := LinearOrder.lift' ComponentKey.lex ComponentKey.lex_injective

theorem ComponentKey.le_iff (k l : ComponentKey) :
    k ≤ l ↔ k.entity < l.entity ∨ k.entity = l.entity ∧ k.typeCode ≤ l.typeCode :=
  Prod.Lex.toLex_le_toLex

def ComponentKey.code : Code ComponentKey :=
  comap (pair EntityId.code TypeCode.code) (fun k => (k.entity,k.typeCode))
    (by rintro ⟨e,t⟩ ⟨f,u⟩ h; simpa using h)

def rowsOf {V : Type} (e : EntityId) (m : BTreeMap ComponentKey V) : List ComponentKey :=
  m.keys.filter (fun k =>
    (⟨e,TypeCode.zero⟩ : ComponentKey) ≤ k ∧ k ≤ (⟨e,TypeCode.max⟩ : ComponentKey))

theorem row_range (e : EntityId) (k : ComponentKey) :
    ((⟨e,TypeCode.zero⟩ : ComponentKey) ≤ k ∧ k ≤ (⟨e,TypeCode.max⟩ : ComponentKey)) ↔
      k.entity = e := by
  rw [ComponentKey.le_iff,ComponentKey.le_iff]
  constructor
  · intro ⟨hl,hr⟩
    rcases hl with hl | hl
    · rcases hr with hr | hr
      · exact absurd hl (not_lt_of_gt hr)
      · exact hr.1
    · exact hl.1.symm
  · intro he
    exact ⟨Or.inr ⟨he.symm,k.typeCode.zero_le⟩,Or.inr ⟨he,k.typeCode.le_max⟩⟩

theorem mem_rowsOf {V : Type} (e : EntityId) (m : BTreeMap ComponentKey V) (k : ComponentKey) :
    k ∈ rowsOf e m ↔ k ∈ m ∧ k.entity = e := by
  rw [rowsOf,List.mem_filter,mem_keys,decide_eq_true_eq,row_range]

structure ResourceLedger where
  entities : BTreeSet EntityId
  componentSizes : BTreeMap ComponentKey ℕ
  totalBytes : ℕ

namespace ResourceLedger

def new : ResourceLedger := ⟨∅,∅,0⟩

def componentSize (l : ResourceLedger) (e : EntityId) (t : TypeCode) : Option ℕ :=
  l.componentSizes[(⟨e,t⟩ : ComponentKey)]?

def addEntity (l : ResourceLedger) (id : EntityId) : Bool × ResourceLedger :=
  (!l.entities.contains id, { l with entities := l.entities.insert id })

def freeRow (acc : ℕ × ResourceLedger) (k : ComponentKey) : ℕ × ResourceLedger :=
  match acc.2.componentSizes[k]? with
  | some size => (satAdd64 acc.1 size, { acc.2 with
      componentSizes := acc.2.componentSizes.erase k
      totalBytes := acc.2.totalBytes-size })
  | none => acc

def removeEntity (l : ResourceLedger) (id : EntityId) : ℕ × ResourceLedger :=
  if l.entities.contains id then
    (rowsOf id l.componentSizes).foldl freeRow (0, { l with entities := l.entities.erase id })
  else (0, l)

def addComponent (l : ResourceLedger) (e : EntityId) (t : TypeCode) (size : ℕ) :
    Bool × ResourceLedger :=
  if l.entities.contains e then
    (true, { l with
      componentSizes := l.componentSizes.insert ⟨e,t⟩ size
      totalBytes := match l.componentSizes[(⟨e,t⟩ : ComponentKey)]? with
        | some old => if old ≤ size then satAdd64 l.totalBytes (size-old)
            else l.totalBytes-(old-size)
        | none => satAdd64 l.totalBytes size })
  else (false, l)

/-- The declared size of a removal is ignored; the stored one is freed. -/
def removeComponent (l : ResourceLedger) (e : EntityId) (t : TypeCode) (_size : ℕ) :
    Bool × ResourceLedger :=
  if l.entities.contains e then
    (true, match l.componentSizes[(⟨e,t⟩ : ComponentKey)]? with
      | some old => { l with
          componentSizes := l.componentSizes.erase ⟨e,t⟩
          totalBytes := l.totalBytes-old }
      | none => l)
  else (false, l)

theorem freeRow_entities (acc : ℕ × ResourceLedger) (ks : List ComponentKey) :
    (ks.foldl freeRow acc).2.entities = acc.2.entities := by
  induction ks generalizing acc with
  | nil => rfl
  | cons k ks ih =>
    rw [List.foldl_cons,ih]
    unfold freeRow
    split <;> rfl

theorem freeRow_sizes (acc : ℕ × ResourceLedger) (k : ComponentKey) :
    (freeRow acc k).2.componentSizes = acc.2.componentSizes.erase k := by
  unfold freeRow
  split
  · rfl
  · next h => exact (erase_of_not_mem ((not_mem_iff_get _ _).mpr h)).symm

theorem freeRows_sizes (acc : ℕ × ResourceLedger) (ks : List ComponentKey) :
    (ks.foldl freeRow acc).2.componentSizes = eraseAll acc.2.componentSizes ks := by
  induction ks generalizing acc with
  | nil => rfl
  | cons k ks ih =>
    rw [List.foldl_cons,ih,freeRow_sizes]
    rfl

theorem addEntity_mem (l : ResourceLedger) (id e : EntityId) :
    e ∈ (l.addEntity id).2.entities ↔ e = id ∨ e ∈ l.entities :=
  set_mem_insert _ _ _

theorem removeEntity_mem (l : ResourceLedger) (id e : EntityId) :
    e ∈ (l.removeEntity id).2.entities ↔ e ≠ id ∧ e ∈ l.entities := by
  unfold removeEntity
  split
  · rw [freeRow_entities]
    exact set_mem_erase _ _ _
  · next h =>
    have hn : id ∉ l.entities := by simpa using h
    exact ⟨fun he => ⟨fun hc => hn (hc ▸ he),he⟩,And.right⟩

theorem removeEntity_size (l : ResourceLedger) (id : EntityId) (k : ComponentKey) :
    (l.removeEntity id).2.componentSizes[k]? =
      if id ∈ l.entities ∧ k.entity = id then none else l.componentSizes[k]? := by
  unfold removeEntity
  split
  · next h =>
    have hm : id ∈ l.entities := by simpa using h
    rw [freeRows_sizes,get_eraseAll]
    by_cases hk : k.entity = id
    · by_cases hin : k ∈ l.componentSizes
      · simp [mem_rowsOf,hk,hm,hin]
      · simp [mem_rowsOf,hin]
    · simp [mem_rowsOf,hk]
  · next h =>
    have hn : id ∉ l.entities := by simpa using h
    simp [hn]

theorem addComponent_entities (l : ResourceLedger) (e : EntityId) (t : TypeCode) (size : ℕ) :
    (l.addComponent e t size).2.entities = l.entities := by
  unfold addComponent
  split <;> rfl

theorem addComponent_size (l : ResourceLedger) (e : EntityId) (t : TypeCode) (size : ℕ)
    (k : ComponentKey) : (l.addComponent e t size).2.componentSizes[k]? =
      if e ∈ l.entities ∧ k = ⟨e,t⟩ then some size else l.componentSizes[k]? := by
  unfold addComponent
  split
  · next h =>
    have hm : e ∈ l.entities := by simpa using h
    simp [get_insert,hm]
  · next h =>
    have hn : e ∉ l.entities := by simpa using h
    simp [hn]

theorem removeComponent_entities (l : ResourceLedger) (e : EntityId) (t : TypeCode) (size : ℕ) :
    (l.removeComponent e t size).2.entities = l.entities := by
  unfold removeComponent
  split
  · dsimp only
    split <;> rfl
  · rfl

theorem removeComponent_size (l : ResourceLedger) (e : EntityId) (t : TypeCode) (size : ℕ)
    (k : ComponentKey) : (l.removeComponent e t size).2.componentSizes[k]? =
      if e ∈ l.entities ∧ k = ⟨e,t⟩ then none else l.componentSizes[k]? := by
  unfold removeComponent
  split
  · next h =>
    have hm : e ∈ l.entities := by simpa using h
    dsimp only
    split
    · simp [get_erase,hm]
    · next hn =>
      by_cases hk : k = ⟨e,t⟩
      · simp [hk,hn]
      · simp [hk]
  · next h =>
    have hn : e ∉ l.entities := by simpa using h
    simp [hn]

theorem addComponent_mem (l : ResourceLedger) (e : EntityId) (t : TypeCode) (size : ℕ)
    (k : ComponentKey) : k ∈ (l.addComponent e t size).2.componentSizes ↔
      (e ∈ l.entities ∧ k = ⟨e,t⟩) ∨ k ∈ l.componentSizes := by
  rw [mem_iff_get,addComponent_size,mem_iff_get]
  by_cases h : e ∈ l.entities ∧ k = ⟨e,t⟩ <;> simp [h]

theorem removeComponent_mem (l : ResourceLedger) (e : EntityId) (t : TypeCode) (size : ℕ)
    (k : ComponentKey) : k ∈ (l.removeComponent e t size).2.componentSizes ↔
      ¬ (e ∈ l.entities ∧ k = ⟨e,t⟩) ∧ k ∈ l.componentSizes := by
  rw [mem_iff_get,removeComponent_size,mem_iff_get]
  by_cases h : e ∈ l.entities ∧ k = ⟨e,t⟩ <;> simp [h]

theorem removeEntity_mem_sizes (l : ResourceLedger) (id : EntityId) (k : ComponentKey) :
    k ∈ (l.removeEntity id).2.componentSizes ↔
      ¬ (id ∈ l.entities ∧ k.entity = id) ∧ k ∈ l.componentSizes := by
  rw [mem_iff_get,removeEntity_size,mem_iff_get]
  by_cases h : id ∈ l.entities ∧ k.entity = id <;> simp [h]

end ResourceLedger
end ArkheKernel
