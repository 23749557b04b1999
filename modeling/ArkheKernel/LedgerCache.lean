import ArkheKernel.Ledger
import ArkheKernel.Transducer

/-!
# The byte total as a cache

The ledger keeps its total by saturating steps. Additions past the maximum are
forgotten, and what is freed afterwards is subtracted from the maximum, so the
total stays the sum of the sizes as long as nothing is freed beyond it.
-/

set_option autoImplicit false

namespace ArkheKernel
open OrderedMap

inductive LedgerCall where
  | addEntity (id : EntityId)
  | removeEntity (id : EntityId)
  | addComponent (entity : EntityId) (typeCode : TypeCode) (size : ℕ)
  | removeComponent (entity : EntityId) (typeCode : TypeCode) (size : ℕ)
  deriving DecidableEq, Repr

def LedgerCall.declared : LedgerCall → ℕ
  | .addEntity _ => 0
  | .removeEntity _ => 0
  | .addComponent _ _ size => size
  | .removeComponent _ _ size => size

namespace ResourceLedger

def call (l : ResourceLedger) : LedgerCall → ResourceLedger
  | .addEntity id => (l.addEntity id).2
  | .removeEntity id => (l.removeEntity id).2
  | .addComponent e t size => (l.addComponent e t size).2
  | .removeComponent e t size => (l.removeComponent e t size).2

def machine : Transducer ResourceLedger LedgerCall Unit where
  next := call
  out _ _ := []

/-- The total is the sum of the stored sizes, capped at the maximum. -/
def Cached (l : ResourceLedger) : Prop := l.totalBytes = min (total l.componentSizes) u64Max

def freed (l : ResourceLedger) : LedgerCall → ℕ
  | .addEntity _ => 0
  | .removeEntity id =>
    if id ∈ l.entities then ((rowsOf id l.componentSizes).map (amount l.componentSizes)).sum else 0
  | .addComponent e t size =>
    if e ∈ l.entities then amount l.componentSizes ⟨e,t⟩-size else 0
  | .removeComponent e t _ => if e ∈ l.entities then amount l.componentSizes ⟨e,t⟩ else 0

/-- The sizes sum to no more than the maximum, or the call frees nothing, or
everything. -/
def WithinMax (l : ResourceLedger) (a : LedgerCall) : Prop :=
  total l.componentSizes ≤ u64Max ∨ l.freed a = 0 ∨ l.freed a = total l.componentSizes

section Cache
variable {l : ResourceLedger} {e : EntityId}

theorem capped_sub_iff {S T d : ℕ} (h : S = d+T) :
    min S u64Max-d = min T u64Max ↔ S ≤ u64Max ∨ d = 0 ∨ d = S := by
  have hm : 0 < u64Max := by decide
  omega

theorem freeing_cached {a : LedgerCall} (h : l.Cached)
    (ht : (l.call a).totalBytes = l.totalBytes-l.freed a)
    (hs : total l.componentSizes = l.freed a + total (l.call a).componentSizes) :
    (l.call a).Cached ↔ l.WithinMax a := by
  unfold Cached at h ⊢
  rw [ht,h]
  exact capped_sub_iff hs

theorem unchanged_cached {a : LedgerCall} (h : l.Cached) (hl : l.call a = l)
    (hf : l.freed a = 0) : (l.call a).Cached ↔ l.WithinMax a := by
  rw [hl]
  exact ⟨fun _ => .inr (.inl hf),fun _ => h⟩

theorem freeRow_total (acc : ℕ × ResourceLedger) (k : ComponentKey) :
    (freeRow acc k).2.totalBytes = acc.2.totalBytes-amount acc.2.componentSizes k := by
  unfold freeRow
  split
  · next hs => rw [amount_of_get hs]
  · next hs => rw [amount_of_none hs,Nat.sub_zero]

theorem freeRows_total (acc : ℕ × ResourceLedger) (ks : List ComponentKey) (h : ks.Nodup) :
    (ks.foldl freeRow acc).2.totalBytes =
      acc.2.totalBytes-(ks.map (amount acc.2.componentSizes)).sum := by
  induction ks generalizing acc with
  | nil => rfl
  | cons k ks ih =>
    obtain ⟨hk,hks⟩ := List.nodup_cons.mp h
    rw [List.foldl_cons,ih _ hks,freeRow_sizes,amounts_erase _ hk,freeRow_total,List.map_cons,
      List.sum_cons,Nat.sub_sub]

theorem addComponent_total (he : e ∈ l.entities) (t : TypeCode) (size : ℕ) :
    (l.addComponent e t size).2.totalBytes =
      if amount l.componentSizes ⟨e,t⟩ ≤ size then
        satAdd64 l.totalBytes (size-amount l.componentSizes ⟨e,t⟩)
      else l.totalBytes-(amount l.componentSizes ⟨e,t⟩-size) := by
  have hc : l.entities.contains e = true := by simpa using he
  rw [addComponent,if_pos hc]
  cases ho : l.componentSizes[(⟨e,t⟩ : ComponentKey)]? with
  | some old => rw [amount_of_get ho]
  | none => simp [amount_of_none ho]

theorem removeComponent_total (he : e ∈ l.entities) (t : TypeCode) (size : ℕ) :
    (l.removeComponent e t size).2.totalBytes =
      l.totalBytes-amount l.componentSizes ⟨e,t⟩ := by
  have hc : l.entities.contains e = true := by simpa using he
  rw [removeComponent,if_pos hc]
  cases ho : l.componentSizes[(⟨e,t⟩ : ComponentKey)]? with
  | some old => rw [amount_of_get ho]
  | none => simp [amount_of_none ho]

theorem addComponent_cached (h : l.Cached) (e : EntityId) (t : TypeCode) (size : ℕ) :
    (l.call (.addComponent e t size)).Cached ↔ l.WithinMax (.addComponent e t size) := by
  by_cases he : e ∈ l.entities
  · have hold := total_erase l.componentSizes ⟨e,t⟩
    have hnew := total_insert l.componentSizes ⟨e,t⟩ size
    have hsizes : (l.call (.addComponent e t size)).componentSizes =
        l.componentSizes.insert ⟨e,t⟩ size := by
      have hc : l.entities.contains e = true := by simpa using he
      rw [call,addComponent,if_pos hc]
    have hfreed : l.freed (.addComponent e t size) = amount l.componentSizes ⟨e,t⟩-size :=
      if_pos he
    by_cases hgrow : amount l.componentSizes ⟨e,t⟩ ≤ size
    · have hz : l.freed (.addComponent e t size) = 0 := by omega
      constructor
      · exact fun _ => .inr (.inl hz)
      · intro _
        rw [Cached,hsizes,call,addComponent_total he,if_pos hgrow,satAdd64,h]
        omega
    · apply freeing_cached h
      · rw [call,addComponent_total he,if_neg hgrow,hfreed]
      · rw [hsizes]
        omega
  · have hc : ¬ l.entities.contains e = true := by simpa using he
    exact unchanged_cached h (by rw [call,addComponent,if_neg hc]) (if_neg he)

theorem removeComponent_cached (h : l.Cached) (e : EntityId) (t : TypeCode) (size : ℕ) :
    (l.call (.removeComponent e t size)).Cached ↔ l.WithinMax (.removeComponent e t size) := by
  by_cases he : e ∈ l.entities
  · have hsizes : (l.call (.removeComponent e t size)).componentSizes =
        l.componentSizes.erase ⟨e,t⟩ := by
      apply ext_get
      intro k
      rw [call,removeComponent_size,get_erase]
      simp [he]
    have hfreed : l.freed (.removeComponent e t size) = amount l.componentSizes ⟨e,t⟩ := if_pos he
    apply freeing_cached h
    · rw [call,removeComponent_total he,hfreed]
    · rw [hsizes,hfreed]
      exact total_erase _ _
  · have hc : ¬ l.entities.contains e = true := by simpa using he
    exact unchanged_cached h (by rw [call,removeComponent,if_neg hc]) (if_neg he)

theorem removeEntity_cached (h : l.Cached) (id : EntityId) :
    (l.call (.removeEntity id)).Cached ↔ l.WithinMax (.removeEntity id) := by
  by_cases he : id ∈ l.entities
  · have hc : l.entities.contains id = true := by simpa using he
    have hrows : (rowsOf id l.componentSizes).Nodup := (keys_nodup _).filter _
    have hfreed : l.freed (.removeEntity id) =
        ((rowsOf id l.componentSizes).map (amount l.componentSizes)).sum := if_pos he
    apply freeing_cached h
    · rw [call,removeEntity,if_pos hc,freeRows_total _ _ hrows,hfreed]
    · rw [call,removeEntity,if_pos hc,freeRows_sizes,hfreed]
      exact total_eraseAll _ _ hrows
  · have hc : ¬ l.entities.contains id = true := by simpa using he
    exact unchanged_cached h (by rw [call,removeEntity,if_neg hc]) (if_neg he)

/-- From an exact total a call leads to an exact total in these cases only. -/
theorem call_cached (h : l.Cached) (a : LedgerCall) : (l.call a).Cached ↔ l.WithinMax a := by
  cases a with
  | addEntity id => exact ⟨fun _ => .inr (.inl rfl),fun _ => h⟩
  | removeEntity id => exact removeEntity_cached h id
  | addComponent e t size => exact addComponent_cached h e t size
  | removeComponent e t size => exact removeComponent_cached h e t size

end Cache

/-- Along every sequence of calls on a new ledger the total is the capped sum
after each of them exactly when no call frees a part of sizes that sum to more
than the maximum. -/
theorem ledger_cache_exact_iff (calls : List LedgerCall) :
    (∀ pre, pre <+: calls → (machine.run new pre).totalBytes =
      min (total (machine.run new pre).componentSizes) u64Max) ↔
    machine.Admits WithinMax new calls := by
  have hnew : new.Cached := by
    rw [Cached,new,total_empty]
    rfl
  exact (machine.admits_iff_invariant Cached WithinMax (fun _ a h => call_cached h a) new calls
    hnew).symm

def overflowingCalls : List LedgerCall := [
  .addEntity ⟨.succ 0⟩, .addComponent ⟨.succ 0⟩ (.clamp 1) u64Max,
  .addComponent ⟨.succ 0⟩ (.clamp 2) 10, .removeComponent ⟨.succ 0⟩ (.clamp 1) u64Max]

/-- Ten bytes are stored and none are counted. -/
theorem ledger_cache_drifts :
    ¬ ∀ calls : List LedgerCall, (∀ a ∈ calls, a.declared ≤ u64Max) →
      ∀ pre, pre <+: calls → (machine.run new pre).totalBytes =
        min (total (machine.run new pre).componentSizes) u64Max := by
  intro h
  have hall := h overflowingCalls (by decide) overflowingCalls (List.prefix_refl _)
  have htotal : (machine.run new overflowingCalls).totalBytes = 0 := by decide +kernel
  have hsum : total (machine.run new overflowingCalls).componentSizes = 10 := by decide +kernel
  rw [htotal,hsum] at hall
  exact absurd hall (by decide)

end ResourceLedger
end ArkheKernel
