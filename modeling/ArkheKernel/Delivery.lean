import ArkheKernel.Events
import ArkheKernel.Transducer

/-!
# Delivery, one observer at a time

A delivery walks the registry while evictions shrink it. Seen from one handle
it is a single turn that depends on nothing but the seat of that handle, and
so is a whole sequence of registrations and deliveries.
-/

set_option autoImplicit false

namespace ArkheKernel
open OrderedMap

structure Seat where
  slot : Option ObserverSlot
  evicted : Bool
  got : List KernelEvent

namespace Seat

def empty : Seat := ⟨none,false,[]⟩

/-- The turn of this seat: nothing, an event taken, or an event and the end. -/
def hand (s : Seat) (event : KernelEvent) : Seat :=
  if s.evicted then s
  else match s.slot with
    | none => s
    | some slot =>
      if !slot.mask.accepts event then s
      else if slot.observer s.got event then ⟨none,true,s.got ++ [event]⟩
      else { s with got := s.got ++ [event] }

def panics (s : Seat) (event : KernelEvent) : Bool :=
  !s.evicted && s.slot.any (fun slot => slot.mask.accepts event && slot.observer s.got event)

theorem hand_evicted (s : Seat) (event : KernelEvent) :
    (s.hand event).evicted = (s.evicted || s.panics event) := by
  unfold hand panics
  cases he : s.evicted with
  | true => simp [he]
  | false =>
    cases hs : s.slot with
    | none => simp [he]
    | some slot =>
      cases ha : slot.mask.accepts event <;> cases ho : slot.observer s.got event <;>
        simp [he,ha,ho]

theorem hand_vacant {s : Seat} (h : s.slot = none) (event : KernelEvent) : s.hand event = s := by
  unfold hand
  rw [h]
  exact ite_self s

theorem panics_vacant {s : Seat} (h : s.slot = none) (event : KernelEvent) :
    s.panics event = false := by
  unfold panics
  rw [h]
  exact Bool.and_false _

end Seat

/-- What an observer is handed of the events meant for it: everything up to and
including the first that makes it panic. -/
def handed (obs : KernelObserver) : List KernelEvent → List KernelEvent → List KernelEvent
  | got, [] => got
  | got, e::es => if obs got e then got ++ [e] else handed obs (got ++ [e]) es

theorem vacant_run (got : List KernelEvent) (events : List KernelEvent) :
    (events.foldl Seat.hand ⟨none,true,got⟩).got = got := by
  induction events with
  | nil => rfl
  | cons e es ih => exact ih

theorem live_run (obs : KernelObserver) (mask : EventMask) (got events : List KernelEvent) :
    (events.foldl Seat.hand ⟨some ⟨obs,mask⟩,false,got⟩).got =
      handed obs got (events.filter mask.accepts) := by
  induction events generalizing got with
  | nil => rfl
  | cons e es ih =>
    rw [List.foldl_cons,List.filter_cons]
    by_cases ha : mask.accepts e = true
    · rw [if_pos ha,handed]
      by_cases ho : obs got e = true
      · have hs : Seat.hand ⟨some ⟨obs,mask⟩,false,got⟩ e = ⟨none,true,got ++ [e]⟩ := by
          simp [Seat.hand,ha,ho]
        rw [hs,if_pos ho,vacant_run]
      · have hs : Seat.hand ⟨some ⟨obs,mask⟩,false,got⟩ e = ⟨some ⟨obs,mask⟩,false,got ++ [e]⟩ := by
          simp [Seat.hand,ha,ho]
        rw [hs,if_neg ho,ih]
    · have hs : Seat.hand ⟨some ⟨obs,mask⟩,false,got⟩ e = ⟨some ⟨obs,mask⟩,false,got⟩ := by
        simp [Seat.hand,ha]
      rw [hs,if_neg ha,ih]

namespace ObserverRegistry
variable (r : ObserverRegistry)

def seat (h : ObserverHandle) : Seat := ⟨r.slots[h]?,r.evicted.contains h,r.received h⟩

section Turn
theorem received_append (r r' : ObserverRegistry) {p : ObserverHandle} {event : KernelEvent}
    (hd : r'.delivered = r.delivered ++ [(p,event)]) (h : ObserverHandle) :
    r'.received h = if h = p then r.received h ++ [event] else r.received h := by
  unfold received
  rw [hd,List.filterMap_append]
  by_cases hp : h = p
  · simp [hp]
  · have hp' : p ≠ h := fun he => hp he.symm
    simp [hp,hp']

theorem evicted_insert_ne (s : BTreeSet ObserverHandle) {h handle : ObserverHandle}
    (hh : h ≠ handle) : (s.insert handle).contains h = s.contains h := by
  have hm := set_mem_insert s handle h
  rw [or_iff_right hh] at hm
  cases hc : s.contains h with
  | true => exact hm.mpr hc
  | false =>
    rw [← Bool.not_eq_true] at hc ⊢
    exact fun hn => hc (hm.mp hn)

theorem deliverOne_self (event : KernelEvent) (acc : List ObserverHandle × ObserverRegistry)
    (h : ObserverHandle) : (deliverOne event acc h).2.seat h = (acc.2.seat h).hand event ∧
      (deliverOne event acc h).1 =
        acc.1 ++ if (acc.2.seat h).panics event then [h] else [] := by
  unfold deliverOne Seat.hand Seat.panics seat
  dsimp only
  cases he : acc.2.evicted.contains h with
  | true => simp [he]
  | false =>
    cases hs : acc.2.slots[h]? with
    | none => simp [hs,he]
    | some slot =>
      cases ha : slot.mask.accepts event with
      | false => simp [hs,ha,he]
      | true =>
        cases ho : slot.observer (acc.2.received h) event with
        | true =>
          have hr := received_append acc.2 { acc.2 with
            evicted := acc.2.evicted.insert h
            slots := acc.2.slots.erase h
            delivered := acc.2.delivered ++ [(h,event)] } rfl h
          rw [if_pos rfl] at hr
          simp [ha,ho,hr]
        | false =>
          have hr := received_append acc.2 { acc.2 with
            delivered := acc.2.delivered ++ [(h,event)] } rfl h
          rw [if_pos rfl] at hr
          simp [ha,ho,hr,hs,he]

theorem deliverOne_other (event : KernelEvent) (acc : List ObserverHandle × ObserverRegistry)
    {h handle : ObserverHandle} (hh : h ≠ handle) :
    (deliverOne event acc handle).2.seat h = acc.2.seat h := by
  unfold deliverOne
  split
  · rfl
  · split
    · rfl
    · split
      · rfl
      · split
        · have hr := received_append acc.2 { acc.2 with
            evicted := acc.2.evicted.insert handle
            slots := acc.2.slots.erase handle
            delivered := acc.2.delivered ++ [(handle,event)] } rfl h
          rw [if_neg hh] at hr
          unfold seat
          dsimp only
          rw [hr,get_erase,if_neg hh,evicted_insert_ne _ hh]
        · have hr := received_append acc.2 { acc.2 with
            delivered := acc.2.delivered ++ [(handle,event)] } rfl h
          rw [if_neg hh] at hr
          unfold seat
          dsimp only
          rw [hr]

theorem turns_seat (event : KernelEvent) (hs : List ObserverHandle) (hn : hs.Nodup)
    (acc : List ObserverHandle × ObserverRegistry) :
    (∀ h, (hs.foldl (deliverOne event) acc).2.seat h =
      if h ∈ hs then (acc.2.seat h).hand event else acc.2.seat h) ∧
    (hs.foldl (deliverOne event) acc).1 =
      acc.1 ++ hs.filter (fun h => (acc.2.seat h).panics event) := by
  induction hs generalizing acc with
  | nil => simp
  | cons p hs ih =>
    obtain ⟨hp,hn⟩ := List.nodup_cons.mp hn
    obtain ⟨hseat,hout⟩ := ih hn (deliverOne event acc p)
    obtain ⟨hself,hfst⟩ := deliverOne_self event acc p
    have hne : ∀ h ∈ hs, h ≠ p := fun h hh he => hp (he ▸ hh)
    rw [List.foldl_cons]
    refine ⟨?_,?_⟩
    · intro h
      rw [hseat]
      by_cases hh : h = p
      · rw [hh,if_neg hp,if_pos List.mem_cons_self,hself]
      · rw [deliverOne_other event acc hh]
        simp [hh]
    · have hrest : hs.filter (fun h => ((deliverOne event acc p).2.seat h).panics event) =
          hs.filter (fun h => (acc.2.seat h).panics event) := by
        apply List.filter_congr
        intro h hh
        rw [deliverOne_other event acc (hne h hh)]
      rw [hout,hfst,hrest,List.filter_cons,List.append_assoc]
      split <;> rfl

end Turn

theorem emitted_seat (event : KernelEvent) (h : ObserverHandle) :
    ({ r with emitted := r.emitted ++ [event] } : ObserverRegistry).seat h = r.seat h := rfl

/-- Every seat has its turn, whatever the others do. -/
theorem deliver_seat (event : KernelEvent) (h : ObserverHandle) :
    (r.deliver event).2.seat h = (r.seat h).hand event := by
  have ht := (turns_seat event r.slots.keys (keys_nodup _)
    ([],{ r with emitted := r.emitted ++ [event] })).1 h
  dsimp only at ht
  rw [emitted_seat] at ht
  refine ht.trans ?_
  split
  · rfl
  · next hm =>
    have hv : (r.seat h).slot = none := by
      rw [mem_keys] at hm
      exact (not_mem_iff_get _ _).mp hm
    exact (Seat.hand_vacant hv event).symm

theorem deliver_evictions (event : KernelEvent) :
    (r.deliver event).1 = r.slots.keys.filter (fun h => (r.seat h).panics event) :=
  (turns_seat event r.slots.keys (keys_nodup _) ([],{ r with emitted := r.emitted ++ [event] })).2

theorem mem_deliver_evictions (event : KernelEvent) (h : ObserverHandle) :
    h ∈ (r.deliver event).1 ↔ (r.seat h).panics event = true := by
  rw [deliver_evictions,List.mem_filter,and_iff_right_iff_imp]
  intro hp
  rw [mem_keys]
  by_contra hm
  have hv : (r.seat h).slot = none := (not_mem_iff_get _ _).mp hm
  rw [Seat.panics_vacant hv] at hp
  cases hp

theorem registerFiltered_seat (obs : KernelObserver) (mask : EventMask) (h : ObserverHandle) :
    (r.registerFiltered obs mask).2.seat h =
      if h = ⟨r.nextHandle⟩ then { r.seat h with slot := some ⟨obs,mask⟩ } else r.seat h := by
  unfold registerFiltered seat
  dsimp only
  rw [get_insert]
  split <;> rfl

end ObserverRegistry

inductive RegistryCall where
  | register (obs : KernelObserver) (mask : EventMask)
  | deliver (event : KernelEvent)

def RegistryCall.event : RegistryCall → Option KernelEvent
  | .register _ _ => none
  | .deliver event => some event

def RegistryCall.registers : RegistryCall → ℕ
  | .register _ _ => 1
  | .deliver _ => 0

def registry : Transducer ObserverRegistry RegistryCall ObserverHandle where
  next r
    | .register obs mask => (r.registerFiltered obs mask).2
    | .deliver event => (r.deliver event).2
  out r
    | .register _ _ => []
    | .deliver event => (r.deliver event).1

def ObserverRegistry.Fresh (r : ObserverRegistry) : Prop :=
  ∀ h : ObserverHandle, r.nextHandle ≤ h.val → r.seat h = .empty

theorem new_fresh : ObserverRegistry.new.Fresh := by
  intro h _
  simp [ObserverRegistry.seat,ObserverRegistry.new,ObserverRegistry.received,Seat.empty]

section Registry
variable {r : ObserverRegistry}

theorem registry_fresh (h : r.Fresh) (a : RegistryCall)
    (hb : r.nextHandle + a.registers ≤ u64Max) :
    (registry.next r a).Fresh ∧ (registry.next r a).nextHandle = r.nextHandle + a.registers := by
  cases a with
  | register obs mask =>
    have hn : (registry.next r (.register obs mask)).nextHandle = r.nextHandle+1 := satAdd64_eq hb
    refine ⟨?_,hn⟩
    intro p hp
    rw [hn] at hp
    have hne : p ≠ (⟨r.nextHandle⟩ : ObserverHandle) := by
      intro he
      rw [he] at hp
      exact absurd hp (Nat.not_succ_le_self _)
    refine (r.registerFiltered_seat obs mask p).trans ?_
    rw [if_neg hne]
    exact h p (by omega)
  | deliver event =>
    have hn : (registry.next r (.deliver event)).nextHandle = r.nextHandle :=
      r.deliver_nextHandle event
    refine ⟨?_,hn⟩
    intro p hp
    rw [hn] at hp
    refine (r.deliver_seat event p).trans ?_
    rw [h p hp]
    exact Seat.hand_vacant rfl event

theorem registry_emitted (as : List RegistryCall) :
    (registry.run r as).emitted = r.emitted ++ as.filterMap RegistryCall.event := by
  induction as generalizing r with
  | nil => exact (List.append_nil _).symm
  | cons a as ih =>
    cases a with
    | register obs mask => exact ih
    | deliver event =>
      have hd := r.deliver_emitted event
      have hi := ih (r := (r.deliver event).2)
      rw [hd,List.append_assoc] at hi
      exact hi

theorem registry_run_fresh (h : r.Fresh) (as : List RegistryCall)
    (hb : r.nextHandle + (as.map RegistryCall.registers).sum ≤ u64Max) :
    (registry.run r as).Fresh ∧
      (registry.run r as).nextHandle = r.nextHandle + (as.map RegistryCall.registers).sum := by
  induction as generalizing r with
  | nil => exact ⟨h,rfl⟩
  | cons a as ih =>
    rw [List.map_cons,List.sum_cons] at hb ⊢
    obtain ⟨hf,hn⟩ := registry_fresh h a (by omega)
    obtain ⟨hf',hn'⟩ := ih hf (by omega)
    exact ⟨hf',by rw [Transducer.run,hn',hn,Nat.add_assoc]⟩

theorem registry_run_seat (as : List RegistryCall) {p : ObserverHandle}
    (hp : p.val < r.nextHandle)
    (hb : r.nextHandle + (as.map RegistryCall.registers).sum ≤ u64Max) :
    (registry.run r as).seat p = (as.filterMap RegistryCall.event).foldl Seat.hand (r.seat p) := by
  induction as generalizing r with
  | nil => rfl
  | cons a as ih =>
    rw [List.map_cons,List.sum_cons] at hb
    cases a with
    | register obs mask =>
      have hn : (r.registerFiltered obs mask).2.nextHandle = r.nextHandle+1 :=
        satAdd64_eq (le_trans (Nat.add_le_add_left (Nat.le_add_right 1 _) _) hb)
      have hne : p ≠ (⟨r.nextHandle⟩ : ObserverHandle) := by
        intro he
        rw [he] at hp
        exact lt_irrefl _ hp
      have hi := ih (r := (r.registerFiltered obs mask).2) (by omega)
        (by rw [hn]; simpa [RegistryCall.registers,Nat.add_assoc] using hb)
      refine hi.trans ?_
      rw [r.registerFiltered_seat,if_neg hne]
      rfl
    | deliver event =>
      have hn := r.deliver_nextHandle event
      have hi := ih (r := (r.deliver event).2) (by omega)
        (by rw [hn]; simpa [RegistryCall.registers] using hb)
      refine hi.trans ?_
      rw [r.deliver_seat]
      rfl

/-- An observer is handed what is delivered after its registration and passes
its mask, up to its first panic, whoever else is registered. -/
theorem registered_received (h : r.Fresh) (obs : KernelObserver) (mask : EventMask)
    (as : List RegistryCall)
    (hb : r.nextHandle + 1 + (as.map RegistryCall.registers).sum ≤ u64Max) :
    (registry.run (r.registerFiltered obs mask).2 as).received
      (r.registerFiltered obs mask).1 =
        handed obs [] ((as.filterMap RegistryCall.event).filter mask.accepts) := by
  have hn : (r.registerFiltered obs mask).2.nextHandle = r.nextHandle+1 :=
    satAdd64_eq (le_trans (Nat.le_add_right _ _) hb)
  have hs := registry_run_seat (r := (r.registerFiltered obs mask).2) as
    (p := (r.registerFiltered obs mask).1) (by rw [hn]; exact Nat.lt_succ_self _) (by rw [hn]; exact hb)
  have hseat : (r.registerFiltered obs mask).2.seat (r.registerFiltered obs mask).1 =
      ⟨some ⟨obs,mask⟩,false,[]⟩ := by
    rw [r.registerFiltered_seat]
    refine (if_pos rfl).trans ?_
    change Seat.mk _ (r.seat ⟨r.nextHandle⟩).evicted (r.seat ⟨r.nextHandle⟩).got = _
    rw [h ⟨r.nextHandle⟩ (le_refl _)]
    rfl
  rw [hseat] at hs
  have hg := congrArg Seat.got hs
  rw [live_run] at hg
  exact hg

theorem registry_evictions (r : ObserverRegistry) (as : List RegistryCall)
    (h : ∀ p, (r.seat p).evicted = false) : (registry.trace r as).Nodup ∧
      ∀ p, p ∈ registry.trace r as ↔ ((registry.run r as).seat p).evicted = true := by
  have hrun := registry.history_invariant
    (fun r past => past.Nodup ∧ ∀ p, p ∈ past ↔ (r.seat p).evicted = true) (by
      intro r past a hpast
      obtain ⟨hnodup,hmem⟩ := hpast
      cases a with
      | register obs mask =>
        refine ⟨by simpa [registry] using hnodup,?_⟩
        intro p
        change p ∈ past ++ [] ↔ ((r.registerFiltered obs mask).2.seat p).evicted = true
        rw [List.append_nil,hmem,r.registerFiltered_seat]
        split <;> rfl
      | deliver event =>
        change (past ++ (r.deliver event).1).Nodup ∧ ∀ p, p ∈ past ++ (r.deliver event).1 ↔
          ((r.deliver event).2.seat p).evicted = true
        refine ⟨?_,?_⟩
        · rw [List.nodup_append',r.deliver_evictions]
          refine ⟨hnodup,(keys_nodup _).filter _,?_⟩
          intro p hp hq
          have hpan := (List.mem_filter.mp hq).2
          unfold Seat.panics at hpan
          rw [(hmem p).mp hp] at hpan
          cases hpan
        · intro p
          rw [List.mem_append,r.mem_deliver_evictions,hmem,r.deliver_seat,Seat.hand_evicted,
            Bool.or_eq_true]) r [] as ⟨List.nodup_nil,fun p => by simp [h p]⟩
  simpa using hrun

end Registry
end ArkheKernel
