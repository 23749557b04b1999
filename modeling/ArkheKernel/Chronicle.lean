import ArkheKernel.Run

/-!
# Chronicles of one instance

A chronicle is what somebody writes down about an instance while it lives: it
starts over when the instance is created, and is continued at every admission
and every execution. A relation between the instance and its chronicle that
each of these keeps holds in every run.
-/

set_option autoImplicit false

namespace ArkheKernel
open OrderedMap PrefixCode

structure Chronicle (H : Type*) where
  start : H
  onAdmission : H → ScheduledEntry → H
  onExecution : H → Execution → H

namespace Chronicle
variable {H : Type*} (C : Chronicle H)

def entry (j : InstanceId) (h : H) : Item → H
  | .created id _ => if id = j then C.start else h
  | .admitted id e => if id = j then C.onAdmission h e else h
  | .executed x => if x.instId = j then C.onExecution h x else h

/-- The chronicle of `j` at the end of a trace. -/
def of (j : InstanceId) (tr : List Item) : H := tr.foldl (C.entry j) C.start

theorem of_append (j : InstanceId) (tr items : List Item) :
    C.of j (tr++items) = items.foldl (C.entry j) (C.of j tr) := List.foldl_append

/-- A relation that every way of changing the instance keeps. -/
structure Kept (J : Instance → H → Prop) : Prop where
  created : ∀ id config, J (.new id config) C.start
  admitted : ∀ i h s, J i h → J (i.submit s).2 (C.onAdmission h (s.entry (i.submit s).1))
  executed : ∀ (x : Execution) h, J x.before h → J x.after (C.onExecution h x)
  signals : ∀ i h refs inbox seq, J i h →
    J { i with inflightRefs := refs, signalInbox := inbox, inboxSeq := seq } h

def Everywhere (J : Instance → H → Prop) (m : BTreeMap InstanceId Instance) (tr : List Item) : Prop :=
  Kernel.Everywhere (fun j i => J i (C.of j tr)) m

variable {C} {J : Instance → H → Prop}

theorem Kept.receiveAll (h : C.Kept J) {i : Instance} {a : H} (hi : J i a) (source id : InstanceId)
    (sigs : List PendingSignal) : J (i.receiveAll source id sigs) a := by
  obtain ⟨refs,inbox,seq,he⟩ := i.receiveAll_frame source id sigs
  rw [he]
  exact h.signals i a refs inbox seq hi

theorem Kept.change (h : C.Kept J) {m m' : BTreeMap InstanceId Instance} {items tr : List Item}
    (hc : Kernel.Change m items m') (hm : C.Everywhere J m tr) :
    C.Everywhere J m' (tr++items) := by
  intro j i hi
  rw [of_append]
  cases hc with
  | created id config =>
    change J i (if id = j then C.start else C.of j tr)
    rcases get_insert_some.mp hi with ⟨rfl,rfl⟩ | ⟨hj,hi⟩
    · rw [if_pos rfl]
      exact h.created j config
    · rw [if_neg (Ne.symm hj)]
      exact hm j i hi
  | admitted s i' hi' hq =>
    change J i (if s.inst = j then C.onAdmission (C.of j tr) _ else C.of j tr)
    rcases get_insert_some.mp hi with ⟨rfl,rfl⟩ | ⟨hj,hi⟩
    · rw [if_pos rfl]
      exact h.admitted i' _ s (hm _ _ hi')
    · rw [if_neg (Ne.symm hj)]
      exact hm j i hi
  | executed x hx =>
    change J i (if x.instId = j then C.onExecution (C.of j tr) x else C.of j tr)
    rw [x.settle_get] at hi
    split at hi
    · next hj =>
      obtain rfl := Option.some.inj hi
      subst hj
      rw [if_pos rfl]
      exact h.receiveAll (h.executed x _ (hm _ _ hx)) _ _ _
    · next hj =>
      obtain ⟨i',hi',rfl⟩ := Option.map_eq_some_iff.mp hi
      rw [if_neg (Ne.symm hj)]
      exact h.receiveAll (hm j i' hi') _ _ _
  | unloaded route =>
    rw [get_map] at hi
    obtain ⟨i',hi',rfl⟩ := Option.map_eq_some_iff.mp hi
    exact h.signals i' _ _ _ _ (hm j i' hi')
  | silent => exact hm j i hi

/-- The relation holds of every instance of every reachable kernel. -/
theorem Kept.reachable (h : C.Kept J) (c : Crypto) (manifest : Block) (wal : Option WalWriter)
    (calls : List Call) :
    C.Everywhere J ((Kernel.machine c).run (Kernel.build manifest wal) calls).instances
      ((Kernel.machine c).trace (Kernel.build manifest wal) calls) := by
  rw [(Kernel.expansion c).run_eq,(Kernel.expansion c).trace_eq]
  have hr := (Kernel.micro c).history_invariant (fun k tr => C.Everywhere J k.instances tr)
    (fun k tr a hk => h.change (Kernel.micro_change c k a) hk) (Kernel.build manifest wal) []
    ((Kernel.expansion c).words (Kernel.build manifest wal) calls)
    (Kernel.build_everywhere _ manifest wal)
  exact hr

end Chronicle
end ArkheKernel
