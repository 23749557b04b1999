import ArkheKernel.Descent

/-!
# Authority only narrows across scheduling

A pending entry carries a principal and a ceiling, and both come from the
execution that staged it. A lineage follows these executions back to an
admitted submission; along it the capabilities only shrink.
-/

set_option autoImplicit false

namespace ArkheKernel
open OrderedMap PrefixCode

/-- Descent of an entry of instance `j` from an admitted root, through the
executions that scheduled its ancestors, the nearest first. -/
inductive Lineage (tr : List Item) (j : InstanceId) :
    ScheduledEntry → ScheduledEntry → List Execution → Prop
  | root (e : ScheduledEntry) (h : .admitted j e ∈ tr) : Lineage tr j e e []
  | child (x : Execution) (e root : ScheduledEntry) (xs : List Execution)
      (hx : .executed x ∈ tr) (hj : x.instId = j) (he : e ∈ x.children)
      (h : Lineage tr j x.entry root xs) : Lineage tr j e root (x::xs)

variable {tr : List Item} {j : InstanceId} {e root : ScheduledEntry} {xs : List Execution}

theorem Lineage.mono {tr' : List Item} (h : Lineage tr j e root xs) (hsub : tr ⊆ tr') :
    Lineage tr' j e root xs := by
  induction h with
  | root e h => exact .root e (hsub h)
  | child x e root xs hx hj he h ih => exact .child x e root xs (hsub hx) hj he ih

namespace Execution
variable (x : Execution)

theorem caps_subset_session : x.caps.Subset x.sessionCaps := CapabilityMask.and_subset_right _ _

theorem caps_subset_default : x.caps.Subset x.before.config.defaultCaps :=
  (CapabilityMask.and_subset_left _ _).trans (effectiveCaps_subset_default _ _ _)

theorem caps_subset_ceiling : x.caps.Subset x.entry.capsCeiling :=
  (CapabilityMask.and_subset_left _ _).trans (effectiveCaps_subset_ceiling _ _ _)

theorem child_inherits {e : ScheduledEntry} (he : e ∈ x.children) :
    e.principal = x.entry.principal ∧ e.capsCeiling = x.caps := by
  obtain ⟨next,hs⟩ := x.stage_staged
  exact hs.inherits e he

theorem reaches_privileged (h : x.children ≠ [] ∨ x.stage.pendingSignals ≠ []) :
    x.caps.contains .SYSTEM = true ∧ x.entry.principal ≠ .unauthenticated := by
  obtain ⟨next,hs⟩ := x.stage_staged
  exact hs.privileged h

end Execution

/-- The ceiling of an entry is within the root's and within everything its
ancestors ran under. -/
structure Narrowed (e root : ScheduledEntry) (xs : List Execution) : Prop where
  principal : e.principal = root.principal
  ceiling : e.capsCeiling.Subset root.capsCeiling
  sessions : ∀ y ∈ xs, e.capsCeiling.Subset y.sessionCaps

theorem Narrowed.child {x : Execution} (h : Narrowed x.entry root xs) (he : e ∈ x.children) :
    Narrowed e root (x::xs) := by
  obtain ⟨hp,hc⟩ := x.child_inherits he
  refine ⟨hp.trans h.principal,?_,?_⟩
  · rw [hc]
    exact x.caps_subset_ceiling.trans h.ceiling
  · intro y hy
    rw [hc]
    rcases List.mem_cons.mp hy with rfl | hy
    · exact y.caps_subset_session
    · exact x.caps_subset_ceiling.trans (h.sessions y hy)

theorem Lineage.narrowed (h : Lineage tr j e root xs) : Narrowed e root xs := by
  induction h with
  | root e h => exact ⟨rfl,.refl _,fun y hy => absurd hy List.not_mem_nil⟩
  | child x e root xs hx hj he h ih => exact ih.child he

def Scheduler.Traced (tr : List Item) (j : InstanceId) (s : Scheduler) : Prop :=
  ∀ (key : SchedKey) (e : ScheduledEntry), s.ready[key]? = some e →
    ∃ root xs, Lineage tr j e root xs

def AllTraced (m : BTreeMap InstanceId Instance) (tr : List Item) : Prop :=
  ∀ (j : InstanceId) (i : Instance), m[j]? = some i → i.scheduler.Traced tr j

theorem Scheduler.Traced.mono {s : Scheduler} {tr' : List Item} (h : s.Traced tr j)
    (hsub : tr ⊆ tr') : s.Traced tr' j := by
  intro key e hk
  obtain ⟨root,xs,hl⟩ := h key e hk
  exact ⟨root,xs,hl.mono hsub⟩

theorem traced_schedule {s : Scheduler} (h : s.Traced tr j) (hl : Lineage tr j e root xs) :
    (s.scheduleWithId e).Traced tr j := by
  intro key e' hk
  rw [Scheduler.scheduleWithId_ready] at hk
  split at hk
  · obtain rfl := Option.some.inj hk
    exact ⟨root,xs,hl⟩
  · exact h key e' hk

theorem traced_scheduleAll {s : Scheduler} (h : s.Traced tr j) (es : List ScheduledEntry)
    (hl : ∀ e ∈ es, ∃ root xs, Lineage tr j e root xs) :
    (es.foldl Scheduler.scheduleWithId s).Traced tr j := by
  induction es generalizing s with
  | nil => exact h
  | cons e es ih =>
    obtain ⟨root,xs,he⟩ := hl e List.mem_cons_self
    exact ih (traced_schedule h he) (fun e' h' => hl e' (List.mem_cons_of_mem _ h'))

theorem Execution.entry_lineage (x : Execution) (h : x.before.scheduler.Traced tr x.instId) :
    ∃ root xs, Lineage tr x.instId x.entry root xs := by
  obtain ⟨key,hk,-⟩ := Scheduler.popDue_some x.popped
  exact h key x.entry hk

theorem Execution.after_traced (x : Execution) (h : x.before.scheduler.Traced tr x.instId) :
    x.after.scheduler.Traced (tr++[.executed x]) x.instId := by
  have hsub : tr ⊆ tr++[.executed x] := List.subset_append_left _ _
  have hrest : x.rest.Traced (tr++[.executed x]) x.instId :=
    fun key e hk => h.mono hsub key e (Scheduler.popDue_ready x.popped key e hk)
  obtain ⟨root,xs,hl⟩ := x.entry_lineage h
  rw [x.after_scheduler]
  apply traced_scheduleAll hrest
  intro e he
  exact ⟨root,x::xs,.child x e root xs (by simp) rfl he (hl.mono hsub)⟩

theorem traced_receive {i : Instance} (h : i.scheduler.Traced tr j) (source id : InstanceId)
    (sigs : List PendingSignal) : (i.receiveAll source id sigs).scheduler.Traced tr j := by
  obtain ⟨_,_,_,he⟩ := i.receiveAll_frame source id sigs
  rw [he]
  exact h

theorem traced_change {m m' : BTreeMap InstanceId Instance} {items : List Item}
    (hc : Kernel.Change m items m') (h : AllTraced m tr) : AllTraced m' (tr++items) := by
  have hmono : Kernel.Everywhere (fun j i => i.scheduler.Traced (tr++items) j) m :=
    fun j i hi => (h j i hi).mono (List.subset_append_left _ _)
  show Kernel.Everywhere (fun j i => i.scheduler.Traced (tr++items) j) m'
  cases hc with
  | created id config =>
    apply hmono.insert
    intro key e hk
    simp [Instance.new,Scheduler.new] at hk
  | admitted sub i hi hq =>
    have hroot := List.mem_append_right tr
      (List.mem_singleton.mpr (rfl : Item.admitted sub.inst (sub.entry (i.submit sub).1) = _))
    exact hmono.insert (traced_schedule (hmono _ _ hi) (.root _ hroot))
  | executed x hx =>
    apply Kernel.everywhere_settle
    · exact traced_receive (x.after_traced (h _ _ hx)) _ _ _
    · intro id i hi
      exact traced_receive (hmono id i hi) _ _ _
  | unloaded route =>
    apply Kernel.everywhere_map
    exact hmono
  | silent => exact hmono

namespace Kernel
variable (c : Crypto)

theorem micro_run_traced (manifest : Block) (wal : Option WalWriter) (as : List Micro) :
    AllTraced ((micro c).run (build manifest wal) as).instances
      ((micro c).trace (build manifest wal) as) := by
  have h := (micro c).history_invariant (fun k tr => AllTraced k.instances tr)
    (fun k tr a hk => traced_change (micro_change c k a) hk) (build manifest wal) [] as
    (fun j i hi => by simp [build] at hi)
  simpa using h

theorem micro_executed {k : Kernel} {a : Micro} {x : Execution} {p q : List Item}
    (h : (micro c).out k a = p ++ .executed x::q) :
    p = [] ∧ k.instances[x.instId]? = some x.before := by
  cases a with
  | request r =>
    have hm : Item.executed x ∈ k.served c r := by
      change k.served c r = _ at h
      rw [h]
      simp
    cases r with
    | submit s =>
      unfold served at hm
      dsimp only at hm
      split at hm <;> simp at hm
    | _ => simp [served] at hm
  | pop inst now caps =>
    change ((k.execution inst now caps).map Item.executed).toList = _ at h
    cases hx : k.execution inst now caps with
    | none =>
      rw [hx] at h
      cases p <;> simp at h
    | some y =>
      rw [hx] at h
      cases p with
      | nil =>
        obtain ⟨hi,rfl,-⟩ := execution_some hx
        simp only [Option.map_some,Option.toList_some,List.nil_append,List.cons.injEq,
          Item.executed.injEq] at h
        rw [← h.1]
        exact ⟨rfl,hi⟩
      | cons t p => simp at h

end Kernel

/-- Every executed action descends from an admitted submission, and whatever
chain of scheduling executions it descends through, its capabilities are within
the root's, the instance's, and all session capabilities on the way; its
principal is the root's. What it schedules or sends took the SYSTEM bit in all
of them and an authenticated root. -/
theorem authority_narrows (c : Crypto) (manifest : Block) (wal : Option WalWriter)
    (calls : List Call) (pre post : List Item) (x : Execution)
    (hx : (Kernel.machine c).trace (Kernel.build manifest wal) calls = pre ++ .executed x::post) :
    (∃ root xs, Lineage pre x.instId x.entry root xs) ∧
    ∀ root xs, Lineage pre x.instId x.entry root xs →
      x.caps.Subset root.capsCeiling ∧ x.caps.Subset x.before.config.defaultCaps ∧
      x.caps.Subset x.sessionCaps ∧ (∀ y ∈ xs, x.caps.Subset y.sessionCaps) ∧
      x.entry.principal = root.principal ∧
      (x.children ≠ [] ∨ x.stage.pendingSignals ≠ [] →
        root.capsCeiling.contains .SYSTEM = true ∧
        x.before.config.defaultCaps.contains .SYSTEM = true ∧
        x.sessionCaps.contains .SYSTEM = true ∧
        (∀ y ∈ xs, y.sessionCaps.contains .SYSTEM = true) ∧
        root.principal ≠ .unauthenticated) := by
  constructor
  · rw [(Kernel.expansion c).trace_eq] at hx
    obtain ⟨as,a,p,q,ha,hp⟩ := (Kernel.micro c).trace_split hx
    obtain ⟨rfl,hi⟩ := Kernel.micro_executed c ha
    rw [hp,List.append_nil]
    exact x.entry_lineage (Kernel.micro_run_traced c manifest wal as x.instId x.before hi)
  · intro root xs hl
    have hn := hl.narrowed
    have hroot := x.caps_subset_ceiling.trans hn.ceiling
    have hsess : ∀ y ∈ xs, x.caps.Subset y.sessionCaps :=
      fun y hy => x.caps_subset_ceiling.trans (hn.sessions y hy)
    refine ⟨hroot,x.caps_subset_default,x.caps_subset_session,hsess,hn.principal,?_⟩
    intro hr
    obtain ⟨hs,hu⟩ := x.reaches_privileged hr
    exact ⟨hroot.contains hs,x.caps_subset_default.contains hs,
      x.caps_subset_session.contains hs,fun y hy => (hsess y hy).contains hs,
      by rw [← hn.principal]; exact hu⟩

def relayCalls : List Call := [
  .request (.registerAction (.clamp 7) (.constant [.scheduleAction ⟨2⟩ none (.clamp 7) []])),
  .request (.createInstance { defaultCaps := .SYSTEM }),
  .request (.submit ⟨⟨.succ 0⟩,.external ⟨5⟩,none,⟨3⟩,⟨1⟩,.clamp 7,[]⟩),
  .step ⟨1⟩ .SYSTEM,
  .step ⟨2⟩ ⟨7⟩]

def Item.ranId : Item → Option ScheduledActionId
  | .executed x => some x.entry.id
  | _ => none

theorem authority_narrows_relay : ∃ x : Execution, x.entry.id = ⟨.succ 1⟩ ∧
    ∃ (root : ScheduledEntry) (xs : List Execution), x.caps.Subset root.capsCeiling ∧ (∀ y ∈ xs, x.caps.Subset y.sessionCaps) ∧
      x.entry.principal = root.principal := by
  let tr := (Kernel.machine standIn).trace (.build zeroBlock none) relayCalls
  have hid : (tr[3]?).bind Item.ranId = some ⟨.succ 1⟩ := by decide +kernel
  obtain ⟨item,hitem,hran⟩ := Option.bind_eq_some_iff.mp hid
  cases item with
  | executed x =>
    obtain ⟨hlt,hx⟩ := List.getElem?_eq_some_iff.mp hitem
    have hsplit : tr = tr.take 3 ++ .executed x::tr.drop 4 := by
      rw [← hx,← List.drop_eq_getElem_cons hlt,List.take_append_drop]
    obtain ⟨⟨root,xs,hl⟩,hall⟩ :=
      authority_narrows standIn zeroBlock none relayCalls _ _ x hsplit
    obtain ⟨hroot,-,-,hsess,hp,-⟩ := hall root xs hl
    exact ⟨x,Option.some.inj hran,root,xs,hroot,hsess,hp⟩
  | _ => cases hran

end ArkheKernel
