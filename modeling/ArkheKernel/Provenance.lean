import ArkheKernel.Authority
import ArkheKernel.SignalRouting
import ArkheKernel.View

/-!
# Where state comes from

Nothing in an instance appears by itself. An entity, a component, a scheduled
entry or a queued signal is the work of one accepted operation of a committed
execution, and that execution descends from a submission that was admitted for a
principal that is known.
-/

set_option autoImplicit false

namespace ArkheKernel
open OrderedMap PrefixCode

/-- The execution `x` on `j` carried out `op`, on behalf of the submission `root`
from which its entry descends by what had happened before. -/
structure CausedBy (tr : List Item) (j : InstanceId) (op : Op) (x : Execution)
    (root : ScheduledEntry) : Prop where
  descends : ∃ before after xs, tr = before ++ .executed x :: after ∧
    Lineage before j x.entry root xs
  inst : x.instId = j
  commits : x.commits = true
  accepted : op ∈ x.accepted
  admitted : .admitted j root ∈ tr
  principal : x.entry.principal = root.principal
  authenticated : root.principal ≠ .unauthenticated
  ceiling : x.caps.Subset root.capsCeiling
  privileged : op.Privileged → x.caps.contains .SYSTEM = true

def ScheduledEntry.op (e : ScheduledEntry) : Op :=
  .scheduleAction e.atTick e.actor e.actionTypeCode e.actionBytes

def Instance.Holds (i : Instance) (route : RouteId) (sig : InboundSignal) : Prop :=
  ∃ q, i.signalInbox[route]? = some q ∧ sig ∈ q

section Gates
variable (i : Instance) (instId : InstanceId) (principal : Principal) (caps : CapabilityMask)
  (now : Tick)

theorem acceptedFrom_authorized (ops : List Op) (g : GateState) :
    ∀ op ∈ acceptedFrom i instId principal caps now g ops,
      authorize caps ⟨instId,principal,op⟩ = .ok ⟨instId,principal,op⟩ := by
  induction ops generalizing g with
  | nil => exact fun op h => absurd h List.not_mem_nil
  | cons op ops ih =>
    intro op' h
    rw [acceptedFrom] at h
    split at h
    · next hacc =>
      rcases List.mem_cons.mp h with rfl | h
      · exact authorized_iff.mp (Bool.and_eq_true_iff.mp hacc).1
      · exact ih _ op' h
    · exact ih _ op' h

theorem dispatch_children (op : Op) (s : StepStage) (next : ℕ) :
    ∀ e ∈ (dispatch ⟨instId,principal,op⟩ s now next caps).1.children,
      e ∈ s.children ∨ op = e.op := by
  cases op with
  | scheduleAction atTick actor typeCode actionBytes =>
    intro e he
    unfold StepStage.children at he
    rw [dispatch,List.filterMap_append,List.mem_append] at he
    rcases he with he | he
    · exact .inl he
    · obtain rfl := List.mem_singleton.mp he
      exact .inr rfl
  | _ => exact fun e he => .inl he

theorem gates_children (ops : List Op) (g : GateState) :
    ∀ e ∈ (ops.foldl (gateOp i instId principal caps now) g).stage.children,
      e ∈ g.stage.children ∨ e.op ∈ acceptedFrom i instId principal caps now g ops := by
  induction ops generalizing g with
  | nil => exact fun e he => .inl he
  | cons op ops ih =>
    intro e he
    rw [acceptedFrom]
    rcases gateOp_cases i instId principal caps now g op with ⟨r,ha,hg⟩ | ⟨ha,r,hs,hg⟩ | ⟨ha,hs,hg⟩
    · rw [authorized_error ha,Bool.false_and,if_neg Bool.false_ne_true]
      refine (ih _ e he).imp_left (fun h => ?_)
      rw [hg] at h
      exact h
    · rw [hs,if_neg (by simp)]
      refine (ih _ e he).imp_left (fun h => ?_)
      rw [hg] at h
      exact h
    · rw [authorized_iff.mpr ha,hs,if_pos (by simp)]
      rcases ih _ e he with h | h
      · rw [hg] at h
        rcases dispatch_children instId principal caps now op _ _ e h with h | h
        · exact .inl h
        · exact .inr (h ▸ List.mem_cons_self)
      · exact .inr (List.mem_cons_of_mem _ h)

end Gates

namespace Execution
variable (x : Execution)

theorem children_accepted {e : ScheduledEntry} (h : e ∈ x.children) :
    x.commits = true ∧ e.op ∈ x.accepted := by
  unfold children stage at h
  split at h
  · next hc =>
    rcases gates_children x.start x.instId x.entry.principal x.caps x.now x.ops _ e h with h | h
    · cases h
    · exact ⟨hc,h⟩
  · cases h

theorem sent_accepted {sig : PendingSignal} (h : sig ∈ x.stage.pendingSignals) :
    x.commits = true ∧ .sendSignal sig.target sig.route sig.payload ∈ x.accepted ∧
      sig.principal = x.entry.principal := by
  rw [stage_sent,sent] at h
  split at h
  · next hc =>
    obtain ⟨op,hop,hs⟩ := List.mem_filterMap.mp h
    cases op with
    | sendSignal target route payload =>
      obtain rfl := Option.some.inj hs
      exact ⟨hc,hop,rfl⟩
    | _ => cases hs
  · cases h

theorem writes_accepted {w : StoreWrite} (h : w ∈ x.writes) :
    x.commits = true ∧ ∃ op ∈ x.accepted, op.write x.now = some w := by
  unfold writes at h
  split at h
  · next hc => exact ⟨hc,List.mem_filterMap.mp h⟩
  · cases h

end Execution

section Causes
variable {tr : List Item} {j : InstanceId} {e root : ScheduledEntry} {xs : List Execution}
  {x : Execution} {op : Op}

theorem Lineage.admitted (h : Lineage tr j e root xs) : .admitted j root ∈ tr := by
  induction h with
  | root e h => exact h
  | child x e root xs hx hj he h ih => exact ih

theorem Lineage.causes {after : List Item} (h : Lineage tr x.instId x.entry root xs)
    (hc : x.commits = true) (hop : op ∈ x.accepted) :
    CausedBy (tr ++ .executed x :: after) x.instId op x root := by
  have hn := h.narrowed
  have ha := acceptedFrom_authorized _ _ _ _ _ _ _ op hop
  refine ⟨⟨tr,after,xs,rfl,h⟩,rfl,hc,hop,List.mem_append_left _ h.admitted,hn.principal,?_,
    x.caps_subset_ceiling.trans hn.ceiling,authorize_privileged ha⟩
  rw [← hn.principal]
  exact (authorize_ok ha).2.1

/-- Every execution of a run descends from a submission admitted before. -/
theorem executed_lineage (c : Crypto) (manifest : Block) (wal : Option WalWriter)
    (calls : List Call)
    (hx : .executed x ∈ (Kernel.machine c).trace (Kernel.build manifest wal) calls) :
    ∃ before after root xs,
      (Kernel.machine c).trace (Kernel.build manifest wal) calls = before ++ .executed x :: after ∧
        Lineage before x.instId x.entry root xs := by
  obtain ⟨pre,post,hsplit⟩ := List.append_of_mem hx
  have hmicro := hsplit
  rw [(Kernel.expansion c).trace_eq] at hmicro
  obtain ⟨as,a,p,q,ha,hp⟩ := (Kernel.micro c).trace_split hmicro
  obtain ⟨rfl,hi⟩ := Kernel.micro_executed c ha
  rw [List.append_nil] at hp
  obtain ⟨root,xs,hl⟩ :=
    x.entry_lineage (Kernel.micro_run_traced c manifest wal as x.instId x.before hi)
  rw [← hp] at hl
  exact ⟨pre,post,root,xs,hsplit,hl⟩

theorem accepted_caused (c : Crypto) (manifest : Block) (wal : Option WalWriter)
    (calls : List Call)
    (hx : .executed x ∈ (Kernel.machine c).trace (Kernel.build manifest wal) calls)
    (hc : x.commits = true) (hop : op ∈ x.accepted) : ∃ root,
      CausedBy ((Kernel.machine c).trace (Kernel.build manifest wal) calls) x.instId op x root := by
  obtain ⟨before,after,root,xs,hsplit,hl⟩ := executed_lineage c manifest wal calls hx
  rw [hsplit]
  exact ⟨root,hl.causes hc hop⟩

theorem holds_deliver {i : Instance} {route route' : RouteId} {letter sig : InboundSignal}
    (h : (i.deliverSignal route letter).Holds route' sig) :
    i.Holds route' sig ∨ route' = route ∧ sig = { letter with seq := i.inboxSeq } := by
  obtain ⟨q,hq,hs⟩ := h
  rcases get_insert_some.mp hq with ⟨rfl,rfl⟩ | ⟨-,hq⟩
  · rcases List.mem_append.mp hs with hs | hs
    · cases hg : i.signalInbox[route']? with
      | none =>
        rw [Std.ExtTreeMap.getD_eq_getD_getElem?,hg] at hs
        cases hs
      | some q =>
        rw [Std.ExtTreeMap.getD_eq_getD_getElem?,hg] at hs
        exact .inl ⟨q,hg,hs⟩
    · exact .inr ⟨rfl,List.mem_singleton.mp hs⟩
  · exact .inl ⟨q,hq,hs⟩

theorem holds_receiveAll {i : Instance} {source id : InstanceId} {sigs : List PendingSignal}
    {route : RouteId} {sig : InboundSignal} (h : (i.receiveAll source id sigs).Holds route sig) :
    i.Holds route sig ∨ sig.source = source ∧
      (⟨id,route,sig.payload,sig.principal⟩ : PendingSignal) ∈ sigs := by
  induction sigs generalizing i with
  | nil => exact .inl h
  | cons s sigs ih =>
    rcases ih h with h | ⟨hs,hm⟩
    · change (i.receive source id s).Holds route sig at h
      unfold Instance.receive at h
      split at h
      · next ht =>
        rcases holds_deliver (i := i) h with h | ⟨rfl,rfl⟩
        · exact .inl h
        · rw [← ht.1]
          exact .inr ⟨rfl,List.mem_cons_self⟩
      · exact .inl h
    · exact .inr ⟨hs,List.mem_cons_of_mem _ hm⟩

def MailTraced (m : BTreeMap InstanceId Instance) (tr : List Item) : Prop :=
  ∀ (j : InstanceId) (i : Instance), m[j]? = some i → ∀ route sig, i.Holds route sig →
    ∃ x : Execution, .executed x ∈ tr ∧ x.instId = sig.source ∧
      (⟨j,route,sig.payload,sig.principal⟩ : PendingSignal) ∈ x.stage.pendingSignals

theorem MailTraced.change {m m' : BTreeMap InstanceId Instance} {items : List Item}
    (hc : Kernel.Change m items m') (h : MailTraced m tr) : MailTraced m' (tr++items) := by
  have hmono : MailTraced m (tr++items) := by
    intro j i hi route sig hs
    obtain ⟨x,hx,hrest⟩ := h j i hi route sig hs
    exact ⟨x,List.mem_append_left _ hx,hrest⟩
  intro j i hi route sig hs
  cases hc with
  | created id config =>
    rcases get_insert_some.mp hi with ⟨rfl,rfl⟩ | ⟨-,hi⟩
    · obtain ⟨q,hq,-⟩ := hs
      simp [Instance.new] at hq
    · exact hmono j i hi route sig hs
  | admitted s i' hi' hq =>
    rcases get_insert_some.mp hi with ⟨rfl,rfl⟩ | ⟨-,hi⟩
    · exact hmono _ i' hi' route sig hs
    · exact hmono j i hi route sig hs
  | executed x hx =>
    have hnew : .executed x ∈ tr ++ [.executed x] := List.mem_append_right _ List.mem_cons_self
    rw [x.settle_get] at hi
    split at hi
    · next hj =>
      obtain rfl := Option.some.inj hi
      rcases holds_receiveAll hs with hs | ⟨hsrc,hm⟩
      · unfold Instance.Holds at hs
        rw [x.after_signals.2.1] at hs
        exact hmono j x.before (hj ▸ hx) route sig hs
      · exact ⟨x,hnew,hsrc.symm,hj ▸ hm⟩
    · obtain ⟨i',hi',rfl⟩ := Option.map_eq_some_iff.mp hi
      rcases holds_receiveAll hs with hs | ⟨hsrc,hm⟩
      · exact hmono j i' hi' route sig hs
      · exact ⟨x,hnew,hsrc.symm,hm⟩
  | unloaded route' =>
    rw [get_map] at hi
    obtain ⟨i',hi',rfl⟩ := Option.map_eq_some_iff.mp hi
    exact hmono j i' hi' route sig hs
  | silent => exact hmono j i hi route sig hs

theorem mail_traced (c : Crypto) (manifest : Block) (wal : Option WalWriter) (calls : List Call) :
    MailTraced ((Kernel.machine c).run (Kernel.build manifest wal) calls).instances
      ((Kernel.machine c).trace (Kernel.build manifest wal) calls) := by
  rw [(Kernel.expansion c).run_eq,(Kernel.expansion c).trace_eq]
  have hr := (Kernel.micro c).history_invariant (fun k tr => MailTraced k.instances tr)
    (fun k tr a hk => hk.change (Kernel.micro_change c k a)) (Kernel.build manifest wal) []
    ((Kernel.expansion c).words (Kernel.build manifest wal) calls) (by
      intro j i hi
      simp [Kernel.build] at hi)
  exact hr

theorem mem_writesOf {w : StoreWrite} (h : w ∈ writesOf j tr) :
    ∃ x : Execution, .executed x ∈ tr ∧ x.instId = j ∧ w ∈ x.writes := by
  induction tr using List.reverseRecOn with
  | nil => cases h
  | append_singleton tr item ih =>
    have hmono (hw : w ∈ writesOf j tr) :
        ∃ x : Execution, .executed x ∈ tr ++ [item] ∧ x.instId = j ∧ w ∈ x.writes := by
      obtain ⟨x,hx,hrest⟩ := ih hw
      exact ⟨x,List.mem_append_left _ hx,hrest⟩
    unfold writesOf at h
    rw [writing.of_append] at h
    change w ∈ writing.entry j (writing.of j tr) item at h
    cases item with
    | created id config =>
      change w ∈ (if id = j then [] else writesOf j tr) at h
      split at h
      · cases h
      · exact hmono h
    | admitted id e =>
      change w ∈ (if id = j then writesOf j tr else writesOf j tr) at h
      rw [ite_self] at h
      exact hmono h
    | executed x =>
      change w ∈ (if x.instId = j then writesOf j tr ++ x.writes else writesOf j tr) at h
      split at h
      · next hj =>
        rcases List.mem_append.mp h with h | h
        · exact hmono h
        · exact ⟨x,List.mem_append_right _ List.mem_cons_self,hj,h⟩
      · exact hmono h

end Causes

/-- Everything that an instance holds has an operation and a submission behind it. -/
structure Instance.Traceable (i : Instance) (j : InstanceId) (tr : List Item) : Prop where
  entities : ∀ e m, i.entities[e]? = some m →
    ∃ x root, CausedBy tr j (.spawnEntity e m.owner) x root ∧ m.created = x.now
  components : ∀ e t b, i.components[(⟨e,t⟩ : ComponentKey)]? = some b →
    ∃ size x root, CausedBy tr j (.setComponent e t b size) x root
  scheduled : ∀ (κ : SchedKey) (e : ScheduledEntry), i.scheduler.ready[κ]? = some e → .admitted j e ∈ tr ∨
    ∃ x root, CausedBy tr j e.op x root ∧ e.principal = root.principal ∧ e.capsCeiling = x.caps
  queued : ∀ route sig, i.Holds route sig → ∃ x root,
    CausedBy tr sig.source (.sendSignal j route sig.payload) x root ∧
      sig.principal = root.principal

theorem state_is_traceable (c : Crypto) (manifest : Block) (wal : Option WalWriter)
    (calls : List Call) (j : InstanceId) (i : Instance)
    (hi : ((Kernel.machine c).run (Kernel.build manifest wal) calls).instances[j]? = some i) :
    i.Traceable j ((Kernel.machine c).trace (Kernel.build manifest wal) calls) := by
  obtain ⟨hl,hw⟩ := writing_kept.reachable c manifest wal calls j i hi
  set tr := (Kernel.machine c).trace (Kernel.build manifest wal) calls with htr
  have hw' : i.world = EntityWorld.run (writesOf j tr) := hw
  have hwrite : ∀ w ∈ writesOf j tr, ∃ op x root, op.write x.now = some w ∧ CausedBy tr j op x root := by
    intro w hm
    obtain ⟨x,hx,rfl,hxw⟩ := mem_writesOf hm
    obtain ⟨hc,op,hop,hs⟩ := x.writes_accepted hxw
    obtain ⟨root,hcaused⟩ := accepted_caused c manifest wal calls hx hc hop
    exact ⟨op,x,root,hs,hcaused⟩
  constructor
  · intro e m he
    rw [← world_info,hw',EntityWorld.run_info_iff] at he
    obtain ⟨pre,post,hsplit,-⟩ := he
    obtain ⟨op,x,root,hs,hcaused⟩ := hwrite (.spawn e m) (by rw [hsplit]; simp)
    cases op with
    | spawnEntity id owner =>
      cases hs
      exact ⟨x,root,hcaused,rfl⟩
    | _ => cases hs
  · intro e t b hb
    rw [← world_component hl.live,hw',EntityWorld.run_component_iff] at hb
    obtain ⟨pre,post,hsplit,-⟩ := hb
    obtain ⟨op,x,root,hs,hcaused⟩ := hwrite (.set e t b) (by rw [hsplit]; simp)
    cases op with
    | setComponent entity typeCode bytes size =>
      cases hs
      exact ⟨size,x,root,hcaused⟩
    | _ => cases hs
  · intro κ e he
    have htraced := Kernel.micro_run_traced c manifest wal
      ((Kernel.expansion c).words (Kernel.build manifest wal) calls)
    rw [← (Kernel.expansion c).run_eq,← (Kernel.expansion c).trace_eq] at htraced
    obtain ⟨root,xs,hlin⟩ := htraced j i hi κ e he
    cases hlin with
    | root e h => exact .inl h
    | child x e root xs hx hj he h =>
      subst hj
      obtain ⟨hc,hop⟩ := x.children_accepted he
      obtain ⟨hp,hcap⟩ := x.child_inherits he
      obtain ⟨first,hcaused⟩ := accepted_caused c manifest wal calls hx hc hop
      exact .inr ⟨x,first,hcaused,hp.trans hcaused.principal,hcap⟩
  · intro route sig hs
    obtain ⟨x,hx,hsrc,hsent⟩ := mail_traced c manifest wal calls j i hi route sig hs
    obtain ⟨hc,hop,hp⟩ := x.sent_accepted hsent
    obtain ⟨root,hcaused⟩ := accepted_caused c manifest wal calls hx hc hop
    rw [← hsrc]
    exact ⟨x,root,hcaused,hp.trans hcaused.principal⟩

theorem state_is_traceable_respawn : ∃ size x root,
    CausedBy ((Kernel.machine standIn).trace (.build zeroBlock none) respawnCalls) ⟨.succ 0⟩
      (.setComponent ⟨.succ 0⟩ (.clamp 3) [3] size) x root := by
  let k := (Kernel.machine standIn).run (.build zeroBlock none) respawnCalls
  have hc : (k.instances[(⟨.succ 0⟩ : InstanceId)]?).map
      (fun i => i.components[(⟨⟨.succ 0⟩,.clamp 3⟩ : ComponentKey)]?) = some (some [3]) := by
    decide +kernel
  obtain ⟨i,hi,hb⟩ := Option.map_eq_some_iff.mp hc
  exact (state_is_traceable standIn zeroBlock none respawnCalls ⟨.succ 0⟩ i hi).components _ _ _ hb

end ArkheKernel
