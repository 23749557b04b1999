import ArkheKernel.Sequential
import ArkheKernel.SignalHistory

/-!
# Signals from operation to inbox

The signals of a commit are those its accepted operations send, in order. Each
has one outcome, and the inboxes of an instance are the queues of its log.
-/

set_option autoImplicit false

namespace ArkheKernel
open OrderedMap Mailbox

def Op.signal (principal : Principal) : Op → Option PendingSignal
  | .sendSignal target route payload => some ⟨target,route,payload,principal⟩
  | _ => none

def KernelEvent.isSignal : KernelEvent → Bool
  | .signalDropped .. => true
  | .signalDelivered .. => true
  | _ => false

section Gates
variable (i : Instance) (instId : InstanceId) (principal : Principal) (caps : CapabilityMask)
  (now : Tick)

theorem dispatch_signals (op : Op) (s : StepStage) (next : ℕ) :
    (dispatch ⟨instId,principal,op⟩ s now next caps).1.pendingSignals =
      s.pendingSignals ++ (op.signal principal).toList := by
  cases op with
  | sendSignal target route payload => rfl
  | _ => exact (List.append_nil _).symm

theorem dispatch_events (op : Op) (s : StepStage) (next : ℕ)
    (h : ∀ e ∈ s.events, e.isSignal = false) :
    ∀ e ∈ (dispatch ⟨instId,principal,op⟩ s now next caps).1.events, e.isSignal = false := by
  cases op with
  | emitEvent actor eventTypeCode eventBytes =>
    intro e he
    rcases List.mem_append.mp he with he | he
    · exact h e he
    · rw [List.mem_singleton.mp he]
      rfl
  | _ => exact h

theorem gates_signals (ops : List Op) (g : GateState) :
    (ops.foldl (gateOp i instId principal caps now) g).stage.pendingSignals =
      g.stage.pendingSignals ++
        (acceptedFrom i instId principal caps now g ops).filterMap (Op.signal principal) := by
  induction ops generalizing g with
  | nil => exact (List.append_nil _).symm
  | cons op ops ih =>
    rw [List.foldl_cons,ih,acceptedFrom]
    rcases gateOp_cases i instId principal caps now g op with ⟨e,ha,hg⟩ | ⟨ha,r,hs,hg⟩ | ⟨ha,hs,hg⟩
    · rw [authorized_error ha,Bool.false_and,if_neg Bool.false_ne_true,hg]
    · rw [hs,if_neg (by simp),hg]
    · rw [authorized_iff.mpr ha,hs,if_pos (by simp),List.filterMap_cons]
      have hp : (gateOp i instId principal caps now g op).stage.pendingSignals =
          g.stage.pendingSignals ++ (op.signal principal).toList := by
        rw [hg]
        exact dispatch_signals instId principal caps now op _ _
      rw [hp]
      cases op.signal principal <;> simp

theorem gates_accept (ops : List Op) (g : GateState)
    (h : (ops.foldl (gateOp i instId principal caps now) g).denied = 0) :
    g.denied = 0 ∧ acceptedFrom i instId principal caps now g ops = ops := by
  induction ops generalizing g with
  | nil => exact ⟨h,rfl⟩
  | cons op ops ih =>
    obtain ⟨h0,hacc⟩ := ih _ h
    have hpos : satAdd32 g.denied 1 ≠ 0 := by
      unfold satAdd32 u32Max
      omega
    rw [acceptedFrom,hacc]
    rcases gateOp_cases i instId principal caps now g op with ⟨e,-,hg⟩ | ⟨-,r,-,hg⟩ | ⟨ha,hs,hg⟩
    · rw [hg] at h0
      exact absurd h0 hpos
    · rw [hg] at h0
      exact absurd h0 hpos
    · rw [hg] at h0
      exact ⟨h0,by rw [authorized_iff.mpr ha,hs]; rfl⟩

theorem gates_events (ops : List Op) (g : GateState)
    (h : ∀ e ∈ g.stage.events, e.isSignal = false) :
    ∀ e ∈ (ops.foldl (gateOp i instId principal caps now) g).stage.events,
      e.isSignal = false := by
  induction ops generalizing g with
  | nil => exact h
  | cons op ops ih =>
    rw [List.foldl_cons]
    apply ih
    rcases gateOp_cases i instId principal caps now g op with ⟨e,-,hg⟩ | ⟨-,r,-,hg⟩ | ⟨-,-,hg⟩
    · rw [hg]
      exact h
    · rw [hg]
      intro e he
      rcases List.mem_append.mp he with he | he
      · exact h e he
      · rw [List.mem_singleton.mp he]
        rfl
    · rw [hg]
      exact dispatch_events instId principal caps now op _ _ h

end Gates

namespace Execution
variable (x : Execution)

/-- The signals of the accepted operations, in operation order. -/
def sent : List PendingSignal :=
  if x.commits then x.accepted.filterMap (Op.signal x.entry.principal) else []

theorem stage_sent : x.stage.pendingSignals = x.sent := by
  unfold stage sent
  split
  · exact gates_signals x.start x.instId x.entry.principal x.caps x.now x.ops _
  · rfl

theorem accepted_all (h : x.verdict = .committed) : x.accepted = x.ops := by
  unfold verdict at h
  split at h
  · cases h
  · split at h
    · cases h
    · split at h
      · cases h
      · next hd => exact (gates_accept _ _ _ _ _ x.ops _ (Nat.eq_zero_of_not_pos hd)).2

theorem stage_events : ∀ e ∈ x.stage.events, e.isSignal = false := by
  unfold stage
  split
  · apply gates_events
    intro e he
    cases he
  · intro e he
    cases he

end Execution

section Outcomes
variable (source : InstanceId)

/-- What becomes of one signal: its event, its mark, and the instances after it. -/
inductive Outcome (m : BTreeMap InstanceId Instance) (sig : PendingSignal) :
    KernelEvent → List SignalMark → BTreeMap InstanceId Instance → Prop
  | targetNotFound (h : m[sig.target]? = none) :
      Outcome m sig (.signalDropped sig.target sig.route .targetNotFound) [] m
  | queueFull (t : Instance) (h : m[sig.target]? = some t) (h0 : 0 < t.config.maxInboxPerRoute)
      (hfull : t.config.maxInboxPerRoute ≤ t.inboxLen sig.route) :
      Outcome m sig (.signalDropped sig.target sig.route .queueFull) [] m
  | delivered (t : Instance) (queues : BTreeMap RouteId (List InboundSignal))
      (refs : BTreeMap RouteId ℕ) (h : m[sig.target]? = some t)
      (hroom : t.config.maxInboxPerRoute = 0 ∨ t.inboxLen sig.route < t.config.maxInboxPerRoute)
      (htail : queues[sig.route]? = some (t.signalInbox.getD sig.route [] ++
        [⟨source,sig.principal,sig.payload,t.inboxSeq⟩]))
      (hothers : ∀ route : RouteId, route ≠ sig.route → queues[route]? = t.signalInbox[route]?) :
      Outcome m sig (.signalDelivered source sig.target sig.route) [.delivered source sig]
        (m.insert sig.target { t with
          inboxSeq := satAdd64 t.inboxSeq 1, signalInbox := queues, inflightRefs := refs })

inductive Routed : BTreeMap InstanceId Instance → List PendingSignal → List KernelEvent →
    List SignalMark → BTreeMap InstanceId Instance → Prop
  | nil (m : BTreeMap InstanceId Instance) : Routed m [] [] [] m
  | cons {m m₁ m₂ : BTreeMap InstanceId Instance} {sig : PendingSignal} {sigs : List PendingSignal}
      {e : KernelEvent} {es : List KernelEvent} {mark marks : List SignalMark}
      (h : Outcome source m sig e mark m₁) (hs : Routed m₁ sigs es marks m₂) :
      Routed m (sig::sigs) (e::es) (mark++marks) m₂

theorem routeOne_outcome (m : BTreeMap InstanceId Instance) (sig : PendingSignal) :
    Outcome source m sig (routeOne source m sig).2 (routeMark source m sig)
      (routeOne source m sig).1 := by
  unfold routeOne routeMark
  cases ht : m[sig.target]? with
  | none => exact .targetNotFound ht
  | some t =>
    dsimp only
    by_cases hf : t.inboxFull sig.route = true
    · rw [if_pos hf,if_pos hf]
      have hq : 0 < t.config.maxInboxPerRoute ∧
          t.config.maxInboxPerRoute ≤ t.inboxLen sig.route := by
        simpa [Instance.inboxFull] using hf
      exact .queueFull t ht hq.1 hq.2
    · rw [if_neg hf,if_neg hf]
      have hq : t.config.maxInboxPerRoute = 0 ∨
          t.inboxLen sig.route < t.config.maxInboxPerRoute := by
        simp only [Instance.inboxFull,Bool.and_eq_true,decide_eq_true_eq] at hf
        omega
      apply Outcome.delivered t _ _ ht hq
      · exact get_insert_self _ _ _
      · intro route hr
        exact get_insert_ne _ _ hr

theorem routeAll_routed (m : BTreeMap InstanceId Instance) (sigs : List PendingSignal) :
    Routed source m sigs (routeEvents source m sigs) (routeMarks source m sigs)
      (routeAll source m sigs) := by
  induction sigs generalizing m with
  | nil => exact .nil m
  | cons sig sigs ih => exact .cons (routeOne_outcome source m sig) (ih _)

theorem routeEvents_signals (m : BTreeMap InstanceId Instance) (sigs : List PendingSignal) :
    ∀ e ∈ routeEvents source m sigs, e.isSignal = true := by
  induction sigs generalizing m with
  | nil =>
    intro e he
    cases he
  | cons sig sigs ih =>
    intro e he
    rcases List.mem_cons.mp he with rfl | he
    · unfold routeOne
      split
      · split <;> rfl
      · rfl
    · exact ih _ e he

end Outcomes

theorem Execution.emits_signals (x : Execution) (m : BTreeMap InstanceId Instance) :
    (x.emits m).filter KernelEvent.isSignal =
      routeEvents x.instId (m.insert x.instId x.after) x.stage.pendingSignals := by
  have hs : x.stage.events.filter KernelEvent.isSignal = [] := by
    rw [List.filter_eq_nil_iff]
    intro e he
    rw [x.stage_events e he]
    exact Bool.false_ne_true
  have hx : (Kernel.executedEvents x.instId x.entry.actionTypeCode x.now x.verdict).filter
      KernelEvent.isSignal = [] := by
    unfold Kernel.executedEvents
    split <;> rfl
  unfold Execution.emits
  rw [List.filter_append,List.filter_append,hs,hx]
  exact List.filter_eq_self.mpr (routeEvents_signals x.instId _ _)

namespace Instance.Mirrors
variable {i : Instance} {log : SignalLog} (h : i.Mirrors log)
include h

theorem inboxSeq_eq (hb : (deliveries log).length < 2^64) : i.inboxSeq = (deliveries log).length := by
  rw [h.seq]
  unfold u64Max
  omega

theorem queue_seqs {route : RouteId} {q : List InboundSignal} (hq : i.signalInbox[route]? = some q) :
    q.map InboundSignal.seq = (Mailbox.queue u64Max route (deliveries log)).map Prod.snd := by
  have hg := h.queue route
  rw [Std.ExtTreeMap.getD_eq_getD_getElem?,hq,Option.getD_some] at hg
  rw [hg,List.map_map]
  rfl

theorem increasing (hb : (deliveries log).length < 2^64) {route : RouteId} {q : List InboundSignal}
    (hq : i.signalInbox[route]? = some q) : (q.map InboundSignal.seq).Pairwise (· < ·) := by
  rw [h.queue_seqs hq]
  apply queue_increasing
  unfold u64Max
  omega

theorem mem_seqs (hb : (deliveries log).length < 2^64) (s : ℕ) :
    (∃ (route : RouteId) (q : List InboundSignal), i.signalInbox[route]? = some q ∧
      s ∈ q.map InboundSignal.seq) ↔ s < i.inboxSeq := by
  have hbound : (deliveries log).length ≤ u64Max+1 := by
    unfold u64Max
    omega
  rw [h.inboxSeq_eq hb]
  constructor
  · intro ⟨route,q,hq,hs⟩
    rw [h.queue_seqs hq,mem_queue _ hbound] at hs
    obtain ⟨hlt,-⟩ := List.getElem?_eq_some_iff.mp hs
    rwa [List.length_map] at hlt
  · intro hs
    obtain ⟨route,hr,-⟩ := queue_unique hbound hs
    have hg := h.queue route
    rw [Std.ExtTreeMap.getD_eq_getD_getElem?] at hg
    cases hq : i.signalInbox[route]? with
    | none =>
      rw [hq,Option.getD_none] at hg
      rw [List.map_eq_nil_iff.mp hg.symm] at hr
      cases hr
    | some q => exact ⟨route,q,hq,by rw [h.queue_seqs hq]; exact hr⟩

theorem seqs_perm (hb : (deliveries log).length < 2^64) :
    (i.signalInbox.toList.flatMap (fun p => p.2.map InboundSignal.seq)).Perm
      (List.range i.inboxSeq) := by
  have hbound : (deliveries log).length ≤ u64Max+1 := by
    unfold u64Max
    omega
  have hsorted := keys_sorted i.signalInbox
  rw [← Std.ExtTreeMap.map_fst_toList_eq_keys,List.pairwise_map] at hsorted
  have hnodup : (i.signalInbox.toList.flatMap (fun p => p.2.map InboundSignal.seq)).Nodup := by
    rw [List.nodup_flatMap]
    constructor
    · intro p hp
      exact (h.increasing hb ((mem_toList _ _ _).mp hp)).imp ne_of_lt
    · apply hsorted.imp_of_mem
      intro p q hp hq hlt s hsp hsq
      dsimp only at hsp hsq
      rw [h.queue_seqs ((mem_toList _ _ _).mp hp)] at hsp
      rw [h.queue_seqs ((mem_toList _ _ _).mp hq)] at hsq
      rw [mem_queue _ hbound] at hsp hsq
      exact absurd (Option.some.inj (hsp.symm.trans hsq)) (ne_of_lt hlt)
  rw [List.perm_ext_iff_of_nodup hnodup List.nodup_range]
  intro s
  rw [List.mem_range,← h.mem_seqs hb s,List.mem_flatMap]
  constructor
  · intro ⟨p,hp,hs⟩
    exact ⟨p.1,p.2,(mem_toList _ _ _).mp hp,hs⟩
  · intro ⟨route,q,hq,hs⟩
    exact ⟨(route,q),(mem_toList _ _ _).mpr hq,hs⟩

end Instance.Mirrors

/-- In every run the signals of a pop are those of its accepted operations
(all of them under the plain committed verdict), none unless it commits; they
are routed one after the other, and the observers are told so. In every reachable
state an inbox is the queue of its route in the log of the instance; with fewer
than 2^64 deliveries its sequence numbers increase, and those of all inboxes are
the numbers below the counter, each once. -/
theorem signals_have_one_outcome (c : Crypto) (manifest : Block) (wal : Option WalWriter)
    (calls : List Call) :
    (∀ k inst now caps x, Kernel.At c (.build manifest wal) calls k (.pop inst now caps) →
      k.execution inst now caps = some x →
      x.accepted.Sublist x.ops ∧ (x.verdict = .committed → x.accepted = x.ops) ∧
      Routed inst (k.instances.insert inst x.after) x.sent
        ((k.emits (.pop inst now caps)).filter KernelEvent.isSignal)
        (k.signals (.pop inst now caps)) (k.pop c inst now caps).instances ∧
      (k.pop c inst now caps).observers.emitted =
        k.observers.emitted ++ k.emits (.pop inst now caps)) ∧
    (∀ (id : InstanceId) (i : Instance),
      ((Kernel.machine c).run (.build manifest wal) calls).instances[id]? = some i →
      let sent := deliveries ((Kernel.build manifest wal).signalLog c calls id)
      (∀ route, i.signalInbox.getD route [] =
        (Mailbox.queue u64Max route sent).map Letter.stamped) ∧
      (sent.length < 2^64 →
        (∀ (route : RouteId) (q : List InboundSignal), i.signalInbox[route]? = some q →
          (q.map InboundSignal.seq).Pairwise (· < ·)) ∧
        i.inboxSeq = sent.length ∧
        (i.signalInbox.toList.flatMap (fun p => p.2.map InboundSignal.seq)).Perm
          (List.range i.inboxSeq))) := by
  constructor
  · intro k inst now caps x _ hx
    refine ⟨x.accepted_sublist,x.accepted_all,?_,Kernel.micro_emitted c k (.pop inst now caps)⟩
    obtain ⟨_,hs⟩ := Kernel.pop_some c hx
    have hrouted := routeAll_routed x.instId (k.instances.insert x.instId x.after)
      x.stage.pendingSignals
    rw [Kernel.emits_some hx,x.emits_signals,Kernel.signals_some hx,hs,← x.stage_sent]
    obtain ⟨-,rfl,-⟩ := Kernel.execution_some hx
    exact hrouted
  · intro id i hi sent
    have h := Kernel.run_mirrors c manifest wal calls id i hi
    refine ⟨h.queue,?_⟩
    intro hb
    exact ⟨fun _ _ hq => h.increasing hb hq,h.inboxSeq_eq hb,h.seqs_perm hb⟩

def crossingCalls : List Call := [
  .request (.registerAction (.clamp 7) (.constant [
    .sendSignal ⟨.succ 0⟩ ⟨1⟩ [1], .sendSignal ⟨.succ 1⟩ ⟨1⟩ [2], .sendSignal ⟨.succ 1⟩ ⟨1⟩ [3],
    .sendSignal ⟨.succ 0⟩ ⟨2⟩ [4], .sendSignal ⟨.succ 8⟩ ⟨1⟩ [5]])),
  .request (.createInstance { defaultCaps := .SYSTEM }),
  .request (.createInstance { defaultCaps := .SYSTEM, maxInboxPerRoute := 1 }),
  .request (.submit ⟨⟨.succ 0⟩,.system,none,.SYSTEM,⟨1⟩,.clamp 7,[]⟩),
  .request (.submit ⟨⟨.succ 1⟩,.system,none,.SYSTEM,⟨1⟩,.clamp 7,[]⟩)]

theorem signals_have_one_outcome_crossing :
    (∃ x : Execution, x.sent.length = 5 ∧
      let k := (Kernel.machine standIn).run (.build zeroBlock none) crossingCalls
      Routed ⟨.succ 0⟩ (k.instances.insert ⟨.succ 0⟩ x.after) x.sent
        ((k.emits (.pop ⟨.succ 0⟩ ⟨1⟩ .SYSTEM)).filter KernelEvent.isSignal)
        (k.signals (.pop ⟨.succ 0⟩ ⟨1⟩ .SYSTEM))
        (k.pop standIn ⟨.succ 0⟩ ⟨1⟩ .SYSTEM).instances) ∧
    ∃ i : Instance, ((Kernel.machine standIn).run (.build zeroBlock none)
        (crossingCalls ++ [.step ⟨1⟩ .SYSTEM])).instances[(⟨.succ 0⟩ : InstanceId)]? = some i ∧
      i.signalInbox.toList.map (fun p => (p.1.val,p.2.map InboundSignal.seq)) =
        [(1,[0,2]),(2,[1,3])] ∧
      (i.signalInbox.toList.flatMap (fun p => p.2.map InboundSignal.seq)).Perm (List.range 4) := by
  obtain ⟨hpops,hstate⟩ := signals_have_one_outcome standIn zeroBlock none
    (crossingCalls ++ [.step ⟨1⟩ .SYSTEM])
  constructor
  · have hkeys : ((Kernel.machine standIn).run (.build zeroBlock none)
        crossingCalls).instances.keys = [⟨.succ 0⟩,⟨.succ 1⟩] := by decide +kernel
    have hx : (((Kernel.machine standIn).run (.build zeroBlock none) crossingCalls).execution
        ⟨.succ 0⟩ ⟨1⟩ .SYSTEM).map (fun x => x.sent.length) = some 5 := by decide +kernel
    obtain ⟨x,hx,hlen⟩ := Option.map_eq_some_iff.mp hx
    exact ⟨x,hlen,(hpops _ _ _ _ x (Kernel.at_first_pop standIn hkeys ⟨1⟩ .SYSTEM) hx).2.2.1⟩
  · have hi : (((Kernel.machine standIn).run (.build zeroBlock none)
        (crossingCalls ++ [.step ⟨1⟩ .SYSTEM])).instances[(⟨.succ 0⟩ : InstanceId)]?).map (fun i =>
          (i.inboxSeq,i.signalInbox.toList.map (fun p => (p.1.val,p.2.map InboundSignal.seq)))) =
            some (4,[(1,[0,2]),(2,[1,3])]) := by decide +kernel
    have hb : (deliveries ((Kernel.build zeroBlock none).signalLog standIn
        (crossingCalls ++ [.step ⟨1⟩ .SYSTEM]) ⟨.succ 0⟩)).length < 2^64 := by decide +kernel
    obtain ⟨i,hi,hm⟩ := Option.map_eq_some_iff.mp hi
    obtain ⟨hseq,hqueues⟩ := Prod.mk.inj hm
    have hperm := ((hstate _ i hi).2 hb).2.2
    rw [hseq] at hperm
    exact ⟨i,hi,hqueues,hperm⟩

end ArkheKernel
