import ArkheKernel.Descent
import ArkheKernel.Emission
import ArkheKernel.Mailbox

/-!
# Inboxes as logs

Creations, accepted deliveries and unloads are the marks a run leaves on the
signal state. An instance is, in its inbox, its sequence counter and its
in-flight references, the mailbox of the marks since its creation.
-/

set_option autoImplicit false

namespace ArkheKernel
open OrderedMap PrefixCode Mailbox

structure Letter where
  source : InstanceId
  principal : Principal
  payload : Bytes
  deriving DecidableEq

def Letter.stamped (p : Letter × ℕ) : InboundSignal := ⟨p.1.source,p.1.principal,p.1.payload,p.2⟩

abbrev SignalLog := List (Mailbox.Entry RouteId Letter)

inductive SignalMark where
  | created (id : InstanceId)
  | delivered (source : InstanceId) (sig : PendingSignal)
  | unloaded (route : RouteId)

def SignalMark.write (id : InstanceId) (log : SignalLog) : SignalMark → SignalLog
  | .created id' => if id' = id then [] else log
  | .delivered source sig =>
    if sig.target = id then log ++ [.deliver sig.route ⟨source,sig.principal,sig.payload⟩] else log
  | .unloaded route => log ++ [.clear route]

/-- The signal state of an instance is the mailbox of a log. -/
structure Instance.Mirrors (i : Instance) (log : SignalLog) : Prop where
  seq : i.inboxSeq = min (deliveries log).length u64Max
  queue : ∀ route, i.signalInbox.getD route [] =
    (Mailbox.queue u64Max route (deliveries log)).map Letter.stamped
  refs : ∀ route, i.inflightRefs[route]? =
    if standing route log = 0 then none else some (min (standing route log) u32Max)

namespace Instance.Mirrors

theorem new (id : InstanceId) (config : InstanceConfig) : (Instance.new id config).Mirrors [] where
  seq := rfl
  queue route := by simp [Instance.new,Mailbox.queue,deliveries,queueFrom]
  refs route := by simp [Instance.new,standing,credits]

variable {i : Instance} {log : SignalLog} (h : i.Mirrors log)
include h

theorem congr {j : Instance} (hs : j.inboxSeq = i.inboxSeq) (hq : j.signalInbox = i.signalInbox)
    (hr : j.inflightRefs = i.inflightRefs) : j.Mirrors log where
  seq := hs.trans h.seq
  queue := by
    rw [hq]
    exact h.queue
  refs := by
    rw [hr]
    exact h.refs

theorem getD_refs (route : RouteId) :
    i.inflightRefs.getD route 0 = min (standing route log) u32Max := by
  rw [Std.ExtTreeMap.getD_eq_getD_getElem?,h.refs]
  split
  · next h0 =>
    rw [h0]
    rfl
  · rfl

theorem inboxLen (route : RouteId) : i.inboxLen route = load route (deliveries log) := by
  have hq := congrArg List.length (h.queue route)
  rw [List.length_map,queue_length,Std.ExtTreeMap.getD_eq_getD_getElem?] at hq
  rw [← hq]
  unfold Instance.inboxLen
  cases i.signalInbox[route]? <;> rfl

theorem accept (source : InstanceId) (sig : PendingSignal) : (i.accept source sig).Mirrors
    (log ++ [.deliver sig.route ⟨source,sig.principal,sig.payload⟩]) where
  seq := by
    rw [deliveries_snoc]
    change satAdd64 i.inboxSeq 1 = min (deliveries log ++ [_]).length u64Max
    rw [h.seq,List.length_append,List.length_singleton]
    unfold satAdd64
    omega
  queue route := by
    rw [deliveries_snoc]
    change (i.signalInbox.insert sig.route (i.signalInbox.getD sig.route [] ++
      [⟨source,sig.principal,sig.payload,i.inboxSeq⟩])).getD route [] =
        (Mailbox.queue u64Max route (deliveries log ++
          [(sig.route,⟨source,sig.principal,sig.payload⟩)])).map Letter.stamped
    rw [queue_snoc,List.map_append,← h.queue route,Std.ExtTreeMap.getD_eq_getD_getElem?,get_insert]
    by_cases hr : route = sig.route
    · rw [if_pos hr,if_pos hr.symm,Option.getD_some,h.seq,hr]
      rfl
    · rw [if_neg hr,if_neg (fun he => hr he.symm),List.map_nil,List.append_nil,
        Std.ExtTreeMap.getD_eq_getD_getElem?]
  refs route := by
    rw [standing_deliver]
    change (i.inflightRefs.insert sig.route (satAdd32 (i.inflightRefs.getD sig.route 0) 1))[route]? = _
    rw [get_insert]
    by_cases hr : route = sig.route
    · rw [if_pos hr,if_pos hr.symm,h.getD_refs,hr,if_neg (Nat.succ_ne_zero _)]
      congr 1
      unfold satAdd32
      omega
    · rw [if_neg hr,if_neg (c := sig.route = route) (fun he => hr he.symm),Nat.add_zero]
      exact h.refs route

theorem unload (route : RouteId) :
    Instance.Mirrors { i with inflightRefs := i.inflightRefs.erase route } (log ++ [.clear route]) where
  seq := by
    rw [deliveries_snoc]
    simpa [Entry.delivery] using h.seq
  queue r := by
    rw [deliveries_snoc]
    simpa [Entry.delivery] using h.queue r
  refs r := by
    rw [standing_clear]
    dsimp only
    rw [get_erase]
    by_cases hr : r = route
    · rw [if_pos hr,if_pos hr.symm,if_pos rfl]
    · rw [if_neg hr,if_neg (c := route = r) (fun he => hr he.symm)]
      exact h.refs r

end Instance.Mirrors

def routeMark (source : InstanceId) (m : BTreeMap InstanceId Instance) (sig : PendingSignal) :
    List SignalMark :=
  match m[sig.target]? with
  | some target => if target.inboxFull sig.route then [] else [.delivered source sig]
  | none => []

def routeMarks (source : InstanceId) : BTreeMap InstanceId Instance → List PendingSignal →
    List SignalMark
  | _, [] => []
  | m, sig::sigs => routeMark source m sig ++ routeMarks source (routeOne source m sig).1 sigs

def Mirrored (logs : InstanceId → SignalLog) (marks : List SignalMark)
    (m : BTreeMap InstanceId Instance) : Prop :=
  ∀ (id : InstanceId) (i : Instance), m[id]? = some i →
    i.Mirrors (marks.foldl (SignalMark.write id) (logs id))

theorem Mirrored.insert {logs : InstanceId → SignalLog} {marks : List SignalMark}
    {m : BTreeMap InstanceId Instance} (h : Mirrored logs [] m) {id : InstanceId} {i : Instance}
    (hi : i.Mirrors (marks.foldl (SignalMark.write id) (logs id)))
    (hn : ∀ id', id' ≠ id → marks.foldl (SignalMark.write id') (logs id') = logs id') :
    Mirrored logs marks (m.insert id i) := by
  intro id' i' hi'
  rcases get_insert_some.mp hi' with ⟨rfl,rfl⟩ | ⟨hne,hi'⟩
  · exact hi
  · rw [hn id' hne]
    exact h id' i' hi'

theorem routeOne_mirrored {logs : InstanceId → SignalLog} {m : BTreeMap InstanceId Instance}
    (h : Mirrored logs [] m) (source : InstanceId) (sig : PendingSignal) :
    Mirrored logs (routeMark source m sig) (routeOne source m sig).1 := by
  unfold routeMark routeOne
  cases ht : m[sig.target]? with
  | none => exact h
  | some target =>
    dsimp only
    split
    · exact h
    · apply h.insert
      · change Instance.Mirrors _ (if sig.target = sig.target then _ else logs sig.target)
        rw [if_pos rfl]
        exact (h _ _ ht).accept source sig
      · exact fun id hne => if_neg hne.symm

theorem routeAll_mirrored (source : InstanceId) (sigs : List PendingSignal)
    (logs : InstanceId → SignalLog) (m : BTreeMap InstanceId Instance) (h : Mirrored logs [] m) :
    Mirrored logs (routeMarks source m sigs) (routeAll source m sigs) := by
  induction sigs generalizing logs m with
  | nil => exact h
  | cons sig sigs ih =>
    have hs := routeOne_mirrored h source sig
    intro id i hi
    rw [routeMarks,List.foldl_append]
    exact ih (fun id => (routeMark source m sig).foldl (SignalMark.write id) (logs id)) _ hs id i hi

namespace Kernel

def signals (k : Kernel) : Micro → List SignalMark
  | .request (.createInstance config) => [.created (k.createInstance config).1]
  | .request (.forceUnload route caps) =>
    if caps.contains .ADMIN_UNLOAD then [.unloaded route] else []
  | .request _ => []
  | .pop inst now caps =>
    match k.execution inst now caps with
    | none => []
    | some x => routeMarks x.instId (k.instances.insert x.instId x.after) x.stage.pendingSignals

variable (c : Crypto)

def signaling : Transducer Kernel Micro SignalMark := (micro c).withOut signals

/-- What one instance has been sent, and which of its routes were unloaded,
since it was created. -/
def signalLog (k : Kernel) (calls : List Call) (id : InstanceId) : SignalLog :=
  ((signaling c).trace k ((expansion c).words k calls)).foldl (SignalMark.write id) []

theorem signals_none {k : Kernel} {inst : InstanceId} {now : Tick} {caps : CapabilityMask}
    (h : k.execution inst now caps = none) : k.signals (.pop inst now caps) = [] := by
  simp [signals,h]

theorem signals_some {k : Kernel} {inst : InstanceId} {now : Tick} {caps : CapabilityMask}
    {x : Execution} (h : k.execution inst now caps = some x) : k.signals (.pop inst now caps) =
      routeMarks x.instId (k.instances.insert x.instId x.after) x.stage.pendingSignals := by
  simp [signals,h]

theorem request_mirrored (k : Kernel) (r : Request) (logs : InstanceId → SignalLog)
    (h : Mirrored logs [] k.instances) :
    Mirrored logs (k.signals (.request r)) (k.serve c r).instances := by
  cases r with
  | createInstance config =>
    let id := (k.createInstance config).1
    show Mirrored logs [.created id] (k.instances.insert id _)
    apply h.insert
    · change Instance.Mirrors _ (if id = id then [] else logs id)
      rw [if_pos rfl]
      exact .new _ _
    · exact fun id' hne => if_neg hne.symm
  | submit s =>
    show Mirrored logs [] (k.submit c s).2.instances
    rcases submit_cases c k s with ⟨e,he⟩ | ⟨j,hj,-,he⟩
    · rw [he]
      exact h
    · rw [he]
      exact h.insert ((h _ _ hj).congr rfl rfl rfl) (fun _ _ => rfl)
  | forceUnload route caps =>
    show Mirrored logs (if caps.contains .ADMIN_UNLOAD then [.unloaded route] else [])
      (k.forceUnload route caps).2.instances
    unfold forceUnload
    by_cases hc : caps.contains .ADMIN_UNLOAD = true
    · rw [if_pos hc,if_neg (by simp [hc])]
      intro id i hi
      dsimp only at hi
      rw [get_map] at hi
      obtain ⟨j,hj,rfl⟩ := Option.map_eq_some_iff.mp hi
      exact (h id j hj).unload route
    · rw [if_neg hc,if_pos (by simp [hc])]
      exact h
  | registerAction typeCode reg => exact h
  | registerObserver obs mask => exact h

theorem micro_mirrored (k : Kernel) (a : Micro) (logs : InstanceId → SignalLog)
    (h : Mirrored logs [] k.instances) :
    Mirrored logs (k.signals a) ((micro c).next k a).instances := by
  cases a with
  | request r => exact request_mirrored c k r logs h
  | pop inst now caps =>
    show Mirrored logs (k.signals (.pop inst now caps)) (k.pop c inst now caps).instances
    cases hx : k.execution inst now caps with
    | none =>
      rw [pop_none c hx,signals_none hx]
      exact h
    | some x =>
      obtain ⟨_,hs⟩ := pop_some c hx
      obtain ⟨hi,rfl,-⟩ := execution_some hx
      rw [hs,signals_some hx]
      apply routeAll_mirrored
      obtain ⟨hq,hb,hr⟩ := x.after_signals
      exact h.insert ((h _ _ hi).congr hq hb hr) (fun _ _ => rfl)

/-- In every reachable state the inbox, the sequence counter and the in-flight
references of an instance are the mailbox of its log. -/
theorem run_mirrors (manifest : Block) (wal : Option WalWriter) (calls : List Call)
    (id : InstanceId) (i : Instance)
    (hi : ((machine c).run (build manifest wal) calls).instances[id]? = some i) :
    i.Mirrors ((build manifest wal).signalLog c calls id) := by
  rw [(expansion c).run_eq,← (micro c).withOut_run signals] at hi
  have hinv := (signaling c).history_invariant
    (fun k marks => Mirrored (fun _ => []) marks k.instances) (by
      intro k marks a hk id i hid
      rw [List.foldl_append]
      exact micro_mirrored c k a (fun id => marks.foldl (SignalMark.write id) []) hk id i hid)
    (build manifest wal) [] ((expansion c).words (build manifest wal) calls)
    (build_everywhere (fun _ i => i.Mirrors []) manifest wal)
  exact hinv id i hi

end Kernel
end ArkheKernel
