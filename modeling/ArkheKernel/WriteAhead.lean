import ArkheKernel.Emission

/-!
# The log and the observers

A pop is taken apart into its effects: the commit, the deliveries, the routing
of its signals and, last, the record. Every hand-over to an observer is a
moment between two of them, and at none of these moments the record is there.
-/

set_option autoImplicit false

namespace ArkheKernel
open OrderedMap PrefixCode

def Seat.takes (s : Seat) (event : KernelEvent) : Bool :=
  !s.evicted && s.slot.any (fun slot => slot.mask.accepts event)

theorem Seat.hand_takes (s : Seat) (event : KernelEvent) :
    (s.hand event).got = s.got ++ if s.takes event then [event] else [] := by
  unfold hand takes
  cases he : s.evicted with
  | true => simp
  | false =>
    cases hs : s.slot with
    | none => simp
    | some slot =>
      cases ha : slot.mask.accepts event <;> cases ho : slot.observer s.got event <;> simp [ha,ho]

theorem Seat.hand_idle {s : Seat} {event : KernelEvent} (h : s.takes event = false) :
    s.hand event = s := by
  unfold takes at h
  unfold hand
  cases he : s.evicted with
  | true => rfl
  | false =>
    cases hs : s.slot with
    | none => rfl
    | some slot =>
      have ha : slot.mask.accepts event = false := by simpa [he,hs] using h
      simp [ha]

namespace ObserverRegistry
variable (r : ObserverRegistry)

def Hands (event : KernelEvent) (h : ObserverHandle) : Prop :=
  (r.deliver event).2.received h = r.received h ++ [event]

theorem hands_iff (event : KernelEvent) (h : ObserverHandle) :
    r.Hands event h ↔ (r.seat h).takes event = true := by
  have hg : (r.deliver event).2.received h =
      r.received h ++ if (r.seat h).takes event then [event] else [] :=
    (congrArg Seat.got (r.deliver_seat event h)).trans ((r.seat h).hand_takes event)
  unfold Hands
  rw [hg]
  cases (r.seat h).takes event <;> simp

def turns : ObserverRegistry → List KernelEvent → List (ObserverRegistry × KernelEvent)
  | _, [] => []
  | r, e::es => (r,e) :: turns (r.deliver e).2 es

theorem turns_idle (es : List KernelEvent) :
    (∀ t ∈ turns r es, ∀ h, ¬t.1.Hands t.2 h) ↔
      ∀ e ∈ es, ∀ h, (r.seat h).takes e = false := by
  induction es generalizing r with
  | nil => simp [turns]
  | cons e es ih =>
    rw [turns,List.forall_mem_cons,List.forall_mem_cons,ih]
    have he : (∀ h, ¬r.Hands e h) ↔ ∀ h, (r.seat h).takes e = false := by
      apply forall_congr'
      intro h
      rw [r.hands_iff,Bool.not_eq_true]
    dsimp only
    rw [he]
    apply and_congr_right
    intro hn
    have hseat : ∀ h, (r.deliver e).2.seat h = r.seat h := by
      intro h
      rw [r.deliver_seat,Seat.hand_idle (hn h)]
    simp only [hseat]

end ObserverRegistry

inductive PopEffect where
  | commit (inst : InstanceId) (i : Instance) (scratch : StepStage)
  | deliver (event : KernelEvent)
  | route (source : InstanceId) (sig : PendingSignal)
  | append (inst : InstanceId) (poppedId : ScheduledActionId) (now : Tick) (caps : BitVec 64)
      (verdict : StepVerdict) (digest : Block)

def PopEffect.appends : PopEffect → Bool
  | .append .. => true
  | _ => false

def WalWriter.HoldsStep (w : WalWriter) (since : ℕ) (inst : InstanceId)
    (poppedId : ScheduledActionId) : Prop :=
  ∃ rec ∈ w.records.drop since, ∃ seq now caps verdict digest,
    rec.content = .step seq inst poppedId now caps verdict digest

theorem WalWriter.holdsStep_append (c : Crypto) (w : WalWriter) (inst : InstanceId)
    (poppedId : ScheduledActionId) (now : Tick) (caps : BitVec 64) (verdict : StepVerdict)
    (digest : Block) : (w.appendStep c inst poppedId now caps verdict digest).HoldsStep
      w.records.length inst poppedId := by
  have hr : (w.appendStep c inst poppedId now caps verdict digest).records.drop w.records.length =
      [_] := List.drop_left
  unfold HoldsStep
  rw [hr]
  exact ⟨_,List.mem_singleton_self _,_,_,_,_,_,rfl⟩

theorem WalWriter.holdsStep_none (w : WalWriter) (inst : InstanceId)
    (poppedId : ScheduledActionId) : ¬w.HoldsStep w.records.length inst poppedId := by
  intro ⟨rec,hr,_⟩
  rw [List.drop_length] at hr
  cases hr

namespace Kernel
variable (c : Crypto)

def perform (k : Kernel) : PopEffect → Kernel
  | .commit inst i scratch =>
    { k with instances := k.instances.insert inst i, stepScratch := scratch }
  | .deliver event => { k with observers := (k.observers.deliver event).2 }
  | .route source sig => { k with
      instances := (routeOne source k.instances sig).1
      observers := (k.observers.deliver (routeOne source k.instances sig).2).2 }
  | .append inst poppedId now caps verdict digest => { k with
      wal := k.wal.map (fun w => w.appendStep c inst poppedId now caps verdict digest) }

def offers (k : Kernel) : PopEffect → List (Kernel × KernelEvent)
  | .deliver event => [(k,event)]
  | .route source sig => [({ k with instances := (routeOne source k.instances sig).1 },
      (routeOne source k.instances sig).2)]
  | .commit .. => []
  | .append .. => []

def popping : Transducer Kernel PopEffect (Kernel × KernelEvent) where
  next := perform c
  out := offers

/-- The effects of one iteration of the step loop, in the order of the source. -/
def effects (k : Kernel) (instId : InstanceId) (now : Tick) (caps : CapabilityMask) :
    List PopEffect :=
  match k.instances[instId]? with
  | none => []
  | some inst =>
    match stepOneCore c instId inst k.actionRegistry k.stepScratch now caps k.wal.isSome with
    | none => []
    | some (core,inst,scratch) =>
      .commit instId inst scratch ::
        ((core.events ++ executedEvents instId core.actionType now core.verdict).map .deliver ++
          core.pendingSignals.map (.route instId) ++
          [.append instId core.poppedId now caps.bits core.verdict core.digest])

def moments (k : Kernel) (instId : InstanceId) (now : Tick) (caps : CapabilityMask) :
    List (Kernel × KernelEvent) :=
  (popping c).trace k (k.effects c instId now caps)

theorem delivers_run (es : List KernelEvent) (k : Kernel) (n : ℕ) :
    (popping c).run k (es.map .deliver) =
      { k with observers := (es.foldl notify (k.observers,n)).1 } := by
  induction es generalizing k n with
  | nil => rfl
  | cons e es ih => exact ih { k with observers := (k.observers.deliver e).2 } _

theorem routes_run (source : InstanceId) (sigs : List PendingSignal) (k : Kernel) (n : ℕ) :
    (popping c).run k (sigs.map (.route source)) = { k with
      instances := (sigs.foldl (routeSignal source) (k.instances,(k.observers,n))).1
      observers := (sigs.foldl (routeSignal source) (k.instances,(k.observers,n))).2.1 } := by
  induction sigs generalizing k n with
  | nil => rfl
  | cons sig sigs ih => exact ih ((popping c).next k (.route source sig)) _

/-- A pop is the run of its effects. -/
theorem pop_effects (k : Kernel) (instId : InstanceId) (now : Tick) (caps : CapabilityMask) :
    k.pop c instId now caps = (popping c).run k (k.effects c instId now caps) := by
  unfold pop stepInstance processInstanceRecord effects
  cases k.instances[instId]? with
  | none => rfl
  | some inst =>
    dsimp only
    cases stepOneCore c instId inst k.actionRegistry k.stepScratch now caps k.wal.isSome with
    | none => rfl
    | some p =>
      dsimp only
      rw [Transducer.run,Transducer.run_append,Transducer.run_append,delivers_run c _ _ 0,
        routes_run c _ _ _ ((p.1.events ++ executedEvents instId p.1.actionType now
          p.1.verdict).foldl notify (k.observers,0)).2]
      rfl

theorem offers_turns (effs : List PopEffect) (k : Kernel) :
    ((popping c).trace k effs).map (fun m => (m.1.observers,m.2)) =
      k.observers.turns (((popping c).trace k effs).map Prod.snd) := by
  induction effs generalizing k with
  | nil => rfl
  | cons eff effs ih =>
    have hi := ih ((popping c).next k eff)
    cases eff with
    | commit inst i scratch => exact hi
    | deliver event => exact congrArg (List.cons (k.observers,event)) hi
    | route source sig =>
      exact congrArg (List.cons (k.observers,(routeOne source k.instances sig).2)) hi
    | append inst poppedId now caps verdict digest => exact hi

theorem delivers_offer (es : List KernelEvent) (k : Kernel) :
    ((popping c).trace k (es.map .deliver)).map Prod.snd = es := by
  induction es generalizing k with
  | nil => rfl
  | cons e es ih => exact congrArg (List.cons e) (ih _)

theorem routes_offer (source : InstanceId) (sigs : List PendingSignal) (k : Kernel) :
    ((popping c).trace k (sigs.map (.route source))).map Prod.snd =
      routeEvents source k.instances sigs := by
  induction sigs generalizing k with
  | nil => rfl
  | cons sig sigs ih => exact congrArg (List.cons (routeOne source k.instances sig).2) (ih _)

theorem offers_wal (effs : List PopEffect) (he : ∀ eff ∈ effs, eff.appends = false) (k : Kernel) :
    ∀ m ∈ (popping c).trace k effs, m.1.wal = k.wal := by
  induction effs generalizing k with
  | nil =>
    intro m hm
    cases hm
  | cons eff effs ih =>
    have hi := ih (fun e h => he e (List.mem_cons_of_mem _ h)) ((popping c).next k eff)
    intro m hm
    rcases List.mem_append.mp hm with hm | hm
    · cases eff with
      | commit inst i scratch => cases hm
      | deliver event => rw [List.mem_singleton.mp hm]
      | route source sig => rw [List.mem_singleton.mp hm]
      | append inst poppedId now caps verdict digest => cases hm
    · cases eff with
      | append inst poppedId now caps verdict digest => cases he _ List.mem_cons_self
      | _ => exact hi m hm

section Moments
variable {k : Kernel} {instId : InstanceId} {now : Tick} {caps : CapabilityMask} {x : Execution}
  (hx : k.execution instId now caps = some x)
include hx

theorem effects_some : ∃ scratch, k.effects c instId now caps =
    .commit instId x.after scratch ::
      ((x.stage.events ++ executedEvents instId x.entry.actionTypeCode now x.verdict).map .deliver ++
        x.stage.pendingSignals.map (.route instId) ++
        [.append instId x.entry.id now caps.bits x.verdict
          (digestOf c k.wal.isSome x.after)]) := by
  obtain ⟨hi,rfl,hr,rfl,rfl⟩ := execution_some hx
  obtain ⟨scratch,hs⟩ := stepOneCore_some c x k.stepScratch k.wal.isSome
  refine ⟨scratch,?_⟩
  unfold effects
  rw [hi]
  dsimp only
  rw [← hr,hs]
  rfl

theorem moments_events : (k.moments c instId now caps).map Prod.snd = x.emits k.instances := by
  obtain ⟨scratch,he⟩ := effects_some c hx
  obtain ⟨-,rfl,-,rfl,-⟩ := execution_some hx
  unfold moments Execution.emits
  rw [he,Transducer.trace,Transducer.trace_append,Transducer.trace_append,List.map_append,
    List.map_append,List.map_append,delivers_offer,routes_offer,delivers_run c _ _ 0]
  exact (List.append_nil _).trans rfl

theorem moments_wal : ∀ m ∈ k.moments c instId now caps, m.1.wal = k.wal := by
  obtain ⟨scratch,he⟩ := effects_some c hx
  intro m hm
  unfold moments at hm
  rw [he,← List.cons_append,Transducer.trace_append] at hm
  rcases List.mem_append.mp hm with hm | hm
  · refine offers_wal c _ ?_ k m hm
    intro eff heff
    rcases List.mem_cons.mp heff with rfl | heff
    · rfl
    · rcases List.mem_append.mp heff with heff | heff
      · obtain ⟨_,-,rfl⟩ := List.mem_map.mp heff
        rfl
      · obtain ⟨_,-,rfl⟩ := List.mem_map.mp heff
        rfl
  · cases hm

theorem pop_holdsStep {w : WalWriter} (hw : k.wal = some w) :
    ∃ w', (k.pop c instId now caps).wal = some w' ∧
      w'.HoldsStep w.records.length instId x.entry.id := by
  obtain ⟨_,hs⟩ := pop_some c hx
  rw [hs,hw]
  exact ⟨_,rfl,w.holdsStep_append c _ _ _ _ _ _⟩

end Moments

/-- Whatever a pop hands to an observer, its record is already in the log. -/
def WrittenAhead (k : Kernel) : Micro → Prop
  | .request _ => True
  | .pop inst now caps => ∀ x w, k.execution inst now caps = some x → k.wal = some w →
    ∀ m ∈ k.moments c inst now caps, ∀ h, m.1.observers.Hands m.2 h →
      ∃ w', m.1.wal = some w' ∧ w'.HoldsStep w.records.length inst x.entry.id

def Unobserved (k : Kernel) : Micro → Prop
  | .request _ => True
  | .pop inst now caps => ∀ x, k.execution inst now caps = some x → ∀ e ∈ x.emits k.instances,
    ∀ (h : ObserverHandle) (slot : ObserverSlot), k.observers.slots[h]? = some slot →
      k.observers.evicted.contains h = false → slot.mask.accepts e = false

theorem takes_false (r : ObserverRegistry) (e : KernelEvent) (h : ObserverHandle) :
    (r.seat h).takes e = false ↔ ∀ slot : ObserverSlot, r.slots[h]? = some slot →
      r.evicted.contains h = false → slot.mask.accepts e = false := by
  unfold Seat.takes ObserverRegistry.seat
  dsimp only
  cases r.evicted.contains h <;> cases r.slots[h]? <;> simp

/-- A pop keeps the order exactly if it hands nothing to anybody. -/
theorem writtenAhead_iff (k : Kernel) (a : Micro) (hw : k.wal.isSome = true) :
    k.WrittenAhead c a ↔ k.Unobserved a := by
  cases a with
  | request r => exact Iff.rfl
  | pop inst now caps =>
    obtain ⟨w,hw⟩ := Option.isSome_iff_exists.mp hw
    unfold WrittenAhead Unobserved
    apply forall_congr'
    intro x
    constructor
    · intro h hx e he p slot hs hn
      have hidle : ∀ t ∈ k.observers.turns (x.emits k.instances), ∀ p, ¬t.1.Hands t.2 p := by
        intro t ht p hp
        rw [← moments_events c hx,moments,← offers_turns] at ht
        obtain ⟨m,hm,rfl⟩ := List.mem_map.mp ht
        obtain ⟨w',hw',hs'⟩ := h w hx hw m hm p hp
        rw [moments_wal c hx m hm,hw] at hw'
        obtain rfl := Option.some.inj hw'
        exact w.holdsStep_none inst x.entry.id hs'
      exact (takes_false _ e p).mp ((k.observers.turns_idle _).mp hidle e he p) slot hs hn
    · intro h w' hx _ m hm p hp
      have hidle := (k.observers.turns_idle (x.emits k.instances)).mpr
        (fun e he p => (takes_false _ e p).mpr (h hx e he p))
      have ht : (m.1.observers,m.2) ∈ k.observers.turns (x.emits k.instances) := by
        rw [← moments_events c hx,moments,← offers_turns]
        exact List.mem_map.mpr ⟨m,hm,rfl⟩
      exact absurd hp (hidle _ ht p)

theorem micro_wal_isSome (k : Kernel) (a : Micro) :
    ((micro c).next k a).wal.isSome = k.wal.isSome := by
  cases a with
  | pop inst now caps => exact pop_wal_isSome c inst now caps
  | request r =>
    cases r with
    | submit s =>
      change (k.submit c s).2.wal.isSome = k.wal.isSome
      rcases submit_cases c k s with ⟨e,he⟩ | ⟨i,-,-,he⟩
      · rw [he]
      · rw [he,Option.isSome_map]
    | forceUnload route caps =>
      change (k.forceUnload route caps).2.wal.isSome = k.wal.isSome
      unfold forceUnload
      split <;> rfl
    | _ => rfl

theorem micro_run_wal_isSome (k : Kernel) (as : List Micro) :
    ((micro c).run k as).wal.isSome = k.wal.isSome := by
  induction as generalizing k with
  | nil => rfl
  | cons a as ih => exact (ih _).trans (micro_wal_isSome c k a)

theorem at_wal_isSome {k₀ k : Kernel} {calls : List Call} {a : Micro} (h : At c k₀ calls k a)
    (hw : k₀.wal.isSome = true) : k.wal.isSome = true := by
  obtain ⟨as,_,-,hrun⟩ := h
  rw [← hrun,micro_run_wal_isSome,hw]

end Kernel

/-- In a run of a kernel with a log, the record of a pop is there at all its
hand-overs exactly if no observer seated before any pop accepts an event of that
pop. At a hand-over the log is always still the one from before the pop, and the
record follows when everything has been handed out. -/
theorem log_trails_observers (c : Crypto) (manifest : Block) (wal : WalWriter) (calls : List Call) :
    ((∀ k a, Kernel.At c (.build manifest (some wal)) calls k a → k.WrittenAhead c a) ↔
      ∀ k a, Kernel.At c (.build manifest (some wal)) calls k a → k.Unobserved a) ∧
    ∀ k inst now caps x w, Kernel.At c (.build manifest (some wal)) calls k (.pop inst now caps) →
      k.execution inst now caps = some x → k.wal = some w →
      (∀ m ∈ k.moments c inst now caps, m.1.wal = some w ∧
        ¬w.HoldsStep w.records.length inst x.entry.id) ∧
      ∃ w', (k.pop c inst now caps).wal = some w' ∧
        w'.HoldsStep w.records.length inst x.entry.id := by
  constructor
  · apply forall_congr'
    intro k
    apply forall_congr'
    intro a
    apply imp_congr_right
    intro hat
    exact Kernel.writtenAhead_iff c k a (Kernel.at_wal_isSome c hat rfl)
  · intro k inst now caps x w _ hx hw
    refine ⟨?_,Kernel.pop_holdsStep c hx hw⟩
    intro m hm
    exact ⟨(Kernel.moments_wal c hx m hm).trans hw,w.holdsStep_none _ _⟩

def watchedPopCalls : List Call := [
  .request (.registerObserver (fun _ _ => false) .ALL),
  .request (.registerAction (.clamp 7) (.constant [])),
  .request (.createInstance { defaultCaps := .SYSTEM }),
  .request (.submit ⟨⟨.succ 0⟩,.system,none,.SYSTEM,⟨1⟩,.clamp 7,[]⟩)]

/-- The observer has the execution in hand while the log holds the submission
and nothing else. -/
theorem observer_precedes_record : ∃ k,
    Kernel.At standIn (.newWithWal standIn zeroBlock zeroBlock)
      (watchedPopCalls ++ [.step ⟨1⟩ .SYSTEM]) k (.pop ⟨.succ 0⟩ ⟨1⟩ .SYSTEM) ∧
    (∃ m ∈ k.moments standIn ⟨.succ 0⟩ ⟨1⟩ .SYSTEM,
      m.2 = .actionExecuted ⟨.succ 0⟩ (.clamp 7) ⟨1⟩ ∧ m.1.observers.Hands m.2 ⟨0⟩ ∧
      m.1.wal.map (fun w => w.records.map (fun rec => rec.content.seq)) = some [1]) ∧
    ¬k.WrittenAhead standIn (.pop ⟨.succ 0⟩ ⟨1⟩ .SYSTEM) := by
  let k₀ : Kernel := .newWithWal standIn zeroBlock zeroBlock
  let k := (Kernel.machine standIn).run k₀ watchedPopCalls
  have hkeys : k.instances.keys = [⟨.succ 0⟩] := by decide +kernel
  have hmoments : (k.moments standIn ⟨.succ 0⟩ ⟨1⟩ .SYSTEM).map (fun m => (m.2,
      decide ((m.1.observers.deliver m.2).2.received ⟨0⟩ = m.1.observers.received ⟨0⟩ ++ [m.2]),
      m.1.wal.map (fun w => w.records.map (fun rec => rec.content.seq)))) =
        [(.actionExecuted ⟨.succ 0⟩ (.clamp 7) ⟨1⟩,true,some [1])] := by decide +kernel
  have hx : (k.execution ⟨.succ 0⟩ ⟨1⟩ .SYSTEM).isSome = true := by decide +kernel
  obtain ⟨m,hm,he⟩ := List.map_eq_singleton_iff.mp hmoments
  obtain ⟨x,hx⟩ := Option.isSome_iff_exists.mp hx
  simp only [Prod.mk.injEq,decide_eq_true_eq] at he
  obtain ⟨hevent,hhands,hlog⟩ := he
  have hmem : m ∈ k.moments standIn ⟨.succ 0⟩ ⟨1⟩ .SYSTEM := by
    rw [hm]
    exact List.mem_singleton_self m
  refine ⟨k,?_,⟨m,hmem,hevent,hhands,hlog⟩,?_⟩
  · exact Kernel.at_first_pop standIn hkeys ⟨1⟩ .SYSTEM
  · intro h
    have hw := Kernel.moments_wal standIn hx m hmem
    obtain ⟨w,hmw,-⟩ := Option.map_eq_some_iff.mp hlog
    obtain ⟨w',hw',hs⟩ := h x w hx (hw.symm.trans hmw) m hmem ⟨0⟩ hhands
    obtain rfl := Option.some.inj (hmw.symm.trans hw')
    exact w.holdsStep_none _ _ hs

end ArkheKernel
