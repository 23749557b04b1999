import ArkheKernel.Run
import ArkheKernel.WalChain
import ArkheKernel.Replay

/-!
# Replay fidelity

At every moment of a run the records written so far replay to the state of that
moment. A micro step either leaves the kernel alone or appends one record, and
then replaying that record does to the replaying kernel what the micro step did
to the live one.
-/

set_option autoImplicit false

namespace ArkheKernel
open OrderedMap PrefixCode

inductive Setup where
  | createInstance (config : InstanceConfig)
  | registerAction (typeCode : TypeCode) (reg : ActionRegistration)
  | registerObserver (obs : KernelObserver) (mask : EventMask)

inductive Input where
  | submit (s : Submission)
  | step (now : Tick) (caps : CapabilityMask)

def Setup.request : Setup → Request
  | .createInstance config => .createInstance config
  | .registerAction typeCode reg => .registerAction typeCode reg
  | .registerObserver obs mask => .registerObserver obs mask

def Input.call : Input → Call
  | .submit s => .request (.submit s)
  | .step now caps => .step now caps

def Kernel.setUp (c : Crypto) (k : Kernel) (setup : List Setup) : Kernel :=
  setup.foldl (fun k s => k.serve c s.request) k

/-- Equal in everything that replay reads and writes. -/
structure Agrees (r k : Kernel) : Prop where
  instances : r.instances = k.instances
  registry : r.actionRegistry = k.actionRegistry
  observers : r.observers = k.observers

section SetUp
variable (c : Crypto)

theorem setUp_agrees (setup : List Setup) {r k : Kernel} (h : Agrees r k)
    (hn : r.nextInstanceId = k.nextInstanceId) : Agrees (r.setUp c setup) (k.setUp c setup) := by
  induction setup generalizing r k with
  | nil => exact h
  | cons s setup ih =>
    cases s with
    | createInstance config =>
      refine ih ⟨?_,h.registry,h.observers⟩ ?_
      · change r.instances.insert _ _ = k.instances.insert _ _
        rw [h.instances,hn]
      · change satAdd64 r.nextInstanceId 1 = satAdd64 k.nextInstanceId 1
        rw [hn]
    | registerAction typeCode reg =>
      refine ih ⟨h.instances,?_,h.observers⟩ hn
      change r.actionRegistry.insert _ _ = k.actionRegistry.insert _ _
      rw [h.registry]
    | registerObserver obs mask =>
      refine ih ⟨h.instances,h.registry,?_⟩ hn
      change (r.observers.registerFiltered obs mask).2 = (k.observers.registerFiltered obs mask).2
      rw [h.observers]

theorem setUp_keeps (setup : List Setup) (k : Kernel) :
    (k.setUp c setup).wal = k.wal ∧ (k.setUp c setup).manifestDigest = k.manifestDigest := by
  induction setup generalizing k with
  | nil => exact ⟨rfl,rfl⟩
  | cons s setup ih =>
    obtain ⟨hw,hm⟩ := ih (k.serve c s.request)
    have hs : (k.serve c s.request).wal = k.wal ∧
        (k.serve c s.request).manifestDigest = k.manifestDigest := by
      cases s <;> exact ⟨rfl,rfl⟩
    exact ⟨hw.trans hs.1,hm.trans hs.2⟩

end SetUp

def Instance.Bounded (i : Instance) : Prop := i.idCounters.nextScheduled ≤ u64Max

theorem bounded_preserved : Kernel.Preserved (fun _ => True) (fun _ i => i.Bounded) where
  created _ _ := Nat.zero_le _
  admitted _ _ _ _ := satAdd64_le _ _
  executed x _ h := by
    unfold Execution.after
    split
    · obtain ⟨_,_,hf⟩ := applyStage_frame x.start x.gate.stage
      rw [hf]
      exact satAdd64_le _ _
    · exact h
  signals _ _ _ _ _ h := h

theorem setUp_bounded (c : Crypto) (setup : List Setup) (k : Kernel)
    (h : Kernel.Everywhere (fun _ i => i.Bounded) k.instances) :
    Kernel.Everywhere (fun _ i => i.Bounded) (k.setUp c setup).instances := by
  induction setup generalizing k with
  | nil => exact h
  | cons s setup ih =>
    exact ih _ (bounded_preserved.change (Kernel.request_change c k s.request)
      (fun _ _ => trivial) h)

theorem submitWithId_eq {i : Instance} (hb : i.Bounded) (s : Submission) :
    i.submitWithId s (i.submit s).1 = (i.submit s).2 := by
  have hid : (i.submit s).1.get = satAdd64 i.idCounters.nextScheduled 1 := rfl
  have hcount : (if i.idCounters.nextScheduled < (i.submit s).1.get then (i.submit s).1.get
      else i.idCounters.nextScheduled) = satAdd64 i.idCounters.nextScheduled 1 := by
    rw [hid]
    unfold Instance.Bounded at hb
    unfold satAdd64
    split <;> omega
  unfold Instance.submitWithId
  rw [hcount]
  rfl

section Step
variable {c : Crypto} {k r : Kernel} {w writer : WalWriter}

structure Mirrors (k r : Kernel) (w writer : WalWriter) : Prop where
  agrees : Agrees r k
  chainKey : writer.chainKey = w.chainKey
  prevHash : writer.prevHash = w.prevHash
  nextSeq : writer.nextSeq = w.nextSeq

theorem Mirrors.push (h : Mirrors k r w writer) {k' r' : Kernel} (ha : Agrees r' k')
    (content : ℕ → WalRecordContent) : Mirrors k' r'
      (WalWriter.pushSealed c { w with nextSeq := satAdd64 w.nextSeq 1 }
        (content (satAdd64 w.nextSeq 1)))
      (WalWriter.pushSealed c { writer with nextSeq := satAdd64 writer.nextSeq 1 }
        (content (satAdd64 writer.nextSeq 1))) := by
  rw [h.nextSeq]
  refine ⟨ha,h.chainKey,?_,rfl⟩
  change chainLink c writer.chainKey writer.prevHash _ = chainLink c w.chainKey w.prevHash _
  rw [h.chainKey,h.prevHash]

def Logged (c : Crypto) (k k' r : Kernel) (w writer : WalWriter) : Prop :=
  k' = k ∨ ∃ w' rec, k'.wal = some w' ∧ w'.header = w.header ∧ w'.records = w.records ++ [rec] ∧
    ∀ report, ∃ r' writer' report',
      replayRecord c r writer report rec = (r',.ok (writer',report')) ∧ Mirrors k' r' w' writer'

theorem submit_logged (h : Mirrors k r w writer) (hw : k.wal = some w)
    (hb : Kernel.Everywhere (fun _ i => i.Bounded) k.instances) (s : Submission) :
    Logged c k (k.submit c s).2 r w writer := by
  rcases Kernel.submit_cases c k s with ⟨e,he⟩ | ⟨i,hi,-,he⟩
  · rw [he]
    exact Or.inl rfl
  · have hr : r.submitWithId s (i.submit s).1 =
        .ok { r with instances := r.instances.insert s.inst (i.submit s).2 } := by
      unfold Kernel.submitWithId
      rw [h.agrees.instances,hi,← submitWithId_eq (hb s.inst i hi)]
    rw [he,hw]
    refine Or.inr ⟨_,_,rfl,rfl,rfl,fun report => ⟨_,_,_,replayRecord_submit writer report rfl hr,?_⟩⟩
    refine h.push ?_ (fun seq => .submit seq s.inst s.principal s.actor s.caps.bits s.atTick
      s.actionTypeCode s.actionBytes (i.submit s).1)
    refine ⟨?_,h.agrees.registry,h.agrees.observers⟩
    change r.instances.insert s.inst (i.submit s).2 = k.instances.insert s.inst (i.submit s).2
    rw [h.agrees.instances]

theorem pop_logged (h : Mirrors k r w writer) (hw : k.wal = some w) (inst : InstanceId)
    (now : Tick) (caps : CapabilityMask) : Logged c k (k.pop c inst now caps) r w writer := by
  cases hx : k.execution inst now caps with
  | none => exact Or.inl (Kernel.pop_none c hx)
  | some x =>
    obtain ⟨_,hs⟩ := Kernel.pop_some c hx
    have hxr : r.execution inst now caps = some x := by
      rw [← hx]
      unfold Kernel.execution
      rw [h.agrees.instances,h.agrees.registry]
    obtain ⟨_,hp⟩ := Kernel.process_some c true hxr
    rw [hs,hw]
    refine Or.inr ⟨_,_,rfl,rfl,rfl,fun report => ⟨_,_,_,replayRecord_step writer report rfl hp,?_⟩⟩
    refine h.push ?_ (fun seq => .step seq inst x.entry.id now caps.bits x.verdict
      (stateDigest c x.after))
    refine ⟨?_,h.agrees.registry,?_⟩
    · change x.settle r.instances = x.settle k.instances
      rw [h.agrees.instances]
    · change ((x.emits r.instances).foldl notify (r.observers,0)).1 =
        ((x.emits k.instances).foldl notify (k.observers,0)).1
      rw [h.agrees.instances,h.agrees.observers]

end Step
def Micro.IsInput : Micro → Prop
  | .request (.submit _) => True
  | .request _ => False
  | .pop _ _ _ => True

section Moments
variable {c : Crypto} {worldId manifest : Block} {sigClass : SignatureClass} {fresh : Kernel}

/-- The log of a kernel replays, into the kernel `fresh`, to its present state. -/
structure Recorded (c : Crypto) (worldId manifest : Block) (sigClass : SignatureClass)
    (fresh k : Kernel) (w : WalWriter) : Prop where
  wal : k.wal = some w
  sealing : Sealing c worldId manifest sigClass w
  bounded : Kernel.Everywhere (fun _ i => i.Bounded) k.instances
  replays : ∃ r writer report,
    replayFrom c fresh (.rebuildFromHeader c w.header) {} w.records = (r,.ok (writer,report)) ∧
      Mirrors k r w writer

theorem micro_sealing {k : Kernel} {w : WalWriter} (hw : k.wal = some w)
    (hs : Sealing c worldId manifest sigClass w) (a : Micro) :
    ∃ w', ((Kernel.micro c).next k a).wal = some w' ∧ Sealing c worldId manifest sigClass w' := by
  cases a with
  | request r =>
    cases r with
    | submit s =>
      change ∃ w', (k.submit c s).2.wal = some w' ∧ _
      rcases Kernel.submit_cases c k s with ⟨e,he⟩ | ⟨i,-,-,he⟩
      · rw [he]
        exact ⟨w,hw,hs⟩
      · rw [he,hw]
        exact ⟨_,rfl,.submit w _ _ _ _ _ _ _ _ hs⟩
    | forceUnload route caps =>
      change ∃ w', (k.forceUnload route caps).2.wal = some w' ∧ _
      unfold Kernel.forceUnload
      split
      · exact ⟨w,hw,hs⟩
      · exact ⟨w,hw,hs⟩
    | _ => exact ⟨w,hw,hs⟩
  | pop inst now caps =>
    change ∃ w', (k.pop c inst now caps).wal = some w' ∧ _
    cases hx : k.execution inst now caps with
    | none =>
      rw [Kernel.pop_none c hx]
      exact ⟨w,hw,hs⟩
    | some x =>
      obtain ⟨_,hp⟩ := Kernel.pop_some c hx
      rw [hp,hw]
      exact ⟨_,rfl,.step w _ _ _ _ _ _ hs⟩

theorem Recorded.logged {k r : Kernel} {w writer : WalWriter}
    (h : Recorded c worldId manifest sigClass fresh k w) (hm : Mirrors k r w writer) {a : Micro}
    (ha : a.IsInput) : Logged c k ((Kernel.micro c).next k a) r w writer := by
  cases a with
  | request req =>
    cases req with
    | submit s => exact submit_logged hm h.wal h.bounded s
    | _ => cases ha
  | pop inst now caps => exact pop_logged hm h.wal inst now caps

theorem Recorded.step {k : Kernel} {w : WalWriter}
    (h : Recorded c worldId manifest sigClass fresh k w) {a : Micro} (ha : a.IsInput) :
    (Kernel.micro c).next k a = k ∨ ∃ w' rec, w'.header = w.header ∧
      w'.records = w.records ++ [rec] ∧
        Recorded c worldId manifest sigClass fresh ((Kernel.micro c).next k a) w' := by
  obtain ⟨r,writer,report,hr,hm⟩ := h.replays
  rcases h.logged hm ha with he | ⟨w',rec,hw',hhead,hrecs,hrec⟩
  · exact Or.inl he
  right
  obtain ⟨ws,hws,hseal⟩ := micro_sealing h.wal h.sealing a
  obtain rfl : w' = ws := Option.some.inj (hw'.symm.trans hws)
  obtain ⟨r',writer',report',hrep,hm'⟩ := hrec report
  refine ⟨w',rec,hhead,hrecs,hw',hseal,?_,r',writer',report',?_,hm'⟩
  · exact bounded_preserved.change (Kernel.micro_change c k a) (fun _ _ => trivial) h.bounded
  · rw [hhead,hrecs]
    exact replayFrom_snoc hr hrep

theorem Recorded.start {k : Kernel} (hw : k.wal =
      some (.withSignature c worldId manifest sigClass))
    (hb : Kernel.Everywhere (fun _ i => i.Bounded) k.instances) (ha : Agrees fresh k) :
    Recorded c worldId manifest sigClass fresh k (.withSignature c worldId manifest sigClass) where
  wal := hw
  sealing := .start
  bounded := hb
  replays := ⟨fresh,_,{},rfl,ha,rfl,rfl,rfl⟩

theorem checkHeaderGates_sealed {w : WalWriter} (h : Sealing c worldId manifest sigClass w) :
    checkHeaderGates (Wal.fromWriter w) = .ok () := by
  have hd : (Wal.fromWriter w).header = (WalWriter.withSignature c worldId manifest sigClass).header :=
    (sealing_chained h).header
  unfold checkHeaderGates
  rw [hd]
  rfl

/-- Replay runs through to the end and reaches the recorded state. -/
theorem Recorded.replayInto {k : Kernel} {w : WalWriter}
    (h : Recorded c worldId manifest sigClass fresh k w) (hf : sigClass.Faithful c)
    (hm : fresh.manifestDigest = manifest) : ∃ r report,
      ArkheKernel.replayInto c fresh (Wal.fromWriter w) = (r,.ok report) ∧
        report.finalChainTip = (Wal.fromWriter w).chainTip ∧ Agrees r k := by
  obtain ⟨r,writer,report,hr,hmir⟩ := h.replays
  have hd : (Wal.fromWriter w).header = (WalWriter.withSignature c worldId manifest sigClass).header :=
    (sealing_chained h.sealing).header
  have htip : writer.chainTip = (Wal.fromWriter w).chainTip := by
    rw [sealing_chainTip h.sealing]
    exact hmir.prevHash
  have hver : (Wal.fromWriter w).verifyChain c (Wal.fromWriter w).header.worldId = .ok () := by
    rw [hd]
    exact sealing_verifies h.sealing hf
  have hman : ¬ (Wal.fromWriter w).header.manifestDigest ≠ fresh.manifestDigest := by
    rw [hd,hm]
    exact not_not.mpr rfl
  have hrep : replayFrom c fresh (.rebuildFromHeader c (Wal.fromWriter w).header) {}
      (Wal.fromWriter w).records = (r,.ok (writer,report)) := hr
  refine ⟨r,{ report with finalChainTip := writer.chainTip },?_,htip,hmir.agrees⟩
  unfold ArkheKernel.replayInto
  rw [checkHeaderGates_sealed h.sealing]
  dsimp only
  rw [if_neg hman,hver]
  dsimp only
  unfold replayRecords
  rw [hrep]
  dsimp only
  rw [if_neg (not_not.mpr htip)]

end Moments

def Kernel.logLength (k : Kernel) : ℕ := (k.wal.map WalWriter.recordCount).getD 0

def checkpointing (c : Crypto) : Transducer Kernel Micro Kernel where
  next := (Kernel.micro c).next
  out k a := if k.logLength < ((Kernel.micro c).next k a).logLength
    then [(Kernel.micro c).next k a] else []

def Kernel.checkpoints (c : Crypto) (k : Kernel) (inputs : List Input) : List Kernel :=
  (checkpointing c).trace k ((Kernel.expansion c).words k (inputs.map Input.call))

section Checkpoints
variable {c : Crypto} {worldId manifest : Block} {sigClass : SignatureClass} {fresh : Kernel}

theorem input_words (c : Crypto) (k : Kernel) (inputs : List Input) :
    ∀ a ∈ (Kernel.expansion c).words k (inputs.map Input.call), a.IsInput := by
  induction inputs generalizing k with
  | nil => exact fun a ha => absurd ha List.not_mem_nil
  | cons i inputs ih =>
    intro a ha
    rcases List.mem_append.mp ha with ha | ha
    · cases i with
      | submit s =>
        rw [List.mem_singleton.mp ha]
        trivial
      | step now caps =>
        obtain ⟨inst,-,rfl⟩ := List.mem_map.mp ha
        trivial
    · exact ih _ a ha

theorem checkpointing_run (k : Kernel) (as : List Micro) :
    (checkpointing c).run k as = (Kernel.micro c).run k as := by
  induction as generalizing k with
  | nil => rfl
  | cons a as ih => exact ih _

/-- The checkpoints passed so far, each with the records it had. -/
def Kept (c : Crypto) (worldId manifest : Block) (sigClass : SignatureClass) (fresh k : Kernel)
    (past : List Kernel) : Prop :=
  ∃ w, Recorded c worldId manifest sigClass fresh k w ∧ past.length = w.records.length ∧
    ∀ (j : ℕ) (live : Kernel), past[j]? = some live → ∃ wl,
      Recorded c worldId manifest sigClass fresh live wl ∧ wl.header = w.header ∧
        wl.records = w.records.take (j+1)

theorem kept_step {k : Kernel} {past : List Kernel} {a : Micro} (ha : a.IsInput)
    (h : Kept c worldId manifest sigClass fresh k past) :
    Kept c worldId manifest sigClass fresh ((checkpointing c).next k a)
      (past ++ (checkpointing c).out k a) := by
  obtain ⟨w,hrec,hlen,hall⟩ := h
  change Kept c worldId manifest sigClass fresh ((Kernel.micro c).next k a)
    (past ++ if k.logLength < ((Kernel.micro c).next k a).logLength
      then [(Kernel.micro c).next k a] else [])
  have hk : k.logLength = w.records.length := by rw [Kernel.logLength,hrec.wal]; rfl
  rcases hrec.step ha with he | ⟨w',rec,hhead,hrecs,hrec'⟩
  · rw [he,if_neg (lt_irrefl _),List.append_nil]
    exact ⟨w,hrec,hlen,hall⟩
  · have hk' : ((Kernel.micro c).next k a).logLength = w.records.length+1 := by
      rw [Kernel.logLength,hrec'.wal]
      change w'.records.length = _
      rw [hrecs,List.length_append,List.length_singleton]
    rw [if_pos (by omega)]
    refine ⟨w',hrec',by simp [hrecs,hlen],?_⟩
    intro j live hj
    rcases Nat.lt_or_ge j past.length with hlt | hge
    · rw [List.getElem?_append_left hlt] at hj
      obtain ⟨wl,hl,hh,ht⟩ := hall j live hj
      refine ⟨wl,hl,hh.trans hhead.symm,?_⟩
      rw [ht,hrecs,List.take_append_of_le_length (by omega)]
    · rw [List.getElem?_append_right hge] at hj
      have hz : j-past.length = 0 := by
        have hb := (List.getElem?_eq_some_iff.mp hj).1
        rw [List.length_singleton] at hb
        omega
      rw [hz] at hj
      obtain rfl := Option.some.inj hj
      refine ⟨w',hrec',rfl,?_⟩
      rw [List.take_of_length_le (by rw [hrecs,List.length_append,List.length_singleton]; omega)]

end Checkpoints

/-- Replay fidelity. Whatever is submitted and stepped after the setup, the
first `j` records of the exported log replay into a kernel set up alike: the
replay succeeds with the tip of these records, and instances and observers are
those of the live kernel right after it appended the last of them. -/
theorem replay_fidelity (c : Crypto) (worldId manifest : Block) (sigClass : SignatureClass)
    (hf : sigClass.Faithful c) (setup : List Setup) (inputs : List Input)
    (other : Option WalWriter) :
    let start := (Kernel.newWithWalSigned c worldId manifest sigClass).setUp c setup
    let fresh := (Kernel.build manifest other).setUp c setup
    ∃ log, ((Kernel.machine c).run start (inputs.map Input.call)).exportWal = some log ∧
      (start.checkpoints c inputs).length = log.records.length ∧
      ∀ (j : ℕ) (live : Kernel), (start::start.checkpoints c inputs)[j]? = some live →
        ∃ r report, replayInto c fresh ⟨log.header,log.records.take j⟩ = (r,.ok report) ∧
          report.finalChainTip = Wal.chainTip ⟨log.header,log.records.take j⟩ ∧
          r.instances = live.instances ∧ r.observers = live.observers := by
  intro start fresh
  have hagree : Agrees fresh start := setUp_agrees c setup ⟨rfl,rfl,rfl⟩ rfl
  have hkeep := setUp_keeps c setup (Kernel.newWithWalSigned c worldId manifest sigClass)
  have hman : fresh.manifestDigest = manifest :=
    (setUp_keeps c setup (Kernel.build manifest other)).2
  have hbounded : Kernel.Everywhere (fun _ i => i.Bounded) start.instances :=
    setUp_bounded c setup _ (Kernel.build_everywhere _ _ _)
  have hstart : Recorded c worldId manifest sigClass fresh start
      (.withSignature c worldId manifest sigClass) := .start hkeep.1 hbounded hagree
  have hkept := (checkpointing c).history_invariant_on
    (Kept c worldId manifest sigClass fresh) Micro.IsInput (fun k past a ha h => kept_step ha h)
    start [] _ (input_words c start inputs) ⟨_,hstart,rfl,fun j live hj => by simp at hj⟩
  rw [checkpointing_run,← (Kernel.expansion c).run_eq,List.nil_append] at hkept
  obtain ⟨w,hrec,hlen,hall⟩ := hkept
  refine ⟨Wal.fromWriter w,by rw [Kernel.exportWal,hrec.wal]; rfl,hlen,?_⟩
  intro j live hj
  have hlive : ∃ wl, Recorded c worldId manifest sigClass fresh live wl ∧ wl.header = w.header ∧
      wl.records = w.records.take j := by
    cases j with
    | zero =>
      obtain rfl := Option.some.inj hj
      exact ⟨_,hstart,(sealing_chained hrec.sealing).header.symm,rfl⟩
    | succ j => exact hall j live hj
  obtain ⟨wl,hl,hh,ht⟩ := hlive
  obtain ⟨r,report,hr,htip,ha⟩ := hl.replayInto hf hman
  have hw : Wal.fromWriter wl = ⟨w.header,w.records.take j⟩ := by rw [Wal.fromWriter,hh,ht]
  rw [hw] at hr htip
  exact ⟨r,report,hr,htip,ha.instances,ha.observers⟩

def signedSetup : List Setup := [
  .registerAction (.clamp 7) (.constant [.scheduleAction ⟨2⟩ none (.clamp 7) []]),
  .createInstance { defaultCaps := .SYSTEM }]

def signedInputs : List Input := [
  .submit ⟨⟨.succ 0⟩,.system,none,.SYSTEM,⟨1⟩,.clamp 7,[]⟩,
  .submit ⟨⟨.succ 1⟩,.system,none,.SYSTEM,⟨1⟩,.clamp 7,[]⟩,
  .step ⟨1⟩ .SYSTEM,
  .step ⟨2⟩ .empty]

theorem replay_fidelity_signed : ∃ (log : Wal) (r : Kernel) (report : ReplayReport),
    log.records.length = 3 ∧
    replayInto standIn ((Kernel.build zeroBlock none).setUp standIn signedSetup)
      ⟨log.header,log.records.take 2⟩ = (r,.ok report) := by
  obtain ⟨log,-,hlen,hall⟩ := replay_fidelity standIn zeroBlock zeroBlock
    (.newEd25519FromSecret standIn (blockOfNat 3)) (standIn_ed25519_faithful _) signedSetup
    signedInputs none
  have hcount : (((Kernel.newWithWalSigned standIn zeroBlock zeroBlock
      (.newEd25519FromSecret standIn (blockOfNat 3))).setUp standIn signedSetup).checkpoints standIn
        signedInputs).length = 3 := by decide +kernel
  obtain ⟨r,report,hr,-⟩ := hall 2 _ (List.getElem?_eq_getElem (by
    rw [List.length_cons,hcount]
    omega))
  exact ⟨log,r,report,by rw [← hlen,hcount],hr⟩

end ArkheKernel
