import ArkheKernel.ReplayOutcome
import ArkheKernel.Sinks

/-!
# Crashes are invisible

A kernel lives until it crashes, between any two of its pops, and leaves its
log behind. The next one is set up as the first was, replays the logs left so
far in their order, and goes on with a log of its own. Nobody who calls it can
tell that anything happened.
-/

set_option autoImplicit false

namespace ArkheKernel
open OrderedMap PrefixCode

/-- What a kernel was asked to do, and how many of its micro steps it did. -/
structure Epoch where
  inputs : List Input
  moments : ℕ

/-- The kernel at the moment of the crash. -/
def Epoch.lived (c : Crypto) (e : Epoch) (k : Kernel) : Kernel :=
  (Kernel.micro c).run k
    (((Kernel.expansion c).words k (e.inputs.map Input.call)).take e.moments)

def replayLogs (c : Crypto) : Kernel → List Wal → Kernel × Except ReplayError Unit
  | k, [] => (k,.ok ())
  | k, w::ws =>
    match replayInto c k w with
    | (k,.error e) => (k,.error e)
    | (k,.ok _) => replayLogs c k ws

/-- The logs left behind by kernels that each recover from the logs before. -/
def crashed (c : Crypto) (boot : Kernel) (epochs : List Epoch) : List Wal :=
  epochs.foldl (fun logs e => logs ++ (e.lived c (replayLogs c boot logs).1).exportWal.toList) []

def uninterrupted (c : Crypto) (boot : Kernel) (epochs : List Epoch) : Kernel :=
  epochs.foldl (fun k e => e.lived c k) boot

/-- Equal in everything but the log, the manifest and the scratch. -/
structure SameState (k k' : Kernel) : Prop where
  instances : k.instances = k'.instances
  registry : k.actionRegistry = k'.actionRegistry
  observers : k.observers = k'.observers
  counter : k.nextInstanceId = k'.nextInstanceId

section SameState
variable {c : Crypto} {k k' k'' : Kernel}

theorem SameState.trans (h : SameState k k') (h' : SameState k' k'') : SameState k k'' :=
  ⟨h.instances.trans h'.instances,h.registry.trans h'.registry,h.observers.trans h'.observers,
    h.counter.trans h'.counter⟩

theorem SameState.unlogged (h : SameState k k') :
    Indistinct { k with wal := none } k ∧ Indistinct { k with wal := none } k' :=
  ⟨⟨rfl,rfl,rfl,fun w hw => by cases hw⟩,⟨h.instances,h.registry,h.counter,fun w hw => by cases hw⟩⟩

theorem SameState.micro_next (h : SameState k k') (a : Micro) :
    SameState ((Kernel.micro c).next k a) ((Kernel.micro c).next k' a) := by
  obtain ⟨hk,hk'⟩ := h.unlogged
  have hn := (hk.micro_next c a).1
  have hn' := (hk'.micro_next c a).1
  refine ⟨hn.instances.symm.trans hn'.instances,hn.registry.symm.trans hn'.registry,?_,
    hn.counter.symm.trans hn'.counter⟩
  have hemits : k.emits a = k'.emits a := (hk.emits a).symm.trans (hk'.emits a)
  have hobserves : k.observes a = k'.observes a := by
    cases a with
    | request r =>
      cases r with
      | registerObserver obs mask => rfl
      | _ => exact congrArg (List.map RegistryCall.deliver) hemits
    | pop inst now caps => exact congrArg (List.map RegistryCall.deliver) hemits
  rw [Kernel.micro_observers,Kernel.micro_observers,h.observers,hobserves]

theorem SameState.micro_run (h : SameState k k') (as : List Micro) :
    SameState ((Kernel.micro c).run k as) ((Kernel.micro c).run k' as) :=
  (Kernel.micro c).run_related (Kernel.micro c) SameState (fun _ _ a hs => hs.micro_next a) k k' as h

theorem SameState.word (h : SameState k k') (call : Call) :
    (Kernel.expansion c).word k call = (Kernel.expansion c).word k' call := by
  cases call with
  | request r => rfl
  | step now caps =>
    change k.pops now caps = k'.pops now caps
    rw [Kernel.pops,Kernel.pops,h.instances]

theorem SameState.words (h : SameState k k') (calls : List Call) :
    (Kernel.expansion c).words k calls = (Kernel.expansion c).words k' calls := by
  induction calls generalizing k k' with
  | nil => rfl
  | cons call calls ih =>
    have hnext : SameState ((Kernel.machine c).next k call) ((Kernel.machine c).next k' call) := by
      rw [(Kernel.expansion c).next_eq,(Kernel.expansion c).next_eq,h.word]
      exact h.micro_run _
    rw [Transducer.Expansion.words,Transducer.Expansion.words,h.word,ih hnext]

theorem SameState.lived (h : SameState k k') (e : Epoch) :
    SameState (e.lived c k) (e.lived c k') := by
  unfold Epoch.lived
  rw [h.words]
  exact h.micro_run _

end SameState

section Crash
variable {c : Crypto} {worldId manifest : Block} {sigClass : SignatureClass} {fresh : Kernel}

theorem Recorded.run {k : Kernel} {w : WalWriter}
    (h : Recorded c worldId manifest sigClass fresh k w) (as : List Micro)
    (ha : ∀ a ∈ as, a.IsInput) :
    ∃ w', Recorded c worldId manifest sigClass fresh ((Kernel.micro c).run k as) w' := by
  induction as generalizing k w with
  | nil => exact ⟨w,h⟩
  | cons a as ih =>
    have hrest := fun b hb => ha b (List.mem_cons_of_mem _ hb)
    rcases h.step (ha a List.mem_cons_self) with he | ⟨w',_,-,-,hw⟩
    · rw [Transducer.run,he]
      exact ih h hrest
    · exact ih hw hrest

theorem inputs_counter (as : List Micro) (ha : ∀ a ∈ as, a.IsInput) (k : Kernel) :
    ((Kernel.micro c).run k as).nextInstanceId = k.nextInstanceId := by
  induction as generalizing k with
  | nil => rfl
  | cons a as ih =>
    rw [Transducer.run,ih (fun b hb => ha b (List.mem_cons_of_mem _ hb))]
    refine (micro_creates_nothing c k a (fun config he => ?_)).2
    have hi := ha a List.mem_cons_self
    rw [he] at hi
    cases hi

theorem lived_inputs (c : Crypto) (e : Epoch) (k : Kernel) :
    ∀ a ∈ ((Kernel.expansion c).words k (e.inputs.map Input.call)).take e.moments, a.IsInput :=
  fun a ha => input_words c k e.inputs a (List.mem_of_mem_take ha)

/-- A kernel that may serve as the one to recover into. -/
structure Bootable (c : Crypto) (worldId manifest : Block) (sigClass : SignatureClass) (k : Kernel) :
    Prop where
  wal : k.wal = some (.withSignature c worldId manifest sigClass)
  manifest : k.manifestDigest = manifest
  bounded : Kernel.Everywhere (fun _ i => i.Bounded) k.instances

/-- Recovering from the log of an epoch leads to where the epoch ended, with the
log of the recovered kernel still to be written. -/
theorem Bootable.recovers {k : Kernel} (h : Bootable c worldId manifest sigClass k)
    (hf : sigClass.Faithful c) (e : Epoch) : ∃ log r report,
      (e.lived c k).exportWal = some log ∧ replayInto c k log = (r,.ok report) ∧
        Bootable c worldId manifest sigClass r ∧ SameState r (e.lived c k) := by
  obtain ⟨w,hrec⟩ := (Recorded.start h.wal h.bounded ⟨rfl,rfl,rfl⟩).run _ (lived_inputs c e k)
  obtain ⟨r,report,hr,-,hagree⟩ := hrec.replayInto hf h.manifest
  have hshape : SameShape k r := by
    have hk := replayInto_kernel c k (Wal.fromWriter w)
    rw [hr] at hk
    rw [show r = _ from hk]
    exact .run k _
  refine ⟨Wal.fromWriter w,r,report,?_,hr,⟨hshape.wal.trans h.wal,hshape.manifest.trans h.manifest,?_⟩,
    hagree.instances,hagree.registry,hagree.observers,?_⟩
  · change ((Kernel.micro c).run k _).exportWal = _
    rw [Kernel.exportWal,hrec.wal]
    rfl
  · rw [hagree.instances]
    exact hrec.bounded
  · rw [hshape.counter]
    exact (inputs_counter _ (lived_inputs c e k) k).symm

theorem replayLogs_snoc {k r r' : Kernel} {ws : List Wal} {w : Wal} {report : ReplayReport}
    (h : replayLogs c k ws = (r,.ok ())) (hw : replayInto c r w = (r',.ok report)) :
    replayLogs c k (ws++[w]) = (r',.ok ()) := by
  induction ws generalizing k with
  | nil =>
    obtain ⟨rfl,-⟩ := Prod.mk.inj h
    rw [List.nil_append,replayLogs,hw]
    rfl
  | cons v ws ih =>
    rw [List.cons_append,replayLogs]
    rw [replayLogs] at h
    split at h
    · cases h
    · exact ih h

end Crash

/-- However often kernels crash and recover, in whatever moments of whatever
work, the last one is where a kernel that never crashed would be, and answers
every call as that one would. -/
theorem crashes_are_invisible (c : Crypto) (worldId manifest : Block) (sigClass : SignatureClass)
    (hf : sigClass.Faithful c) (setup : List Setup) (epochs : List Epoch) :
    let boot := (Kernel.newWithWalSigned c worldId manifest sigClass).setUp c setup
    ∃ r, replayLogs c boot (crashed c boot epochs) = (r,.ok ()) ∧ ∀ later : List Call,
      let k := (Kernel.machine c).run r later
      let k' := (Kernel.machine c).run (uninterrupted c boot epochs) later
      SameState k k' ∧
      (Kernel.machine c).trace r later = (Kernel.machine c).trace (uninterrupted c boot epochs) later ∧
      (Kernel.responding c).trace r later =
        (Kernel.responding c).trace (uninterrupted c boot epochs) later := by
  intro boot
  have hkeep := setUp_keeps c setup (Kernel.newWithWalSigned c worldId manifest sigClass)
  have hboot : Bootable c worldId manifest sigClass boot :=
    ⟨hkeep.1,hkeep.2,setUp_bounded c setup _ (Kernel.build_everywhere _ _ _)⟩
  -- the last crash first: the kernel that lives through it has recovered from the earlier ones
  have hrecovered : ∃ r, replayLogs c boot (crashed c boot epochs) = (r,.ok ()) ∧
      Bootable c worldId manifest sigClass r ∧ SameState r (uninterrupted c boot epochs) := by
    induction epochs using List.reverseRecOn with
    | nil => exact ⟨boot,rfl,hboot,rfl,rfl,rfl,rfl⟩
    | append_singleton epochs e ih =>
      obtain ⟨k,hk,hb,hs⟩ := ih
      obtain ⟨log,r,report,hlog,hr,hb',hs'⟩ := hb.recovers hf e
      refine ⟨r,?_,hb',?_⟩
      · unfold crashed at hk ⊢
        rw [List.foldl_append,List.foldl_cons,List.foldl_nil,hk]
        dsimp only
        rw [hlog]
        exact replayLogs_snoc hk hr
      · unfold uninterrupted at hs ⊢
        rw [List.foldl_append,List.foldl_cons,List.foldl_nil]
        exact hs'.trans (hs.lived e)
  obtain ⟨r,hr,-,hs⟩ := hrecovered
  refine ⟨r,hr,fun later => ?_⟩
  obtain ⟨hk,hk'⟩ := hs.unlogged
  refine ⟨?_,?_,((hk.run c later).2.symm.trans (hk'.run c later).2)⟩
  · rw [(Kernel.expansion c).run_eq,(Kernel.expansion c).run_eq,hs.words]
    exact hs.micro_run _
  · rw [(Kernel.expansion c).trace_eq,(Kernel.expansion c).trace_eq,hs.words]
    exact (hk.micro_run c _).2.symm.trans (hk'.micro_run c _).2

def crashingEpochs : List Epoch := [⟨signedInputs,3⟩,⟨[.step ⟨2⟩ .SYSTEM,.step ⟨2⟩ .SYSTEM],1⟩]

def signedBoot : Kernel :=
  (Kernel.newWithWalSigned standIn zeroBlock zeroBlock
    (.newEd25519FromSecret standIn (blockOfNat 3))).setUp standIn signedSetup

theorem crashes_are_invisible_signed :
    (crashed standIn signedBoot crashingEpochs).map (fun w => w.records.length) = [2,1] ∧
    ∃ r, replayLogs standIn signedBoot (crashed standIn signedBoot crashingEpochs) = (r,.ok ()) ∧
      r.instances = (uninterrupted standIn signedBoot crashingEpochs).instances := by
  obtain ⟨r,hr,hlater⟩ := crashes_are_invisible standIn zeroBlock zeroBlock
    (.newEd25519FromSecret standIn (blockOfNat 3)) (standIn_ed25519_faithful _) signedSetup
    crashingEpochs
  refine ⟨?_,r,hr,(hlater []).1.instances⟩
  decide +kernel

end ArkheKernel
