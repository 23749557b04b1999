import ArkheKernel.Wire
import ArkheKernel.Recovery
import ArkheKernel.Emission
import ArkheKernel.Isolation
import ArkheKernel.ReplayOnce

/-!
# Typed actions and the dice demo

An action type brings its codes and its code; registering it makes the kernel
decode an entry by schema version and payload. The dice demo rolls against a
fresh kernel with a log and replays the log into another one.
-/

set_option autoImplicit false

namespace ArkheKernel
open OrderedMap PrefixCode

inductive DeserializeError where
  | schemaVersionMismatch (expected got : ℕ)
  | payloadMalformed
  | unknownTypeCode (observed : TypeCode)
  | lengthExceedsBudget
  deriving DecidableEq

/-- What a type brings along as an action: its derived constants, its derived
encoding, and the computation written for it. -/
structure ActionType (α : Type) where
  typeCode : TypeCode
  schemaVersion : ℕ
  code : Code α
  reader : Reader α
  compute : α → ActionContext → List Op

namespace ActionType
variable {α : Type} (A : ActionType α)

def canonicalBytes (a : α) : Bytes := A.code.encode a

/-- Bytes after the payload are not looked at. -/
def fromBytes (version : ℕ) (bs : Bytes) : Except DeserializeError α :=
  if version ≠ A.schemaVersion then .error (.schemaVersionMismatch A.schemaVersion version)
  else match A.reader bs with
    | some (a,_) => .ok a
    | none => .error .payloadMalformed

def registration : ActionRegistration where
  schemaVersion := A.schemaVersion
  deserializer version bs := (A.fromBytes version bs).toOption.map A.compute

variable {A} {good : α → Prop}

theorem fromBytes_canonical (h : Reads A.reader A.code.encode good) {a : α} (ha : good a) :
    A.fromBytes A.schemaVersion (A.canonicalBytes a) = .ok a := by
  have hr := h.back a [] ha
  rw [List.append_nil] at hr
  unfold fromBytes canonicalBytes
  rw [if_neg (not_not.mpr rfl),hr]

theorem decodeAction_canonical (h : Reads A.reader A.code.encode good) {a : α} (ha : good a)
    {registry : ActionRegistry} {entry : ScheduledEntry}
    (hreg : registry[A.typeCode]? = some A.registration) (htype : entry.actionTypeCode = A.typeCode)
    (hbytes : entry.actionBytes = A.canonicalBytes a) :
    decodeAction registry entry = .ok (A.compute a) := by
  have hd : A.registration.deserializer A.registration.schemaVersion entry.actionBytes =
      some (A.compute a) := by
    change (A.fromBytes A.schemaVersion entry.actionBytes).toOption.map A.compute = _
    rw [hbytes,fromBytes_canonical h ha]
    rfl
  unfold decodeAction
  rw [htype,hreg]
  dsimp only
  rw [hd]

end ActionType

section Report
variable {c : Crypto} {k k' : Kernel} {writer writer' : WalWriter} {report report' : ReplayReport}

theorem min_count (a b m : ℕ) : min (min (a+1) m + b) m = min (a + (b+1)) m := by omega

theorem replayRecord_counts {rec : WalRecord}
    (h : replayRecord c k writer report rec = (k',.ok (writer',report'))) :
    (report'.submitsReplayed,report'.stepsReplayed) = if rec.content.stepped.isNone
      then (satAdd32 report.submitsReplayed 1,report.stepsReplayed)
      else (report.submitsReplayed,satAdd32 report.stepsReplayed 1) := by
  unfold replayRecord at h
  cases hrec : rec.content with
  | submit seq inst principal actor caps atTick typeCode actionBytes id =>
    rw [hrec] at h
    dsimp only at h
    split at h
    · cases h
    · cases h
      rfl
  | step seq inst id now caps verdict digest =>
    rw [hrec] at h
    dsimp only at h
    split at h
    · cases h
    · split_ifs at h <;> cases h
      rfl

theorem replayFrom_counts (rs : List WalRecord)
    (h : replayFrom c k writer report rs = (k',.ok (writer',report')))
    (hs : report.submitsReplayed ≤ u32Max) (ht : report.stepsReplayed ≤ u32Max) :
    report'.submitsReplayed = min (report.submitsReplayed +
        rs.countP (fun rec => rec.content.stepped.isNone)) u32Max ∧
      report'.stepsReplayed = min (report.stepsReplayed +
        rs.countP (fun rec => !rec.content.stepped.isNone)) u32Max := by
  induction rs generalizing k writer report with
  | nil =>
    cases h
    exact ⟨(min_eq_left hs).symm,(min_eq_left ht).symm⟩
  | cons rec rs ih =>
    rw [replayFrom] at h
    split at h
    · cases h
    · next k₁ w₁ report₁ hr =>
      have hcounts := replayRecord_counts hr
      have hsub : report₁.submitsReplayed = _ := congrArg Prod.fst hcounts
      have hstep : report₁.stepsReplayed = _ := congrArg Prod.snd hcounts
      rw [List.countP_cons,List.countP_cons]
      unfold satAdd32 at hsub hstep
      cases hkind : rec.content.stepped.isNone with
      | true =>
        rw [hkind] at hsub hstep
        simp only [if_true,Bool.not_true,Bool.false_eq_true,if_false] at hsub hstep ⊢
        obtain ⟨h1,h2⟩ := ih h (by omega) (by omega)
        rw [hsub,hstep] at *
        exact ⟨h1.trans (min_count _ _ _),h2⟩
      | false =>
        rw [hkind] at hsub hstep
        simp only [if_true,Bool.not_false,Bool.false_eq_true,if_false] at hsub hstep ⊢
        obtain ⟨h1,h2⟩ := ih h (by omega) (by omega)
        rw [hsub,hstep] at *
        exact ⟨h1,h2.trans (min_count _ _ _)⟩

theorem replayInto_counts {w : Wal} (h : replayInto c k w = (k',.ok report)) :
    report.submitsReplayed =
        min (w.records.countP (fun rec => rec.content.stepped.isNone)) u32Max ∧
      report.stepsReplayed =
        min (w.records.countP (fun rec => !rec.content.stepped.isNone)) u32Max := by
  obtain ⟨-,-,-,hr⟩ := replayInto_ok.mp h
  unfold replayRecords at hr
  split at hr
  · cases hr
  · next k₁ writer₁ report₁ hfrom =>
    split at hr
    · cases hr
    · cases hr
      have hcounts := replayFrom_counts w.records hfrom (Nat.zero_le _) (Nat.zero_le _)
      rwa [Nat.zero_add,Nat.zero_add] at hcounts

end Report

namespace Dice

def WORLD_ID : Block := .replicate 32 0x42

def MANIFEST_DIGEST : Block := .replicate 32 0x9A

def DICE_EVENT_TC : TypeCode := .clamp 8001

structure DiceRolled where
  nonce : ℕ
  dice : List.Vector UInt8 3
  sum : UInt8
  targetSum : UInt8
  won : Bool
  entropyDigest : Block
  deriving DecidableEq

structure RollAction where
  seed : Block
  nonce : ℕ
  targetSum : UInt8
  deriving DecidableEq

def toLeBytes (n : ℕ) : Bytes := (List.range 8).map (fun i => UInt8.ofNat (n/256^i))

def RollAction.roll (c : Crypto) (a : RollAction) (now : Tick) : DiceRolled :=
  let bytes := c.hash (a.seed.toList ++ toLeBytes now.val ++ toLeBytes a.nonce)
  let d1 := bytes.get 0 % 6 + 1
  let d2 := bytes.get 1 % 6 + 1
  let d3 := bytes.get 2 % 6 + 1
  let sum := d1 + d2 + d3
  { nonce := a.nonce
    dice := ⟨[d1,d2,d3],rfl⟩
    sum
    targetSum := a.targetSum
    won := a.targetSum ≤ sum
    entropyDigest := bytes }

def bit (b : Bool) : UInt8 := if b then 1 else 0

def unbit (b : UInt8) : Option Bool := if b = 0 then some false else if b = 1 then some true else none

def boolCode : Code Bool := comap byte bit (by intro a b h; cases a <;> cases b <;> first | rfl | cases h)

def DiceRolled.code : Code DiceRolled :=
  comap (pair varint (pair (fixed 3) (pair byte (pair byte (pair boolCode (fixed 32))))))
    (fun d => (d.nonce,d.dice,d.sum,d.targetSum,d.won,d.entropyDigest))
    (by rintro ⟨⟩ ⟨⟩ h; simpa using h)

def readDiceRolled : Reader DiceRolled :=
  (readU64.pair ((readFixed 3).pair (readByte.pair (readByte.pair
    ((readByte.map unbit).pair (readFixed 32)))))).map
      (fun p => some ⟨p.1,p.2.1,p.2.2.1,p.2.2.2.1,p.2.2.2.2.1,p.2.2.2.2.2⟩)

def RollAction.code : Code RollAction :=
  comap (pair (fixed 32) (pair varint byte)) (fun a => (a.seed,a.nonce,a.targetSum))
    (by rintro ⟨⟩ ⟨⟩ h; simpa using h)

def readRollAction : Reader RollAction :=
  ((readFixed 32).pair (readU64.pair readByte)).map (fun p => some ⟨p.1,p.2.1,p.2.2⟩)

variable (c : Crypto)

def RollAction.compute (a : RollAction) (ctx : ActionContext) : List Op :=
  let entityId : EntityId := ⟨.succ ctx.inst.entitiesLen⟩
  [.spawnEntity entityId .system,
    .emitEvent (some entityId) DICE_EVENT_TC (DiceRolled.code.encode (a.roll c ctx.now))]

def rollAction : ActionType RollAction where
  typeCode := .clamp 8000
  schemaVersion := 1
  code := RollAction.code
  reader := readRollAction
  compute := RollAction.compute c

def capture : KernelEvent → Option DiceRolled
  | .domainEventEmitted _ _ eventTypeCode bytes =>
    if eventTypeCode = DICE_EVENT_TC then (readDiceRolled bytes).map Prod.fst else none
  | _ => none

def captureObserver : KernelObserver := fun _ _ => false

def config : InstanceConfig := { maxEntities := 1024, maxScheduled := 1024, memoryBudgetBytes := 2^20 }

def freshKernelWithWal : Kernel × InstanceId × ObserverHandle :=
  let kernel := (Kernel.newWithWal c WORLD_ID MANIFEST_DIGEST).registerAction
    (rollAction c).typeCode (rollAction c).registration
  let observed := kernel.registerObserverFiltered captureObserver .ALL
  let created := observed.2.createInstance config
  (created.2,created.1,observed.1)

def rollOnce (inst : InstanceId) (seed : Block) (targetSum : UInt8) (kernel : Kernel) (nonce : ℕ) :
    Option Kernel :=
  let action : RollAction := ⟨seed,nonce,targetSum⟩
  match kernel.submit c ⟨inst,.system,none,.SYSTEM,⟨nonce⟩,(rollAction c).typeCode,
    (rollAction c).canonicalBytes action⟩ with
  | (.ok _,kernel) => some (kernel.step c ⟨nonce⟩ .SYSTEM).2
  | (.error _,_) => none

def rollN (kernel : Kernel) (inst : InstanceId) (seed : Block) (n : ℕ) (targetSum : UInt8) :
    Option Kernel := (List.range n).foldlM (rollOnce c inst seed targetSum) kernel

def outcomes (kernel : Kernel) (h : ObserverHandle) : List DiceRolled :=
  (kernel.observers.received h).filterMap capture

/-- The sum of both counts, `none` where it overflows its word. -/
def recordsReplayed (report : ReplayReport) : Option ℕ :=
  if report.submitsReplayed + report.stepsReplayed ≤ u32Max then
    some (report.submitsReplayed + report.stepsReplayed)
  else none

def verdict (k₁ k₂ : Kernel) (h : ObserverHandle) (report : ReplayReport) : Bool :=
  let chainMatch := k₁.wal.map WalWriter.chainTip = some report.finalChainTip
  let outcomeMatch := outcomes k₂ h = outcomes k₁ h
  let countMatch := recordsReplayed report = k₁.wal.map WalWriter.recordCount
  chainMatch && outcomeMatch && countMatch

theorem verdict_iff {k₁ k₂ : Kernel} {h : ObserverHandle} {report : ReplayReport} :
    verdict k₁ k₂ h report = true ↔ k₁.wal.map WalWriter.chainTip = some report.finalChainTip ∧
      outcomes k₂ h = outcomes k₁ h ∧ recordsReplayed report = k₁.wal.map WalWriter.recordCount := by
  unfold verdict
  simp only [Bool.and_eq_true,decide_eq_true_eq,and_assoc]

theorem recordsReplayed_all {report : ReplayReport} {n : ℕ}
    (hs : report.submitsReplayed = min n u32Max) (ht : report.stepsReplayed = min n u32Max) :
    recordsReplayed report = some (2*n) ↔ n < 2^31 := by
  unfold recordsReplayed
  rw [hs,ht]
  unfold u32Max
  split
  · rw [Option.some.injEq]
    omega
  · simp only [reduceCtorEq,false_iff]
    omega

theorem readRollAction_reads :
    Reads readRollAction RollAction.code.encode (fun a => a.nonce ≤ u64Max) := by
  refine ((readFixed_reads 32).pair (readU64_fits.pair readByte_reads)).map
    (fun a ha => ⟨(a.seed,a.nonce,a.targetSum),⟨trivial,ha,trivial⟩,rfl,rfl⟩) ?_
  intro x a hx h
  cases h
  exact hx.2.1

theorem boolCode_reads : Reads (readByte.map unbit) boolCode.encode (fun _ => True) :=
  readByte_reads.map (fun b _ => ⟨bit b,trivial,rfl,by cases b <;> rfl⟩) (fun _ _ _ _ => trivial)

theorem readDiceRolled_reads :
    Reads readDiceRolled DiceRolled.code.encode (fun d => d.nonce ≤ u64Max) := by
  refine (readU64_fits.pair ((readFixed_reads 3).pair (readByte_reads.pair (readByte_reads.pair
    (boolCode_reads.pair (readFixed_reads 32)))))).map
      (fun d hd => ⟨(d.nonce,d.dice,d.sum,d.targetSum,d.won,d.entropyDigest),
        ⟨hd,trivial,trivial,trivial,trivial,trivial⟩,rfl,rfl⟩) ?_
  intro x d hx h
  cases h
  exact hx.1

def table : InstanceId := ⟨.succ 0⟩

def rolled (seed : Block) (targetSum : UInt8) (n : ℕ) : DiceRolled :=
  RollAction.roll c ⟨seed,n,targetSum⟩ ⟨n⟩

def rollRequest (seed : Block) (targetSum : UInt8) (n : ℕ) : Submission :=
  ⟨table,.system,none,.SYSTEM,⟨n⟩,(rollAction c).typeCode,
    (rollAction c).canonicalBytes ⟨seed,n,targetSum⟩⟩

/-- What a roll emits: from the 1025th on, no entity is spawned for it any more. -/
def rollEvents (seed : Block) (targetSum : UInt8) (n : ℕ) : List KernelEvent :=
  (if n < 1024 then [] else [.effectFailed table (asciiBytes "entity_quota_exceeded")]) ++
    [.domainEventEmitted table (some ⟨.succ (min n 1024)⟩) DICE_EVENT_TC
      (DiceRolled.code.encode (rolled c seed targetSum n)),
    .actionExecuted table (.clamp 8000) ⟨n⟩]

/-- The instance between two rolls, after `n` of them. -/
structure Idle (n : ℕ) (i : Instance) : Prop where
  config : i.config = config
  ready : i.scheduler.ready = ∅
  bytes : i.ledger.totalBytes = 0
  count : i.entitiesLen = min n 1024
  entities : ∀ e ∈ i.entities, e.raw.get ≤ i.entitiesLen

theorem popDue_alone {s : Scheduler} (h : s.ready = ∅) {e : ScheduledEntry} {now : Tick}
    (hd : e.atTick ≤ now) :
    ∃ rest : Scheduler, (s.scheduleWithId e).popDue now = some (e,rest) ∧ rest.ready = ∅ := by
  have hget (k : SchedKey) := s.scheduleWithId_ready e k
  rw [h] at hget
  obtain ⟨⟨e',rest⟩,hp⟩ := Scheduler.popDue_isSome (s := s.scheduleWithId e)
    (mem_of_get ((hget _).trans (if_pos rfl))) hd
  obtain ⟨key,hkey,-,-,hrest⟩ := Scheduler.popDue_some hp
  rw [hget] at hkey
  split at hkey
  · next hk =>
    obtain rfl := Option.some.inj hkey
    refine ⟨rest,hp,?_⟩
    rw [hrest]
    refine ext_get (fun k => ?_)
    rw [get_erase,hget,hk]
    split
    · rfl
    · rfl
  · simp at hkey

def rollStage (id : EntityId) (now : Tick) (outcome : Bytes) (spawned : Bool) : StepStage where
  stateOps := if spawned then [.spawnEntity id ⟨.system,now⟩] else []
  events := (if spawned then [] else [.effectFailed table (asciiBytes "entity_quota_exceeded")]) ++
    [.domainEventEmitted table (some id) DICE_EVENT_TC outcome]
  ledgerOps := if spawned then [.addEntity id] else []
  idCounters := if spawned then { nextEntityAdvance := satAdd64 0 1 } else {}

theorem authorize_open (eff : CapabilityMask) {op : Op} (h : matchOpCap op eff = true) :
    authorize eff ⟨table,.system,op⟩ = .ok ⟨table,.system,op⟩ := by
  simp [authorize,h]

theorem budget_clear {i : Instance} (hb : i.ledger.totalBytes = 0) {s : StepStage} {op : Op}
    (hs : projectedComponentBytes 0 s i.ledger = 0) (ho : projectedWith i.ledger 0 op = 0) :
    budgetExceeded i s op = false := by
  simp [budgetExceeded,hb,hs,ho]

theorem spawn_skip {i : Instance} (hc : i.config = config) (hb : i.ledger.totalBytes = 0)
    (id : EntityId) : skipOp i {} (.spawnEntity id .system) =
      if i.entitiesLen < 1024 then none else some (asciiBytes "entity_quota_exceeded") := by
  have hq : entityQuotaExceeded i {} (.spawnEntity id .system) = decide (1024 ≤ i.entitiesLen) := by
    simp only [entityQuotaExceeded,hc,config,satAdd64,u64Max]
    by_cases h : 1024 ≤ i.entitiesLen <;> simp [h]
  unfold skipOp
  rw [budget_clear hb rfl rfl,hq]
  by_cases h : i.entitiesLen < 1024
  · simp [h,Nat.not_le.mpr h,scheduledQuotaExceeded]
  · simp [h,Nat.not_lt.mp h]

theorem emit_skip {i : Instance} (hb : i.ledger.totalBytes = 0) {s : StepStage}
    (hs : projectedComponentBytes 0 s i.ledger = 0) (actor : Option EntityId) (t : TypeCode)
    (bytes : Bytes) : skipOp i s (.emitEvent actor t bytes) = none := by
  unfold skipOp
  rw [budget_clear hb hs rfl]
  rfl

section Gate
variable {i : Instance} {eff : CapabilityMask} {now : Tick} {op : Op}

theorem gate_passes (ho : matchOpCap op eff = true) {g : GateState}
    (hs : skipOp i g.stage op = none) : gateOp i table .system eff now g op = { g with
      stage := (dispatch ⟨table,.system,op⟩ g.stage now g.nextScheduledId eff).1
      nextScheduledId := (dispatch ⟨table,.system,op⟩ g.stage now g.nextScheduledId eff).2
      applied := satAdd32 g.applied 1 } := by
  unfold gateOp
  rw [authorize_open eff ho]
  dsimp only
  rw [hs]

theorem gate_skips (ho : matchOpCap op eff = true) {g : GateState} {reason : Bytes}
    (hs : skipOp i g.stage op = some reason) : gateOp i table .system eff now g op = { g with
      denied := satAdd32 g.denied 1
      stage := { g.stage with events := g.stage.events ++ [.effectFailed table reason] } } := by
  unfold gateOp
  rw [authorize_open eff ho]
  dsimp only
  rw [hs]

theorem roll_gate (eff : CapabilityMask) (now : Tick) (hc : i.config = config)
    (hb : i.ledger.totalBytes = 0) (id : EntityId) (outcome : Bytes) : ∃ applied denied, gateLoop i table .system eff now {}
      [.spawnEntity id .system,.emitEvent (some id) DICE_EVENT_TC outcome] =
        { stage := rollStage id now outcome (i.entitiesLen < 1024)
          nextScheduledId := i.idCounters.nextScheduled, applied, denied } := by
  have hspawn := spawn_skip hc hb id
  let g : GateState := { stage := {}, nextScheduledId := i.idCounters.nextScheduled }
  unfold gateLoop
  rw [StepStage.clear_eq,List.foldl_cons,List.foldl_cons,List.foldl_nil]
  by_cases hn : i.entitiesLen < 1024
  · rw [if_pos hn] at hspawn
    rw [gate_passes (g := g) rfl hspawn,gate_passes rfl (emit_skip hb rfl _ _ _),decide_eq_true hn]
    exact ⟨_,_,rfl⟩
  · rw [if_neg hn] at hspawn
    rw [gate_skips (g := g) rfl hspawn,gate_passes rfl (emit_skip hb rfl _ _ _),decide_eq_false hn]
    exact ⟨_,_,rfl⟩

end Gate

section Roll
variable {c : Crypto} {n : ℕ} {i : Instance}

theorem Idle.applied (h : Idle n i) (now : Tick) (outcome : Bytes) : Idle (n+1) (applyStage i
    (rollStage ⟨.succ i.entitiesLen⟩ now outcome (i.entitiesLen < 1024))).1 := by
  have hcount := h.count
  by_cases hn : i.entitiesLen < 1024
  · rw [decide_eq_true hn]
    have hid : (NonZeroU64.succ i.entitiesLen).get = i.entitiesLen+1 :=
      satAdd64_eq (by unfold u64Max; omega)
    have hfresh : (⟨.succ i.entitiesLen⟩ : EntityId) ∉ i.entities := by
      intro hmem
      have hle := h.entities _ hmem
      rw [hid] at hle
      omega
    have hlen : (i.entities.insert ⟨.succ i.entitiesLen⟩ ⟨.system,now⟩).size = i.entitiesLen+1 := by
      rw [Std.ExtTreeMap.size_insert,if_neg (by simpa using hfresh)]
      rfl
    refine ⟨h.config,h.ready,h.bytes,?_,?_⟩
    · change (i.entities.insert ⟨.succ i.entitiesLen⟩ ⟨.system,now⟩).size = _
      rw [hlen]
      omega
    · change ∀ e ∈ i.entities.insert ⟨.succ i.entitiesLen⟩ ⟨.system,now⟩, _ ≤
        (i.entities.insert ⟨.succ i.entitiesLen⟩ ⟨.system,now⟩).size
      rw [hlen]
      intro e he
      rcases (mem_insert _ _ _ _).mp he with rfl | he
      · exact hid.le
      · exact (h.entities e he).trans (Nat.le_succ _)
  · rw [decide_eq_false hn]
    refine ⟨h.config,h.ready,h.bytes,?_,h.entities⟩
    change i.entitiesLen = _
    omega

theorem Idle.execution (h : Idle n i) (hn : n ≤ u64Max) {registry : ActionRegistry}
    (hreg : registry[(rollAction c).typeCode]? = some (rollAction c).registration) (seed : Block)
    (targetSum : UInt8) : ∃ x,
      Execution.ofPop table (i.submit (rollRequest c seed targetSum n)).2 registry ⟨n⟩ .SYSTEM =
        some x ∧ x.stage.pendingSignals = [] ∧ Idle (n+1) x.after ∧
      x.stage.events ++ Kernel.executedEvents x.instId x.entry.actionTypeCode x.now x.verdict =
        rollEvents c seed targetSum n := by
  let s := rollRequest c seed targetSum n
  obtain ⟨rest,hp,hr⟩ := popDue_alone h.ready (e := s.entry (i.submit s).1) (le_refl (⟨n⟩ : Tick))
  let x : Execution := ⟨table,(i.submit s).2,registry,⟨n⟩,.SYSTEM,s.entry (i.submit s).1,rest,hp⟩
  have hstart : Idle n x.start := ⟨h.config,hr,h.bytes,h.count,h.entities⟩
  have haction : x.action = .ok ((rollAction c).compute ⟨seed,n,targetSum⟩) :=
    (rollAction c).decodeAction_canonical (a := ⟨seed,n,targetSum⟩) readRollAction_reads hn hreg
      rfl rfl
  have hops : x.ops = [.spawnEntity ⟨.succ x.start.entitiesLen⟩ .system,.emitEvent
      (some ⟨.succ x.start.entitiesLen⟩) DICE_EVENT_TC
      (DiceRolled.code.encode (rolled c seed targetSum n))] := by
    unfold Execution.ops
    rw [haction]
    rfl
  obtain ⟨applied,denied,hg⟩ := roll_gate x.caps ⟨n⟩ hstart.config hstart.bytes ⟨.succ x.start.entitiesLen⟩
    (DiceRolled.code.encode (rolled c seed targetSum n))
  have hgate : x.gate = _ := (congrArg (gateLoop x.start table .system x.caps ⟨n⟩ {}) hops).trans hg
  have hcommits : x.commits = true := by
    unfold Execution.commits
    rw [haction,hgate]
    rfl
  have hstage : x.stage = rollStage ⟨.succ x.start.entitiesLen⟩ ⟨n⟩
      (DiceRolled.code.encode (rolled c seed targetSum n)) (x.start.entitiesLen < 1024) := by
    unfold Execution.stage
    rw [if_pos hcommits,hgate]
  have hevents : Kernel.executedEvents x.instId x.entry.actionTypeCode x.now x.verdict =
      [.actionExecuted table (.clamp 8000) ⟨n⟩] := by
    unfold Execution.verdict
    rw [haction,hgate]
    dsimp only
    rw [if_neg Bool.false_ne_true]
    split <;> rfl
  refine ⟨x,Execution.ofPop_eq hp,by rw [hstage]; rfl,?_,?_⟩
  · unfold Execution.after
    rw [if_pos hcommits,hgate]
    exact hstart.applied _ _
  · rw [hstage,hevents]
    unfold rollStage rollEvents
    have hlt : (min n 1024 < 1024) = (n < 1024) := propext ⟨fun h => by omega,fun h => by omega⟩
    simp only [hstart.count,hlt,decide_eq_true_eq,List.append_assoc,List.singleton_append]

structure Seated (c : Crypto) (n : ℕ) (k : Kernel) : Prop where
  keys : k.instances.keys = [table]
  idle : ∃ i, k.instances[table]? = some i ∧ Idle n i
  registry : k.actionRegistry[(rollAction c).typeCode]? = some (rollAction c).registration
  records : ∃ w, k.wal = some w ∧ w.records.length = 2*n ∧
    w.records.countP (fun rec => rec.content.stepped.isNone) = n

def rollInputs (c : Crypto) (seed : Block) (targetSum : UInt8) (n : ℕ) : List Input :=
  [.submit (rollRequest c seed targetSum n),.step ⟨n⟩ .SYSTEM]

def rollCalls (c : Crypto) (seed : Block) (targetSum : UInt8) (n : ℕ) : List Call :=
  (rollInputs c seed targetSum n).map Input.call

theorem Idle.notFull (h : Idle n i) : i.schedulerFull = false := by
  have hlen : i.scheduler.len = 0 := by
    unfold Scheduler.len
    rw [h.ready]
    rfl
  unfold Instance.schedulerFull
  rw [hlen,h.config]
  rfl

theorem rollOnce_admitted {k k' : Kernel} {seed : Block} {targetSum : UInt8}
    {id : ScheduledActionId} (h : k.submit c (rollRequest c seed targetSum n) = (.ok id,k')) :
    rollOnce c table seed targetSum k n = some (k'.step c ⟨n⟩ .SYSTEM).2 := by
  unfold rollRequest at h
  unfold rollOnce
  dsimp only
  rw [h]

theorem keys_insert_mem {m : BTreeMap InstanceId Instance} {j : InstanceId} (h : j ∈ m)
    (i : Instance) : (m.insert j i).keys = m.keys := by
  refine keys_congr (fun a => ?_)
  rw [mem_insert]
  exact ⟨fun ha => ha.elim (fun he => he ▸ h) id,Or.inr⟩

theorem step_single {k : Kernel} {id : InstanceId} (h : k.instances.keys = [id]) (now : Tick)
    (caps : CapabilityMask) : k.pops now caps = [.pop id now caps] ∧
      (k.step c now caps).2 = k.pop c id now caps := by
  have hpops : k.pops now caps = [.pop id now caps] := by
    unfold Kernel.pops
    rw [h]
    rfl
  refine ⟨hpops,?_⟩
  rw [Kernel.step_eq,hpops]
  rfl

theorem submit_admitted {k : Kernel} {s : Submission} {w : WalWriter}
    (hi : k.instances[s.inst]? = some i) (hw : k.wal = some w) (hfull : i.schedulerFull = false) :
    k.submit c s = (.ok (i.submit s).1, { k with
      instances := k.instances.insert s.inst (i.submit s).2
      wal := some (w.appendSubmit c s.inst s.principal s.actor s.caps.bits s.atTick
        s.actionTypeCode s.actionBytes (i.submit s).1) }) := by
  unfold Kernel.submit
  rw [hi]
  dsimp only
  rw [hfull,if_neg Bool.false_ne_true,hw]
  rfl

theorem Seated.roll {k : Kernel} (h : Seated c n k) (hn : n ≤ u64Max) (seed : Block)
    (targetSum : UInt8) :
    rollOnce c table seed targetSum k n =
        some ((Kernel.machine c).run k (rollCalls c seed targetSum n)) ∧
      Seated c (n+1) ((Kernel.machine c).run k (rollCalls c seed targetSum n)) ∧
      k.emissions c (rollCalls c seed targetSum n) = rollEvents c seed targetSum n := by
  obtain ⟨i,hi,hidle⟩ := h.idle
  obtain ⟨w,hw,hlen,hcount⟩ := h.records
  let s := rollRequest c seed targetSum n
  obtain ⟨x,hx,hsig,hafter,hevents⟩ := hidle.execution hn h.registry seed targetSum
  have hsubmit := submit_admitted (c := c) (s := s) hi hw hidle.notFull
  generalize hk' : ({ k with instances := k.instances.insert s.inst (i.submit s).2, wal := some _ } :
    Kernel) = k' at hsubmit
  have hinst : k'.instances = k.instances.insert table (i.submit s).2 := by rw [← hk']; rfl
  have hkeys : k'.instances.keys = [table] := by
    rw [hinst,keys_insert_mem (mem_of_get hi),h.keys]
  have hexec : k'.execution table ⟨n⟩ .SYSTEM = some x := by
    unfold Kernel.execution
    rw [hinst,get_insert_self,← hk']
    exact hx
  obtain ⟨_,hpop⟩ := Kernel.pop_some c hexec
  obtain ⟨hpops,hstep⟩ := step_single (c := c) hkeys ⟨n⟩ .SYSTEM
  have hrun : (Kernel.machine c).run k (rollCalls c seed targetSum n) =
      k'.pop c table ⟨n⟩ .SYSTEM := by
    change ((k.submit c s).2.step c ⟨n⟩ .SYSTEM).2 = _
    rw [hsubmit,hstep]
  have hsettle : x.settle k'.instances = k'.instances.insert table x.after := by
    unfold Execution.settle
    rw [hsig,(Kernel.execution_some hexec).2.1]
    rfl
  refine ⟨?_,?_,?_⟩
  · rw [hrun,← hstep]
    exact rollOnce_admitted hsubmit
  · rw [hrun,hpop]
    refine ⟨?_,⟨x.after,?_,hafter⟩,?_,?_⟩
    · dsimp only
      rw [hsettle,keys_insert_mem (by rw [← mem_keys,hkeys]; exact List.mem_singleton_self _),hkeys]
    · dsimp only
      rw [hsettle]
      exact get_insert_self _ _ _
    · rw [← hk']
      exact h.registry
    · rw [← hk']
      refine ⟨_,rfl,?_,?_⟩
      · change ((w.records ++ [_]) ++ [_]).length = 2*(n+1)
        rw [List.length_append,List.length_append,hlen]
        rfl
      · change ((w.records ++ [_]) ++ [_]).countP _ = n+1
        rw [List.countP_append,List.countP_append,hcount]
        rfl
  · change (Kernel.emission c).trace k (.request (.submit s) ::
      ((k.submit c s).2.pops ⟨n⟩ .SYSTEM ++ [])) = _
    rw [hsubmit,hpops]
    change [] ++ ((k.submit c s).2.emits (.pop table ⟨n⟩ .SYSTEM) ++ []) = _
    rw [hsubmit,Kernel.emits_some hexec,List.nil_append,List.append_nil,← hevents]
    unfold Execution.emits
    rw [hsig]
    exact List.append_nil _

end Roll

def demoInputs (seed : Block) (targetSum : UInt8) (n : ℕ) : List Input :=
  (List.range n).flatMap (rollInputs c seed targetSum)

def demoCalls (seed : Block) (targetSum : UInt8) (n : ℕ) : List Call :=
  (demoInputs c seed targetSum n).map Input.call

theorem demoCalls_succ (seed : Block) (targetSum : UInt8) (n : ℕ) :
    demoCalls c seed targetSum (n+1) =
      demoCalls c seed targetSum n ++ rollCalls c seed targetSum n := by
  simp [demoCalls,demoInputs,rollCalls,List.range_succ]

theorem emissions_append (k : Kernel) (as bs : List Call) : k.emissions c (as ++ bs) =
    k.emissions c as ++ ((Kernel.machine c).run k as).emissions c bs := by
  unfold Kernel.emissions
  rw [Transducer.Expansion.words_append,Transducer.trace_append,Kernel.emission,
    Transducer.withOut_run,← (Kernel.expansion c).run_eq]

theorem Seated.rolls {c : Crypto} {k : Kernel} (h : Seated c 0 k) (seed : Block)
    (targetSum : UInt8) {n : ℕ} (hn : n ≤ u64Max) :
    rollN c k table seed n targetSum =
        some ((Kernel.machine c).run k (demoCalls c seed targetSum n)) ∧
      Seated c n ((Kernel.machine c).run k (demoCalls c seed targetSum n)) ∧
      k.emissions c (demoCalls c seed targetSum n) =
        (List.range n).flatMap (rollEvents c seed targetSum) := by
  induction n with
  | zero => exact ⟨rfl,h,rfl⟩
  | succ n ih =>
    obtain ⟨hroll,hseated,hemits⟩ := ih (by omega)
    obtain ⟨hroll',hseated',hemits'⟩ := hseated.roll (by omega) seed targetSum
    rw [demoCalls_succ,Transducer.run_append,emissions_append,hemits,hemits']
    refine ⟨?_,hseated',?_⟩
    · unfold rollN at hroll ⊢
      rw [List.range_succ,List.foldlM_append,hroll]
      change (rollOnce c table seed targetSum _ n).bind some = _
      rw [hroll']
      rfl
    · simp [List.range_succ]

theorem fresh_seated : Seated c 0 (freshKernelWithWal c).1 := by
  refine ⟨rfl,⟨_,get_insert_self _ _ _,?_⟩,get_insert_self _ _ _,⟨_,rfl,rfl,rfl⟩⟩
  exact ⟨rfl,rfl,rfl,rfl,fun e he => absurd he (by simp [Instance.new])⟩

theorem roll_faces (a : RollAction) (now : Tick) :
    (∀ d ∈ (a.roll c now).dice.toList, 1 ≤ d.toNat ∧ d.toNat ≤ 6) ∧
      (a.roll c now).sum.toNat = ((a.roll c now).dice.toList.map UInt8.toNat).sum := by
  have face (b : UInt8) : 1 ≤ (b%6+1).toNat ∧ (b%6+1).toNat ≤ 6 := by
    rw [UInt8.toNat_add,UInt8.toNat_mod]
    have := Nat.mod_lt b.toNat (show 0 < 6 by decide)
    change 1 ≤ (b.toNat%6+1)%256 ∧ (b.toNat%6+1)%256 ≤ 6
    omega
  let bytes := c.hash (a.seed.toList ++ toLeBytes now.val ++ toLeBytes a.nonce)
  have h1 := face (bytes.get 0)
  have h2 := face (bytes.get 1)
  have h3 := face (bytes.get 2)
  constructor
  · intro d hd
    have hd' : d ∈ [bytes.get 0%6+1,bytes.get 1%6+1,bytes.get 2%6+1] := hd
    simp only [List.mem_cons,List.not_mem_nil,or_false] at hd'
    rcases hd' with rfl | rfl | rfl
    · exact h1
    · exact h2
    · exact h3
  · change (bytes.get 0%6+1 + (bytes.get 1%6+1) + (bytes.get 2%6+1)).toNat =
      (bytes.get 0%6+1).toNat + ((bytes.get 1%6+1).toNat + ((bytes.get 2%6+1).toNat + 0))
    generalize bytes.get 0%6+1 = x at h1 ⊢
    generalize bytes.get 1%6+1 = y at h2 ⊢
    generalize bytes.get 2%6+1 = z at h3 ⊢
    rw [UInt8.toNat_add,UInt8.toNat_add]
    omega

theorem capture_rolls {c : Crypto} (seed : Block) (targetSum : UInt8) {n : ℕ} (hn : n ≤ u64Max) :
    (rollEvents c seed targetSum n).filterMap capture = [rolled c seed targetSum n] := by
  have hr := readDiceRolled_reads.back (rolled c seed targetSum n) [] hn
  rw [List.append_nil] at hr
  unfold rollEvents
  split <;> simp [List.filterMap_cons,capture,hr]

theorem handed_all (got events : List KernelEvent) :
    handed captureObserver got events = got ++ events := by
  induction events generalizing got with
  | nil => exact (List.append_nil got).symm
  | cons e events ih =>
    rw [handed,ih]
    simp [captureObserver]

theorem demo_registrations (seed : Block) (targetSum : UInt8) (n : ℕ) :
    ((demoCalls c seed targetSum n).map Call.registrations).sum = 0 := by
  induction n with
  | zero => rfl
  | succ n ih =>
    rw [demoCalls_succ,List.map_append,List.sum_append,ih]
    rfl

theorem outcomes_rolled {c : Crypto} (seed : Block) (targetSum : UInt8) {n : ℕ} (hn : n ≤ u64Max) :
    outcomes ((Kernel.machine c).run (freshKernelWithWal c).1 (demoCalls c seed targetSum n))
      (freshKernelWithWal c).2.2 = (List.range n).map (rolled c seed targetSum) := by
  have hr := Kernel.observer_received c MANIFEST_DIGEST (some (WalWriter.new c WORLD_ID
    MANIFEST_DIGEST)) [.request (.registerAction (rollAction c).typeCode (rollAction c).registration)]
    (.request (.createInstance config) :: demoCalls c seed targetSum n) captureObserver .ALL
    (by
      change 0 + (1 + (0 + ((demoCalls c seed targetSum n).map Call.registrations).sum)) ≤ u64Max
      rw [demo_registrations]
      decide)
  have hreceived : ((Kernel.machine c).run (freshKernelWithWal c).1
      (demoCalls c seed targetSum n)).observers.received (freshKernelWithWal c).2.2 =
        handed captureObserver [] (((freshKernelWithWal c).1.emissions c
          (demoCalls c seed targetSum n)).filter EventMask.ALL.accepts) := hr
  unfold outcomes
  rw [hreceived,handed_all,List.nil_append,List.filter_eq_self.mpr (fun e _ =>
    EventMask.all_accepts e),((fresh_seated c).rolls seed targetSum hn).2.2,List.filterMap_flatMap,
    ← List.flatMap_pure_eq_map]
  refine List.flatMap_congr (fun j hj => ?_)
  exact capture_rolls seed targetSum (by have := List.mem_range.mp hj; omega)

theorem demo_recorded (c : Crypto) (seed : Block) (targetSum : UInt8) (n : ℕ) :
    ∃ w, Recorded c WORLD_ID MANIFEST_DIGEST .none (freshKernelWithWal c).1
      ((Kernel.machine c).run (freshKernelWithWal c).1 (demoCalls c seed targetSum n)) w := by
  let start := (freshKernelWithWal c).1
  have hstart : Recorded c WORLD_ID MANIFEST_DIGEST .none start start
      (.withSignature c WORLD_ID MANIFEST_DIGEST .none) :=
    .start rfl ((Kernel.build_everywhere _ MANIFEST_DIGEST none).insert (Nat.zero_le _)) ⟨rfl,rfl,rfl⟩
  rw [(Kernel.expansion c).run_eq]
  exact hstart.run _ (input_words c start (demoInputs c seed targetSum n))

theorem half_stepped {records : List WalRecord} {n : ℕ} (hlen : records.length = 2*n)
    (hcount : records.countP (fun rec => rec.content.stepped.isNone) = n) :
    records.countP (fun rec => !rec.content.stepped.isNone) = n := by
  have hsum := List.length_eq_countP_add_countP (fun rec : WalRecord => rec.content.stepped.isNone)
    (l := records)
  simp only [decide_not,Bool.decide_eq_true] at hsum
  omega

/-- For every seed, target and number of rolls no submission is refused, the
observer sees one fair outcome for each roll, in order, entities are spawned up to
the quota, and the log replays into a fresh kernel with the same tip and outcomes.
The demo passes as long as the number of records fits the word that it is added
up in. -/
theorem demo_replays (c : Crypto) (seed : Block) (targetSum : UInt8) (n : ℕ) (hn : n ≤ u64Max) :
    let fresh := (freshKernelWithWal c).1
    let inst := (freshKernelWithWal c).2.1
    let h := (freshKernelWithWal c).2.2
    ∃ k₁ wal k₂ report, rollN c fresh inst seed n targetSum = some k₁ ∧ k₁.exportWal = some wal ∧
      outcomes k₁ h = (List.range n).map (rolled c seed targetSum) ∧
      (∀ d ∈ outcomes k₁ h, (∀ face ∈ d.dice.toList, 1 ≤ face.toNat ∧ face.toNat ≤ 6) ∧
        d.sum.toNat = (d.dice.toList.map UInt8.toNat).sum) ∧
      (k₁.instances[inst]?).map Instance.entitiesLen = some (min n 1024) ∧
      wal.records.length = 2*n ∧
      replayInto c fresh wal = (k₂,.ok report) ∧
      k₁.wal.map WalWriter.chainTip = some report.finalChainTip ∧
      report.submitsReplayed = min n u32Max ∧ report.stepsReplayed = min n u32Max ∧
      outcomes k₂ h = outcomes k₁ h ∧ (verdict k₁ k₂ h report = true ↔ n < 2^31) := by
  let start := (freshKernelWithWal c).1
  let k₁ := (Kernel.machine c).run start (demoCalls c seed targetSum n)
  obtain ⟨hroll,hseated,-⟩ := (fresh_seated c).rolls seed targetSum hn
  have houtcomes := outcomes_rolled (c := c) seed targetSum hn
  obtain ⟨i,hi,hidle⟩ := hseated.idle
  obtain ⟨w,hw,hlen,hcount⟩ := hseated.records
  obtain ⟨w',hrec⟩ := demo_recorded c seed targetSum n
  obtain rfl := Option.some.inj (hw.symm.trans hrec.wal)
  obtain ⟨r,report,hr,htip,hagree⟩ := hrec.replayInto trivial rfl
  obtain ⟨hsubmits,hsteps⟩ := replayInto_counts hr
  have hchain : k₁.wal.map WalWriter.chainTip = some report.finalChainTip := by
    rw [hrec.wal,htip,sealing_chainTip hrec.sealing]
    rfl
  have hsubmitted : report.submitsReplayed = min n u32Max :=
    hsubmits.trans (congrArg (min · u32Max) hcount)
  have hstepped : report.stepsReplayed = min n u32Max :=
    hsteps.trans (congrArg (min · u32Max) (half_stepped hlen hcount))
  have hlogs : outcomes r (freshKernelWithWal c).2.2 = outcomes k₁ (freshKernelWithWal c).2.2 := by
    unfold outcomes
    rw [hagree.observers]
  refine ⟨k₁,Wal.fromWriter w,r,report,hroll,?_,houtcomes,?_,?_,hlen,hr,hchain,hsubmitted,hstepped,
    hlogs,?_⟩
  · rw [Kernel.exportWal,hrec.wal]
    rfl
  · intro d hd
    obtain ⟨j,-,rfl⟩ := List.mem_map.mp (houtcomes ▸ hd)
    exact roll_faces c _ _
  · exact (congrArg (Option.map Instance.entitiesLen) hi).trans (congrArg some hidle.count)
  · have hrecords : k₁.wal.map WalWriter.recordCount = some (2*n) := by
      rw [hrec.wal]
      exact congrArg some hlen
    rw [verdict_iff,hrecords]
    exact ⟨fun hv => (recordsReplayed_all hsubmitted hstepped).mp hv.2.2,
      fun hlt => ⟨hchain,hlogs,(recordsReplayed_all hsubmitted hstepped).mpr hlt⟩⟩

theorem demo_replays_five : ∃ k₁, rollN standIn (freshKernelWithWal standIn).1
    (freshKernelWithWal standIn).2.1 (.replicate 32 0x5A) 5 12 = some k₁ ∧
      (outcomes k₁ (freshKernelWithWal standIn).2.2).map DiceRolled.nonce = [0,1,2,3,4] ∧
      ∃ k₂ report, verdict k₁ k₂ (freshKernelWithWal standIn).2.2 report = true := by
  obtain ⟨k₁,-,k₂,report,hroll,-,houtcomes,-,-,-,-,-,-,-,-,hverdict⟩ :=
    demo_replays standIn (.replicate 32 0x5A) 12 5 (by decide)
  exact ⟨k₁,hroll,by rw [houtcomes]; rfl,k₂,report,hverdict.mpr (by decide)⟩

end Dice
end ArkheKernel
