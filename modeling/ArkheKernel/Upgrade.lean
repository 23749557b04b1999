import ArkheKernel.Isolation
import ArkheKernel.ReplayOutcome

/-!
# An old log under a larger registry

An entry whose type code nobody registered is popped and skipped, and the log
says so. Registering the action later keeps every other record as it was, but
takes back that one: replay then runs what the log says was skipped.
-/

set_option autoImplicit false

namespace ArkheKernel
open OrderedMap PrefixCode

def ActionRegistry.Extends (registry registry' : ActionRegistry) : Prop :=
  ∀ (t : TypeCode) (reg : ActionRegistration), registry[t]? = some reg → registry'[t]? = some reg

def Kernel.withRegistry (k : Kernel) (registry : ActionRegistry) : Kernel :=
  { k with actionRegistry := registry }

def Execution.Missed (x : Execution) (registry' : ActionRegistry) : Prop :=
  x.entry.actionTypeCode ∉ x.registry ∧ x.entry.actionTypeCode ∈ registry'

instance (x : Execution) (registry' : ActionRegistry) : Decidable (x.Missed registry') :=
  inferInstanceAs (Decidable (_ ∧ _))

section Lookup
variable {registry registry' : ActionRegistry} {e : ScheduledEntry}

theorem decode_unregistered (h : e.actionTypeCode ∉ registry) :
    decodeAction registry e = .error .unregistered := by
  unfold decodeAction
  rw [(not_mem_iff_get registry _).mp h]

theorem decode_registered (h : e.actionTypeCode ∈ registry) :
    decodeAction registry e ≠ .error .unregistered := by
  obtain ⟨reg,hr⟩ := (mem_iff_get registry _).mp h
  unfold decodeAction
  rw [hr]
  dsimp only
  split
  · exact fun he => by cases he
  · exact fun he => by cases he

theorem decode_extends (hext : registry.Extends registry')
    (h : ¬ (e.actionTypeCode ∉ registry ∧ e.actionTypeCode ∈ registry')) :
    decodeAction registry' e = decodeAction registry e := by
  by_cases hm : e.actionTypeCode ∈ registry
  · obtain ⟨reg,hr⟩ := (mem_iff_get registry _).mp hm
    unfold decodeAction
    rw [hr,hext _ _ hr]
  · rw [decode_unregistered hm,decode_unregistered (fun hm' => h ⟨hm,hm'⟩)]

end Lookup

section Replaying
variable {c : Crypto} {k : Kernel} {registry' : ActionRegistry}

theorem withRegistry_instances : (k.withRegistry registry').instances = k.instances := rfl

theorem withRegistry_actionRegistry : (k.withRegistry registry').actionRegistry = registry' := rfl

theorem withRegistry_stepScratch : (k.withRegistry registry').stepScratch = k.stepScratch := rfl

theorem execution_withRegistry (inst : InstanceId) (now : Tick) (caps : CapabilityMask) :
    (k.withRegistry registry').execution inst now caps =
      (k.execution inst now caps).map (fun x => { x with registry := registry' }) := by
  unfold Kernel.execution Kernel.withRegistry
  dsimp only
  cases k.instances[inst]? with
  | none => rfl
  | some i =>
    dsimp only
    unfold Execution.ofPop
    split <;> rfl

theorem process_withRegistry (hext : k.actionRegistry.Extends registry') (inst : InstanceId)
    (now : Tick) (caps : CapabilityMask)
    (h : ∀ x ∈ k.execution inst now caps, ¬ x.Missed registry') (measureDigest : Bool) :
    (k.withRegistry registry').processInstanceRecord c inst now caps measureDigest =
      (k.processInstanceRecord c inst now caps measureDigest).map
        (fun p => (p.1,p.2.withRegistry registry')) := by
  have hcore (i : Instance) (hi : k.instances[inst]? = some i) :
      stepOneCore c inst i registry' k.stepScratch now caps measureDigest =
        stepOneCore c inst i k.actionRegistry k.stepScratch now caps measureDigest := by
    unfold stepOneCore
    cases hp : i.scheduler.popDue now with
    | none => rfl
    | some p =>
      have hx : k.execution inst now caps = some ⟨inst,i,k.actionRegistry,now,caps,p.1,p.2,hp⟩ := by
        unfold Kernel.execution
        rw [hi]
        exact Execution.ofPop_eq hp
      dsimp only
      rw [decode_extends hext (h _ hx)]
  unfold Kernel.processInstanceRecord
  rw [withRegistry_instances]
  cases hi : k.instances[inst]? with
  | none => rfl
  | some i =>
    dsimp only
    rw [withRegistry_actionRegistry,withRegistry_stepScratch,hcore i hi]
    cases stepOneCore c inst i k.actionRegistry k.stepScratch now caps measureDigest <;> rfl

theorem record_withRegistry (hext : k.actionRegistry.Extends registry') (writer : WalWriter)
    (report : ReplayReport) (rec : WalRecord)
    (h : ∀ x ∈ (replaying c).out k rec, ¬ x.Missed registry') :
    replayRecord c (k.withRegistry registry') writer report rec =
      ((replayRecord c k writer report rec).1.withRegistry registry',
        (replayRecord c k writer report rec).2) := by
  unfold replaying at h
  unfold replayRecord
  cases hrec : rec.content with
  | submit seq inst principal actor caps atTick typeCode actionBytes id =>
    dsimp only
    unfold Kernel.submitWithId
    rw [withRegistry_instances]
    dsimp only
    cases k.instances[inst]? <;> rfl
  | step seq inst poppedId now caps verdict digest =>
    simp only [hrec,Option.mem_toList] at h
    dsimp only
    rw [process_withRegistry hext inst now ⟨caps⟩ h]
    cases k.processInstanceRecord c inst now ⟨caps⟩ true with
    | none => rfl
    | some p =>
      dsimp only [Option.map_some]
      split_ifs <;> rfl

theorem record_missed {writer writer' : WalWriter} {report report' : ReplayReport} {k' : Kernel}
    {rec : WalRecord} (h : replayRecord c k writer report rec = (k',.ok (writer',report')))
    {x : Execution} (hx : x ∈ (replaying c).out k rec) (hm : x.Missed registry') :
    ∃ r seq verdict, replayRecord c (k.withRegistry registry') writer report rec =
      (r,.error (.verdictDivergence seq (.skipped .unregistered) verdict)) := by
  unfold replaying at hx
  unfold replayRecord at h ⊢
  cases hrec : rec.content with
  | submit seq inst principal actor caps atTick typeCode actionBytes id =>
    simp only [hrec] at hx
    cases hx
  | step seq inst poppedId now caps verdict digest =>
    simp only [hrec,Option.mem_toList] at hx
    rw [hrec] at h
    dsimp only at h ⊢
    obtain ⟨_,hs⟩ := Kernel.process_some c true hx
    have hx' : (k.withRegistry registry').execution inst now ⟨caps⟩ =
        some { x with registry := registry' } := by
      rw [execution_withRegistry,hx]
      rfl
    obtain ⟨_,hs'⟩ := Kernel.process_some c true hx'
    rw [hs] at h
    rw [hs']
    dsimp only at h ⊢
    have hskip : x.verdict = .skipped .unregistered := by
      have ha : x.action = .error .unregistered := decode_unregistered hm.1
      unfold Execution.verdict
      rw [ha]
    have hrun : Execution.verdict { x with registry := registry' } ≠ .skipped .unregistered := by
      have ha : Execution.action { x with registry := registry' } ≠ .error .unregistered :=
        decode_registered hm.2
      unfold Execution.verdict
      split
      · next reason hr =>
        intro he
        cases he
        exact ha hr
      · split_ifs <;> exact fun he => by cases he
    split at h
    · cases h
    · next hid =>
      split at h
      · cases h
      · next hv =>
        rw [hskip,not_not] at hv
        rw [← hv,if_neg hid,if_pos hrun]
        exact ⟨_,_,_,rfl⟩

theorem replayFrom_withRegistry (hext : k.actionRegistry.Extends registry') {writer : WalWriter}
    {report : ReplayReport} {records : List WalRecord} {r : Kernel} {out : WalWriter × ReplayReport}
    (h : replayFrom c k writer report records = (r,.ok out)) :
    ((∀ x ∈ (replaying c).trace k records, ¬ x.Missed registry') →
      replayFrom c (k.withRegistry registry') writer report records =
        (r.withRegistry registry',.ok out)) ∧
    ((∃ x ∈ (replaying c).trace k records, x.Missed registry') → ∃ r' seq verdict,
      replayFrom c (k.withRegistry registry') writer report records =
        (r',.error (.verdictDivergence seq (.skipped .unregistered) verdict))) := by
  induction records generalizing k writer report with
  | nil =>
    obtain ⟨rfl,he⟩ := Prod.mk.inj h
    obtain rfl := Except.ok.inj he
    exact ⟨fun _ => rfl,fun ⟨x,hx,_⟩ => absurd hx List.not_mem_nil⟩
  | cons rec records ih =>
    obtain ⟨k₁,res,hr⟩ : ∃ k₁ res, replayRecord c k writer report rec = (k₁,res) := ⟨_,_,rfl⟩
    rw [replayFrom,hr] at h
    cases res with
    | error e => cases h
    | ok next =>
      have hk : k₁ = (replaying c).next k rec := by
        have hkernel := replayRecord_kernel c k writer report rec
        rw [hr] at hkernel
        exact hkernel
      have hext₁ : k₁.actionRegistry.Extends registry' := by
        have hreg : k₁.actionRegistry = k.actionRegistry := by
          rw [hk]
          exact (SameShape.replayNext k rec).registry
        rw [hreg]
        exact hext
      obtain ⟨hkept,hbroken⟩ := ih hext₁ h
      rw [hk] at hkept hbroken
      rw [Transducer.trace,replayFrom]
      by_cases hm : ∃ x ∈ (replaying c).out k rec, x.Missed registry'
      · obtain ⟨x,hx,hmx⟩ := hm
        obtain ⟨q,seq,verdict,hq⟩ := record_missed hr hx hmx
        refine ⟨fun ha => absurd hmx (ha x (List.mem_append_left _ hx)),fun _ => ?_⟩
        rw [hq]
        exact ⟨q,seq,verdict,rfl⟩
      · rw [record_withRegistry hext writer report rec (fun x hx hmx => hm ⟨x,hx,hmx⟩),hr,hk]
        refine ⟨fun ha => hkept (fun x hx => ha x (List.mem_append_right _ hx)),?_⟩
        rintro ⟨x,hx,hmx⟩
        rcases List.mem_append.mp hx with hx | hx
        · exact absurd ⟨x,hx,hmx⟩ hm
        · exact hbroken ⟨x,hx,hmx⟩

theorem replayRecords_withRegistry (hext : k.actionRegistry.Extends registry') {w : Wal}
    {r : Kernel} {report : ReplayReport} (h : replayRecords c k w = (r,.ok report)) :
    ((∀ x ∈ (replaying c).trace k w.records, ¬ x.Missed registry') →
      replayRecords c (k.withRegistry registry') w = (r.withRegistry registry',.ok report)) ∧
    ((∃ x ∈ (replaying c).trace k w.records, x.Missed registry') → ∃ r' seq verdict,
      replayRecords c (k.withRegistry registry') w =
        (r',.error (.verdictDivergence seq (.skipped .unregistered) verdict))) := by
  unfold replayRecords at h ⊢
  obtain ⟨k₁,res,hf⟩ : ∃ k₁ res, replayFrom c k (.rebuildFromHeader c w.header) {} w.records =
    (k₁,res) := ⟨_,_,rfl⟩
  rw [hf] at h
  cases res with
  | error e => cases h
  | ok out =>
    obtain ⟨hkept,hbroken⟩ := replayFrom_withRegistry hext hf
    dsimp only at h
    split at h
    · cases h
    · next htip =>
      obtain ⟨rfl,hreport⟩ := Prod.mk.inj h
      constructor
      · intro ha
        rw [hkept ha]
        dsimp only
        rw [if_neg htip,hreport]
      · intro hm
        obtain ⟨q,seq,verdict,hq⟩ := hbroken hm
        rw [hq]
        exact ⟨q,seq,verdict,rfl⟩

end Replaying

/-- Registering more actions leaves the replay of an accepted log alone unless
one of its steps found no action and would find one now. The first such step
diverges in its verdict. -/
theorem registering_replays_iff (c : Crypto) (k r : Kernel) (w : Wal) (report : ReplayReport)
    (registry' : ActionRegistry) (hext : k.actionRegistry.Extends registry')
    (h : replayInto c k w = (r,.ok report)) :
    ((∀ x ∈ (replaying c).trace k w.records, ¬ x.Missed registry') ↔
      replayInto c (k.withRegistry registry') w = (r.withRegistry registry',.ok report)) ∧
    ((∃ x ∈ (replaying c).trace k w.records, x.Missed registry') ↔ ∃ r' seq verdict,
      replayInto c (k.withRegistry registry') w =
        (r',.error (.verdictDivergence seq (.skipped .unregistered) verdict))) := by
  have hs : w.Sound c k := by
    by_contra hs
    obtain ⟨e,he⟩ := replayInto_unsound hs
    rw [h] at he
    cases he
  have hs' : w.Sound c (k.withRegistry registry') := hs
  rw [replayInto_sound hs] at h
  rw [replayInto_sound hs']
  obtain ⟨hkept,hbroken⟩ := replayRecords_withRegistry hext h
  refine ⟨⟨hkept,fun he x hx hm => ?_⟩,⟨hbroken,?_⟩⟩
  · obtain ⟨_,_,_,hb⟩ := hbroken ⟨x,hx,hm⟩
    rw [he] at hb
    cases hb
  · rintro ⟨_,_,_,hb⟩
    by_contra hn
    rw [hkept (fun x hx hm => hn ⟨x,hx,hm⟩)] at hb
    cases hb

def partlyRegistered : Kernel := (Kernel.newWithWal standIn zeroBlock zeroBlock).setUp standIn
  [.registerAction (.clamp 7) (.constant [.spawnEntity ⟨.succ 0⟩ .system]), .createInstance {}]

def skippingLog (types : List ℕ) : Wal := ((Kernel.machine standIn).run partlyRegistered
  ((types.map (fun t => .request (.submit ⟨⟨.succ 0⟩,.external ⟨1⟩,none,.empty,⟨1⟩,.clamp t,[]⟩))) ++
    types.map (fun _ => .step ⟨1⟩ .empty))).exportWal.getD
      ⟨(WalWriter.new standIn zeroBlock zeroBlock).header,[]⟩

def enlarged : ActionRegistry := partlyRegistered.actionRegistry.insert (.clamp 8) (.constant [])

theorem enlarged_extends : partlyRegistered.actionRegistry.Extends enlarged := by
  intro t reg ht
  unfold enlarged
  rw [get_insert,if_neg]
  · exact ht
  · rintro rfl
    have hn : (partlyRegistered.actionRegistry[(TypeCode.clamp 8)]?).isNone = true := by decide +kernel
    rw [ht] at hn
    cases hn

theorem registering_replays_iff_enlarged :
    (∃ r report, replayInto standIn (partlyRegistered.withRegistry enlarged) (skippingLog [7]) =
      (r,.ok report)) ∧
    ∃ r seq verdict, replayInto standIn (partlyRegistered.withRegistry enlarged)
      (skippingLog [7,8]) = (r,.error (.verdictDivergence seq (.skipped .unregistered) verdict)) := by
  have hone : (replayInto standIn partlyRegistered (skippingLog [7])).2.isOk = true := by
    decide +kernel
  have htwo : (replayInto standIn partlyRegistered (skippingLog [7,8])).2.isOk = true := by
    decide +kernel
  obtain ⟨r,report,hr⟩ := replay_isOk hone
  obtain ⟨r',report',hr'⟩ := replay_isOk htwo
  refine ⟨⟨_,_,(registering_replays_iff standIn partlyRegistered r _ report enlarged
    enlarged_extends hr).1.mp ?_⟩,(registering_replays_iff standIn partlyRegistered r' _ report'
    enlarged enlarged_extends hr').2.mp ?_⟩
  · decide +kernel
  · decide +kernel

end ArkheKernel
