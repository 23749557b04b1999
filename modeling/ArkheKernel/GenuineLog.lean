import ArkheKernel.ReplayOutcome

/-!
# Which logs a live kernel writes

Replay re-executes, so what it accepts is close to what a kernel can write. The
difference is exactly the submissions: a live kernel chooses their ids itself and
refuses them when the scheduler is full, and replay takes both on trust.
-/

set_option autoImplicit false

namespace ArkheKernel
open OrderedMap PrefixCode

inductive Writes (c : Crypto) (k : Kernel) (n : ℕ) : Micro → WalRecordContent → Prop
  | submit (s : Submission) (i : Instance) (hi : k.instances[s.inst]? = some i)
      (hq : i.schedulerFull = false) : Writes c k n (.request (.submit s))
        (.submit n s.inst s.principal s.actor s.caps.bits s.atTick s.actionTypeCode s.actionBytes
          (i.submit s).1)
  | step (inst : InstanceId) (now : Tick) (caps : CapabilityMask) (x : Execution)
      (hx : k.execution inst now caps = some x) : Writes c k n (.pop inst now caps)
        (.step n inst x.entry.id now caps.bits x.verdict (stateDigest c x.after))

/-- The record admits what the kernel would admit, under the id it would mint. -/
def Genuine (k : Kernel) (rec : WalRecord) : Prop :=
  match rec.content with
  | .submit _ inst principal actor caps atTick typeCode actionBytes id =>
    ∃ i : Instance, k.instances[inst]? = some i ∧ i.schedulerFull = false ∧
      (i.submit ⟨inst,principal,actor,⟨caps⟩,atTick,typeCode,actionBytes⟩).1 = id
  | .step .. => True

structure SameMachine (r k : Kernel) : Prop where
  instances : r.instances = k.instances
  registry : r.actionRegistry = k.actionRegistry

section Genuine
variable {c : Crypto} {k r : Kernel} {n : ℕ} {a : Micro} {content : WalRecordContent}
  {rec : WalRecord}

theorem SameMachine.execution (h : SameMachine r k) (inst : InstanceId) (now : Tick)
    (caps : CapabilityMask) : r.execution inst now caps = k.execution inst now caps := by
  unfold Kernel.execution
  rw [h.instances,h.registry]

theorem SameMachine.objection (h : SameMachine r k) (rec : WalRecord) :
    r.objection c rec = k.objection c rec := by
  unfold Kernel.objection
  cases rec.content with
  | submit seq inst principal actor caps atTick typeCode actionBytes id =>
    dsimp only
    rw [h.instances]
  | step seq inst poppedId now caps verdict digest =>
    dsimp only
    rw [h.execution]

theorem SameMachine.genuine (h : SameMachine r k) (rec : WalRecord) :
    Genuine r rec ↔ Genuine k rec := by
  unfold Genuine
  cases rec.content with
  | submit seq inst principal actor caps atTick typeCode actionBytes id =>
    dsimp only
    rw [h.instances]
  | step seq inst poppedId now caps verdict digest => exact Iff.rfl

theorem SameMachine.replayNext (h : SameMachine r k) (rec : WalRecord) :
    SameMachine (r.replayNext c rec) (k.replayNext c rec) := by
  unfold Kernel.replayNext
  cases rec.content with
  | submit seq inst principal actor caps atTick typeCode actionBytes id =>
    unfold Kernel.submitWithId
    dsimp only
    rw [h.instances]
    cases k.instances[inst]? with
    | none => exact h
    | some i => exact ⟨rfl,h.registry⟩
  | step seq inst poppedId now caps verdict digest =>
    dsimp only
    cases hx : k.execution inst now ⟨caps⟩ with
    | none =>
      rw [Kernel.process_none c true hx,Kernel.process_none c true ((h.execution _ _ _).trans hx)]
      exact h
    | some x =>
      obtain ⟨_,hs⟩ := Kernel.process_some c true hx
      obtain ⟨_,hr⟩ := Kernel.process_some c true ((h.execution _ _ _).trans hx)
      rw [hs,hr]
      exact ⟨by rw [h.instances],h.registry⟩

/-- A record that replays and that a live kernel could have written. -/
def Credible (c : Crypto) (k : Kernel) (rec : WalRecord) : Prop :=
  Unopposed c k rec ∧ Genuine k rec

theorem SameMachine.admits (h : SameMachine r k) (records : List WalRecord) :
    (replaying c).Admits (Credible c) r records ↔ (replaying c).Admits (Credible c) k records := by
  induction records generalizing r k with
  | nil => exact Iff.rfl
  | cons rec records ih =>
    have hp : Credible c r rec ↔ Credible c k rec := by
      unfold Credible Unopposed
      rw [h.objection,h.genuine]
    exact and_congr hp (ih (h.replayNext rec))

theorem input_writes (k : Kernel) (n : ℕ) (ha : a.IsInput) :
    (∃ content, Writes c k n a content) ∨ (Kernel.micro c).next k a = k := by
  cases a with
  | request q =>
    cases q with
    | submit s =>
      rcases Kernel.submit_cases c k s with ⟨e,he⟩ | ⟨i,hi,hq,-⟩
      · exact .inr (congrArg Prod.snd he)
      · exact .inl ⟨_,.submit s i hi hq⟩
    | createInstance config => exact ha.elim
    | registerAction typeCode reg => exact ha.elim
    | registerObserver obs mask => exact ha.elim
    | forceUnload route caps => exact ha.elim
  | pop inst now caps =>
    cases hx : k.execution inst now caps with
    | none => exact .inr (Kernel.pop_none c hx)
    | some x => exact .inl ⟨_,.step inst now caps x hx⟩

theorem submit_eq {s : Submission} {i : Instance} (hi : k.instances[s.inst]? = some i)
    (hq : i.schedulerFull = false) : (k.submit c s).2 = { k with
      instances := k.instances.insert s.inst (i.submit s).2
      wal := k.wal.map (fun w => w.appendSubmit c s.inst s.principal s.actor s.caps.bits s.atTick
        s.actionTypeCode s.actionBytes (i.submit s).1) } := by
  unfold Kernel.submit
  rw [hi]
  dsimp only
  rw [hq]
  rfl

theorem Writes.wal (h : Writes c k n a content) {w : WalWriter} (hw : k.wal = some w)
    (hn : n = satAdd64 w.nextSeq 1) : ∃ w', ((Kernel.micro c).next k a).wal = some w' ∧
      w'.nextSeq = n ∧
        w'.records.map WalRecord.content = w.records.map WalRecord.content ++ [content] := by
  subst hn
  cases h with
  | submit s i hi hq =>
    have hwal : (k.submit c s).2.wal = some (w.appendSubmit c s.inst s.principal s.actor s.caps.bits
        s.atTick s.actionTypeCode s.actionBytes (i.submit s).1) := by
      rw [submit_eq hi hq,hw]
      rfl
    exact ⟨_,hwal,rfl,List.map_append⟩
  | step inst now caps x hx =>
    obtain ⟨_,hp⟩ := Kernel.pop_some c hx
    have hwal : (k.pop c inst now caps).wal = some (w.appendStep c inst x.entry.id now caps.bits
        x.verdict (stateDigest c x.after)) := by
      rw [hp,hw]
      rfl
    exact ⟨_,hwal,rfl,List.map_append⟩

/-- What was written replays, and leads to where the kernel is. -/
theorem Writes.replays (h : Writes c k n a rec.content) : Unopposed c k rec ∧ Genuine k rec ∧
    (Kernel.Everywhere (fun _ i => i.Bounded) k.instances →
      SameMachine (k.replayNext c rec) ((Kernel.micro c).next k a)) := by
  unfold Unopposed Kernel.objection Genuine Kernel.replayNext
  generalize rec.content = content at h
  cases h with
  | submit s i hi hq =>
    dsimp only
    rw [hi]
    refine ⟨rfl,⟨i,rfl,hq,rfl⟩,fun hb => ?_⟩
    have hsub : k.submitWithId s (i.submit s).1 =
        .ok { k with instances := k.instances.insert s.inst (i.submit s).2 } := by
      unfold Kernel.submitWithId
      rw [hi,← submitWithId_eq (hb _ _ hi) s]
    change SameMachine _ (k.submit c s).2
    rw [hsub,submit_eq hi hq]
    exact ⟨rfl,rfl⟩
  | step inst now caps x hx =>
    obtain ⟨_,hp⟩ := Kernel.pop_some c hx
    obtain ⟨_,hs⟩ := Kernel.process_some c true hx
    dsimp only
    rw [hx,hs]
    refine ⟨by simp,trivial,fun _ => ?_⟩
    change SameMachine _ (k.pop c inst now caps)
    rw [hp]
    exact ⟨rfl,rfl⟩

/-- A genuine record that replays is what some input writes. -/
theorem Genuine.written (hg : Genuine k rec) (ho : Unopposed c k rec) :
    ∃ a : Micro, a.IsInput ∧ Writes c k rec.content.seq a rec.content := by
  unfold Unopposed Kernel.objection at ho
  unfold Genuine at hg
  cases hrec : rec.content with
  | submit seq inst principal actor caps atTick typeCode actionBytes id =>
    rw [hrec] at hg
    obtain ⟨i,hi,hq,rfl⟩ := hg
    exact ⟨.request (.submit _),trivial,
      .submit ⟨inst,principal,actor,⟨caps⟩,atTick,typeCode,actionBytes⟩ i hi hq⟩
  | step seq inst poppedId now caps verdict digest =>
    rw [hrec] at ho
    dsimp only at ho
    cases hx : k.execution inst now ⟨caps⟩ with
    | none =>
      rw [hx] at ho
      cases ho
    | some x =>
      rw [hx] at ho
      dsimp only at ho
      split_ifs at ho with hid hv hd
      obtain rfl := not_not.mp hid
      obtain rfl := not_not.mp hv
      obtain rfl := not_not.mp hd
      exact ⟨.pop inst now ⟨caps⟩,trivial,.step inst now ⟨caps⟩ x hx⟩

theorem bounded_next (hb : Kernel.Everywhere (fun _ i => i.Bounded) k.instances) (a : Micro) :
    Kernel.Everywhere (fun _ i => i.Bounded) ((Kernel.micro c).next k a).instances :=
  bounded_preserved.change (Kernel.micro_change c k a) (fun _ _ => trivial) hb

theorem written_admits (as : List Micro) (has : ∀ a ∈ as, a.IsInput) {k : Kernel} {w : WalWriter}
    (hw : k.wal = some w) (hb : Kernel.Everywhere (fun _ i => i.Bounded) k.instances) :
    ∃ w' contents, ((Kernel.micro c).run k as).wal = some w' ∧
      w'.records.map WalRecord.content = w.records.map WalRecord.content ++ contents ∧
      contents = renumbered w.nextSeq contents ∧
      ∀ records : List WalRecord, records.map WalRecord.content = contents →
        (replaying c).Admits (Credible c) k records := by
  induction as generalizing k w with
  | nil =>
    refine ⟨w,[],hw,(List.append_nil _).symm,rfl,fun records hr => ?_⟩
    rw [List.map_eq_nil_iff.mp hr]
    trivial
  | cons a as ih =>
    have hrest := fun b hb => has b (List.mem_cons_of_mem a hb)
    rcases input_writes (c := c) k (satAdd64 w.nextSeq 1) (has a List.mem_cons_self) with
      ⟨content,hc⟩ | hsame
    · obtain ⟨w₁,hw₁,hn,hcs⟩ := hc.wal hw rfl
      obtain ⟨w',contents,hrun,happ,hnum,hadm⟩ := ih hrest hw₁ (bounded_next hb a)
      refine ⟨w',content::contents,hrun,by rw [happ,hcs,List.append_assoc]; rfl,?_,?_⟩
      · have hseq : content.withSeq (satAdd64 w.nextSeq 1) = content := by cases hc <;> rfl
        rw [renumbered,hseq,← hn,← hnum]
      · intro records hr
        obtain ⟨rec,rest,rfl,hrec,hcont⟩ := List.map_eq_cons_iff.mp hr
        rw [← hrec] at hc
        obtain ⟨hu,hg,hsm⟩ := hc.replays
        exact ⟨⟨hu,hg⟩,((hsm hb).admits rest).mpr (hadm rest hcont)⟩
    · obtain ⟨w',contents,hrun,h⟩ := ih hrest hw hb
      refine ⟨w',contents,?_,h⟩
      rw [Transducer.run,hsame]
      exact hrun

theorem admits_written (records : List WalRecord) {k : Kernel} {w : WalWriter}
    (hw : k.wal = some w) (hb : Kernel.Everywhere (fun _ i => i.Bounded) k.instances)
    (hnum : records.map WalRecord.content = renumbered w.nextSeq (records.map WalRecord.content))
    (hadm : (replaying c).Admits (Credible c) k records) :
    ∃ as w', (∀ a ∈ as, a.IsInput) ∧ ((Kernel.micro c).run k as).wal = some w' ∧
      w'.records.map WalRecord.content =
        w.records.map WalRecord.content ++ records.map WalRecord.content := by
  induction records generalizing k w with
  | nil => exact ⟨[],w,fun _ h => absurd h List.not_mem_nil,hw,(List.append_nil _).symm⟩
  | cons rec records ih =>
    rw [List.map_cons,renumbered] at hnum
    obtain ⟨hhead,htail⟩ := List.cons.inj hnum
    obtain ⟨a,ha,hwrites⟩ := hadm.1.2.written hadm.1.1
    have hseq : rec.content.seq = satAdd64 w.nextSeq 1 := by rw [hhead,withSeq_seq]
    obtain ⟨w₁,hw₁,hn,hcs⟩ := hwrites.wal hw hseq
    have hsm := hwrites.replays.2.2 hb
    obtain ⟨as,w',has,hrun,happ⟩ := ih hw₁ (bounded_next hb a)
      (by rw [hn,hseq]; exact htail) ((hsm.admits records).mp hadm.2)
    refine ⟨a::as,w',?_,hrun,by rw [happ,hcs,List.append_assoc]; rfl⟩
    intro b hb'
    rcases List.mem_cons.mp hb' with rfl | hb'
    · exact ha
    · exact has b hb'

end Genuine

/-- The logs that submissions and per-instance steps write after some setup are
exactly those that are numbered without gaps and whose records, replayed into a
kernel set up alike, meet no objection and admit what that kernel would admit. -/
theorem written_logs (c : Crypto) (worldId manifest manifest' : Block) (sigClass : SignatureClass)
    (setup : List Setup) (other : Option WalWriter) (records : List WalRecord) :
    let start := (Kernel.newWithWalSigned c worldId manifest sigClass).setUp c setup
    let fresh := (Kernel.build manifest' other).setUp c setup
    (∃ inputs : List Micro, (∀ a ∈ inputs, a.IsInput) ∧
      (((Kernel.micro c).run start inputs).exportWal).map Wal.contents =
        some (records.map WalRecord.content)) ↔
    records.map WalRecord.content = renumbered 0 (records.map WalRecord.content) ∧
      (replaying c).Admits (Credible c) fresh records := by
  intro start fresh
  have hsame : SameMachine fresh start := by
    have ha := setUp_agrees (c := c) setup (r := Kernel.build manifest' other)
      (k := Kernel.newWithWalSigned c worldId manifest sigClass) ⟨rfl,rfl,rfl⟩ rfl
    exact ⟨ha.instances,ha.registry⟩
  have hw : start.wal = some (.withSignature c worldId manifest sigClass) := (setUp_keeps c setup _).1
  have hb := setUp_bounded c setup (Kernel.newWithWalSigned c worldId manifest sigClass)
    (Kernel.build_everywhere _ _ _)
  rw [hsame.admits]
  constructor
  · rintro ⟨inputs,hin,hexp⟩
    obtain ⟨w',contents,hrun,happ,hnum,hadm⟩ := written_admits (c := c) inputs hin hw hb
    have hc : contents = records.map WalRecord.content := by
      rw [Kernel.exportWal,hrun] at hexp
      exact happ.symm.trans (Option.some.inj hexp)
    rw [← hc]
    exact ⟨hnum,hadm records hc.symm⟩
  · rintro ⟨hnum,hadm⟩
    obtain ⟨inputs,w',hin,hrun,happ⟩ := admits_written records hw hb hnum hadm
    refine ⟨inputs,hin,?_⟩
    rw [Kernel.exportWal,hrun]
    exact congrArg some happ

end ArkheKernel
