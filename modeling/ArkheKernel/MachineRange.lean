import ArkheKernel.WalFile

/-!
# Machine ranges

Numbers of the model are unbounded where the source has machine words. From
calls and operations within the words, no reachable kernel holds a number
outside them: every counter saturates and every total stays below its word.
-/

set_option autoImplicit false

namespace ArkheKernel
open OrderedMap PrefixCode

structure Scheduler.InWords (s : Scheduler) : Prop where
  ready : Within SchedKey.Fits ScheduledEntry.Fits s.ready
  byId : Within (fun _ => True) SchedKey.Fits s.byId
  nextSeq : s.nextSeq ≤ u64Max
  nextId : s.nextId ≤ u64Max

structure ResourceLedger.InWords (l : ResourceLedger) : Prop where
  componentSizes : Within (fun _ => True) (· ≤ u64Max) l.componentSizes
  totalBytes : l.totalBytes ≤ u64Max

structure Instance.InWords (i : Instance) : Prop where
  config : i.config.Fits
  entities : Within (fun _ => True) EntityMeta.Fits i.entities
  components : Within (fun _ => True) (fun bs : Bytes => bs.length ≤ u64Max) i.components
  scheduler : i.scheduler.InWords
  idCounters : i.idCounters.Fits
  ledger : i.ledger.InWords
  inflightRefs : Within RouteId.Fits (· ≤ u32Max) i.inflightRefs
  signalInbox : Within RouteId.Fits (fun q : List InboundSignal => ∀ s ∈ q, s.Fits) i.signalInbox
  inboxSeq : i.inboxSeq ≤ u64Max
  wallRemainder : i.wallRemainder < 2^128
  localTick : i.localTick ≤ u64Max

namespace Scheduler
variable {s : Scheduler}

theorem InWords.scheduleWithId (h : s.InWords) {e : ScheduledEntry} (he : e.Fits) :
    (s.scheduleWithId e).InWords := by
  have hkey : SchedKey.Fits ⟨e.atTick,s.nextSeq,e.id⟩ := ⟨he.1,h.nextSeq⟩
  refine ⟨h.ready.insert hkey he,h.byId.insert trivial hkey,satAdd64_le _ _,?_⟩
  rw [scheduleWithId_nextId]
  exact max_le h.nextId e.id.raw.le

theorem InWords.cancel (h : s.InWords) (id : ScheduledActionId) : (s.cancel id).2.InWords := by
  unfold Scheduler.cancel
  split
  · exact h
  · next key _ =>
    split
    · exact ⟨h.ready,h.byId.erase id,h.nextSeq,h.nextId⟩
    · exact ⟨h.ready.erase key,h.byId.erase id,h.nextSeq,h.nextId⟩

theorem InWords.popDue (h : s.InWords) {s' : Scheduler} {now : Tick} {e : ScheduledEntry}
    (hp : s.popDue now = some (e,s')) : e.Fits ∧ s'.InWords := by
  obtain ⟨key,hkey,-,-,rfl⟩ := popDue_some hp
  exact ⟨(h.ready key e hkey).2,h.ready.erase key,h.byId.erase e.id,h.nextSeq,h.nextId⟩

end Scheduler

namespace ResourceLedger
variable {l : ResourceLedger}

theorem freeRows_total_le (acc : ℕ × ResourceLedger) (ks : List ComponentKey) :
    (ks.foldl freeRow acc).2.totalBytes ≤ acc.2.totalBytes := by
  induction ks generalizing acc with
  | nil => exact le_refl _
  | cons k ks ih =>
    refine (ih (freeRow acc k)).trans ?_
    unfold freeRow
    split
    · exact Nat.sub_le _ _
    · exact le_refl _

theorem InWords.removeEntity (h : l.InWords) (id : EntityId) : (l.removeEntity id).2.InWords := by
  constructor
  · refine h.componentSizes.of_get (fun k v hk => ?_)
    rw [removeEntity_size] at hk
    split at hk
    · cases hk
    · exact hk
  · unfold ResourceLedger.removeEntity
    split
    · exact (freeRows_total_le _ _).trans h.totalBytes
    · exact h.totalBytes

theorem InWords.addComponent (h : l.InWords) (e : EntityId) (t : TypeCode) {size : ℕ}
    (hs : size ≤ u64Max) : (l.addComponent e t size).2.InWords := by
  unfold ResourceLedger.addComponent
  split
  · refine ⟨h.componentSizes.insert trivial hs,?_⟩
    dsimp only
    split
    · split
      · exact satAdd64_le _ _
      · exact (Nat.sub_le _ _).trans h.totalBytes
    · exact satAdd64_le _ _
  · exact h

theorem InWords.removeComponent (h : l.InWords) (e : EntityId) (t : TypeCode) (size : ℕ) :
    (l.removeComponent e t size).2.InWords := by
  unfold ResourceLedger.removeComponent
  split
  · dsimp only
    split
    · exact ⟨h.componentSizes.erase _,(Nat.sub_le _ _).trans h.totalBytes⟩
    · exact h
  · exact h

end ResourceLedger

def Op.Fits : Op → Prop
  | .spawnEntity _ owner => owner.Fits
  | .setComponent _ _ bytes size => bytes.length ≤ u64Max ∧ size ≤ u64Max
  | .scheduleAction atTick _ _ actionBytes => atTick.val ≤ u64Max ∧ actionBytes.length ≤ u64Max
  | .sendSignal _ route payload => route.Fits ∧ payload.length ≤ u64Max
  | _ => True

def StagedStateDelta.Fits : StagedStateDelta → Prop
  | .spawnEntity _ m => m.Fits
  | .setComponent _ _ bytes _ => bytes.length ≤ u64Max
  | _ => True

def ScheduledEntryDelta.Fits : ScheduledEntryDelta → Prop
  | .add entry => entry.Fits
  | .remove _ => True

def LedgerOp.Fits : LedgerOp → Prop
  | .addComponent _ _ size => size ≤ u64Max
  | _ => True

structure PendingSignal.Fits (s : PendingSignal) : Prop where
  route : s.route.Fits
  payload : s.payload.length ≤ u64Max
  principal : s.principal.Fits

structure StepStage.InWords (s : StepStage) : Prop where
  stateOps : ∀ d ∈ s.stateOps, d.Fits
  scheduleDeltas : ∀ d ∈ s.scheduleDeltas, d.Fits
  pendingSignals : ∀ p ∈ s.pendingSignals, p.Fits
  ledgerOps : ∀ d ∈ s.ledgerOps, d.Fits

theorem forall_mem_snoc {α : Type} {p : α → Prop} {as : List α} {a : α} (h : ∀ b ∈ as, p b)
    (ha : p a) : ∀ b ∈ as ++ [a], p b :=
  List.forall_mem_append.mpr ⟨h,List.forall_mem_singleton.mpr ha⟩

theorem dispatch_inWords {effect : Effect} {stage : StepStage} {now : Tick} (hs : stage.InWords)
    (hp : effect.principal.Fits) (ho : effect.op.Fits) (hn : now.val ≤ u64Max) (n : ℕ)
    (caps : CapabilityMask) : (dispatch effect stage now n caps).1.InWords := by
  obtain ⟨instId,principal,op⟩ := effect
  cases op with
  | spawnEntity id owner =>
    exact ⟨forall_mem_snoc hs.stateOps ⟨ho,hn⟩,hs.scheduleDeltas,hs.pendingSignals,
      forall_mem_snoc hs.ledgerOps trivial⟩
  | despawnEntity id =>
    exact ⟨forall_mem_snoc hs.stateOps trivial,hs.scheduleDeltas,hs.pendingSignals,
      forall_mem_snoc hs.ledgerOps trivial⟩
  | setComponent entity typeCode bytes size =>
    exact ⟨forall_mem_snoc hs.stateOps ho.1,hs.scheduleDeltas,hs.pendingSignals,
      forall_mem_snoc hs.ledgerOps ho.2⟩
  | removeComponent entity typeCode size =>
    exact ⟨forall_mem_snoc hs.stateOps trivial,hs.scheduleDeltas,hs.pendingSignals,
      forall_mem_snoc hs.ledgerOps trivial⟩
  | emitEvent actor eventTypeCode eventBytes =>
    exact ⟨hs.stateOps,hs.scheduleDeltas,hs.pendingSignals,hs.ledgerOps⟩
  | scheduleAction atTick actor actionTypeCode actionBytes =>
    exact ⟨hs.stateOps,forall_mem_snoc hs.scheduleDeltas ⟨ho.1,hp,ho.2⟩,hs.pendingSignals,
      hs.ledgerOps⟩
  | sendSignal target route payload =>
    exact ⟨hs.stateOps,hs.scheduleDeltas,forall_mem_snoc hs.pendingSignals ⟨ho.1,ho.2,hp⟩,
      hs.ledgerOps⟩

section Apply
variable {i : Instance}

theorem applyStateOps_inWords {ds : List StagedStateDelta} (h : ∀ d ∈ ds, d.Fits)
    (he : Within (fun _ => True) EntityMeta.Fits i.entities)
    (hc : Within (fun _ => True) (fun bs : Bytes => bs.length ≤ u64Max) i.components) :
    Within (fun _ => True) EntityMeta.Fits (ds.foldl applyStateOp i).entities ∧
      Within (fun _ => True) (fun bs : Bytes => bs.length ≤ u64Max)
        (ds.foldl applyStateOp i).components := by
  induction ds generalizing i with
  | nil => exact ⟨he,hc⟩
  | cons d ds ih =>
    have hd := h d List.mem_cons_self
    have hds := fun d' hd' => h d' (List.mem_cons_of_mem _ hd')
    cases d with
    | spawnEntity id m => exact ih hds (he.insert trivial hd) hc
    | despawnEntity id => exact ih hds (he.erase id) (hc.eraseAll _)
    | removeComponent entity typeCode size => exact ih hds he (hc.erase _)
    | setComponent entity typeCode bytes size =>
      rw [List.foldl_cons,applyStateOp]
      split
      · exact ih hds he (hc.insert trivial hd)
      · exact ih hds he hc

theorem applyLedgerOps_inWords {ds : List LedgerOp} (h : ∀ d ∈ ds, d.Fits) {l : ResourceLedger}
    (hl : l.InWords) : (ds.foldl applyLedgerOp l).InWords := by
  induction ds generalizing l with
  | nil => exact hl
  | cons d ds ih =>
    refine ih (fun d' hd' => h d' (List.mem_cons_of_mem _ hd')) ?_
    have hd := h d List.mem_cons_self
    cases d with
    | addEntity id => exact ⟨hl.componentSizes,hl.totalBytes⟩
    | removeEntity id => exact hl.removeEntity id
    | addComponent entity typeCode size => exact hl.addComponent entity typeCode hd
    | removeComponent entity typeCode size => exact hl.removeComponent entity typeCode size

theorem applyScheduleDeltas_inWords {ds : List ScheduledEntryDelta} (h : ∀ d ∈ ds, d.Fits)
    {s : Scheduler} (hs : s.InWords) : (ds.foldl applyScheduleDelta s).InWords := by
  induction ds generalizing s with
  | nil => exact hs
  | cons d ds ih =>
    refine ih (fun d' hd' => h d' (List.mem_cons_of_mem _ hd')) ?_
    have hd := h d List.mem_cons_self
    cases d with
    | add entry => exact hs.scheduleWithId hd
    | remove id => exact hs.cancel id

theorem applyStage_inWords (h : i.InWords) {stage : StepStage} (hs : stage.InWords) :
    (applyStage i stage).1.InWords := by
  have hmaps := applyStage_maps i stage
  obtain ⟨he,hc⟩ := applyStateOps_inWords hs.stateOps h.entities h.components
  rw [← hmaps.1] at he
  rw [← hmaps.2] at hc
  obtain ⟨es,cs,hf⟩ := applyStage_frame i stage
  rw [hf] at he hc ⊢
  have hwall : satAdd128 i.wallRemainder stage.wallRemainderDelta < 2^128 :=
    lt_of_le_of_lt (Nat.min_le_right _ _) (by decide)
  exact ⟨h.config,he,hc,applyScheduleDeltas_inWords hs.scheduleDeltas h.scheduler,
    ⟨satAdd64_le _ _,satAdd64_le _ _,satAdd64_le _ _⟩,applyLedgerOps_inWords hs.ledgerOps h.ledger,
    h.inflightRefs,h.signalInbox,h.inboxSeq,hwall,satAdd64_le _ _⟩

end Apply

namespace Instance
variable {i : Instance}

theorem new_inWords (id : InstanceId) {config : InstanceConfig} (h : config.Fits) :
    (new id config).InWords :=
  ⟨h,within_empty,within_empty,⟨within_empty,within_empty,Nat.zero_le _,Nat.zero_le _⟩,
    ⟨Nat.zero_le _,Nat.zero_le _,Nat.zero_le _⟩,⟨within_empty,Nat.zero_le _⟩,within_empty,
    within_empty,Nat.zero_le _,show 0 < 2^128 by decide,Nat.zero_le _⟩

theorem InWords.submit (h : i.InWords) {s : Submission}
    (hs : (s.entry (i.submit s).1).Fits) : (i.submit s).2.InWords :=
  { h with
    scheduler := h.scheduler.scheduleWithId hs
    idCounters := ⟨h.idCounters.1,satAdd64_le _ _,h.idCounters.2.2⟩ }

theorem InWords.accept (h : i.InWords) (source : InstanceId) {sig : PendingSignal} (hs : sig.Fits) :
    (i.accept source sig).InWords := by
  have hq : ∀ s ∈ i.signalInbox.getD sig.route [], s.Fits := by
    rw [Std.ExtTreeMap.getD_eq_getD_getElem?]
    cases hr : i.signalInbox[sig.route]? with
    | none => exact List.forall_mem_nil _
    | some q => exact (h.signalInbox sig.route q hr).2
  exact { h with
    inflightRefs := h.inflightRefs.insert hs.route (Nat.min_le_right _ _)
    signalInbox := h.signalInbox.insert hs.route
      (forall_mem_snoc hq ⟨hs.principal,hs.payload,h.inboxSeq⟩)
    inboxSeq := satAdd64_le _ _ }

theorem InWords.receiveAll (h : i.InWords) (source id : InstanceId) {sigs : List PendingSignal}
    (hs : ∀ sig ∈ sigs, sig.Fits) : (i.receiveAll source id sigs).InWords := by
  induction sigs generalizing i with
  | nil => exact h
  | cons sig sigs ih =>
    refine ih ?_ (fun s hm => hs s (List.mem_cons_of_mem _ hm))
    dsimp only
    unfold Instance.receive
    split
    · exact h.accept source (hs sig List.mem_cons_self)
    · exact h

end Instance

theorem Execution.after_inWords (x : Execution) (h : x.before.InWords) (hn : x.now.val ≤ u64Max)
    (ho : ∀ op ∈ x.ops, op.Fits) :
    x.after.InWords ∧ ∀ sig ∈ x.stage.pendingSignals, sig.Fits := by
  obtain ⟨he,hrest⟩ := h.scheduler.popDue x.popped
  have hstart : x.start.InWords := { h with scheduler := hrest }
  have hempty : StepStage.InWords {} :=
    ⟨List.forall_mem_nil _,List.forall_mem_nil _,List.forall_mem_nil _,List.forall_mem_nil _⟩
  have hgate : x.gate.stage.InWords :=
    gateLoop_invariant x.start x.instId x.entry.principal x.caps x.now (fun s _ => s.InWords) {}
      x.ops hempty
      (fun s n evs hs => ⟨hs.stateOps,hs.scheduleDeltas,hs.pendingSignals,hs.ledgerOps⟩)
      (fun s n op hop _ _ hs => dispatch_inWords hs he.2.1 (ho op hop) hn n x.caps)
  unfold after stage
  split
  · exact ⟨applyStage_inWords hstart hgate,hgate.pendingSignals⟩
  · exact ⟨hstart,hempty.pendingSignals⟩

def Item.Fits : Item → Prop
  | .created _ config => config.Fits
  | .admitted _ entry => entry.Fits
  | .executed x => x.now.val ≤ u64Max ∧ ∀ op ∈ x.ops, op.Fits

namespace Kernel
variable {c : Crypto} {k : Kernel}

theorem change_inWords {m m' : BTreeMap InstanceId Instance} {items : List Item}
    (hc : Change m items m') (hf : ∀ item ∈ items, item.Fits)
    (hm : Everywhere (fun _ i => i.InWords) m) : Everywhere (fun _ i => i.InWords) m' := by
  cases hc with
  | created id config => exact hm.insert (Instance.new_inWords id (hf _ (List.mem_singleton_self _)))
  | admitted s i hi hq => exact hm.insert ((hm _ _ hi).submit (hf _ (List.mem_singleton_self _)))
  | executed x hx =>
    obtain ⟨hn,ho⟩ := hf _ (List.mem_singleton_self _)
    obtain ⟨hafter,hsigs⟩ := x.after_inWords (hm _ _ hx) hn ho
    exact everywhere_settle x (hafter.receiveAll _ _ hsigs)
      (fun id i hi => (hm id i hi).receiveAll _ _ hsigs)
  | unloaded route =>
    refine everywhere_map (fun id i hi => ?_)
    have h := hm id i hi
    exact { h with inflightRefs := h.inflightRefs.erase route }
  | silent => exact hm

theorem out_fits {a : Micro} (ha : a.Fits)
    (ho : ∀ x, .executed x ∈ (micro c).out k a → ∀ op ∈ x.ops, op.Fits) :
    ∀ item ∈ (micro c).out k a, item.Fits := by
  intro item hitem
  cases a with
  | request r =>
    cases r with
    | createInstance config =>
      rw [List.mem_singleton.mp hitem]
      exact ha
    | submit s =>
      change item ∈ k.served c (.submit s) at hitem
      unfold served at hitem
      dsimp only at hitem
      split at hitem
      · rw [List.mem_singleton.mp hitem]
        exact ⟨ha.atTick,ha.principal,ha.actionBytes⟩
      · cases hitem
    | _ => cases hitem
  | pop inst now caps =>
    change item ∈ ((k.execution inst now caps).map Item.executed).toList at hitem
    obtain ⟨x,hexec,rfl⟩ := Option.map_eq_some_iff.mp (Option.mem_toList.mp hitem)
    obtain ⟨-,-,-,hnow,-⟩ := execution_some hexec
    refine ⟨by rw [hnow]; exact ha,ho x ?_⟩
    change Item.executed x ∈ ((k.execution inst now caps).map Item.executed).toList
    rw [hexec]
    exact List.mem_singleton_self _

theorem run_inWords (as : List Micro) (ha : ∀ a ∈ as, a.Fits)
    (ho : ∀ x, .executed x ∈ (micro c).trace k as → ∀ op ∈ x.ops, op.Fits)
    (hk : Everywhere (fun _ i => i.InWords) k.instances) :
    Everywhere (fun _ i => i.InWords) ((micro c).run k as).instances := by
  induction as generalizing k with
  | nil => exact hk
  | cons a as ih =>
    have hf := out_fits (c := c) (ha a List.mem_cons_self)
      (fun x hx => ho x (List.mem_append_left _ hx))
    exact ih (fun b hb => ha b (List.mem_cons_of_mem _ hb))
      (fun x hx => ho x (List.mem_append_right _ hx)) (change_inWords (micro_change c k a) hf hk)

theorem micro_nextInstanceId_le (k : Kernel) (a : Micro) (h : k.nextInstanceId ≤ u64Max) :
    ((micro c).next k a).nextInstanceId ≤ u64Max := by
  cases a with
  | request r =>
    cases r with
    | createInstance config => exact satAdd64_le _ _
    | submit s =>
      change (k.submit c s).2.nextInstanceId ≤ u64Max
      rcases submit_cases c k s with ⟨e,he⟩ | ⟨i,-,-,he⟩ <;> rwa [he]
    | forceUnload route caps =>
      change (k.forceUnload route caps).2.nextInstanceId ≤ u64Max
      unfold forceUnload
      split <;> exact h
    | _ => exact h
  | pop inst now caps =>
    change (k.pop c inst now caps).nextInstanceId ≤ u64Max
    cases hx : k.execution inst now caps with
    | none => rwa [pop_none c hx]
    | some x =>
      obtain ⟨_,hp⟩ := pop_some c hx
      rwa [hp]

end Kernel

def Instance.tables (i : Instance) : List ℕ :=
  [i.entities.size,i.components.size,i.scheduler.ready.size,i.scheduler.byId.size,
    i.scheduler.byActor.size,i.ledger.entities.size,i.ledger.componentSizes.size,
    i.inflightRefs.size,i.signalInbox.size] ++
  (i.scheduler.byActor.toList.map (fun p => p.2.size) ++
    i.signalInbox.toList.map (fun p => p.2.length))

/-- No table or queue has more rows than a machine word counts. -/
def Instance.Sized (i : Instance) : Prop := ∀ n ∈ i.tables, n ≤ u64Max

theorem Instance.InWords.fits {i : Instance} (h : i.InWords) (hs : i.Sized) :
    i.toSnapshot.Fits := by
  unfold Sized tables at hs
  obtain ⟨htables,hrows⟩ := List.forall_mem_append.mp hs
  obtain ⟨hactors,hqueues⟩ := List.forall_mem_append.mp hrows
  simp only [List.forall_mem_cons] at htables
  obtain ⟨h1,h2,h3,h4,h5,h6,h7,h8,h9,-⟩ := htables
  have hactor (a : EntityId) (ids : BTreeSet ScheduledActionId)
      (ha : i.scheduler.byActor[a]? = some ids) : ids.size ≤ u64Max :=
    hactors _ (List.mem_map_of_mem ((mem_toList _ a ids).mpr ha))
  have hqueue (r : RouteId) (q : List InboundSignal) (hr : i.signalInbox[r]? = some q) :
      q.length ≤ u64Max := hqueues _ (List.mem_map_of_mem ((mem_toList _ r q).mpr hr))
  exact {
    config := h.config
    entities := ⟨h1,h.entities⟩
    components := ⟨h2,h.components⟩
    scheduler := ⟨⟨h3,h.scheduler.ready⟩,⟨h4,h.scheduler.byId⟩,
      ⟨h5,fun a ids ha => ⟨trivial,hactor a ids ha⟩⟩,h.scheduler.nextSeq,h.scheduler.nextId⟩
    idCounters := h.idCounters
    ledger := ⟨h6,⟨h7,h.ledger.componentSizes⟩,h.ledger.totalBytes⟩
    inflightRefs := ⟨h8,h.inflightRefs⟩
    signalInbox := ⟨h9,fun r q hr =>
      ⟨(h.signalInbox r q hr).1,hqueue r q hr,(h.signalInbox r q hr).2⟩⟩
    inboxSeq := h.inboxSeq
    wallRemainder := h.wallRemainder
    localTick := h.localTick }

/-- From calls and operations within the machine words every reachable number
stays within its word. So, while tables and ids last, the snapshot of a reachable
kernel is read back from its file as it was taken, and torn it is refused. -/
theorem reachable_snapshot_survives (c : Crypto) (manifest : Block) (wal : Option WalWriter)
    (calls : List Call) (hc : ∀ call ∈ calls, call.Fits)
    (ho : ∀ x, .executed x ∈ (Kernel.machine c).trace (.build manifest wal) calls →
      ∀ op ∈ x.ops, op.Fits) (refusal : Bytes → String) :
    let k := (Kernel.machine c).run (.build manifest wal) calls
    (∀ (id : InstanceId) (i : Instance), k.instances[id]? = some i → i.InWords) ∧
      ((∀ j, (scheduledOf j ((Kernel.machine c).trace (.build manifest wal) calls)).length < u64Max) →
        k.instances.size ≤ u64Max →
        (∀ (id : InstanceId) (i : Instance), k.instances[id]? = some i → i.Sized) →
      ∃ file, k.snapshot.serialize = .ok file ∧
        (∀ more, KernelSnapshot.decode refusal (file ++ more) = .ok k.snapshot) ∧
        ∀ bs, bs <+: file → bs ≠ file →
          KernelSnapshot.decode refusal bs = .error (.deserializeFailed (refusal bs))) := by
  intro k
  have hwords : Kernel.Everywhere (fun _ i => i.InWords) k.instances := by
    rw [(Kernel.expansion c).trace_eq] at ho
    change Kernel.Everywhere _ ((Kernel.machine c).run (.build manifest wal) calls).instances
    rw [(Kernel.expansion c).run_eq]
    exact Kernel.run_inWords _ (Kernel.words_fit _ calls hc) ho
      (Kernel.build_everywhere _ manifest wal)
  refine ⟨hwords,?_⟩
  intro hb hm hs
  have hnext : k.nextInstanceId ≤ u64Max := by
    change ((Kernel.machine c).run (.build manifest wal) calls).nextInstanceId ≤ u64Max
    rw [(Kernel.expansion c).run_eq]
    exact (Kernel.micro c).run_invariant (fun k => k.nextInstanceId ≤ u64Max)
      Kernel.micro_nextInstanceId_le _ _ (Nat.zero_le _)
  have hfits : k.snapshot.Fits := by
    refine ⟨⟨?_,?_⟩,hnext⟩
    · change (k.instances.map (fun _ i => i.toSnapshot)).size ≤ u64Max
      rw [Std.ExtTreeMap.size_map]
      exact hm
    · intro id s hi
      change (k.instances.map (fun _ i => i.toSnapshot))[id]? = some s at hi
      rw [get_map] at hi
      obtain ⟨i,hget,rfl⟩ := Option.map_eq_some_iff.mp hi
      exact ⟨trivial,(hwords id i hget).fits (hs id i hget)⟩
  have hvalid := Kernel.snapshot_validates (run_valid c manifest wal calls hb)
  exact ⟨_,rfl,KernelSnapshot.decode_back hfits hvalid rfl,
    fun bs hbs hne => KernelSnapshot.decode_torn hfits rfl hbs hne⟩

theorem reachable_snapshot_survives_parent :
    let k := (Kernel.machine standIn).run (.build zeroBlock none) parentCalls
    k.instances.toList.map (fun p => p.2.scheduler.len) = [1] ∧
      ∃ file, k.snapshot.serialize = .ok file ∧
        KernelSnapshot.decode (fun _ => "refused") file = .ok k.snapshot := by
  intro k
  have hc : ∀ call ∈ parentCalls, call.Fits := by
    simp only [parentCalls,List.forall_mem_cons,List.not_mem_nil,false_imp_iff,implies_true,and_true]
    exact ⟨trivial,⟨Nat.zero_le _,Nat.zero_le _,Nat.zero_le _,Nat.zero_le _⟩,
      ⟨trivial,show 1 ≤ u64Max by decide,Nat.zero_le _⟩,show 2 ≤ u64Max by decide⟩
  have hops : (((Kernel.machine standIn).trace (.build zeroBlock none) parentCalls).filterMap
      Item.execution).flatMap Execution.ops = [.scheduleAction ⟨3⟩ none (.clamp 7) []] := by
    decide +kernel
  have ho : ∀ x, .executed x ∈ (Kernel.machine standIn).trace (.build zeroBlock none) parentCalls →
      ∀ op ∈ x.ops, op.Fits := by
    intro x hx op hop
    have hexec : x ∈ List.filterMap Item.execution
        ((Kernel.machine standIn).trace (.build zeroBlock none) parentCalls) :=
      List.mem_filterMap.mpr ⟨_,hx,rfl⟩
    have hmem := List.mem_flatMap.mpr ⟨x,hexec,hop⟩
    rw [hops] at hmem
    rw [List.mem_singleton.mp hmem]
    exact ⟨show 3 ≤ u64Max by decide,Nat.zero_le _⟩
  have htables : ∀ n ∈ k.instances.toList.flatMap (fun p => p.2.tables), n ≤ u64Max := by
    decide +kernel
  have hm : k.instances.size = 1 := by decide +kernel
  have hs : ∀ (id : InstanceId) (i : Instance), k.instances[id]? = some i → i.Sized :=
    fun id i hi n hn => htables n (List.mem_flatMap.mpr ⟨_,(mem_toList _ id i).mpr hi,hn⟩)
  obtain ⟨file,hfile,hback,-⟩ := (reachable_snapshot_survives standIn zeroBlock none parentCalls hc
    ho (fun _ => "refused")).2 parentCalls_short (by rw [show _ = 1 from hm]; decide) hs
  refine ⟨by decide +kernel,file,hfile,?_⟩
  have h := hback []
  rwa [List.append_nil] at h

end ArkheKernel
