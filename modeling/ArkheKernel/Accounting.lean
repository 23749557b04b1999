import ArkheKernel.Acceptance
import ArkheKernel.BoundedWait
import ArkheKernel.Emission
import ArkheKernel.QuotaReduction
import ArkheKernel.View

/-!
# The statistics balance

`stats` adds up what all instances hold at one moment. The sums obey a
conservation law over the history: what is still pending is what was scheduled
less what has run, every admission and every execution has one record, and an
observer is seated until it is evicted.
-/

set_option autoImplicit false

namespace ArkheKernel
open OrderedMap PrefixCode

/-- Entities in the ledger, as far as 32 bits can say. -/
def ResourceLedger.totalEntities (l : ResourceLedger) : ℕ := min l.entities.size u32Max

def ObserverRegistry.len (r : ObserverRegistry) : ℕ := r.slots.size

structure Stats where
  instanceCount : ℕ
  scheduledActionCount : ℕ
  entityCount : ℕ
  componentByteCount : ℕ
  observerCount : ℕ
  walRecordCount : ℕ
  deriving DecidableEq, Repr

def addStats (acc : ℕ × ℕ × ℕ) (p : InstanceId × Instance) : ℕ × ℕ × ℕ :=
  (satAdd64 acc.1 p.2.scheduler.len,satAdd32 acc.2.1 p.2.ledger.totalEntities,
    satAdd64 acc.2.2 p.2.ledger.totalBytes)

def Kernel.stats (k : Kernel) : Stats :=
  let (scheduled,entities,bytes) := k.instances.toList.foldl addStats (0,0,0)
  { instanceCount := k.instances.size
    scheduledActionCount := scheduled
    entityCount := entities
    componentByteCount := bytes
    observerCount := k.observers.len
    walRecordCount := (k.wal.map WalWriter.recordCount).getD 0 }

section Tally
variable {K V : Type} [LinearOrder K]

/-- The sum of a measure over the values of a map. -/
def tally (f : V → ℕ) (m : BTreeMap K V) : ℕ := total (m.map (fun _ v => f v))

theorem tally_toList (f : V → ℕ) (m : BTreeMap K V) :
    tally f m = (m.toList.map (fun p => f p.2)).sum := by
  unfold tally total
  rw [Std.ExtTreeMap.toList_map,List.map_map]
  rfl

theorem tally_change (f : V → ℕ) (m m' : BTreeMap K V) (a : K)
    (h : ∀ b, b ≠ a → (m'[b]?).map f = (m[b]?).map f) :
    tally f m' + ((m[a]?).map f).getD 0 = tally f m + ((m'[a]?).map f).getD 0 := by
  have he : (m'.map (fun _ v => f v)).erase a = (m.map (fun _ v => f v)).erase a := by
    apply ext_get
    intro b
    rw [get_erase,get_erase,get_map,get_map]
    split
    · rfl
    · next hb => exact h b hb
  unfold tally
  rw [total_erase (m'.map _) a,total_erase (m.map _) a,he]
  have hm : amount (m.map (fun _ v => f v)) a = ((m[a]?).map f).getD 0 := by
    unfold amount
    rw [get_map]
  have hm' : amount (m'.map (fun _ v => f v)) a = ((m'[a]?).map f).getD 0 := by
    unfold amount
    rw [get_map]
  rw [hm,hm']
  omega

theorem tally_map_congr {f g : V → ℕ} {m : BTreeMap K V}
    (h : ∀ (k : K) (v : V), m[k]? = some v → f v = g v) : tally f m = tally g m := by
  rw [tally_toList,tally_toList]
  congr 1
  exact List.map_congr_left (fun p hp => h p.1 p.2 ((mem_toList m p.1 p.2).mp hp))

theorem tally_congr (f : V → ℕ) {m m' : BTreeMap K V}
    (h : ∀ b : K, (m'[b]?).map f = (m[b]?).map f) : tally f m' = tally f m := by
  have he : m'.map (fun _ v => f v) = m.map (fun _ v => f v) := by
    apply ext_get
    intro b
    rw [get_map,get_map]
    exact h b
  unfold tally
  rw [he]

end Tally

theorem foldl_satAdd32 (us : List ℕ) (a : ℕ) (ha : a ≤ u32Max) :
    us.foldl satAdd32 a = min (a+us.sum) u32Max := by
  induction us generalizing a with
  | nil => exact (Nat.min_eq_left ha).symm
  | cons u us ih =>
    have hu : satAdd32 a u ≤ u32Max := Nat.min_le_right _ _
    rw [List.foldl_cons,ih _ hu,List.sum_cons]
    unfold satAdd32
    omega

theorem foldl_addStats (ps : List (InstanceId × Instance)) (acc : ℕ × ℕ × ℕ) :
    ps.foldl addStats acc = ((ps.map (fun p => p.2.scheduler.len)).foldl satAdd64 acc.1,
      (ps.map (fun p => p.2.ledger.totalEntities)).foldl satAdd32 acc.2.1,
      (ps.map (fun p => p.2.ledger.totalBytes)).foldl satAdd64 acc.2.2) := by
  induction ps generalizing acc with
  | nil => rfl
  | cons p ps ih => exact ih _

theorem capped_sum (us : List ℕ) (cap : ℕ) :
    min (us.map (fun u => min u cap)).sum cap = min us.sum cap := by
  induction us with
  | nil => rfl
  | cons u us ih =>
    rw [List.map_cons,List.sum_cons,List.sum_cons]
    omega

theorem stats_eq (k : Kernel) : k.stats =
    { instanceCount := k.instances.size
      scheduledActionCount := min (tally (fun i : Instance => i.scheduler.len) k.instances) u64Max
      entityCount := min (tally (fun i : Instance => i.ledger.entities.size) k.instances) u32Max
      componentByteCount := min (tally (fun i : Instance => i.ledger.totalBytes) k.instances) u64Max
      observerCount := k.observers.slots.size
      walRecordCount := (k.wal.map (fun w => w.records.length)).getD 0 } := by
  unfold Kernel.stats
  rw [foldl_addStats,foldl_satAdd64 _ _ (Nat.zero_le _),foldl_satAdd32 _ _ (Nat.zero_le _),
    foldl_satAdd64 _ _ (Nat.zero_le _),tally_toList,tally_toList,tally_toList]
  simp only [Nat.zero_add]
  have hcap := capped_sum (k.instances.toList.map (fun p => p.2.ledger.entities.size)) u32Max
  rw [List.map_map] at hcap
  rw [← hcap]
  rfl

def Item.isLogged : Item → Bool
  | .created .. => false
  | _ => true

theorem Queue.len {s : Scheduler} {S P : List ScheduledEntry} (h : Queue s S P) :
    s.len + P.length = S.length := by
  have hp := h.accounted.length_eq
  rw [List.length_append,Scheduler.pending,List.length_map,Std.ExtTreeMap.length_toList] at hp
  unfold Scheduler.len
  omega

section Change
variable {m m' : BTreeMap InstanceId Instance} {items tr : List Item}

theorem change_size (hc : Kernel.Change m items m')
    (hnew : ∀ p ∈ items.filterMap Item.creation, p.1 ∉ m) :
    m'.size = m.size + (items.filterMap Item.creation).length := by
  have hsame : items.filterMap Item.creation = [] → m'.size = m.size := by
    intro he
    have hk : m'.keys = m.keys := keys_congr (fun a => by
      rw [change_mem hc,he]
      simp)
    rw [← length_keys,hk,length_keys]
  cases hc with
  | created id config =>
    have hid : ¬ m.contains id = true := hnew (id,config) (by simp [Item.creation])
    rw [Std.ExtTreeMap.size_insert,if_neg hid]
    rfl
  | _ => exact hsame rfl

theorem change_pending (hc : Kernel.Change m items m')
    (hnew : ∀ p ∈ items.filterMap Item.creation, p.1 ∉ m) (ha : AllAccounted m tr)
    (hb : ((tr++items).map Item.schedulings).sum ≤ u64Max) :
    tally (fun i : Instance => i.scheduler.len) m' + (popsOf items).length =
      tally (fun i : Instance => i.scheduler.len) m + (items.map Item.schedulings).sum := by
  have hb' : (tr.map Item.schedulings).sum ≤ u64Max := by
    rw [List.map_append,List.sum_append] at hb
    omega
  have hbefore : ∀ j i, m[j]? = some i →
      i.scheduler.len + (poppedOf j tr).length = (scheduledOf j tr).length :=
    fun j i hi => (ha j i hi ((scheduledOf_length_le j tr).trans hb')).1.len
  have hafter : ∀ j i, m'[j]? = some i →
      i.scheduler.len + (poppedOf j (tr++items)).length = (scheduledOf j (tr++items)).length :=
    fun j i hi => (accounted_change hc ha j i hi ((scheduledOf_length_le j _).trans hb)).1.len
  cases hc with
  | created id config =>
    have hid : id ∉ m := hnew (id,config) (by simp [Item.creation])
    have ht := tally_change (fun i : Instance => i.scheduler.len) m (m.insert id (.new id config))
      id (fun b hb => by rw [get_insert_ne m _ hb])
    rw [get_insert_self,(not_mem_iff_get m id).mp hid] at ht
    exact ht
  | admitted s i hi hq =>
    have ht := tally_change (fun i : Instance => i.scheduler.len) m
      (m.insert s.inst (i.submit s).2) s.inst (fun b hb => by rw [get_insert_ne m _ hb])
    rw [get_insert_self,hi] at ht
    have h₀ := hbefore _ _ hi
    have h₁ := hafter _ _ (get_insert_self m _ _)
    rw [scheduledOf_append,poppedOf_append] at h₁
    simp only [List.foldl_cons,List.foldl_nil,Item.scheduling,Item.popping,if_pos,
      List.length_append,List.length_singleton] at h₁
    simp only [Option.map_some,Option.getD_some] at ht
    change _ + 0 = _ + 1
    omega
  | executed x hx =>
    have hlen (id : InstanceId) (i : Instance) :
        (i.receiveAll x.instId id x.stage.pendingSignals).scheduler.len = i.scheduler.len := by
      obtain ⟨_,_,_,he⟩ := i.receiveAll_frame x.instId id x.stage.pendingSignals
      rw [he]
    have hself : (x.settle m)[x.instId]? =
        some (x.after.receiveAll x.instId x.instId x.stage.pendingSignals) := by
      rw [x.settle_get,if_pos rfl]
    have ht := tally_change (fun i : Instance => i.scheduler.len) m (x.settle m) x.instId
      (fun b hb => by
        rw [x.settle_get,if_neg hb,Option.map_map]
        congr 1
        funext i
        exact hlen b i)
    rw [hself,hx] at ht
    have h₀ := hbefore _ _ hx
    have h₁ := hafter _ _ hself
    rw [scheduledOf_append,poppedOf_append] at h₁
    simp only [List.foldl_cons,List.foldl_nil,Item.scheduling,Item.popping,if_pos,
      List.length_append,List.length_singleton] at h₁
    simp only [Option.map_some,Option.getD_some] at ht
    change _ + 1 = _ + x.children.length
    omega
  | unloaded route =>
    refine congrArg (· + 0) (tally_congr _ (fun b => ?_))
    rw [get_map,Option.map_map]
    rfl
  | silent => rfl

end Change

/-- The sums over the instances, against the items of the history. -/
structure Balanced (k : Kernel) (tr : List Item) : Prop where
  numbered : k.Numbered
  accounted : AllAccounted k.instances tr
  created : k.nextInstanceId = min (tr.filterMap Item.creation).length u64Max
  size : (tr.filterMap Item.creation).length ≤ u64Max →
    k.instances.size = (tr.filterMap Item.creation).length
  pending : (tr.filterMap Item.creation).length ≤ u64Max →
    (tr.map Item.schedulings).sum ≤ u64Max →
    tally (fun i : Instance => i.scheduler.len) k.instances + (popsOf tr).length =
      (tr.map Item.schedulings).sum

section Runs
variable {c : Crypto} {k : Kernel} {tr : List Item}

theorem Kernel.Numbered.creations_fresh (h : k.Numbered) (a : Micro)
    (hn : ((Kernel.micro c).out k a).filterMap Item.creation = [] ∨ k.nextInstanceId < u64Max) :
    ∀ p ∈ ((Kernel.micro c).out k a).filterMap Item.creation, p.1 ∉ k.instances := by
  intro p hp
  by_cases ha : ∃ config, a = .request (.createInstance config)
  · obtain ⟨config,rfl⟩ := ha
    obtain rfl : p = ((k.createInstance config).1,config) := List.mem_singleton.mp hp
    rcases hn with hn | hn
    · cases hn
    · exact h.creates_fresh hn config
  · rw [(micro_creates_nothing c k a (fun config he => ha ⟨config,he⟩)).1] at hp
    cases hp

theorem Balanced.micro_next (h : Balanced k tr) (a : Micro) :
    Balanced ((Kernel.micro c).next k a) (tr ++ (Kernel.micro c).out k a) := by
  have hc := Kernel.micro_change c k a
  have hcount : ((Kernel.micro c).next k a).nextInstanceId =
      min (k.nextInstanceId + (((Kernel.micro c).out k a).filterMap Item.creation).length)
        u64Max := by
    by_cases ha : ∃ config, a = .request (.createInstance config)
    · obtain ⟨config,rfl⟩ := ha
      rfl
    · obtain ⟨ho,hn⟩ := micro_creates_nothing c k a (fun config he => ha ⟨config,he⟩)
      have hk := h.created
      rw [ho,hn,List.length_nil]
      omega
  have hnew (hb : ((tr ++ (Kernel.micro c).out k a).filterMap Item.creation).length ≤ u64Max) :
      ∀ p ∈ ((Kernel.micro c).out k a).filterMap Item.creation, p.1 ∉ k.instances := by
    apply h.numbered.creations_fresh
    rw [List.filterMap_append,List.length_append] at hb
    have hk := h.created
    rw [← List.length_eq_zero_iff]
    omega
  have hpast (hb : ((tr ++ (Kernel.micro c).out k a).filterMap Item.creation).length ≤ u64Max) :
      (tr.filterMap Item.creation).length ≤ u64Max := by
    rw [List.filterMap_append,List.length_append] at hb
    omega
  constructor
  · exact h.numbered.micro_next c a
  · exact accounted_change hc h.accounted
  · rw [hcount,h.created,List.filterMap_append,List.length_append]
    omega
  · intro hb
    rw [change_size hc (hnew hb),h.size (hpast hb),List.filterMap_append,List.length_append]
  · intro hb hs
    have hchange := change_pending hc (hnew hb) h.accounted hs
    rw [List.map_append,List.sum_append] at hs
    have hp := h.pending (hpast hb) (by omega)
    rw [popsOf,List.filterMap_append,List.length_append,List.map_append,List.sum_append]
    unfold popsOf at hchange hp
    omega

theorem micro_records (k : Kernel) (a : Micro) :
    ((Kernel.micro c).next k a).wal.map (fun w => w.records.length) =
      k.wal.map (fun w => w.records.length + ((Kernel.micro c).out k a).countP Item.isLogged) := by
  cases a with
  | request r =>
    cases r with
    | submit s =>
      change (k.submit c s).2.wal.map _ = k.wal.map (fun w => w.records.length +
        (k.served c (.submit s)).countP Item.isLogged)
      unfold Kernel.served
      dsimp only
      rcases Kernel.submit_cases c k s with ⟨e,he⟩ | ⟨i,-,-,he⟩
      · rw [he]
        rfl
      · rw [he,Option.map_map]
        congr 1
        funext w
        exact List.length_append
    | forceUnload route caps =>
      change (k.forceUnload route caps).2.wal.map _ = _
      unfold Kernel.forceUnload
      split <;> rfl
    | _ => rfl
  | pop inst now caps =>
    change (k.pop c inst now caps).wal.map _ = k.wal.map (fun w => w.records.length +
      ((k.execution inst now caps).map Item.executed).toList.countP Item.isLogged)
    cases hx : k.execution inst now caps with
    | none =>
      rw [Kernel.pop_none c hx]
      rfl
    | some x =>
      obtain ⟨_,hp⟩ := Kernel.pop_some c hx
      rw [hp,Option.map_map]
      congr 1
      funext w
      exact List.length_append

theorem run_records (k : Kernel) (as : List Micro) :
    ((Kernel.micro c).run k as).wal.map (fun w => w.records.length) =
      k.wal.map (fun w => w.records.length +
        ((Kernel.micro c).trace k as).countP Item.isLogged) := by
  induction as generalizing k with
  | nil => rfl
  | cons a as ih =>
    rw [Transducer.run,ih,Transducer.trace,List.countP_append]
    have hm := congrArg (Option.map (· + ((Kernel.micro c).trace ((Kernel.micro c).next k a)
      as).countP Item.isLogged)) (micro_records (c := c) k a)
    rw [Option.map_map,Option.map_map] at hm
    simpa only [Function.comp_def,Nat.add_assoc] using hm

theorem entities_size {i : Instance} (h : i.InLockstep) :
    i.ledger.entities.size = (InstanceView.mk i).entityCount := by
  have hk : i.ledger.entities.inner.keys = i.entities.keys :=
    keys_congr (fun e => (h.entities_iff e).symm)
  have hl := congrArg List.length hk
  rw [length_keys,length_keys] at hl
  exact hl

end Runs

section Seats
variable {r : ObserverRegistry}

theorem turns_len (event : KernelEvent) (hs : List ObserverHandle)
    (acc : List ObserverHandle × ObserverRegistry) :
    (hs.foldl (ObserverRegistry.deliverOne event) acc).2.len +
      (hs.foldl (ObserverRegistry.deliverOne event) acc).1.length =
        acc.2.len + acc.1.length := by
  induction hs generalizing acc with
  | nil => rfl
  | cons h hs ih =>
    rw [List.foldl_cons,ih]
    unfold ObserverRegistry.deliverOne
    split
    · rfl
    · cases hslot : acc.2.slots[h]? with
      | none => rfl
      | some slot =>
        dsimp only
        split
        · rfl
        · split
          · have hc : acc.2.slots.contains h = true := mem_of_get hslot
            have hpos : 0 < acc.2.slots.size := by
              rw [← length_keys]
              exact List.length_pos_of_mem ((mem_keys _ h).mpr hc)
            unfold ObserverRegistry.len
            dsimp only
            rw [Std.ExtTreeMap.size_erase,if_pos hc,List.length_append,List.length_singleton]
            omega
          · rfl

theorem registry_len (h : r.Fresh) (as : List RegistryCall)
    (hb : r.nextHandle + (as.map RegistryCall.registers).sum ≤ u64Max) :
    (registry.run r as).len + (registry.trace r as).length =
      r.len + (as.map RegistryCall.registers).sum := by
  induction as generalizing r with
  | nil => rfl
  | cons a as ih =>
    rw [List.map_cons,List.sum_cons] at hb
    obtain ⟨hf,hn⟩ := registry_fresh h a (by omega)
    have hi := ih hf (by omega)
    have hstep : (registry.next r a).len + (registry.out r a).length = r.len + a.registers := by
      cases a with
      | register obs mask =>
        have hvacant : (r.seat ⟨r.nextHandle⟩).slot = none := by rw [h _ (le_refl _)]; rfl
        have hc : ¬ r.slots.contains ⟨r.nextHandle⟩ = true := (not_mem_iff_get r.slots _).mpr hvacant
        change (r.slots.insert ⟨r.nextHandle⟩ ⟨obs,mask⟩).size + 0 = _
        rw [Std.ExtTreeMap.size_insert,if_neg hc]
        rfl
      | deliver event => exact turns_len event r.slots.keys ([],_)
    rw [Transducer.run,Transducer.trace,List.length_append,List.map_cons,List.sum_cons]
    omega

end Seats

/-- As long as no counter is exhausted, the statistics are the balance of the
history: nothing is counted twice, and nothing is lost. -/
theorem stats_balance (c : Crypto) (manifest : Block) (wal : Option WalWriter) (calls : List Call)
    (hcreated : (((Kernel.machine c).trace (.build manifest wal) calls).filterMap
      Item.creation).length ≤ u64Max)
    (hscheduled : (((Kernel.machine c).trace (.build manifest wal) calls).map
      Item.schedulings).sum ≤ u64Max)
    (hregistered : (calls.map Call.registrations).sum ≤ u64Max) :
    let start := Kernel.build manifest wal
    let k := (Kernel.machine c).run start calls
    let tr := (Kernel.machine c).trace start calls
    k.stats.instanceCount = (tr.filterMap Item.creation).length ∧
    k.stats.scheduledActionCount + (popsOf tr).length = (tr.map Item.schedulings).sum ∧
    k.stats.entityCount =
      min (tally (fun i => (InstanceView.mk i).entityCount) k.instances) u32Max ∧
    k.stats.componentByteCount =
      min (tally (fun i : Instance => i.ledger.totalBytes) k.instances) u64Max ∧
    k.stats.observerCount + (registry.trace .new (start.registryCalls c calls)).length =
      (calls.map Call.registrations).sum ∧
    k.stats.walRecordCount =
      (wal.map (fun w => w.records.length + tr.countP Item.isLogged)).getD 0 := by
  intro start k tr
  have hrun : k = (Kernel.micro c).run start ((Kernel.expansion c).words start calls) :=
    (Kernel.expansion c).run_eq start calls
  have htr : tr = (Kernel.micro c).trace start ((Kernel.expansion c).words start calls) :=
    (Kernel.expansion c).trace_eq start calls
  have hb : Balanced k tr := by
    rw [hrun,htr]
    apply (Kernel.micro c).history_invariant Balanced (fun k tr a h => h.micro_next a) start []
    exact ⟨fun id hid => absurd hid Std.ExtTreeMap.not_mem_empty,
      fun j i hi => by simp [start,Kernel.build] at hi,rfl,fun _ => rfl,fun _ _ => rfl⟩
  rw [stats_eq]
  dsimp only
  refine ⟨hb.size hcreated,?_,?_,rfl,?_,?_⟩
  · have hp := hb.pending hcreated hscheduled
    have hle : (tr.map Item.schedulings).sum ≤ u64Max := hscheduled
    omega
  · congr 1
    apply tally_map_congr
    intro id i hi
    exact entities_size (lockstep_preserved.reachable c manifest wal calls (fun _ _ => trivial)
      id i hi)
  · have hl := registry_len new_fresh (start.registryCalls c calls) (by
      rw [Kernel.registryCalls_registers]
      exact (Nat.zero_add _).trans_le hregistered)
    have ho : registry.run .new (start.registryCalls c calls) = k.observers :=
      (Kernel.run_observers c start calls).symm
    rw [ho,Kernel.registryCalls_registers] at hl
    exact hl.trans (Nat.zero_add _)
  · rw [hrun,htr,run_records]
    rfl

theorem stats_balance_parent :
    let start := Kernel.build zeroBlock (some (.new standIn zeroBlock zeroBlock))
    let calls := .request (.registerObserver (fun _ _ => true) .ALL) :: parentCalls
    let stats := ((Kernel.machine standIn).run start calls).stats
    stats.instanceCount = 1 ∧ stats.scheduledActionCount + 1 = 2 ∧ stats.observerCount + 1 = 1 ∧
      stats.walRecordCount = 2 := by
  intro start calls stats
  obtain ⟨hi,hs,-,-,ho,hw⟩ := stats_balance standIn zeroBlock
    (some (.new standIn zeroBlock zeroBlock)) calls (by decide +kernel) (by decide +kernel)
    (by decide +kernel)
  have hpops : (popsOf ((Kernel.machine standIn).trace start calls)).length = 1 := by decide +kernel
  have hseats : (registry.trace .new (start.registryCalls standIn calls)).length = 1 := by
    decide +kernel
  rw [hpops] at hs
  rw [hseats] at ho
  exact ⟨hi.trans (by decide +kernel),hs.trans (by decide +kernel),ho.trans (by decide +kernel),
    hw.trans (by decide +kernel)⟩

end ArkheKernel
