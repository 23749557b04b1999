import ArkheKernel.SignalHistory

/-!
# In-flight references

A delivery queues the signal and credits a reference. An unload drops the
references of a route and leaves the signals queued, so the two counts differ
by what was dropped.
-/

set_option autoImplicit false

namespace ArkheKernel
open OrderedMap Mailbox

/-- In every reachable state with fewer than 2^32 deliveries on a route, the
references of the route are the deliveries since it was last unloaded, and
together with the references that unloads dropped they are the queued signals.
An entry is there only while a reference is. -/
theorem refcount_conserved (c : Crypto) (manifest : Block) (wal : Option WalWriter)
    (calls : List Call) (id : InstanceId) (i : Instance) (route : RouteId)
    (hi : ((Kernel.machine c).run (.build manifest wal) calls).instances[id]? = some i)
    (hb : load route (deliveries ((Kernel.build manifest wal).signalLog c calls id)) < 2^32) :
    let log := (Kernel.build manifest wal).signalLog c calls id
    i.inflightRefs.getD route 0 = standing route log ∧
    i.inflightRefs.getD route 0 + dropped route log = i.inboxLen route ∧
    (.clear route ∉ log → i.inflightRefs.getD route 0 = i.inboxLen route) ∧
    (route ∈ i.inflightRefs → 0 < i.inflightRefs.getD route 0 ∧ 0 < i.inboxLen route) := by
  intro log
  have h := Kernel.run_mirrors c manifest wal calls id i hi
  have hle := standing_le route log
  have hrefs : i.inflightRefs.getD route 0 = standing route log := by
    have hlt : standing route log < 2^32 := hle.trans_lt hb
    have hmin : standing route log ≤ u32Max := by
      unfold u32Max
      omega
    exact (h.getD_refs route).trans (Nat.min_eq_left hmin)
  have hsum : i.inflightRefs.getD route 0 + dropped route log = i.inboxLen route := by
    rw [hrefs,h.inboxLen,credits_conserved]
  refine ⟨hrefs,hsum,?_,?_⟩
  · intro hn
    rw [← hsum,dropped_never route hn,Nat.add_zero]
  · intro hm
    have hpos : 0 < standing route log := by
      apply Nat.pos_of_ne_zero
      intro h0
      have hget := h.refs route
      rw [if_pos h0,← not_mem_iff_get] at hget
      exact hget hm
    rw [hrefs,h.inboxLen]
    exact ⟨hpos,hpos.trans_le hle⟩

def unloadCalls : List Call := [
  .request (.registerAction (.clamp 7) (.constant [.sendSignal ⟨.succ 0⟩ ⟨1⟩ [9]])),
  .request (.createInstance { defaultCaps := .SYSTEM }),
  .request (.submit ⟨⟨.succ 0⟩,.system,none,.SYSTEM,⟨1⟩,.clamp 7,[]⟩),
  .step ⟨1⟩ .SYSTEM,
  .request (.forceUnload ⟨1⟩ .ADMIN_UNLOAD)]

/-- An unloaded route keeps its queue: the signal is there without a reference. -/
theorem unload_parts_refcount_from_queue : ∃ i : Instance,
    ((Kernel.machine standIn).run (.build zeroBlock none) unloadCalls).instances[
      (⟨.succ 0⟩ : InstanceId)]? = some i ∧
    i.inflightRefs.getD ⟨1⟩ 0 = 0 ∧ i.inboxLen ⟨1⟩ = 1 := by
  have hc : (((Kernel.machine standIn).run (.build zeroBlock none) unloadCalls).instances[
      (⟨.succ 0⟩ : InstanceId)]?).map (fun i => (i.inflightRefs.getD ⟨1⟩ 0,i.inboxLen ⟨1⟩)) =
        some (0,1) := by decide +kernel
  obtain ⟨i,hi,hm⟩ := Option.map_eq_some_iff.mp hc
  obtain ⟨hr,hq⟩ := Prod.mk.inj hm
  exact ⟨i,hi,hr,hq⟩

def reloadCalls : List Call := unloadCalls ++ [
  .request (.submit ⟨⟨.succ 0⟩,.system,none,.SYSTEM,⟨2⟩,.clamp 7,[]⟩),
  .step ⟨2⟩ .SYSTEM]

theorem refcount_conserved_reloaded : ∃ i : Instance,
    ((Kernel.machine standIn).run (.build zeroBlock none) reloadCalls).instances[
      (⟨.succ 0⟩ : InstanceId)]? = some i ∧
    i.inflightRefs.getD ⟨1⟩ 0 = 1 ∧ i.inflightRefs.getD ⟨1⟩ 0 + 1 = i.inboxLen ⟨1⟩ := by
  have hc : (((Kernel.machine standIn).run (.build zeroBlock none) reloadCalls).instances[
      (⟨.succ 0⟩ : InstanceId)]?).isSome = true := by decide +kernel
  obtain ⟨i,hi⟩ := Option.isSome_iff_exists.mp hc
  obtain ⟨hrefs,hsum,-⟩ := refcount_conserved standIn zeroBlock none reloadCalls _ i ⟨1⟩ hi
    (by decide +kernel)
  have hlog : credits (⟨1⟩ : RouteId) ((Kernel.build zeroBlock none).signalLog standIn reloadCalls
      ⟨.succ 0⟩) = (1,1) := by decide +kernel
  unfold standing at hrefs
  unfold dropped at hsum
  rw [hlog] at hrefs hsum
  exact ⟨i,hi,hrefs,hsum⟩

end ArkheKernel
