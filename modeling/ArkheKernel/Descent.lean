import ArkheKernel.Run

/-!
# What an execution schedules and sends

A stage only ever adds entries to the scheduler. Its children carry the
principal and the effective capabilities of the action that staged them, and
their ids continue the counter of the instance without a gap.
-/

set_option autoImplicit false

namespace ArkheKernel
open OrderedMap PrefixCode

def ScheduledEntryDelta.added : ScheduledEntryDelta → Option ScheduledEntry
  | .add entry => some entry
  | .remove _ => none

def StepStage.children (s : StepStage) : List ScheduledEntry :=
  s.scheduleDeltas.filterMap ScheduledEntryDelta.added

/-- Bookkeeping of a stage filled under one principal and one capability set,
from the counter `start` up to the counter `next`. -/
structure Staged (principal : Principal) (caps : CapabilityMask) (start : ℕ) (s : StepStage)
    (next : ℕ) : Prop where
  adds : s.scheduleDeltas = s.children.map ScheduledEntryDelta.add
  inherits : ∀ e ∈ s.children, e.principal = principal ∧ e.capsCeiling = caps
  sends : ∀ sig ∈ s.pendingSignals, sig.principal = principal
  privileged : s.children ≠ [] ∨ s.pendingSignals ≠ [] →
    caps.contains .SYSTEM = true ∧ principal ≠ .unauthenticated
  numbered : start+s.children.length ≤ u64Max → next = start+s.children.length ∧
    s.idCounters.nextScheduledAdvance = s.children.length ∧
      s.children.map (fun e => e.id.get) = List.range' (start+1) s.children.length

theorem staged_start (principal : Principal) (caps : CapabilityMask) (start : ℕ) :
    Staged principal caps start {} start where
  adds := rfl
  inherits e he := by simp [StepStage.children] at he
  sends sig hs := by simp at hs
  privileged h := by simp [StepStage.children] at h
  numbered _ := ⟨rfl,rfl,rfl⟩

section Dispatch
variable {instId : InstanceId} {principal : Principal} {caps : CapabilityMask} {start next : ℕ}
  {s : StepStage}

theorem Staged.congr {s' : StepStage} (h : Staged principal caps start s next)
    (hd : s'.scheduleDeltas = s.scheduleDeltas) (hp : s'.pendingSignals = s.pendingSignals)
    (ha : s'.idCounters.nextScheduledAdvance = s.idCounters.nextScheduledAdvance) :
    Staged principal caps start s' next := by
  have hc : s'.children = s.children := by rw [StepStage.children,hd,StepStage.children]
  exact ⟨by rw [hd,hc]; exact h.adds,by rw [hc]; exact h.inherits,by rw [hp]; exact h.sends,
    by rw [hc,hp]; exact h.privileged,by rw [hc,ha]; exact h.numbered⟩

theorem Staged.schedule (h : Staged principal caps start s next) (now atTick : Tick)
    (actor : Option EntityId) (typeCode : TypeCode) (actionBytes : Bytes)
    (hs : caps.contains .SYSTEM = true) (hu : principal ≠ .unauthenticated) :
    Staged principal caps start
      (dispatch ⟨instId,principal,.scheduleAction atTick actor typeCode actionBytes⟩ s now next
        caps).1 (satAdd64 next 1) := by
  let e : ScheduledEntry := ⟨⟨NonZeroU64.succ next⟩,atTick,actor,principal,typeCode,actionBytes,caps⟩
  have hd : (dispatch ⟨instId,principal,.scheduleAction atTick actor typeCode actionBytes⟩ s now
      next caps).1.scheduleDeltas = s.scheduleDeltas ++ [.add e] := rfl
  have hc : (dispatch ⟨instId,principal,.scheduleAction atTick actor typeCode actionBytes⟩ s now
      next caps).1.children = s.children ++ [e] := by
    rw [StepStage.children,hd,List.filterMap_append]
    rfl
  refine ⟨?_,?_,h.sends,fun _ => ⟨hs,hu⟩,?_⟩
  · rw [hc,hd,h.adds]
    simp [StepStage.children,ScheduledEntryDelta.added]
  · intro e' he'
    rw [hc,List.mem_append,List.mem_singleton] at he'
    rcases he' with he' | rfl
    · exact h.inherits e' he'
    · exact ⟨rfl,rfl⟩
  · intro hb
    rw [hc,List.length_append,List.length_singleton] at hb
    obtain ⟨hn,ha,hi⟩ := h.numbered (by omega)
    rw [hc,List.length_append,List.length_singleton]
    have hnext : satAdd64 next 1 = start+(s.children.length+1) := by
      rw [hn,satAdd64_eq (by omega)]
      omega
    refine ⟨hnext,?_,?_⟩
    · change satAdd64 s.idCounters.nextScheduledAdvance 1 = _
      rw [ha,satAdd64_eq (by omega)]
    · have he : e.id.get = start+1+s.children.length := by
        change satAdd64 next 1 = _
        omega
      rw [List.map_append,hi,List.map_singleton,he,List.range'_concat]
      simp

theorem Staged.send (h : Staged principal caps start s next) (now : Tick) (target : InstanceId)
    (route : RouteId) (payload : Bytes) (hs : caps.contains .SYSTEM = true)
    (hu : principal ≠ .unauthenticated) :
    Staged principal caps start
      (dispatch ⟨instId,principal,.sendSignal target route payload⟩ s now next caps).1 next := by
  refine ⟨h.adds,h.inherits,?_,fun _ => ⟨hs,hu⟩,h.numbered⟩
  intro sig hsig
  rcases List.mem_append.mp hsig with hsig | hsig
  · exact h.sends sig hsig
  · rw [List.mem_singleton.mp hsig]

theorem dispatch_staged (op : Op) (now : Tick)
    (ha : authorize caps ⟨instId,principal,op⟩ = .ok ⟨instId,principal,op⟩)
    (h : Staged principal caps start s next) :
    Staged principal caps start (dispatch ⟨instId,principal,op⟩ s now next caps).1
      (dispatch ⟨instId,principal,op⟩ s now next caps).2 := by
  have hu := (authorize_ok ha).2.1
  cases op with
  | scheduleAction atTick actor typeCode actionBytes =>
    exact h.schedule now atTick actor typeCode actionBytes (authorize_privileged ha trivial) hu
  | sendSignal target route payload =>
    exact h.send now target route payload (authorize_privileged ha trivial) hu
  | _ => exact h.congr rfl rfl rfl

end Dispatch

namespace Execution
variable (x : Execution)

theorem gate_staged : Staged x.entry.principal x.caps x.before.idCounters.nextScheduled
    x.gate.stage x.gate.nextScheduledId :=
  gateLoop_invariant _ _ _ _ _
    (Staged x.entry.principal x.caps x.before.idCounters.nextScheduled) _ _
    (staged_start _ _ _) (fun _ _ _ h => h.congr rfl rfl rfl)
    (fun _ _ op _ ha _ h => dispatch_staged op x.now ha h)

def children : List ScheduledEntry := x.stage.children

theorem stage_staged : ∃ next, Staged x.entry.principal x.caps
    x.before.idCounters.nextScheduled x.stage next := by
  unfold stage
  split
  · exact ⟨_,x.gate_staged⟩
  · exact ⟨_,staged_start _ _ _⟩

theorem after_scheduler : x.after.scheduler = x.children.foldl Scheduler.scheduleWithId x.rest := by
  unfold after children stage
  split
  · obtain ⟨_,_,hf⟩ := applyStage_frame x.start x.gate.stage
    rw [hf]
    dsimp only
    rw [x.gate_staged.adds,List.foldl_map]
    rfl
  · rfl

theorem after_frame : ∃ entities components scheduler idCounters ledger wallRemainder localTick,
    x.after = { x.before with
      entities, components, scheduler, idCounters, ledger, wallRemainder, localTick } := by
  unfold after
  split
  · obtain ⟨_,_,hf⟩ := applyStage_frame x.start x.gate.stage
    exact ⟨_,_,_,_,_,_,_,hf⟩
  · exact ⟨_,_,_,_,_,_,_,rfl⟩

theorem after_config : x.after.config = x.before.config := by
  obtain ⟨_,_,_,_,_,_,_,hf⟩ := x.after_frame
  rw [hf]

theorem after_signals : x.after.inboxSeq = x.before.inboxSeq ∧
    x.after.signalInbox = x.before.signalInbox ∧
      x.after.inflightRefs = x.before.inflightRefs := by
  obtain ⟨_,_,_,_,_,_,_,hf⟩ := x.after_frame
  rw [hf]
  exact ⟨rfl,rfl,rfl⟩

theorem after_nextScheduled
    (hb : x.before.idCounters.nextScheduled+x.children.length ≤ u64Max) :
    x.after.idCounters.nextScheduled =
      x.before.idCounters.nextScheduled+x.children.length := by
  by_cases hc : x.commits = true
  · have hs : x.children = x.gate.stage.children := by rw [children,stage,if_pos hc]
    have he : x.after = (applyStage x.start x.gate.stage).1 := if_pos hc
    rw [hs] at hb ⊢
    obtain ⟨_,_,hf⟩ := applyStage_frame x.start x.gate.stage
    have ha := (x.gate_staged.numbered hb).2.1
    rw [he,hf]
    change satAdd64 x.before.idCounters.nextScheduled
      x.gate.stage.idCounters.nextScheduledAdvance = _
    rw [ha,satAdd64_eq hb]
  · have hs : x.children = [] := by rw [children,stage,if_neg hc]; rfl
    have he : x.after = x.start := if_neg hc
    rw [hs,he]
    rfl

end Execution
end ArkheKernel
