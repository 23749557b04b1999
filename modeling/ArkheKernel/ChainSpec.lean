import ArkheKernel.ReplayFidelity

/-!
# The chain specification

The repository keeps a specification of the chain in temporal logic: a log that
only grows, a tick, and a tip that a function computes from the log alone. It is
stated here over a state of its own, and the kernel with a writer attached is
mapped onto it.
-/

set_option autoImplicit false

namespace ArkheKernel
open PrefixCode

namespace ChainSpec

structure Record where
  seq : ℕ
  tick : ℕ
  payload : Bytes

structure State where
  wal : List Record
  chainTip : Block
  tick : ℕ

variable (chainHash : List Record → Block) (maxTicks maxWalLen : ℕ)

def Init (s : State) : Prop := s.chainTip = chainHash [] ∧ s.wal = [] ∧ s.tick = 0

def AppendWalRecord (rec : Record) (s s' : State) : Prop :=
  s.wal.length < maxWalLen ∧ s.tick+1 ≤ maxTicks ∧ s'.wal = s.wal ++ [rec] ∧
    s'.chainTip = chainHash s'.wal ∧ s'.tick = s.tick+1

def Next (s s' : State) : Prop := ∃ rec, AppendWalRecord chainHash maxTicks maxWalLen rec s s'

/-- A behaviour may stutter, so what matters is reachability. -/
def Leads : State → State → Prop := Relation.ReflTransGen (Next chainHash maxTicks maxWalLen)

def ChainHashDeterministic (s : State) : Prop := s.chainTip = chainHash s.wal

def TypeOK (s : State) : Prop := s.tick ≤ maxTicks ∧ s.wal.length ≤ maxWalLen

variable {chainHash maxTicks maxWalLen}

/-- What the specification promises of every behaviour. -/
theorem Leads.safe {s s' : State} (hs : Init chainHash s)
    (h : Leads chainHash maxTicks maxWalLen s s') : ChainHashDeterministic chainHash s' ∧
      TypeOK maxTicks maxWalLen s' ∧ s'.wal.length = s'.tick := by
  induction h with
  | refl =>
    obtain ⟨htip,hwal,htick⟩ := hs
    unfold ChainHashDeterministic TypeOK
    rw [htip,hwal,htick]
    exact ⟨rfl,⟨Nat.zero_le _,Nat.zero_le _⟩,rfl⟩
  | tail _ hn ih =>
    obtain ⟨-,-,hlen⟩ := ih
    obtain ⟨rec,hw,ht,hwal,htip,htick⟩ := hn
    refine ⟨htip,⟨?_,?_⟩,?_⟩
    · rw [htick]
      exact ht
    · rw [hwal,List.length_append,List.length_singleton]
      exact hw
    · rw [hwal,htick,List.length_append,List.length_singleton,hlen]

end ChainSpec

def WalRecordContent.tick : WalRecordContent → ℕ
  | .submit _ _ _ _ _ atTick _ _ _ => atTick.val
  | .step _ _ _ now _ _ _ => now.val

def WalRecord.spec (r : WalRecord) : ChainSpec.Record := ⟨r.content.seq,r.content.tick,r.body⟩

def WalWriter.spec (w : WalWriter) : ChainSpec.State :=
  ⟨w.records.map WalRecord.spec,w.chainTip,w.records.length⟩

def chainHash (c : Crypto) (key : Block) (records : List ChainSpec.Record) : Block :=
  records.foldl (fun tip r => c.keyedHash key (tip.toList ++ r.payload)) zeroBlock

section Refinement
variable {c : Crypto} {worldId manifest : Block} {sigClass : SignatureClass} {w : WalWriter}

/-- Sealing a record is one step of the specification. -/
theorem push_next
    (hd : ChainSpec.ChainHashDeterministic (chainHash c w.chainKey) w.spec) (seq : ℕ)
    (content : WalRecordContent) :
    let w' := WalWriter.pushSealed c { w with nextSeq := seq } content
    ChainSpec.ChainHashDeterministic (chainHash c w.chainKey) w'.spec ∧
      ∀ maxTicks maxWalLen, w'.records.length ≤ maxTicks → w'.records.length ≤ maxWalLen →
        ChainSpec.Next (chainHash c w.chainKey) maxTicks maxWalLen w.spec w'.spec := by
  intro w'
  have hlen : w'.records.length = w.records.length+1 := by
    change (w.records ++ [_]).length = _
    rw [List.length_append]
    rfl
  have hwal : w'.spec.wal = w.spec.wal ++
      [⟨content.seq,content.tick,bodyBytes content w.prevHash⟩] := by
    change (w.records ++ [_]).map WalRecord.spec = _
    rw [List.map_append]
    rfl
  have htip : w'.spec.chainTip = chainHash c w.chainKey w'.spec.wal := by
    have hprev : chainHash c w.chainKey w.spec.wal = w.prevHash := hd.symm
    rw [hwal]
    unfold chainHash at hprev ⊢
    rw [List.foldl_append,hprev]
    rfl
  refine ⟨htip,fun maxTicks maxWalLen ht hw => ⟨_,?_,?_,hwal,htip,hlen⟩⟩
  · change (w.records.map WalRecord.spec).length < maxWalLen
    rw [List.length_map]
    omega
  · change w.records.length+1 ≤ maxTicks
    omega

theorem micro_writer {k : Kernel} (hw : k.wal = some w) (a : Micro) :
    ((Kernel.micro c).next k a).wal = some w ∨ ∃ seq content, ((Kernel.micro c).next k a).wal =
      some (WalWriter.pushSealed c { w with nextSeq := seq } content) := by
  cases a with
  | request r =>
    cases r with
    | submit s =>
      change (k.submit c s).2.wal = _ ∨ ∃ seq content, (k.submit c s).2.wal = _
      rcases Kernel.submit_cases c k s with ⟨e,he⟩ | ⟨i,-,-,he⟩
      · rw [he]
        exact .inl hw
      · rw [he,hw]
        exact .inr ⟨_,_,rfl⟩
    | forceUnload route caps =>
      change (k.forceUnload route caps).2.wal = _ ∨ _
      unfold Kernel.forceUnload
      split <;> exact .inl hw
    | _ => exact .inl hw
  | pop inst now caps =>
    change (k.pop c inst now caps).wal = _ ∨ ∃ seq content, (k.pop c inst now caps).wal = _
    cases hx : k.execution inst now caps with
    | none =>
      rw [Kernel.pop_none c hx]
      exact .inl hw
    | some x =>
      obtain ⟨_,hp⟩ := Kernel.pop_some c hx
      rw [hp,hw]
      exact .inr ⟨_,_,rfl⟩

theorem run_leads (as : List Micro) {k : Kernel} (hw : k.wal = some w)
    (hd : ChainSpec.ChainHashDeterministic (chainHash c w.chainKey) w.spec) :
    ∃ w', ((Kernel.micro c).run k as).wal = some w' ∧ w'.chainKey = w.chainKey ∧
      w.records.length ≤ w'.records.length ∧
      ∀ maxTicks maxWalLen, w'.records.length ≤ maxTicks → w'.records.length ≤ maxWalLen →
        ChainSpec.Leads (chainHash c w.chainKey) maxTicks maxWalLen w.spec w'.spec := by
  induction as generalizing k w with
  | nil => exact ⟨w,hw,rfl,le_refl _,fun _ _ _ _ => .refl⟩
  | cons a as ih =>
    rcases micro_writer hw a with hn | ⟨seq,content,hn⟩
    · exact ih hn hd
    · obtain ⟨hd',hnext⟩ := push_next hd seq content
      obtain ⟨w',hrun,hkey,hlen,hleads⟩ := ih hn hd'
      have hl : w.records.length ≤ w'.records.length :=
        le_trans (by simp [WalWriter.pushSealed]) hlen
      refine ⟨w',hrun,hkey,hl,fun maxTicks maxWalLen ht hm => ?_⟩
      exact .head (hnext _ _ (hlen.trans ht) (hlen.trans hm)) (hleads _ _ ht hm)

end Refinement

/-- Every stretch of every run of a kernel with a log is a behaviour of the chain
specification, for any ceilings that the log stays under: it starts in an initial
state, each record is one step, and everything else stutters. -/
theorem kernel_refines_chain_spec (c : Crypto) (worldId manifest : Block)
    (sigClass : SignatureClass) (pre post : List Call) :
    let start := Kernel.newWithWalSigned c worldId manifest sigClass
    let hash := chainHash c (buildChainKey c worldId)
    ∃ w w' s₀, ((Kernel.machine c).run start pre).wal = some w ∧
      ((Kernel.machine c).run start (pre++post)).wal = some w' ∧ ChainSpec.Init hash s₀ ∧
      ChainSpec.ChainHashDeterministic hash w.spec ∧ ChainSpec.ChainHashDeterministic hash w'.spec ∧
      ∀ maxTicks maxWalLen, w'.records.length ≤ maxTicks → w'.records.length ≤ maxWalLen →
        ChainSpec.Leads hash maxTicks maxWalLen s₀ w.spec ∧
          ChainSpec.Leads hash maxTicks maxWalLen w.spec w'.spec := by
  intro start hash
  let w₀ := WalWriter.withSignature c worldId manifest sigClass
  have hw₀ : start.wal = some w₀ := rfl
  have hinit : ChainSpec.Init hash w₀.spec := ⟨rfl,rfl,rfl⟩
  obtain ⟨w,hw,hkey,-,hleads⟩ := run_leads ((Kernel.expansion c).words start pre) hw₀ rfl
  have hd := (ChainSpec.Leads.safe hinit (hleads _ _ le_rfl le_rfl)).1
  rw [← (Kernel.expansion c).run_eq] at hw
  obtain ⟨w',hw',-,hlen,hleads'⟩ := run_leads (c := c)
    ((Kernel.expansion c).words ((Kernel.machine c).run start pre) post) hw (by rw [hkey]; exact hd)
  rw [← (Kernel.expansion c).run_eq,← Transducer.run_append] at hw'
  rw [hkey] at hleads'
  have hd' := (ChainSpec.Leads.safe hinit ((hleads _ _ hlen hlen).trans
    (hleads' _ _ le_rfl le_rfl))).1
  exact ⟨w,w',w₀.spec,hw,hw',hinit,hd,hd',fun maxTicks maxWalLen ht hm =>
    ⟨hleads _ _ (hlen.trans ht) (hlen.trans hm),hleads' _ _ ht hm⟩⟩

end ArkheKernel
