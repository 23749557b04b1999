import Mathlib

/-!
# Pending lists

What a timer queue is for: a list of entries in the order of their insertion,
from which the earliest entry is taken once it is due, the first of several
that are equally early. Entries can also be withdrawn, by identity or by kind.
An implementation that numbers its entries keeps rows instead.
-/

set_option autoImplicit false

namespace PendingList

variable {E T I : Type*} (due : E → T) (ident : E → I)

/-- The earliest entry, if it is due, and what is left. -/
def pop [LinearOrder T] [DecidableEq E] (now : T) (l : List E) : Option E × List E :=
  match l.argmin due with
  | none => (none,l)
  | some e => if due e ≤ now then (some e,l.erase e) else (none,l)

def withdraw [DecidableEq I] (i : I) (l : List E) : Option E × List E :=
  (l.find? (fun e => ident e = i),l.filter (fun e => ident e ≠ i))

def withdrawAll [LinearOrder I] (p : E → Bool) (l : List E) : List E × List E :=
  ((l.filter p).insertionSort (fun a b => ident a ≤ ident b),l.filter (fun e => !p e))

def Distinct (l : List E) : Prop := l.Pairwise (fun a b => ident a ≠ ident b)

variable {due ident} {l l' : List E} {e : E}

theorem Distinct.eq (h : Distinct ident l) {a b : E} (ha : a ∈ l) (hb : b ∈ l)
    (he : ident a = ident b) : a = b := by
  have hp : l.Pairwise (fun a b => ident a = ident b → a = b) :=
    h.imp (fun hn hab => absurd hab hn)
  have hq : l.Pairwise (fun a b => ident b = ident a → b = a) :=
    h.imp (fun hn hba => absurd hba.symm hn)
  exact List.Pairwise.forall_of_forall_of_flip (fun _ _ _ => rfl) hp hq ha hb he

theorem Distinct.nodup (h : Distinct ident l) : l.Nodup :=
  h.imp (fun hn he => hn (congrArg ident he))

theorem Distinct.filter (h : Distinct ident l) (p : E → Bool) : Distinct ident (l.filter p) :=
  List.Pairwise.filter p h

theorem Distinct.erase [DecidableEq E] [DecidableEq I] (h : Distinct ident l) (he : e ∈ l) :
    l.erase e = l.filter (fun a => ident a ≠ ident e) := by
  rw [h.nodup.erase_eq_filter]
  apply List.filter_congr
  intro a ha
  by_cases hae : a = e
  · simp [hae]
  · have hne : ident a ≠ ident e := fun hi => hae (h.eq ha he hi)
    simp [hae,hne]

theorem Distinct.find [DecidableEq I] (h : Distinct ident l) (he : e ∈ l) :
    l.find? (fun a => ident a = ident e) = some e := by
  cases hf : l.find? (fun a => ident a = ident e) with
  | none =>
    have hn := List.find?_eq_none.mp hf e he
    simp at hn
  | some a =>
    have hi : ident a = ident e := by simpa using List.find?_some hf
    rw [h.eq (List.mem_of_find?_eq_some hf) he hi]

theorem Distinct.sorted_eq [LinearOrder I] (h : Distinct ident l) (hs : l'.Pairwise (fun a b => ident a < ident b))
    (hm : ∀ a, a ∈ l' ↔ a ∈ l) : l' = l.insertionSort (fun a b => ident a ≤ ident b) := by
  have hnodup : l'.Nodup := hs.imp (fun hlt he => hlt.ne (congrArg ident he))
  have hperm : l'.Perm (l.insertionSort (fun a b => ident a ≤ ident b)) :=
    ((List.perm_ext_iff_of_nodup hnodup h.nodup).mpr hm).trans (List.perm_insertionSort _ _).symm
  have htotal : Std.Total (fun a b : E => ident a ≤ ident b) := ⟨fun a b => le_total _ _⟩
  have htrans : IsTrans E (fun a b => ident a ≤ ident b) := ⟨fun a b c => le_trans⟩
  apply hperm.eq_of_pairwise _ (hs.imp le_of_lt) (List.pairwise_insertionSort _ l)
  intro a b ha hb hab hba
  have hb' : b ∈ l := (List.perm_insertionSort _ l).mem_iff.mp hb
  exact h.eq ((hm a).mp ha) hb' (le_antisymm hab hba)

theorem withdrawAll_none [LinearOrder I] {p : E → Bool} (h : ∀ a ∈ l, p a ≠ true) :
    withdrawAll ident p l = ([],l) := by
  have hnil : l.filter p = [] := List.filter_eq_nil_iff.mpr h
  have hall : l.filter (fun e => !p e) = l :=
    List.filter_eq_self.mpr (fun a ha => by simpa using h a ha)
  rw [withdrawAll,hnil,hall]
  rfl

/-- Entries of the list with the identities of a kind, in ascending order, are
what withdrawing that kind returns. -/
theorem withdrawAll_eq [LinearOrder I] {p : E → Bool} {ids : List I} (h : Distinct ident l)
    (hs : ids.Pairwise (· < ·)) (hids : ∀ i, i ∈ ids ↔ ∃ a ∈ l, ident a = i ∧ p a = true)
    (hmap : l'.map ident = ids) (hl : ∀ a ∈ l', a ∈ l) : l' = (withdrawAll ident p l).1 := by
  apply (h.filter p).sorted_eq
  · rw [← hmap] at hs
    exact List.pairwise_map.mp hs
  · intro e
    rw [List.mem_filter]
    constructor
    · intro he
      have hid : ident e ∈ ids := by
        rw [← hmap]
        exact List.mem_map_of_mem he
      obtain ⟨a,ha,hi,hp⟩ := (hids _).mp hid
      rw [h.eq ha (hl e he) hi] at hp
      exact ⟨hl e he,hp⟩
    · rintro ⟨he,hp⟩
      have hid := (hids _).mpr ⟨e,he,rfl,hp⟩
      rw [← hmap] at hid
      obtain ⟨a,ha,hi⟩ := List.mem_map.mp hid
      rwa [← h.eq (hl a ha) he hi]

section Earliest
variable [LinearOrder T]

theorem argmin_split {pre post : List E} (hpre : ∀ a ∈ pre, due e < due a)
    (hpost : ∀ a ∈ post, due e ≤ due a) : (pre ++ e::post).argmin due = some e := by
  classical
  have hne : e ∉ pre := fun he => lt_irrefl _ (hpre e he)
  rw [List.argmin_eq_some_iff]
  refine ⟨by simp,?_,?_⟩
  · intro a ha
    rcases List.mem_append.mp ha with ha | ha
    · exact (hpre a ha).le
    · rcases List.mem_cons.mp ha with rfl | ha
      · exact le_refl _
      · exact hpost a ha
  · intro a _ hle
    have hna : a ∉ pre := fun ha => not_lt_of_ge hle (hpre a ha)
    rw [List.idxOf_append_of_notMem hne,List.idxOf_append_of_notMem hna]
    simp

/-- Numbered entries in ascending order: the row that no row precedes by due time
and number holds the earliest entry. -/
theorem argmin_rows {rows : List (ℕ × E)} (hs : rows.Pairwise (fun a b => a.1 < b.1)) {r : ℕ × E}
    (hr : r ∈ rows) (hmin : ∀ q ∈ rows, due r.2 < due q.2 ∨ due r.2 = due q.2 ∧ r.1 ≤ q.1) :
    (rows.map Prod.snd).argmin due = some r.2 := by
  obtain ⟨pre,post,rfl⟩ := List.append_of_mem hr
  rw [List.map_append,List.map_cons]
  apply argmin_split
  · intro a ha
    obtain ⟨q,hq,rfl⟩ := List.mem_map.mp ha
    have hlt : q.1 < r.1 := (List.pairwise_append.mp hs).2.2 q hq r List.mem_cons_self
    rcases hmin q (List.mem_append_left _ hq) with hd | ⟨-,hle⟩
    · exact hd
    · omega
  · intro a ha
    obtain ⟨q,hq,rfl⟩ := List.mem_map.mp ha
    rcases hmin q (List.mem_append_right _ (List.mem_cons_of_mem _ hq)) with hd | ⟨hd,-⟩
    · exact hd.le
    · exact hd.le

theorem pop_some [DecidableEq E] {now : T} (h : l.argmin due = some e) (hd : due e ≤ now) :
    pop due now l = (some e,l.erase e) := by
  unfold pop
  rw [h]
  exact if_pos hd

theorem pop_none [DecidableEq E] {now : T} (h : ∀ a ∈ l, now < due a) :
    pop due now l = (none,l) := by
  unfold pop
  cases ha : l.argmin due with
  | none => rfl
  | some e => exact if_neg (not_le_of_gt (h e (List.argmin_mem ha)))

end Earliest
end PendingList
