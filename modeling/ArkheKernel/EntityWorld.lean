import Mathlib

/-!
# Worlds of entities and components

A world maps every live entity to its metadata and its components. Components
live inside their entity, so none can outlive it. What a world holds under a
key is read off the history of writes, at the last write that touches the key.
-/

set_option autoImplicit false

namespace EntityWorld

/-- What a fold keeps under one key is what the last touching write left there.
The effect of a write may depend on the history before it. -/
theorem last_write {A B : Type*} (f : List A → Option B) (touch : List A → A → Option (Option B))
    (hnil : f [] = none) (hsnoc : ∀ ws a, f (ws++[a]) = (touch ws a).getD (f ws)) (ws : List A)
    (b : B) : f ws = some b ↔ ∃ pre a post, ws = pre ++ a::post ∧ touch pre a = some (some b) ∧
      ∀ mid a' rest, post = mid ++ a'::rest → touch (pre ++ a::mid) a' = none := by
  induction ws using List.reverseRecOn with
  | nil => simp [hnil]
  | append_singleton ws a ih =>
    rw [hsnoc]
    constructor
    · intro h
      cases ht : touch ws a with
      | some v =>
        rw [ht] at h
        refine ⟨ws,a,[],rfl,by rw [ht]; exact congrArg some h,?_⟩
        intro mid a' rest he
        simp at he
      | none =>
        rw [ht] at h
        obtain ⟨pre,a₀,post,rfl,h₀,hpost⟩ := ih.mp h
        refine ⟨pre,a₀,post++[a],by simp,h₀,?_⟩
        intro mid a' rest he
        rcases List.eq_nil_or_concat rest with rfl | ⟨rest,a'',rfl⟩
        · obtain ⟨rfl,hlast⟩ := List.append_inj' he rfl
          obtain rfl := List.singleton_inj.mp hlast
          exact ht
        · rw [List.concat_eq_append,← List.cons_append,← List.append_assoc] at he
          exact hpost mid a' rest (List.append_inj' he rfl).1
    · rintro ⟨pre,a₀,post,he,h₀,hpost⟩
      rcases List.eq_nil_or_concat post with rfl | ⟨post,a',rfl⟩
      · obtain ⟨rfl,hlast⟩ := List.append_inj' he rfl
        obtain rfl := List.singleton_inj.mp hlast
        rw [h₀]
        rfl
      · rw [List.concat_eq_append] at *
        rw [← List.cons_append,← List.append_assoc] at he
        obtain ⟨rfl,hlast⟩ := List.append_inj' he rfl
        obtain rfl := List.singleton_inj.mp hlast
        rw [hpost post a [] rfl]
        apply ih.mpr
        refine ⟨pre,a₀,post,rfl,h₀,?_⟩
        intro mid a'' rest hr
        exact hpost mid a'' (rest++[a]) (by rw [hr]; simp)

variable {E M T V : Type*}

structure Body (M T V : Type*) where
  info : M
  components : T → Option V

abbrev World (E M T V : Type*) := E → Option (Body M T V)

inductive Write (E M T V : Type*) where
  | spawn (e : E) (m : M)
  | despawn (e : E)
  | set (e : E) (t : T) (v : V)
  | remove (e : E) (t : T)

def info (w : World E M T V) (e : E) : Option M := (w e).map Body.info

def component (w : World E M T V) (e : E) (t : T) : Option V := (w e).bind (fun b => b.components t)

theorem World.ext_info {w w' : World E M T V} (hi : ∀ e, info w e = info w' e)
    (hc : ∀ e t, component w e t = component w' e t) : w = w' := by
  funext e
  have h := hi e
  have ht := hc e
  unfold info at h
  unfold component at ht
  cases hw : w e with
  | none =>
    rw [hw,Option.map_none,eq_comm,Option.map_eq_none_iff] at h
    exact h.symm
  | some b =>
    rw [hw,Option.map_some,eq_comm,Option.map_eq_some_iff] at h
    obtain ⟨b',hw',hb⟩ := h
    rw [hw,hw'] at ht
    have hcs : b.components = b'.components := funext ht
    obtain ⟨m,cs⟩ := b
    obtain ⟨m',cs'⟩ := b'
    obtain rfl : m' = m := hb
    obtain rfl : cs = cs' := hcs
    exact hw'.symm

variable [DecidableEq E] [DecidableEq T]

/-- Spawning a live entity renews its metadata and keeps its components. -/
def write (w : World E M T V) : Write E M T V → World E M T V
  | .spawn e m => Function.update w e (some ⟨m,fun t => component w e t⟩)
  | .despawn e => Function.update w e none
  | .set e t v => Function.update w e ((w e).map (fun b =>
      { b with components := Function.update b.components t (some v) }))
  | .remove e t => Function.update w e ((w e).map (fun b =>
      { b with components := Function.update b.components t none }))

def run (ws : List (Write E M T V)) : World E M T V := ws.foldl write (fun _ => none)

theorem run_append (ws vs : List (Write E M T V)) : run (ws++vs) = vs.foldl write (run ws) :=
  List.foldl_append

theorem run_snoc (ws : List (Write E M T V)) (a : Write E M T V) :
    run (ws++[a]) = write (run ws) a := run_append ws [a]

def Write.onInfo (e : E) : Write E M T V → Option (Option M)
  | .spawn e' m => if e' = e then some (some m) else none
  | .despawn e' => if e' = e then some none else none
  | .set .. | .remove .. => none

def Write.onComponent (e : E) (t : T) (live : Bool) : Write E M T V → Option (Option V)
  | .spawn .. => none
  | .despawn e' => if e' = e then some none else none
  | .set e' t' v => if e' = e ∧ t' = t ∧ live then some (some v) else none
  | .remove e' t' => if e' = e ∧ t' = t then some none else none

def Write.Touches (e : E) (t : T) : Write E M T V → Prop
  | .spawn .. => False
  | .despawn e' => e' = e
  | .set e' t' _ => e' = e ∧ t' = t
  | .remove e' t' => e' = e ∧ t' = t

def Write.entity : Write E M T V → E
  | .spawn e _ | .despawn e | .set e _ _ | .remove e _ => e

theorem write_elsewhere (w : World E M T V) {a : Write E M T V} {e : E} (h : a.entity ≠ e) :
    write w a e = w e := by
  cases a <;> exact Function.update_of_ne h.symm _ _

theorem write_info (w : World E M T V) (a : Write E M T V) (e : E) :
    info (write w a) e = (a.onInfo e).getD (info w e) := by
  by_cases he : a.entity = e
  · subst he
    cases a <;> simp [write,info,Write.onInfo,Write.entity,Function.comp_def]
  · have hn : a.onInfo e = none := by
      cases a <;> first | rfl | exact if_neg he
    rw [info,write_elsewhere w he,hn]
    rfl

theorem write_component (w : World E M T V) (a : Write E M T V) (e : E) (t : T) :
    component (write w a) e t =
      (a.onComponent e t (info w e).isSome).getD (component w e t) := by
  by_cases he : a.entity = e
  · subst he
    cases a with
    | spawn e m => simp [write,component,Write.onComponent,Write.entity]
    | despawn e => simp [write,component,Write.onComponent,Write.entity]
    | set e t' v =>
      rcases eq_or_ne t' t with rfl | ht
      · cases hw : w e <;> simp [write,component,Write.onComponent,Write.entity,info,hw]
      · cases hw : w e <;> simp [write,component,Write.onComponent,Write.entity,hw,ht,
          Function.update_of_ne ht.symm]
    | remove e t' =>
      rcases eq_or_ne t' t with rfl | ht
      · cases hw : w e <;> simp [write,component,Write.onComponent,Write.entity,hw]
      · cases hw : w e <;> simp [write,component,Write.onComponent,Write.entity,hw,ht,
          Function.update_of_ne ht.symm]
  · have hn : a.onComponent e t (info w e).isSome = none := by
      cases a <;> first | rfl | exact if_neg he | exact if_neg (fun h => he h.1)
    rw [component,write_elsewhere w he,hn]
    rfl

variable (ws : List (Write E M T V)) (e : E) (t : T)

/-- The metadata `m` of the last write that spawned or despawned `e`. -/
def Spawned (m : M) : Prop :=
  ∃ pre post, ws = pre ++ .spawn e m::post ∧ ∀ a ∈ post, a.onInfo e = none

/-- A set of the component while its entity was live, untouched since. -/
def Attached (v : V) : Prop :=
  ∃ pre post, ws = pre ++ .set e t v::post ∧ (∃ m, Spawned pre e m) ∧ ∀ a ∈ post, ¬ a.Touches e t

theorem run_info_iff (m : M) : info (run ws) e = some m ↔ Spawned ws e m := by
  have hl := last_write (fun ws => info (run ws) e) (fun _ (a : Write E M T V) => a.onInfo e) rfl
    (fun ws a => by rw [run_snoc,write_info]) ws m
  rw [hl]
  constructor
  · rintro ⟨pre,a,post,rfl,ha,hpost⟩
    have hs : a = .spawn e m := by
      cases a with
      | spawn e' m' =>
        rw [Write.onInfo] at ha
        split at ha
        · next he =>
          obtain rfl := Option.some.inj (Option.some.inj ha)
          rw [he]
        · cases ha
      | despawn e' =>
        rw [Write.onInfo] at ha
        split at ha <;> cases ha
      | _ => cases ha
    refine ⟨pre,post,by rw [hs],?_⟩
    intro b hb
    obtain ⟨mid,rest,rfl⟩ := List.append_of_mem hb
    exact hpost mid b rest rfl
  · rintro ⟨pre,post,rfl,hpost⟩
    refine ⟨pre,_,post,rfl,if_pos rfl,?_⟩
    rintro mid b rest rfl
    exact hpost b (by simp)

theorem live_kept (w : World E M T V) {e : E} (h : (info w e).isSome)
    {ws : List (Write E M T V)} (hd : .despawn e ∉ ws) : (info (ws.foldl write w) e).isSome := by
  induction ws generalizing w with
  | nil => exact h
  | cons a ws ih =>
    rw [List.mem_cons,not_or] at hd
    apply ih _ _ hd.2
    rw [write_info]
    cases a with
    | spawn e' m =>
      rw [Write.onInfo]
      split
      · rfl
      · exact h
    | despawn e' =>
      rw [Write.onInfo,if_neg (fun he => hd.1 (by rw [he]))]
      exact h
    | _ => exact h

theorem Write.onComponent_none {a : Write E M T V} {e : E} {t : T} (h : ¬ a.Touches e t)
    (live : Bool) : a.onComponent e t live = none := by
  cases a with
  | spawn e' m => rfl
  | despawn e' => exact if_neg h
  | set e' t' v => exact if_neg (fun hs => h ⟨hs.1,hs.2.1⟩)
  | remove e' t' => exact if_neg h

theorem Write.not_touches {a : Write E M T V} {e : E} {t : T}
    (h : a.onComponent e t true = none) : ¬ a.Touches e t := by
  intro ht
  cases a with
  | spawn e' m => exact ht
  | despawn e' =>
    obtain rfl : e' = e := ht
    simp [onComponent] at h
  | set e' t' v =>
    obtain ⟨rfl,rfl⟩ : e' = e ∧ t' = t := ht
    simp [onComponent] at h
  | remove e' t' =>
    obtain ⟨rfl,rfl⟩ : e' = e ∧ t' = t := ht
    simp [onComponent] at h

theorem run_component_iff (v : V) : component (run ws) e t = some v ↔ Attached ws e t v := by
  have hl := last_write (fun ws => component (run ws) e t)
    (fun pre (a : Write E M T V) => a.onComponent e t (info (run pre) e).isSome) rfl
    (fun ws a => by rw [run_snoc,write_component]) ws v
  rw [hl]
  constructor
  · rintro ⟨pre,a,post,rfl,ha,hpost⟩
    obtain ⟨rfl,hlive⟩ : a = .set e t v ∧ (info (run pre) e).isSome := by
      cases a with
      | set e' t' v' =>
        rw [Write.onComponent] at ha
        split at ha
        · next hs =>
          obtain rfl := Option.some.inj (Option.some.inj ha)
          exact ⟨by rw [hs.1,hs.2.1],hs.2.2⟩
        · cases ha
      | spawn e' m => cases ha
      | _ =>
        rw [Write.onComponent] at ha
        split at ha <;> cases ha
    obtain ⟨m,hm⟩ := Option.isSome_iff_exists.mp hlive
    refine ⟨pre,post,rfl,⟨m,(run_info_iff pre e m).mp hm⟩,?_⟩
    -- read forwards: as long as nothing touched the component, its entity is live
    have hall : ∀ mid rest, post = mid ++ rest → ∀ a ∈ mid, ¬ a.Touches e t := by
      intro mid
      induction mid using List.reverseRecOn with
      | nil =>
        intro rest _ a ha
        cases ha
      | append_singleton mid b ih =>
        intro rest hp a ha
        rw [List.append_assoc] at hp
        have hmid := ih _ hp
        rcases List.mem_append.mp ha with ha | ha
        · exact hmid a ha
        · obtain rfl := List.mem_singleton.mp ha
          have hb := hpost mid a rest hp
          have hkept : (info (run (pre ++ .set e t v::mid)) e).isSome := by
            rw [run_append]
            apply live_kept _ hlive
            rw [List.mem_cons,not_or]
            exact ⟨by simp,fun hd => hmid _ hd rfl⟩
          rw [hkept] at hb
          exact a.not_touches hb
    exact hall post [] (by simp)
  · rintro ⟨pre,post,rfl,⟨m,hm⟩,hpost⟩
    have hlive : (info (run pre) e).isSome := by
      rw [(run_info_iff pre e m).mpr hm]
      rfl
    refine ⟨pre,_,post,rfl,if_pos ⟨rfl,rfl,hlive⟩,?_⟩
    rintro mid b rest rfl
    exact b.onComponent_none (hpost b (by simp)) _

end EntityWorld
