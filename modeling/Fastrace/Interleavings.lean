import Mathlib.Logic.Function.Basic

/-!
# Interleavings

Threads that each change a state of their own: what happens to the state of one thread is said by the actions of this
thread alone (`run_apply`), and a condition on the state and the next action holds along the whole interleaving exactly
when it does along the actions of every thread (`along_iff_threads`).
-/

namespace Interleavings

variable {T S A : Type}

/-- `P` holds of every action and the state it finds. -/
def Along (f : S → A → S) (P : S → A → Prop) : S → List A → Prop
  | _, [] => True
  | s, a :: as => P s a ∧ Along f P (f s a) as

theorem along_append {f : S → A → S} {P : S → A → Prop} {s : S} {as bs : List A} :
    Along f P s (as ++ bs) ↔ Along f P s as ∧ Along f P (as.foldl f s) bs := by
  induction as generalizing s with
  | nil => simp [Along]
  | cons a as ih => simp [Along, ih, and_assoc]

instance decidableAlong {f : S → A → S} {P : S → A → Prop} [∀ s a, Decidable (P s a)] (s : S) :
    (as : List A) → Decidable (Along f P s as)
  | [] => isTrue trivial
  | a :: as =>
    have : Decidable (Along f P (f s a) as) := decidableAlong (f s a) as
    inferInstanceAs (Decidable (P s a ∧ _))

variable [DecidableEq T]

/-- The actions of a thread. -/
def actionsOf (t : T) (as : List (T × A)) : List A := (as.filter (·.1 = t)).map Prod.snd

@[simp] theorem actionsOf_nil (t : T) : actionsOf t ([] : List (T × A)) = [] := rfl

@[simp] theorem actionsOf_append (t : T) (as bs : List (T × A)) :
    actionsOf t (as ++ bs) = actionsOf t as ++ actionsOf t bs := by
  simp [actionsOf]

theorem actionsOf_cons (t : T) (a : T × A) (as : List (T × A)) :
    actionsOf t (a :: as) = if a.1 = t then a.2 :: actionsOf t as else actionsOf t as := by
  unfold actionsOf
  by_cases h : a.1 = t <;> simp [h]

/-- The actions of one thread are all its own. -/
@[simp] theorem actionsOf_map_self (t : T) (as : List A) : actionsOf t (as.map fun a => (t, a)) = as := by
  induction as with
  | nil => rfl
  | cons a as ih => rw [List.map_cons, actionsOf_cons, if_pos rfl, ih]

theorem actionsOf_map_ne {t u : T} (h : u ≠ t) (as : List A) : actionsOf t (as.map fun a => (u, a)) = [] := by
  induction as with
  | nil => rfl
  | cons a as ih => rw [List.map_cons, actionsOf_cons, if_neg h, ih]

theorem mem_actionsOf {t : T} {a : A} {as : List (T × A)} : a ∈ actionsOf t as ↔ (t, a) ∈ as := by
  simp [actionsOf]

/-- An interleaving may be cut where the actions of a thread are. -/
theorem actionsOf_eq_append {t : T} {as : List (T × A)} {xs ys : List A} (h : actionsOf t as = xs ++ ys) :
    ∃ as₁ as₂, as = as₁ ++ as₂ ∧ actionsOf t as₁ = xs ∧ actionsOf t as₂ = ys := by
  obtain ⟨xs', ys', hfilter, rfl, rfl⟩ := List.map_eq_append_iff.1 h
  obtain ⟨as₁, as₂, rfl, rfl, rfl⟩ := List.filter_eq_append_iff.1 hfilter
  exact ⟨as₁, as₂, rfl, rfl, rfl⟩

theorem actionsOf_eq_cons {t : T} {as : List (T × A)} {x : A} {xs : List A} (h : actionsOf t as = x :: xs) :
    ∃ as₁ as₂, as = as₁ ++ (t, x) :: as₂ ∧ actionsOf t as₁ = [] ∧ actionsOf t as₂ = xs := by
  obtain ⟨a, xs', hfilter, rfl, rfl⟩ := List.map_eq_cons_iff.1 h
  obtain ⟨as₁, as₂, rfl, hbefore, hat, rfl⟩ := List.filter_eq_cons_iff.1 hfilter
  have hthread : a.1 = t := of_decide_eq_true hat
  refine ⟨as₁, as₂, by rw [← hthread], ?_, rfl⟩
  rw [actionsOf, List.filter_eq_nil_iff.2 hbefore, List.map_nil]

/-- An action changes the state of its thread. -/
def stepOf (f : S → A → S) (s : T → S) (a : T × A) : T → S := Function.update s a.1 (f (s a.1) a.2)

def run (f : S → A → S) (s : T → S) (as : List (T × A)) : T → S := as.foldl (stepOf f) s

variable {f : S → A → S} {P : S → A → Prop}

theorem run_apply (s : T → S) (as : List (T × A)) (t : T) : run f s as t = (actionsOf t as).foldl f (s t) := by
  unfold run
  induction as generalizing s with
  | nil => rfl
  | cons a as ih =>
    rw [List.foldl_cons, ih, actionsOf_cons]
    by_cases h : a.1 = t
    · subst h
      rw [if_pos rfl, List.foldl_cons, stepOf, Function.update_self]
    · rw [if_neg h, stepOf, Function.update_of_ne (Ne.symm h)]

/-- An interleaving may be looked at thread by thread. -/
theorem along_iff_threads {s : T → S} {as : List (T × A)} :
    Along (stepOf f) (fun s a => P (s a.1) a.2) s as ↔ ∀ t, Along f P (s t) (actionsOf t as) := by
  induction as generalizing s with
  | nil => exact iff_of_true trivial fun t => trivial
  | cons a as ih =>
    rw [Along, ih]
    constructor
    · rintro ⟨ha, hrest⟩ t
      have ht := hrest t
      rw [actionsOf_cons]
      by_cases h : a.1 = t
      · subst h
        rw [stepOf, Function.update_self] at ht
        rw [if_pos rfl]
        exact ⟨ha, ht⟩
      · rw [stepOf, Function.update_of_ne (Ne.symm h)] at ht
        rwa [if_neg h]
    · intro hall
      have ha := hall a.1
      rw [actionsOf_cons, if_pos rfl] at ha
      refine ⟨ha.1, fun t => ?_⟩
      by_cases h : a.1 = t
      · subst h
        rw [stepOf, Function.update_self]
        exact ha.2
      · have ht := hall t
        rw [actionsOf_cons, if_neg h] at ht
        rwa [stepOf, Function.update_of_ne (Ne.symm h)]

end Interleavings
