import Mathlib.Data.List.Induction

/-!
# Runs of a step function

A system is a partial function that takes a state and an action to the next state.  `Steps.run` takes a list of
actions; `Steps.run_induction` is the induction over a run, and `Steps.meet_induction` the one over a run all steps of
which meet a condition on the state and the action.
-/

namespace Steps

variable {S A : Type} (step : S → A → Option S)

def run (s : S) : List A → Option S
  | [] => some s
  | a :: as => (step s a).bind fun s' => run s' as

/-- All steps of the run of `as` from `s` meet `C`. -/
def Meet (C : S → A → Prop) (s : S) : List A → Prop
  | [] => True
  | a :: as => C s a ∧ ∀ s', step s a = some s' → Meet C s' as

variable {step}

/-- What every step keeps every run keeps. -/
theorem run_induction {P : S → Prop} (hstep : ∀ s a s', P s → step s a = some s' → P s') {s s' : S} {as : List A}
    (hs : P s) (h : run step s as = some s') : P s' := by
  induction as generalizing s with
  | nil => cases h; exact hs
  | cons a as ih =>
    obtain ⟨s₁, h₁, h₂⟩ := Option.bind_eq_some_iff.1 h
    exact ih (hstep s a s₁ hs h₁) h₂

theorem run_append (s : S) (as bs : List A) :
    run step s (as ++ bs) = (run step s as).bind fun s' => run step s' bs := by
  induction as generalizing s with
  | nil => rfl
  | cons a as ih =>
    rw [List.cons_append, run, run, Option.bind_assoc]
    exact congrArg _ (funext ih)

theorem run_trans {s s' s'' : S} {as bs : List A} (h : run step s as = some s') (h' : run step s' bs = some s'') :
    run step s (as ++ bs) = some s'' := by
  rw [run_append, h, Option.bind_some, h']

theorem run_step {s s' s'' : S} {as : List A} {a : A} (h : run step s as = some s') (ha : step s' a = some s'') :
    run step s (as ++ [a]) = some s'' := by
  refine run_trans h ?_
  rw [run, ha]
  rfl

/-- A run that evaluates to a state is a run to that state. -/
theorem run_eq_getD {s s' : S} {as : List A} (h : (run step s as).isSome = true) :
    run step s as = some ((run step s as).getD s') :=
  (Option.getD_of_ne_none (Option.isSome_iff_ne_none.1 h) s').symm

/-- Induction over a run for a property that mentions the actions so far. -/
theorem history_induction {P : List A → S → Prop} {s₀ : S} (hinit : P [] s₀)
    (hstep : ∀ as s a s', run step s₀ as = some s → P as s → step s a = some s' → P (as ++ [a]) s')
    {as : List A} {s : S} (h : run step s₀ as = some s) : P as s := by
  induction as using List.reverseRecOn generalizing s with
  | nil => cases h; exact hinit
  | append_singleton as a ih =>
    rw [run_append] at h
    obtain ⟨s₁, h₁, h₂⟩ := Option.bind_eq_some_iff.1 h
    obtain ⟨s₂, h₃, h₄⟩ := Option.bind_eq_some_iff.1 h₂
    cases h₄
    exact hstep as s₁ a s h₁ (ih h₁) h₃

/-- What every step under the condition keeps every run under the condition keeps. -/
theorem meet_induction {C : S → A → Prop} {P : S → Prop}
    (hstep : ∀ s a s', P s → C s a → step s a = some s' → P s') {s s' : S} {as : List A} (hs : P s)
    (hmeet : Meet step C s as) (h : run step s as = some s') : P s' := by
  induction as generalizing s with
  | nil => cases h; exact hs
  | cons a as ih =>
    obtain ⟨s₁, h₁, h₂⟩ := Option.bind_eq_some_iff.1 h
    exact ih (hstep s a s₁ hs hmeet.1 h₁) (hmeet.2 s₁ h₁) h₂

theorem meet_true (s : S) (as : List A) : Meet step (fun _ _ => True) s as := by
  induction as generalizing s with
  | nil => trivial
  | cons a as ih => exact ⟨trivial, fun s' _ => ih s'⟩

/-- A condition on the actions alone can be added. -/
theorem Meet.and_mem {C : S → A → Prop} {D : A → Prop} {s : S} {as : List A} (h : Meet step C s as)
    (hD : ∀ a ∈ as, D a) : Meet step (fun s a => C s a ∧ D a) s as := by
  induction as generalizing s with
  | nil => trivial
  | cons a as ih =>
    rw [List.forall_mem_cons] at hD
    exact ⟨⟨h.1, hD.1⟩, fun s' hs' => ih (h.2 s' hs') hD.2⟩

instance decidableMeet {C : S → A → Prop} [∀ s a, Decidable (C s a)] (s : S) :
    (as : List A) → Decidable (Meet step C s as)
  | [] => isTrue trivial
  | a :: as =>
    have : Decidable (∀ s', step s a = some s' → Meet step C s' as) :=
      match step s a with
      | none => isTrue fun _ h => by cases h
      | some s₁ =>
        have := decidableMeet (C := C) s₁ as
        decidable_of_iff (Meet step C s₁ as) ⟨fun h s' hs => by cases hs; exact h, fun h => h s₁ rfl⟩
    inferInstanceAs (Decidable (C s a ∧ _))

end Steps
