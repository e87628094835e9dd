import Mathlib.Logic.Function.Basic
import Mathlib.Data.List.Basic
import Mathlib.Data.List.Flatten
import Mathlib.Data.List.Nodup

/-!
# Tables that are empty almost everywhere

A table gives every place a list, and only finitely many of them are not empty.  `Tally f l` says that `l` is what the
lists of `f` hold together, in some order; changing one list changes the tally by that list only (`Tally.update`).
-/

variable {P X : Type}

/-- Changing the list of one place changes what the places hold together there only. -/
theorem flatMap_update_perm [DecidableEq P] {ps : List P} (hps : ps.Nodup) {p : P} (hp : p ∈ ps) (f : P → List X)
    (l : List X) :
    ∃ rest, (ps.flatMap f).Perm (f p ++ rest) ∧ (ps.flatMap (Function.update f p l)).Perm (l ++ rest) := by
  obtain ⟨before, after, rfl⟩ := List.append_of_mem hp
  have hb : p ∉ before := fun h => (List.nodup_append.1 hps).2.2 p h p (List.mem_cons_self ..) rfl
  have ha : p ∉ after := (List.nodup_cons.1 (List.nodup_append.1 hps).2.1).1
  have hsame : ∀ ps' : List P, p ∉ ps' → ps'.flatMap (Function.update f p l) = ps'.flatMap f := by
    intro ps' hp'
    apply List.flatMap_congr
    intro p' hp''
    have hne : p' ≠ p := fun he => hp' (he ▸ hp'')
    rw [Function.update_of_ne hne]
  refine ⟨before.flatMap f ++ after.flatMap f, ?_, ?_⟩
  · rw [List.flatMap_append, List.flatMap_cons]
    exact List.perm_append_comm_assoc _ _ _
  · rw [List.flatMap_append, List.flatMap_cons, hsame before hb, hsame after ha, Function.update_self]
    exact List.perm_append_comm_assoc _ _ _

def Tally (f : P → List X) (l : List X) : Prop :=
  ∃ ps : List P, ps.Nodup ∧ (∀ p, p ∉ ps → f p = []) ∧ (ps.flatMap f).Perm l

namespace Tally

variable {f : P → List X} {l : List X}

theorem empty (h : ∀ p, f p = []) : Tally f [] := ⟨[], List.nodup_nil, fun p _ => h p, List.Perm.refl _⟩

theorem eq_nil (h : Tally f l) (hf : ∀ p, f p = []) : l = [] := by
  obtain ⟨ps, -, -, hperm⟩ := h
  rw [List.flatMap_eq_nil_iff.2 fun p _ => hf p] at hperm
  exact List.nil_perm.1 hperm

/-- What one place holds, and what the others hold. -/
theorem update [DecidableEq P] (h : Tally f l) (p : P) :
    ∃ rest, l.Perm (f p ++ rest) ∧ ∀ l', Tally (Function.update f p l') (l' ++ rest) := by
  obtain ⟨ps, hnodup, hempty, hperm⟩ := h
  have hsplit : ∃ ps' : List P, ps'.Nodup ∧ p ∈ ps' ∧ (∀ q, q ∉ ps' → f q = []) ∧ (ps'.flatMap f).Perm l := by
    by_cases hp : p ∈ ps
    · exact ⟨ps, hnodup, hp, hempty, hperm⟩
    · refine ⟨p :: ps, List.nodup_cons.2 ⟨hp, hnodup⟩, List.mem_cons_self .., fun q hq => ?_, ?_⟩
      · exact hempty q fun hmem => hq (List.mem_cons_of_mem _ hmem)
      · rwa [List.flatMap_cons, hempty p hp, List.nil_append]
  obtain ⟨ps', hnodup', hp, hempty', hperm'⟩ := hsplit
  obtain ⟨rest, hrest, -⟩ := flatMap_update_perm hnodup' hp f (f p)
  refine ⟨rest, hperm'.symm.trans hrest, fun l' => ⟨ps', hnodup', fun q hq => ?_, ?_⟩⟩
  · have hne : q ≠ p := fun he => hq (he ▸ hp)
    rw [Function.update_of_ne hne]
    exact hempty' q hq
  · obtain ⟨rest', hold, hnew⟩ := flatMap_update_perm hnodup' hp f l'
    have hsame : rest'.Perm rest := (List.perm_append_left_iff (f p)).1 (hold.symm.trans hrest)
    exact hnew.trans (hsame.append_left l')

end Tally
