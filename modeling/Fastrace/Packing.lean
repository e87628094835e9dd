import Mathlib.Data.List.Basic

/-!
# Packing a list into batches

A list is packed from its front: the items that come next either leave together as a batch that fits, or the next
item fits into no batch, not even alone, and is skipped.  `Packs fits xs batches skipped` says that the batches and
the skipped items arise so from `xs`.  The batches are then a sublist of `xs` (`Packs.flatten_sublist`), and together
with the skipped items they are all of `xs` (`Packs.perm`).
-/

namespace Fastrace

variable {α : Type} {fits : List α → Prop} {xs skipped : List α} {batches : List (List α)}

inductive Packs (fits : List α → Prop) : List α → List (List α) → List α → Prop where
  | nil : Packs fits [] [] []
  | batch {batch xs : List α} {batches : List (List α)} {skipped : List α} (hfits : fits batch)
      (rest : Packs fits xs batches skipped) : Packs fits (batch ++ xs) (batch :: batches) skipped
  | skip {x : α} {xs : List α} {batches : List (List α)} {skipped : List α} (hfits : ¬ fits [x])
      (rest : Packs fits xs batches skipped) : Packs fits (x :: xs) batches (x :: skipped)

namespace Packs

theorem not_fits_of_mem (h : Packs fits xs batches skipped) : ∀ x ∈ skipped, ¬ fits [x] := by
  induction h with
  | nil => simp
  | batch hfits rest ih => exact ih
  | skip hfits rest ih =>
    intro y hy
    rcases List.mem_cons.mp hy with rfl | hy
    · exact hfits
    · exact ih y hy

/-- The batches follow each other in the order of the list, and none takes an item twice. -/
theorem flatten_sublist (h : Packs fits xs batches skipped) : batches.flatten.Sublist xs := by
  induction h with
  | nil => simp
  | batch hfits rest ih =>
    rw [List.flatten_cons]
    exact (List.Sublist.refl _).append ih
  | skip hfits rest ih => exact ih.cons _

/-- Every item is in a batch or skipped, and only once. -/
theorem perm (h : Packs fits xs batches skipped) : (batches.flatten ++ skipped).Perm xs := by
  induction h with
  | nil => simp
  | batch hfits rest ih =>
    rw [List.flatten_cons, List.append_assoc]
    exact ih.append_left _
  | skip hfits rest ih => exact List.perm_middle.trans (ih.cons _)

end Packs

end Fastrace
