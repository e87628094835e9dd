import Mathlib.Logic.Relation

/-!
# Forests

`parent p x` says that `p` is the parent of `x`.  The relation is a forest when a node has one parent at most, no node
is its own ancestor, and every node is reached from a root.  If a parent always comes before its children, it is
enough that parents are unique (`of_rank`).
-/

namespace Forests

variable {α : Type} {parent : α → α → Prop}

structure IsForest (parent : α → α → Prop) : Prop where
  unique : ∀ {p p' x}, parent p x → parent p' x → p = p'
  acyclic : ∀ x, ¬Relation.TransGen parent x x
  rooted : ∀ x, ∃ r, Relation.ReflTransGen parent r x ∧ ∀ p, ¬parent p r

variable (rank : α → Nat)

private theorem rank_lt_of_transGen (hrank : ∀ p x, parent p x → rank p < rank x) {p x : α}
    (h : Relation.TransGen parent p x) : rank p < rank x := by
  induction h with
  | single h => exact hrank _ _ h
  | tail _ h ih => exact Nat.lt_trans ih (hrank _ _ h)

/-- The root of a node, found by going up. -/
theorem exists_root (hrank : ∀ p x, parent p x → rank p < rank x) (x : α) :
    ∃ r, Relation.ReflTransGen parent r x ∧ ∀ p, ¬parent p r := by
  induction hn : rank x using Nat.strongRecOn generalizing x with
  | ind n ih =>
    by_cases hroot : ∃ p, parent p x
    · obtain ⟨p, hp⟩ := hroot
      obtain ⟨r, hr, hnone⟩ := ih (rank p) (hn ▸ hrank p x hp) p rfl
      exact ⟨r, hr.tail hp, hnone⟩
    · exact ⟨x, Relation.ReflTransGen.refl, fun p hp => hroot ⟨p, hp⟩⟩

theorem IsForest.of_rank (hunique : ∀ {p p' x}, parent p x → parent p' x → p = p')
    (hrank : ∀ p x, parent p x → rank p < rank x) : IsForest parent where
  unique := hunique
  acyclic _ h := Nat.lt_irrefl _ (rank_lt_of_transGen rank hrank h)
  rooted := exists_root rank hrank

end Forests
