import Mathlib.Data.List.Basic

/-!
# Runs of one letter

A run of the letter `a` in a list is a maximal block of adjacent `a`s.  Replacing every pair `aa`, from left to
right and without overlaps, halves the even runs (`replacePair a [a]`) or takes them out (`replacePair a []`); of an
odd run one `a` is left over.  So no `a` is left by `replacePair a []` exactly if all runs are even
(`not_mem_replacePair_iff`), and then the result is the list without its `a`s (`replacePair_eq_filter`).
-/

namespace Fastrace

variable {α : Type} [DecidableEq α]

/-- Replace every pair `aa`, from left to right and without overlaps. -/
def replacePair (a : α) (r : List α) : List α → List α
  | [] => []
  | [x] => [x]
  | x :: y :: s => if x = a ∧ y = a then r ++ replacePair a r s else x :: replacePair a r (y :: s)

/-- Every run of `a` has even length. -/
def evenRuns (a : α) : List α → Bool
  | [] => true
  | [x] => x ≠ a
  | x :: y :: s => if x = a then y = a && evenRuns a s else evenRuns a (y :: s)

variable {a x y : α} {r s : List α}

@[simp] theorem replacePair_nil : replacePair a r [] = [] := rfl

@[simp] theorem evenRuns_nil : evenRuns a [] = true := rfl

@[simp] theorem replacePair_pair : replacePair a r (a :: a :: s) = r ++ replacePair a r s := by
  simp [replacePair]

theorem replacePair_cons_of_ne (h : x ≠ a) : replacePair a r (x :: s) = x :: replacePair a r s := by
  cases s <;> simp [replacePair, h]

private theorem replacePair_lone (h : y ≠ a) : replacePair a r (a :: y :: s) = a :: replacePair a r (y :: s) := by
  simp [replacePair, h]

@[simp] theorem evenRuns_pair : evenRuns a (a :: a :: s) = evenRuns a s := by
  simp [evenRuns]

theorem evenRuns_cons_of_ne (h : x ≠ a) : evenRuns a (x :: s) = evenRuns a s := by
  cases s <;> simp [evenRuns, h]

theorem evenRuns_lone (h : y ≠ a) : evenRuns a (a :: y :: s) = false := by
  simp [evenRuns, h]

@[simp] theorem evenRuns_singleton : evenRuns a [a] = false := by
  simp [evenRuns]

/-- Induction on a list from its front: it is empty, it starts with another letter, with a pair, or with an `a` that is
not part of a pair. -/
private theorem pair_induction {P : List α → Prop} (a : α) (nil : P []) (other : ∀ x s, x ≠ a → P s → P (x :: s))
    (pair : ∀ s, P s → P (a :: a :: s)) (last : P [a]) (lone : ∀ y s, y ≠ a → P (y :: s) → P (a :: y :: s)) :
    ∀ s, P s
  | [] => nil
  | [x] => by
    by_cases hx : x = a
    · rw [hx]
      exact last
    · exact other x [] hx nil
  | x :: y :: s => by
    by_cases hx : x = a
    · rw [hx]
      by_cases hy : y = a
      · rw [hy]
        exact pair s (pair_induction a nil other pair last lone s)
      · exact lone y s hy (pair_induction a nil other pair last lone (y :: s))
    · exact other x (y :: s) hx (pair_induction a nil other pair last lone (y :: s))

theorem not_mem_replacePair_iff : a ∉ replacePair a [] s ↔ evenRuns a s = true := by
  induction s using pair_induction a with
  | nil => simp
  | other x s hx ih => simp [replacePair_cons_of_ne hx, evenRuns_cons_of_ne hx, Ne.symm hx, ih]
  | pair s ih => simpa using ih
  | last => simp [replacePair]
  | lone y s hy ih => simp [replacePair_lone hy, evenRuns_lone hy]

/-- Replacing pairs of one letter by nothing neither adds nor removes another letter. -/
theorem mem_replacePair_of_ne (hy : y ≠ a) : y ∈ replacePair a [] s ↔ y ∈ s := by
  induction s using pair_induction a with
  | nil => simp
  | other x s hx ih => simp [replacePair_cons_of_ne hx, ih]
  | pair s ih => simp [hy, ih]
  | last => simp [replacePair]
  | lone z s hz ih => rw [replacePair_lone hz, List.mem_cons, List.mem_cons, ih]

theorem replacePair_eq_filter (h : evenRuns a s = true) : replacePair a [] s = s.filter (· ≠ a) := by
  induction s using pair_induction a with
  | nil => rfl
  | other x s hx ih =>
    rw [evenRuns_cons_of_ne hx] at h
    rw [replacePair_cons_of_ne hx, ih h, List.filter_cons_of_pos (by simpa using hx)]
  | pair s ih =>
    rw [evenRuns_pair] at h
    simp [ih h]
  | last => simp at h
  | lone y s hy ih => simp [evenRuns_lone hy] at h

end Fastrace
