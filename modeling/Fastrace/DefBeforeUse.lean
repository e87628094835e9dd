import Mathlib.Data.List.Forall2
import Mathlib.Data.Set.Lattice

/-!
# Definitions before uses

Each item of a list defines some keys and uses some.  `Closed` says that an item uses only keys that are known from
the start, or that it or an item before it defines.  A list that is closed stays so when each of its items is replaced
by a list that defines what the item defines and is closed whenever the item is (`Closed.flatten`).
-/

namespace DefBeforeUse

variable {α β κ : Type} (defines uses : α → Set κ)

def Closed (known : Set κ) : List α → Prop
  | [] => True
  | x :: xs => uses x ⊆ known ∪ defines x ∧ Closed (known ∪ defines x) xs

/-- The keys that the items define. -/
def defined (xs : List α) : Set κ := {k | ∃ x ∈ xs, k ∈ defines x}

variable {defines uses} {known known' : Set κ} {xs ys : List α}

@[simp] theorem defined_nil : defined defines [] = ∅ := by
  simp [defined]

@[simp] theorem defined_cons (x : α) : defined defines (x :: xs) = defines x ∪ defined defines xs := by
  ext k
  simp [defined]

@[simp] theorem defined_append : defined defines (xs ++ ys) = defined defines xs ∪ defined defines ys := by
  induction xs with
  | nil => simp
  | cons x xs ih => rw [List.cons_append, defined_cons, ih, defined_cons, Set.union_assoc]

private theorem Closed.mono (hknown : known ⊆ known') (h : Closed defines uses known xs) :
    Closed defines uses known' xs := by
  induction xs generalizing known known' with
  | nil => trivial
  | cons x xs ih =>
    have hmore : known ∪ defines x ⊆ known' ∪ defines x := Set.union_subset_union_left _ hknown
    exact ⟨h.1.trans hmore, ih hmore h.2⟩

theorem closed_append :
    Closed defines uses known (xs ++ ys) ↔
      Closed defines uses known xs ∧ Closed defines uses (known ∪ defined defines xs) ys := by
  induction xs generalizing known with
  | nil => simp [Closed]
  | cons x xs ih =>
    rw [List.cons_append, Closed, ih, Closed, defined_cons, Set.union_assoc, and_assoc]

theorem closed_singleton {x : α} : Closed defines uses known [x] ↔ uses x ⊆ known ∪ defines x := by
  simp [Closed]

/-- What an item of a closed list uses is known, or it or an item before it defines it. -/
theorem Closed.uses_subset {x : α} (h : Closed defines uses known (xs ++ x :: ys)) :
    uses x ⊆ known ∪ defined defines xs ∪ defines x :=
  (closed_append.1 h).2.1

theorem closed_of_subset (h : ∀ x ∈ xs, uses x ⊆ known) : Closed defines uses known xs := by
  induction xs generalizing known with
  | nil => trivial
  | cons x xs ih =>
    rw [List.forall_mem_cons] at h
    have hmore : known ⊆ known ∪ defines x := Set.subset_union_left
    exact ⟨h.1.trans hmore, ih fun y hy => (h.2 y hy).trans hmore⟩

/-- The list `ys` may take the place of the item `x`. -/
structure Expands (defines uses : α → Set κ) (defines' uses' : β → Set κ) (x : α) (ys : List β) : Prop where
  covers : defines x ⊆ defined defines' ys
  closed : ∀ known, uses x ⊆ known ∪ defines x → Closed defines' uses' known ys

theorem Closed.flatten {defines' uses' : β → Set κ} {yss : List (List β)} (h : Closed defines uses known xs)
    (hexpands : List.Forall₂ (Expands defines uses defines' uses') xs yss) :
    Closed defines' uses' known yss.flatten := by
  induction hexpands generalizing known with
  | nil => trivial
  | cons hx _ ih =>
    rw [List.flatten_cons, closed_append]
    exact ⟨hx.closed known h.1, (ih h.2).mono (Set.union_subset_union_right _ hx.covers)⟩

end DefBeforeUse
