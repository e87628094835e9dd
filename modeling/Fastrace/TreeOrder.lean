import Fastrace.Tree

/-!
# The order of trees

The order that `derive(Ord)` gives to trees is total, and trees that compare equal are the same.  So a list of trees
has one sorted arrangement, and sorting a tree forgets in which order the children have been pushed.
-/

namespace Fastrace.Tree

open Std

section Pairs

variable {α β : Type} {cmp₁ : α → α → Ordering} {cmp₂ : β → β → Ordering}

instance [LawfulEqCmp cmp₁] [LawfulEqCmp cmp₂] : LawfulEqCmp (pairCmp cmp₁ cmp₂) where
  compare_self := by simp [pairCmp, ReflCmp.compare_self]
  eq_of_compare h := by
    obtain ⟨h₁, h₂⟩ := Ordering.then_eq_eq.1 h
    exact Prod.ext (LawfulEqCmp.eq_of_compare h₁) (LawfulEqCmp.eq_of_compare h₂)

/-- Where the first parts decide nothing the second ones do. -/
theorem then_lt_trans {x y z x' y' z' : Ordering} (hlt : x = .lt → y = .lt → z = .lt) (hleft : x = .eq → z = y)
    (hright : y = .eq → z = x) (hlt' : x' = .lt → y' = .lt → z' = .lt) (hx : x.then x' = .lt)
    (hy : y.then y' = .lt) : z.then z' = .lt := by
  rw [Ordering.then_eq_lt] at hx hy ⊢
  rcases hx with hx | ⟨hx, hx'⟩
  · rcases hy with hy | ⟨hy, -⟩
    · exact Or.inl (hlt hx hy)
    · exact Or.inl ((hright hy).trans hx)
  · rcases hy with hy | ⟨hy, hy'⟩
    · exact Or.inl ((hleft hx).trans hy)
    · exact Or.inr ⟨(hleft hx).trans hy, hlt' hx' hy'⟩

/-- A comparison whose equal values are the same is transitive when its strict part is. -/
private theorem transCmp_of_lt_trans {cmp : α → α → Ordering} [OrientedCmp cmp] [LawfulEqCmp cmp]
    (h : ∀ a b c, cmp a b = .lt → cmp b c = .lt → cmp a c = .lt) : TransCmp cmp where
  isLE_trans := by
    intro a b c hab hbc
    rw [Ordering.isLE_iff_eq_lt_or_eq_eq] at hab hbc ⊢
    rcases hab with hab | hab
    · rcases hbc with hbc | hbc
      · exact Or.inl (h a b c hab hbc)
      · rw [← LawfulEqCmp.eq_of_compare hbc]
        exact Or.inl hab
    · rw [LawfulEqCmp.eq_of_compare hab]
      exact hbc

instance [OrientedCmp cmp₁] [OrientedCmp cmp₂] : OrientedCmp (pairCmp cmp₁ cmp₂) where
  eq_swap {a b} := by
    unfold pairCmp
    rw [Ordering.swap_then, ← OrientedCmp.eq_swap, ← OrientedCmp.eq_swap]

/-- The three comparisons of the first parts of `then_lt_trans`. -/
private theorem lt_trans_of_cmp (cmp : α → α → Ordering) [TransCmp cmp] [LawfulEqCmp cmp] (a b c : α) :
    (cmp a b = .lt → cmp b c = .lt → cmp a c = .lt) ∧ (cmp a b = .eq → cmp a c = cmp b c) ∧
      (cmp b c = .eq → cmp a c = cmp a b) :=
  ⟨TransCmp.lt_trans, fun h => by rw [LawfulEqCmp.eq_of_compare h], fun h => by rw [LawfulEqCmp.eq_of_compare h]⟩

instance [TransCmp cmp₁] [LawfulEqCmp cmp₁] [TransCmp cmp₂] [LawfulEqCmp cmp₂] : TransCmp (pairCmp cmp₁ cmp₂) :=
  transCmp_of_lt_trans fun a b c =>
    have h := lt_trans_of_cmp cmp₁ a.1 b.1 c.1
    then_lt_trans h.1 h.2.1 h.2.2 (lt_trans_of_cmp cmp₂ a.2 b.2 c.2).1

/-- Sorting sorts. -/
theorem pairwise_sortUnstable {cmp : α → α → Ordering} [TransCmp cmp] (l : List α) :
    (sortUnstable cmp l).Pairwise fun a b => (cmp a b).isLE = true := by
  have htotal : Std.Total fun a b => (cmp a b).isLE = true := ⟨fun a b => by
    have hswap : cmp b a = (cmp a b).swap := OrientedCmp.eq_swap
    rw [hswap, Ordering.isLE_swap]
    cases cmp a b <;> decide⟩
  have htrans : IsTrans α fun a b => (cmp a b).isLE = true := ⟨fun _ _ _ => TransCmp.isLE_trans⟩
  exact List.pairwise_insertionSort _ l

/-- The same values are sorted in the same way. -/
theorem sortUnstable_perm {cmp : α → α → Ordering} [TransCmp cmp] [LawfulEqCmp cmp] {l l' : List α} (h : l.Perm l') :
    sortUnstable cmp l = sortUnstable cmp l' := by
  refine List.Perm.eq_of_pairwise ?_ (pairwise_sortUnstable l)
    (pairwise_sortUnstable l') ?_
  · intro a b _ _ hab hba
    have hswap : cmp b a = (cmp a b).swap := OrientedCmp.eq_swap
    rw [hswap, Ordering.isLE_swap] at hba
    exact LawfulEqCmp.eq_of_compare (Ordering.eq_eq_of_isLE_of_isGE hab hba)
  · exact (List.perm_insertionSort _ l).trans (h.trans (List.perm_insertionSort _ l').symm)

end Pairs

instance : TransCmp propertiesCmp := inferInstanceAs (TransCmp (List.compareLex _))

instance : LawfulEqCmp propertiesCmp := inferInstanceAs (LawfulEqCmp (List.compareLex _))

instance : TransCmp eventsCmp := inferInstanceAs (TransCmp (List.compareLex _))

instance : LawfulEqCmp eventsCmp := inferInstanceAs (LawfulEqCmp (List.compareLex _))

mutual

private theorem cmp_self : (t : Tree) → t.cmp t = .eq
  | .mk name children properties events => by
    simp [cmp, cmpAll_self children, ReflCmp.compare_self]

theorem cmpAll_self : (ts : List Tree) → cmpAll ts ts = .eq
  | [] => by rw [cmpAll]
  | t :: ts => by rw [cmpAll, cmp_self t, cmpAll_self ts]; rfl

end

mutual

private theorem eq_of_cmp : (t u : Tree) → t.cmp u = .eq → t = u
  | .mk name children properties events, .mk name' children' properties' events' => by
    intro h
    rw [cmp] at h
    obtain ⟨hname, h⟩ := Ordering.then_eq_eq.1 h
    obtain ⟨hchildren, h⟩ := Ordering.then_eq_eq.1 h
    obtain ⟨hproperties, hevents⟩ := Ordering.then_eq_eq.1 h
    rw [LawfulEqCmp.eq_of_compare hname, eq_of_cmpAll children children' hchildren,
      LawfulEqCmp.eq_of_compare hproperties, LawfulEqCmp.eq_of_compare hevents]

private theorem eq_of_cmpAll : (ts us : List Tree) → cmpAll ts us = .eq → ts = us
  | [], [] => fun _ => rfl
  | [], _ :: _ => fun h => by rw [cmpAll] at h; cases h
  | _ :: _, [] => fun h => by rw [cmpAll] at h; cases h
  | t :: ts, u :: us => by
    intro h
    rw [cmpAll] at h
    obtain ⟨hhead, htail⟩ := Ordering.then_eq_eq.1 h
    rw [eq_of_cmp t u hhead, eq_of_cmpAll ts us htail]

end

mutual

private theorem cmp_swap : (t u : Tree) → t.cmp u = (u.cmp t).swap
  | .mk name children properties events, .mk name' children' properties' events' => by
    rw [cmp, cmp, Ordering.swap_then, Ordering.swap_then, Ordering.swap_then, ← cmpAll_swap children children',
      ← OrientedCmp.eq_swap, ← OrientedCmp.eq_swap, ← OrientedCmp.eq_swap]

theorem cmpAll_swap : (ts us : List Tree) → cmpAll ts us = (cmpAll us ts).swap
  | [], [] => by rw [cmpAll]; rfl
  | [], _ :: _ => by rw [cmpAll, cmpAll]; rfl
  | _ :: _, [] => by rw [cmpAll, cmpAll]; rfl
  | t :: ts, u :: us => by
    rw [cmpAll, cmpAll, Ordering.swap_then, ← cmp_swap t u, ← cmpAll_swap ts us]

end

instance : OrientedCmp cmp := ⟨fun {t u} => cmp_swap t u⟩

instance : LawfulEqCmp cmp where
  compare_self {t} := cmp_self t
  eq_of_compare {t u} := eq_of_cmp t u

mutual

private theorem cmp_lt_trans : (t u v : Tree) → t.cmp u = .lt → u.cmp v = .lt → t.cmp v = .lt
  | .mk name children properties events, .mk name' children' properties' events',
      .mk name'' children'' properties'' events'' => by
    rw [cmp, cmp, cmp]
    have hname := lt_trans_of_cmp compare name name' name''
    have hproperties := lt_trans_of_cmp propertiesCmp properties properties' properties''
    have hevents := lt_trans_of_cmp eventsCmp events events' events''
    exact then_lt_trans hname.1 hname.2.1 hname.2.2 <|
      then_lt_trans (cmpAll_lt_trans children children' children'')
        (fun h => by rw [eq_of_cmpAll _ _ h]) (fun h => by rw [eq_of_cmpAll _ _ h]) <|
        then_lt_trans hproperties.1 hproperties.2.1 hproperties.2.2 hevents.1

theorem cmpAll_lt_trans : (ts us vs : List Tree) → cmpAll ts us = .lt → cmpAll us vs = .lt → cmpAll ts vs = .lt
  | [], [], _ => fun h => by rw [cmpAll] at h; cases h
  | [], _ :: _, [] => fun _ h => by rw [cmpAll] at h; cases h
  | [], _ :: _, _ :: _ => fun _ _ => by rw [cmpAll]
  | _ :: _, [], _ => fun h => by rw [cmpAll] at h; cases h
  | _ :: _, _ :: _, [] => fun _ h => by rw [cmpAll] at h; cases h
  | t :: ts, u :: us, v :: vs => by
    rw [cmpAll, cmpAll, cmpAll]
    exact then_lt_trans (cmp_lt_trans t u v) (fun h => by rw [eq_of_cmp _ _ h]) (fun h => by rw [eq_of_cmp _ _ h])
      (cmpAll_lt_trans ts us vs)

end

instance : TransCmp cmp := transCmp_of_lt_trans cmp_lt_trans

end Fastrace.Tree
