import Mathlib.Data.List.Perm.Subperm
import Mathlib.Data.List.Nodup
import Mathlib.Data.List.Pairwise

/-!
# Tables of lists that share no entry

A table gives every place a list of entries, all of them drawn from a supply.  It is exclusive when no entry occurs
twice, neither in one list nor in the lists of two places.  A table stays exclusive when lists lose entries
(`shrink`), when an entry not drawn before comes to one place (`grow`) and when entries go from one place to another
(`move`).
-/

variable {P X : Type}

structure Exclusive (drawn : List X) (f : P → List X) : Prop where
  nodup : ∀ p, (f p).Nodup
  owner : ∀ p q x, x ∈ f p → x ∈ f q → p = q
  drawn : ∀ p x, x ∈ f p → x ∈ drawn

namespace Exclusive

variable {drawn drawn' : List X} {f f' : P → List X}

theorem nodup_of_subperm {l l' : List X} (h : l.Subperm l') (hl : l'.Nodup) : l.Nodup := by
  obtain ⟨l₁, hperm, hsub⟩ := h
  exact hperm.nodup_iff.1 (hl.sublist hsub)

/-- In a list without repetitions, made of the lists of several entries, a member comes from one of them only. -/
theorem eq_of_nodup_flatMap {Y : Type} {g : Y → List X} {l : List Y} (h : (l.flatMap g).Nodup) {a b : Y}
    (ha : a ∈ l) (hb : b ∈ l) {x : X} (hxa : x ∈ g a) (hxb : x ∈ g b) : a = b := by
  by_contra hne
  have hsymm : Std.Symm (Function.onFun List.Disjoint g) := ⟨fun _ _ hd => List.disjoint_symm hd⟩
  exact (List.nodup_flatMap.1 h).2.forall ha hb hne hxa hxb

/-- The entries whose lists contain `x` are at most as many as the occurrences of `x`. -/
theorem length_filter_mem_le {Y : Type} [DecidableEq X] (g : Y → List X) (l : List Y) (x : X) :
    (l.filter fun y => x ∈ g y).length ≤ (l.flatMap g).count x := by
  induction l with
  | nil => exact Nat.le_refl _
  | cons y l ih =>
    rw [List.flatMap_cons, List.count_append]
    by_cases hy : x ∈ g y
    · have hpos := List.count_pos_iff.2 hy
      rw [List.filter_cons_of_pos (by simpa using hy), List.length_cons]
      omega
    · rw [List.filter_cons_of_neg (by simpa using hy)]
      omega

theorem weaken (h : Exclusive drawn f) (hsub : drawn ⊆ drawn') : Exclusive drawn' f where
  nodup := h.nodup
  owner := h.owner
  drawn p x hx := hsub (h.drawn p x hx)

theorem shrink (h : Exclusive drawn f) (hsub : ∀ p, (f' p).Subperm (f p)) : Exclusive drawn f' where
  nodup p := nodup_of_subperm (hsub p) (h.nodup p)
  owner p q x hp hq := h.owner p q x ((hsub p).subset hp) ((hsub q).subset hq)
  drawn p x hx := h.drawn p x ((hsub p).subset hx)

theorem grow (h : Exclusive drawn f) (p₀ : P) {x : X} (hfresh : x ∉ drawn) (h₀ : (f' p₀).Subperm (x :: f p₀))
    (hne : ∀ p, p ≠ p₀ → f' p = f p) : Exclusive (drawn ++ [x]) f' := by
  have hx : ∀ p, x ∉ f p := fun p hp => hfresh (h.drawn p x hp)
  have hmem : ∀ p y, y ∈ f' p → y ∈ f p ∨ p = p₀ ∧ y = x := by
    intro p y hy
    by_cases hp : p = p₀
    · subst hp
      rcases List.mem_cons.1 (h₀.subset hy) with hyx | hyf
      · exact Or.inr ⟨rfl, hyx⟩
      · exact Or.inl hyf
    · exact Or.inl (hne p hp ▸ hy)
  refine ⟨fun p => ?_, fun p q y hp hq => ?_, fun p y hp => ?_⟩
  · by_cases hp : p = p₀
    · subst hp
      exact nodup_of_subperm h₀ (List.nodup_cons.2 ⟨hx p, h.nodup p⟩)
    · exact hne p hp ▸ h.nodup p
  · rcases hmem p y hp with hpf | ⟨rfl, rfl⟩
    · rcases hmem q y hq with hqf | ⟨rfl, rfl⟩
      · exact h.owner p q y hpf hqf
      · exact absurd hpf (hx p)
    · rcases hmem q y hq with hqf | ⟨rfl, -⟩
      · exact absurd hqf (hx q)
      · rfl
  · rcases hmem p y hp with hpf | ⟨-, rfl⟩
    · exact List.mem_append_left _ (h.drawn p y hpf)
    · simp

theorem move (h : Exclusive drawn f) (p₀ p₁ : P) {l : List X} (hp : p₀ ≠ p₁) (h₀ : (l ++ f' p₀).Subperm (f p₀))
    (h₁ : (f' p₁).Subperm (f p₁ ++ l)) (hne : ∀ p, p ≠ p₀ → p ≠ p₁ → f' p = f p) : Exclusive drawn f' := by
  have hnodup := nodup_of_subperm h₀ (h.nodup p₀)
  have hl : ∀ x, x ∈ l → x ∈ f p₀ := fun x hx => h₀.subset (List.mem_append_left _ hx)
  have hmem : ∀ p x, x ∈ f' p → x ∈ f p ∨ p = p₁ ∧ x ∈ l := by
    intro p x hx
    by_cases hp₁ : p = p₁
    · subst hp₁
      rcases List.mem_append.1 (h₁.subset hx) with hxf | hxl
      · exact Or.inl hxf
      · exact Or.inr ⟨rfl, hxl⟩
    · by_cases hp₀ : p = p₀
      · subst hp₀
        exact Or.inl (h₀.subset (List.mem_append_right _ hx))
      · exact Or.inl (hne p hp₀ hp₁ ▸ hx)
  -- an entry that has left `p₀` is at `p₁` only
  have hleft : ∀ q x, x ∈ l → x ∈ f' q → q = p₁ := by
    intro q x hx hq
    rcases hmem q x hq with hqf | ⟨hq₁, -⟩
    · have hq₀ := h.owner q p₀ x hqf (hl x hx)
      subst hq₀
      exact absurd hq (List.disjoint_of_nodup_append hnodup hx)
    · exact hq₁
  refine ⟨fun p => ?_, fun p q x hxp hxq => ?_, fun p x hx => ?_⟩
  · by_cases hp₁ : p = p₁
    · subst hp₁
      refine nodup_of_subperm h₁ (List.Nodup.append (h.nodup p) (List.Nodup.of_append_left hnodup) ?_)
      exact fun x hx hxl => hp (h.owner p₀ p x (hl x hxl) hx)
    · by_cases hp₀ : p = p₀
      · subst hp₀
        exact List.Nodup.of_append_right hnodup
      · exact hne p hp₀ hp₁ ▸ h.nodup p
  · rcases hmem p x hxp with hpf | ⟨rfl, hxl⟩
    · rcases hmem q x hxq with hqf | ⟨rfl, hxl⟩
      · exact h.owner p q x hpf hqf
      · exact hleft p x hxl hxp
    · exact (hleft q x hxl hxq).symm
  · rcases hmem p x hx with hpf | ⟨-, hxl⟩
    · exact h.drawn p x hpf
    · exact h.drawn p₀ x (hl x hxl)

end Exclusive
