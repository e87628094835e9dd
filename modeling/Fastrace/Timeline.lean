import Mathlib.Order.Basic
import Mathlib.Data.List.Basic

/-!
# Timelines

Spans that are started and finished last in, first out, with points between them, recorded in one list in the order in
which they begin.  An entry keeps the position of the innermost span open at that moment.  If the clock never goes
back, every entry lies inside the span it was recorded in (`Nested.inside`), also when the spans still open are taken
to finish at some later time.
-/

namespace Timeline

inductive Shape (τ : Type) where
  | span (start : τ) (finish : Option τ)
  | point (time : τ)
  | untimed
deriving DecidableEq, Repr

structure Entry (τ : Type) where
  parent : Option Nat
  shape : Shape τ
deriving DecidableEq, Repr

end Timeline

open Timeline

structure Timeline (τ : Type) where
  entries : List (Entry τ)
  /-- The positions of the open spans, innermost first. -/
  opened : List Nat
deriving DecidableEq, Repr

namespace Timeline

variable {τ : Type}

def empty : Timeline τ where
  entries := []
  opened := []

def push (t : Timeline τ) (shape : Shape τ) : Timeline τ :=
  { t with entries := t.entries ++ [⟨t.opened.head?, shape⟩] }

def start (t : Timeline τ) (now : τ) : Timeline τ :=
  { t.push (.span now none) with opened := t.entries.length :: t.opened }

def Entry.close (now : τ) (e : Entry τ) : Entry τ :=
  match e.shape with
  | .span start _ => { e with shape := .span start (some now) }
  | _ => e

def finish (t : Timeline τ) (now : τ) : Timeline τ :=
  match t.opened with
  | [] => t
  | i :: rest => { entries := t.entries.modify i (Entry.close now), opened := rest }

/-! ### The parents of the open spans -/

/-- The parent of each open span is the next. -/
def Linked (entries : List (Entry τ)) : List Nat → Prop
  | [] => True
  | i :: rest => (entries[i]?.map Entry.parent = some rest.head?) ∧ Linked entries rest

private theorem Linked.congr {entries entries' : List (Entry τ)} {opened : List Nat} (h : Linked entries opened)
    (hsame : ∀ i ∈ opened, entries'[i]?.map Entry.parent = entries[i]?.map Entry.parent) :
    Linked entries' opened := by
  induction opened with
  | nil => trivial
  | cons i rest ih =>
    rw [List.forall_mem_cons] at hsame
    exact ⟨hsame.1.trans h.1, ih h.2 hsame.2⟩

/-! ### Nesting -/

private theorem getElem?_push {t : Timeline τ} {shape : Shape τ} {i : Nat} {e : Entry τ}
    (h : (t.push shape).entries[i]? = some e) :
    t.entries[i]? = some e ∨ i = t.entries.length ∧ e = ⟨t.opened.head?, shape⟩ := by
  rcases Nat.lt_trichotomy i t.entries.length with hlt | rfl | hgt
  · rw [push, List.getElem?_append_left hlt] at h
    exact Or.inl h
  · rw [push, List.getElem?_concat_length] at h
    exact Or.inr ⟨rfl, (Option.some.inj h).symm⟩
  · rw [push, List.getElem?_eq_none (by simp; omega)] at h
    cases h

private theorem getElem?_push_of_some {t : Timeline τ} {shape : Shape τ} {i : Nat} {e : Entry τ}
    (h : t.entries[i]? = some e) : (t.push shape).entries[i]? = some e := by
  rw [push, List.getElem?_append_left (List.getElem?_eq_some_iff.1 h).1, h]

theorem Entry.close_parent (now : τ) (e : Entry τ) : (e.close now).parent = e.parent := by
  unfold Entry.close
  split <;> rfl

private theorem getElem?_close {entries : List (Entry τ)} {now : τ} {i j : Nat} {e : Entry τ}
    (h : (entries.modify i (Entry.close now))[j]? = some e) :
    ∃ e₀, entries[j]? = some e₀ ∧ e = if i = j then e₀.close now else e₀ := by
  rw [List.getElem?_modify] at h
  obtain ⟨e₀, he₀, rfl⟩ := Option.map_eq_some_iff.1 h
  exact ⟨e₀, he₀, rfl⟩

variable [Preorder τ]

/-- The entry lies inside a span from `start` to `finish`, as far as the span has finished. -/
def Inside (start : τ) (finish : Option τ) : Shape τ → Prop
  | .span start' finish' => start ≤ start' ∧ ∀ x, finish = some x → ∃ x', finish' = some x' ∧ x' ≤ x
  | .point time => start ≤ time ∧ ∀ x, finish = some x → time ≤ x
  | .untimed => True

/-- No time of the entry is later than `last`, and it does not finish before it starts. -/
def Shape.Before (last : τ) : Shape τ → Prop
  | .span start finish => start ≤ last ∧ ∀ x, finish = some x → start ≤ x ∧ x ≤ last
  | .point time => time ≤ last
  | .untimed => True

private theorem Shape.Before.mono {last now : τ} {shape : Shape τ} (h : shape.Before last) (hle : last ≤ now) :
    shape.Before now := by
  cases shape with
  | span start finish => exact ⟨h.1.trans hle, fun x hx => ⟨(h.2 x hx).1, (h.2 x hx).2.trans hle⟩⟩
  | point time => exact le_trans h hle
  | untimed => trivial

/-- What holds after calls up to the time `last`. -/
structure Nested (t : Timeline τ) (last : τ) : Prop where
  decreasing : t.opened.Pairwise (· > ·)
  linked : Linked t.entries t.opened
  /-- The open spans are the spans that have not finished. -/
  opened : ∀ i : Nat, i ∈ t.opened ↔ ∃ parent start, t.entries[i]? = some ⟨parent, .span start none⟩
  before : ∀ (i : Nat) (e : Entry τ), t.entries[i]? = some e → e.shape.Before last
  inside : ∀ (i : Nat) (e : Entry τ) (p : Nat), t.entries[i]? = some e → e.parent = some p →
    p < i ∧ ∃ parent start finish, t.entries[p]? = some ⟨parent, .span start finish⟩ ∧ Inside start finish e.shape

theorem nested_empty (last : τ) : Nested (empty : Timeline τ) last where
  decreasing := List.Pairwise.nil
  linked := trivial
  opened i := by simp [empty]
  before i e h := by simp [empty] at h
  inside i e p h := by simp [empty] at h

section

variable {t : Timeline τ} {last now : τ}

theorem Nested.lt_length (h : t.Nested last) {i : Nat} (hi : i ∈ t.opened) : i < t.entries.length := by
  obtain ⟨parent, start, he⟩ := (h.opened i).1 hi
  exact (List.getElem?_eq_some_iff.1 he).1

theorem Nested.mono (h : t.Nested last) (hle : last ≤ now) : t.Nested now :=
  { h with before := fun i e he => (h.before i e he).mono hle }

/-- A new entry lies inside the innermost open span, which starts no later and has not finished. -/
private theorem inside_push (h : t.Nested last) {shape : Shape τ} (hshape : ∀ start, start ≤ last →
      Inside start none shape) {i : Nat} {e : Entry τ} {p : Nat}
    (he : (t.push shape).entries[i]? = some e) (hp : e.parent = some p) :
    p < i ∧ ∃ parent start finish, (t.push shape).entries[p]? = some ⟨parent, .span start finish⟩ ∧
      Inside start finish e.shape := by
  rcases getElem?_push he with he | ⟨rfl, rfl⟩
  · obtain ⟨hlt, parent, start, finish, hspan, hinside⟩ := h.inside i e p he hp
    exact ⟨hlt, parent, start, finish, getElem?_push_of_some hspan, hinside⟩
  · have hmem : p ∈ t.opened := List.mem_of_mem_head? hp
    obtain ⟨parent, start, hspan⟩ := (h.opened p).1 hmem
    exact ⟨h.lt_length hmem, parent, start, none, getElem?_push_of_some hspan,
      hshape start (h.before p _ hspan).1⟩

private theorem linked_push (h : t.Nested last) (shape : Shape τ) : Linked (t.push shape).entries t.opened := by
  refine h.linked.congr fun i hi => ?_
  rw [push, List.getElem?_append_left (h.lt_length hi)]

theorem Nested.start (h : t.Nested last) (hle : last ≤ now) : (t.start now).Nested now where
  decreasing := List.pairwise_cons.2 ⟨fun i hi => h.lt_length hi, h.decreasing⟩
  linked := ⟨by simp [Timeline.start, push], linked_push h _⟩
  opened i := by
    constructor
    · intro hi
      rcases List.mem_cons.1 hi with rfl | hi
      · exact ⟨_, now, List.getElem?_concat_length⟩
      · obtain ⟨parent, start, he⟩ := (h.opened i).1 hi
        exact ⟨parent, start, getElem?_push_of_some he⟩
    · rintro ⟨parent, start, he⟩
      rcases getElem?_push he with he | ⟨rfl, -⟩
      · exact List.mem_cons_of_mem _ ((h.opened i).2 ⟨parent, start, he⟩)
      · exact List.mem_cons_self ..
  before i e he := by
    rcases getElem?_push he with he | ⟨-, rfl⟩
    · exact (h.before i e he).mono hle
    · exact ⟨le_refl now, fun x hx => by cases hx⟩
  inside i e p he hp := by
    have hinside : ∀ start, start ≤ last → Inside start none (.span now none) := fun start hstart =>
      ⟨hstart.trans hle, fun x hx => by cases hx⟩
    exact inside_push h hinside he hp

/-- A point, or an entry without a time. -/
theorem Nested.push (h : t.Nested last) (hle : last ≤ now) {shape : Shape τ} (hbefore : shape.Before now)
    (hnot : ∀ start finish, shape ≠ .span start finish)
    (hinside : ∀ start, start ≤ last → Inside start none shape) : (t.push shape).Nested now where
  decreasing := h.decreasing
  linked := linked_push h shape
  opened i := by
    refine (h.opened i).trans ⟨?_, ?_⟩
    · rintro ⟨parent, start, he⟩
      exact ⟨parent, start, getElem?_push_of_some he⟩
    · rintro ⟨parent, start, he⟩
      rcases getElem?_push he with he | ⟨-, heq⟩
      · exact ⟨parent, start, he⟩
      · cases heq
        exact absurd rfl (hnot start none)
  before i e he := by
    rcases getElem?_push he with he | ⟨-, rfl⟩
    · exact (h.before i e he).mono hle
    · exact hbefore
  inside i e p he hp := inside_push h hinside he hp

/-- The innermost span finishes: all that lies in it has begun, and its spans have finished. -/
private theorem inside_finish (h : t.Nested last) (hle : last ≤ now) {i : Nat} {rest : List Nat}
    (hopened : t.opened = i :: rest) {j : Nat} {e : Entry τ} {p : Nat} (he : t.entries[j]? = some e)
    (hp : e.parent = some p) :
    ∃ parent start finish, (t.entries.modify i (Entry.close now))[p]? = some ⟨parent, .span start finish⟩ ∧
      Inside start finish (if i = j then e.close now else e).shape := by
  obtain ⟨parent, start, hi⟩ := (h.opened i).1 (by rw [hopened]; exact List.mem_cons_self ..)
  obtain ⟨hlt, parent', start', finish', hspan, hinside⟩ := h.inside j e p he hp
  by_cases hip : i = p
  · -- the parent finishes
    subst hip
    rw [hi] at hspan
    cases hspan
    rw [if_neg (Nat.ne_of_lt hlt)]
    refine ⟨parent, start, some now, by rw [List.getElem?_modify_eq, hi]; rfl, ?_⟩
    have hbefore := h.before j e he
    have hdecreasing := h.decreasing
    rw [hopened] at hdecreasing
    have hnot : j ∉ t.opened := by
      rw [hopened, List.mem_cons]
      rintro (rfl | hmem)
      · exact Nat.lt_irrefl _ hlt
      · exact Nat.lt_asymm hlt ((List.pairwise_cons.1 hdecreasing).1 j hmem)
    obtain ⟨q, shape⟩ := e
    cases shape with
    | span s f =>
      cases f with
      | none => exact absurd ((h.opened j).2 ⟨q, s, he⟩) hnot
      | some x' =>
        refine ⟨hinside.1, fun x hx => ?_⟩
        cases hx
        exact ⟨x', rfl, ((hbefore.2 x' rfl).2).trans hle⟩
    | point y => exact ⟨hinside.1, fun x hx => by cases hx; exact le_trans hbefore hle⟩
    | untimed => trivial
  · refine ⟨parent', start', finish', by rw [List.getElem?_modify_ne _ _ hip, hspan], ?_⟩
    by_cases hij : i = j
    · -- the child finishes, while its parent is still open
      subst hij
      rw [hi] at he
      cases he
      rw [if_pos rfl]
      refine ⟨hinside.1, fun x hx => ?_⟩
      obtain ⟨x', hx', -⟩ := hinside.2 x hx
      cases hx'
    · rw [if_neg hij]
      exact hinside

theorem Nested.finish (h : t.Nested last) (hle : last ≤ now) : (t.finish now).Nested now := by
  unfold Timeline.finish
  split
  · exact h.mono hle
  · rename_i i rest hopened
    have hdecreasing := h.decreasing
    have hlinked := h.linked
    rw [hopened] at hdecreasing hlinked
    have hrest : i ∉ rest := fun hi => Nat.lt_irrefl i ((List.pairwise_cons.1 hdecreasing).1 i hi)
    obtain ⟨parent, start, hi⟩ := (h.opened i).1 (by rw [hopened]; exact List.mem_cons_self ..)
    have hstart : start ≤ now := (h.before i _ hi).1.trans hle
    refine ⟨(List.pairwise_cons.1 hdecreasing).2, ?_, ?_, ?_, ?_⟩
    · refine hlinked.2.congr fun j _ => ?_
      rw [List.getElem?_modify]
      by_cases hij : i = j <;> simp [hij, Entry.close_parent, Option.map_map, Function.comp_def]
    · intro j
      have hj := h.opened j
      rw [hopened, List.mem_cons] at hj
      by_cases hij : i = j
      · subst hij
        refine ⟨fun hmem => absurd hmem hrest, ?_⟩
        rintro ⟨parent', start', he⟩
        simp [hi, Entry.close] at he
      · rw [List.getElem?_modify_ne _ _ hij, ← hj]
        exact ⟨Or.inr, fun hmem => hmem.resolve_left fun heq => hij heq.symm⟩
    · intro j e he
      obtain ⟨e₀, he₀, rfl⟩ := getElem?_close he
      split
      · rename_i hij
        subst hij
        rw [hi] at he₀
        cases he₀
        exact ⟨hstart, fun x hx => by cases hx; exact ⟨hstart, le_refl now⟩⟩
      · exact (h.before j e₀ he₀).mono hle
    · intro j e p he hp
      obtain ⟨e₀, he₀, rfl⟩ := getElem?_close he
      have hp₀ : e₀.parent = some p := by
        rw [← hp]
        split
        · exact (e₀.close_parent now).symm
        · rfl
      exact ⟨(h.inside j e₀ p he₀ hp₀).1, inside_finish h hle hopened he₀ hp₀⟩

/-! ### The spans that are still open finish later -/

/-- The entry lies in a span from `start` to `finish`, when the open spans finish at `endTime`. -/
def Shape.Within (endTime start finish : τ) : Shape τ → Prop
  | .span start' finish' => start ≤ start' ∧ finish'.getD endTime ≤ finish
  | .point time => start ≤ time ∧ time ≤ finish
  | .untimed => True

theorem Nested.within (h : t.Nested last) {endTime : τ} (hle : last ≤ endTime) {i : Nat} {e : Entry τ} {p : Nat}
    (he : t.entries[i]? = some e) (hp : e.parent = some p) :
    ∃ parent start finish, t.entries[p]? = some ⟨parent, .span start finish⟩ ∧
      e.shape.Within endTime start (finish.getD endTime) := by
  obtain ⟨-, parent, start, finish, hspan, hinside⟩ := h.inside i e p he hp
  refine ⟨parent, start, finish, hspan, ?_⟩
  have hbefore := h.before i e he
  obtain ⟨q, shape⟩ := e
  cases shape with
  | span s f =>
    refine ⟨hinside.1, ?_⟩
    cases finish with
    | none =>
      cases f with
      | none => exact le_refl endTime
      | some x' => exact (hbefore.2 x' rfl).2.trans hle
    | some x =>
      obtain ⟨x', rfl, hx⟩ := hinside.2 x rfl
      exact hx
  | point y =>
    refine ⟨hinside.1, ?_⟩
    cases finish with
    | none => exact le_trans hbefore hle
    | some x => exact hinside.2 x rfl
  | untimed => trivial

theorem Nested.start_le_finish (h : t.Nested last) {endTime : τ} (hle : last ≤ endTime) {i : Nat} {q : Option Nat}
    {start : τ} {finish : Option τ} (he : t.entries[i]? = some ⟨q, .span start finish⟩) :
    start ≤ finish.getD endTime := by
  have hbefore := h.before i _ he
  cases finish with
  | none => exact hbefore.1.trans hle
  | some x => exact (hbefore.2 x rfl).1

end

end Timeline
