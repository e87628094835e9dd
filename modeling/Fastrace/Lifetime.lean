import Fastrace.Attribution
import Mathlib.Data.List.Induction

/-!
# The lifetime of a collector

The collector of a trace lives from the round of its start to the round of a drop or a commit.  `LiveFrom c rounds s
k` says that in round `k`, when the submissions have been distributed, the collector of `c` is the one started in
round `s`; `OpenFrom` says that it is there between the rounds.  In both modes the collector then holds what
`openState` computes from the rounds `s, …, k-1` (`traceFinal_eq_some`, `entered_take`), and from this follows what
round `k` reports for `c` (`reportedFor_live`, `reportedFor_dead`).
-/

namespace Fastrace

/-- Before round `k` the collector of `c` is the one started in round `s`. -/
structure OpenFrom (c : CollectId) (rounds : List Round) (s k : Nat) : Prop where
  lt : s < k
  start : ∃ r, rounds[s]? = some r ∧ r.starts c
  noStart : ∀ j r, s < j → j < k → rounds[j]? = some r → ¬r.starts c
  noDrop : ∀ j r, s ≤ j → j < k → rounds[j]? = some r → ¬r.drops c
  noCommit : ∀ j r, s ≤ j → j < k → rounds[j]? = some r → ¬r.commits c

/-- In round `k`, before the commits, the collector of `c` is the one started in round `s`. -/
structure LiveFrom (c : CollectId) (rounds : List Round) (s k : Nat) : Prop where
  le : s ≤ k
  start : ∃ r, rounds[s]? = some r ∧ r.starts c
  noStart : ∀ j r, s < j → j ≤ k → rounds[j]? = some r → ¬r.starts c
  noDrop : ∀ j r, s ≤ j → j ≤ k → rounds[j]? = some r → ¬r.drops c
  noCommit : ∀ j r, s ≤ j → j < k → rounds[j]? = some r → ¬r.commits c

/-- The rounds `s, …, k-1`. -/
def between (rounds : List Round) (s k : Nat) : List Round := (rounds.take k).drop s

/-- The collector after the rounds of `window`, the first of which started it. -/
def openState (cancelable : Bool) (c : CollectId) (window : List Round) : TraceState :=
  window.foldl (fun t r =>
    if cancelable then t.receive (r.items c)
    else ⟨[], leftover t.waiting (timed r.anchor (t.items ++ r.items c))⟩) ⟨[], fun _ => []⟩

theorem LiveFrom.unique {c : CollectId} {rounds : List Round} {s s' k : Nat} (h : LiveFrom c rounds s k)
    (h' : LiveFrom c rounds s' k) : s = s' := by
  obtain ⟨r, hr, hs⟩ := h.start
  obtain ⟨r', hr', hs'⟩ := h'.start
  rcases Nat.lt_trichotomy s s' with hlt | heq | hgt
  · exact absurd hs' (h.noStart s' r' hlt h'.le hr')
  · exact heq
  · exact absurd hs (h'.noStart s r hgt h.le hr)

private theorem openFrom_succ {c : CollectId} {rounds : List Round} {s k : Nat} {r : Round} (hr : rounds[k]? = some r) :
    OpenFrom c rounds s (k + 1) ↔ LiveFrom c rounds s k ∧ ¬r.commits c := by
  constructor
  · intro h
    refine ⟨⟨Nat.le_of_lt_succ h.lt, h.start, fun j r' h1 h2 => h.noStart j r' h1 (by omega),
      fun j r' h1 h2 => h.noDrop j r' h1 (by omega), fun j r' h1 h2 => h.noCommit j r' h1 (by omega)⟩, ?_⟩
    exact h.noCommit k r (Nat.le_of_lt_succ h.lt) (by omega) hr
  · rintro ⟨h, hc⟩
    refine ⟨Nat.lt_succ_of_le h.le, h.start, fun j r' h1 h2 => h.noStart j r' h1 (by omega),
      fun j r' h1 h2 => h.noDrop j r' h1 (by omega), fun j r' h1 h2 hj => ?_⟩
    rcases Nat.lt_or_eq_of_le (Nat.le_of_lt_succ h2) with h2 | rfl
    · exact h.noCommit j r' h1 h2 hj
    · rw [hr] at hj; cases hj; exact hc

/-- The collector live in round `k` was started in `k` or was there before and is neither restarted nor dropped. -/
theorem liveFrom_iff {c : CollectId} {rounds : List Round} {s k : Nat} {r : Round} (hr : rounds[k]? = some r) :
    LiveFrom c rounds s k ↔
      ¬r.drops c ∧ (r.starts c ∧ s = k ∨ ¬r.starts c ∧ OpenFrom c rounds s k) := by
  constructor
  · intro h
    refine ⟨h.noDrop k r h.le (Nat.le_refl _) hr, ?_⟩
    rcases Nat.lt_or_eq_of_le h.le with hlt | rfl
    · right
      refine ⟨h.noStart k r hlt (Nat.le_refl _) hr, hlt, h.start, ?_, ?_, h.noCommit⟩
      · exact fun j r' h1 h2 => h.noStart j r' h1 (Nat.le_of_lt h2)
      · exact fun j r' h1 h2 => h.noDrop j r' h1 (Nat.le_of_lt h2)
    · left
      obtain ⟨r', hr', hs⟩ := h.start
      rw [hr] at hr'; cases hr'
      exact ⟨hs, rfl⟩
  · rintro ⟨hd, ⟨hs, rfl⟩ | ⟨hs, h⟩⟩
    · refine ⟨Nat.le_refl _, ⟨r, hr, hs⟩, fun j r' h1 h2 => by omega, fun j r' h1 h2 hj => ?_,
        fun j r' h1 h2 => by omega⟩
      obtain rfl : j = s := by omega
      rw [hr] at hj; cases hj; exact hd
    · refine ⟨Nat.le_of_lt h.lt, h.start, fun j r' h1 h2 hj => ?_, fun j r' h1 h2 hj => ?_, h.noCommit⟩
      · rcases Nat.lt_or_eq_of_le h2 with h2 | rfl
        · exact h.noStart j r' h1 h2 hj
        · rw [hr] at hj; cases hj; exact hs
      · rcases Nat.lt_or_eq_of_le h2 with h2 | rfl
        · exact h.noDrop j r' h1 h2 hj
        · rw [hr] at hj; cases hj; exact hd

/-! ### The rounds of a window -/

theorem between_self (rounds : List Round) (k : Nat) : between rounds k k = [] := by
  unfold between
  rw [List.drop_eq_nil_iff, List.length_take]
  omega

theorem between_succ {rounds : List Round} {s k : Nat} {r : Round} (hs : s ≤ k) (hr : rounds[k]? = some r) :
    between rounds s (k + 1) = between rounds s k ++ [r] := by
  have hk : k < rounds.length := (List.getElem?_eq_some_iff.1 hr).1
  unfold between
  rw [List.take_add_one, hr, Option.toList_some, List.drop_append_of_le_length]
  rw [List.length_take]
  omega

theorem mem_between {rounds : List Round} {s k : Nat} {r : Round} (h : r ∈ between rounds s k) :
    ∃ j, s ≤ j ∧ j < k ∧ rounds[j]? = some r := by
  unfold between at h
  obtain ⟨i, hi, hir⟩ := List.getElem_of_mem h
  rw [List.getElem_drop, List.getElem_take] at hir
  rw [List.length_drop, List.length_take] at hi
  refine ⟨s + i, by omega, by omega, ?_⟩
  rw [List.getElem?_eq_getElem (by omega), hir]

theorem openState_snoc (cancelable : Bool) (c : CollectId) (window : List Round) (r : Round) :
    openState cancelable c (window ++ [r]) =
      if cancelable then (openState cancelable c window).receive (r.items c)
      else ⟨[], leftover (openState cancelable c window).waiting
        (timed r.anchor ((openState cancelable c window).items ++ r.items c))⟩ := by
  unfold openState
  rw [List.foldl_append]
  rfl

/-- With `cancelable` the collector keeps all items of its rounds. -/
theorem openState_cancelable (c : CollectId) (window : List Round) :
    openState true c window = ⟨window.flatMap (·.items c), fun _ => []⟩ := by
  induction window using List.reverseRecOn with
  | nil => rfl
  | append_singleton window r ih =>
    rw [openState_snoc, ih]
    simp [TraceState.receive]

/-- Without `cancelable` it keeps no item. -/
theorem openState_items (c : CollectId) (window : List Round) : (openState false c window).items = [] := by
  induction window using List.reverseRecOn with
  | nil => rfl
  | append_singleton window r ih => rw [openState_snoc]; rfl

/-! ### The collector in a run -/

private theorem traceFinal_snoc (cancelable : Bool) (c : CollectId) (st : Option TraceState) (rounds : List Round)
    (r : Round) : traceFinal cancelable c st (rounds ++ [r]) =
      (traceStep cancelable c (traceFinal cancelable c st rounds) r).1 := by
  unfold traceFinal
  rw [List.foldl_append]
  rfl

/-- A call leaves a collector exactly when it enters one and does not commit it. -/
private theorem traceStep_eq_some {cancelable : Bool} {c : CollectId} {st : Option TraceState} {r : Round}
    {t : TraceState} : (traceStep cancelable c st r).1 = some t ↔ ¬r.commits c ∧ ∃ t', entered c st r = some t' ∧
      t = if cancelable then t' else ⟨[], leftover t'.waiting (timed r.anchor t'.items)⟩ := by
  unfold traceStep
  cases h : entered c st r with
  | none => simp
  | some t' => by_cases hc : r.commits c <;> cases cancelable <;> simp [hc, eq_comm]

private theorem entered_of_final {cancelable : Bool} {c : CollectId} {rounds : List Round} {k : Nat} {r : Round}
    (hr : rounds[k]? = some r) (hfinal : ∀ t, traceFinal cancelable c none (rounds.take k) = some t ↔
      ∃ s, OpenFrom c rounds s k ∧ t = openState cancelable c (between rounds s k)) (t : TraceState) :
    entered c (traceFinal cancelable c none (rounds.take k)) r = some t ↔
      ∃ s, LiveFrom c rounds s k ∧ t = (openState cancelable c (between rounds s k)).receive (r.items c) := by
  rw [entered_eq_some]
  constructor
  · rintro ⟨hd, ⟨hs, rfl⟩ | ⟨hs, t', ht', rfl⟩⟩
    · refine ⟨k, (liveFrom_iff hr).2 ⟨hd, Or.inl ⟨hs, rfl⟩⟩, ?_⟩
      rw [between_self]; rfl
    · obtain ⟨s, ho, rfl⟩ := (hfinal t').1 ht'
      exact ⟨s, (liveFrom_iff hr).2 ⟨hd, Or.inr ⟨hs, ho⟩⟩, rfl⟩
  · rintro ⟨s, hl, rfl⟩
    obtain ⟨hd, ⟨hs, rfl⟩ | ⟨hs, ho⟩⟩ := (liveFrom_iff hr).1 hl
    · rw [between_self]
      exact ⟨hd, Or.inl ⟨hs, rfl⟩⟩
    · exact ⟨hd, Or.inr ⟨hs, _, (hfinal _).2 ⟨s, ho, rfl⟩, rfl⟩⟩

/-- The collector of `c` between two rounds. -/
theorem traceFinal_eq_some (cancelable : Bool) {c : CollectId} {rounds : List Round} {k : Nat}
    (hk : k ≤ rounds.length) (t : TraceState) : traceFinal cancelable c none (rounds.take k) = some t ↔
      ∃ s, OpenFrom c rounds s k ∧ t = openState cancelable c (between rounds s k) := by
  induction k generalizing t with
  | zero =>
    constructor
    · intro h; cases h
    · rintro ⟨s, h, -⟩; exact absurd h.lt (by omega)
  | succ k ih =>
    have hr : rounds[k]? = some rounds[k] := List.getElem?_eq_getElem hk
    have hent := entered_of_final hr (fun t => ih (by omega) t)
    rw [List.take_add_one, hr, Option.toList_some, traceFinal_snoc, traceStep_eq_some]
    constructor
    · rintro ⟨hc, t', ht', rfl⟩
      obtain ⟨s, hl, rfl⟩ := (hent t').1 ht'
      refine ⟨s, (openFrom_succ hr).2 ⟨hl, hc⟩, ?_⟩
      rw [between_succ hl.le hr, openState_snoc]; rfl
    · rintro ⟨s, ho, rfl⟩
      obtain ⟨hl, hc⟩ := (openFrom_succ hr).1 ho
      refine ⟨hc, _, (hent _).2 ⟨s, hl, rfl⟩, ?_⟩
      rw [between_succ hl.le hr, openState_snoc]; rfl

/-- The collector of `c` in round `k`, once the submissions have been distributed. -/
theorem entered_take (cancelable : Bool) {c : CollectId} {rounds : List Round} {k : Nat} {r : Round}
    (hr : rounds[k]? = some r) (t : TraceState) :
    entered c (traceFinal cancelable c none (rounds.take k)) r = some t ↔
      ∃ s, LiveFrom c rounds s k ∧ t = (openState cancelable c (between rounds s k)).receive (r.items c) :=
  entered_of_final hr (traceFinal_eq_some cancelable (Nat.le_of_lt (List.getElem?_eq_some_iff.1 hr).1)) t

private theorem traceOut_getElem? (cancelable : Bool) (c : CollectId) (st : Option TraceState)
    (rounds : List Round) (k : Nat) : (traceOut cancelable c st rounds)[k]? =
      rounds[k]?.map fun r => (traceStep cancelable c (traceFinal cancelable c st (rounds.take k)) r).2 := by
  induction rounds generalizing st k with
  | nil => rfl
  | cons r rounds ih =>
    cases k with
    | zero => rfl
    | succ k => simp [traceOut, ih, traceFinal]

/-- What a round reports depends on no later round. -/
theorem reportedFor_take (cancelable : Bool) (c : CollectId) (rounds : List Round) (k : Nat) :
    (reportedFor cancelable c (rounds.take (k + 1)))[k]? = (reportedFor cancelable c rounds)[k]? := by
  rw [reportedFor_eq, reportedFor_eq, traceOut_getElem?, traceOut_getElem?,
    List.getElem?_take_of_lt (Nat.lt_succ_self k), List.take_take, Nat.min_eq_left (Nat.le_succ k)]

theorem liveFrom_take {c : CollectId} {rounds : List Round} {s k : Nat} :
    LiveFrom c (rounds.take (k + 1)) s k ↔ LiveFrom c rounds s k := by
  have hget : ∀ j, j ≤ k → (rounds.take (k + 1))[j]? = rounds[j]? := fun j hj =>
    List.getElem?_take_of_lt (Nat.lt_succ_of_le hj)
  constructor
  · intro h
    exact ⟨h.le, (hget s h.le) ▸ h.start, fun j r h1 h2 hj => h.noStart j r h1 h2 (hget j h2 ▸ hj),
      fun j r h1 h2 hj => h.noDrop j r h1 h2 (hget j h2 ▸ hj),
      fun j r h1 h2 hj => h.noCommit j r h1 h2 (hget j (Nat.le_of_lt h2) ▸ hj)⟩
  · intro h
    exact ⟨h.le, (hget s h.le).symm ▸ h.start, fun j r h1 h2 hj => h.noStart j r h1 h2 (hget j h2 ▸ hj),
      fun j r h1 h2 hj => h.noDrop j r h1 h2 (hget j h2 ▸ hj),
      fun j r h1 h2 hj => h.noCommit j r h1 h2 (hget j (Nat.le_of_lt h2) ▸ hj)⟩

/-- What a round reports for `c` while the collector of `c` is live. -/
theorem reportedFor_live {c : CollectId} {rounds : List Round} {s k : Nat} {r : Round} (cancelable : Bool)
    (hr : rounds[k]? = some r) (hl : LiveFrom c rounds s k) :
    (reportedFor cancelable c rounds)[k]? = some (if r.commits c ∨ cancelable = false then
      ((openState cancelable c (between rounds s k)).receive (r.items c)).pass r.anchor else []) := by
  have hent := (entered_take cancelable hr _).2 ⟨s, hl, rfl⟩
  rw [reportedFor_eq, traceOut_getElem?, hr, Option.map_some, traceStep, hent]
  by_cases hc : r.commits c <;> cases cancelable <;> simp [hc]

/-- What a round reports for `c` when there is no collector of `c`. -/
theorem reportedFor_dead {c : CollectId} {rounds : List Round} {k : Nat} {r : Round} (cancelable : Bool)
    (hr : rounds[k]? = some r) (hl : ∀ s, ¬LiveFrom c rounds s k) :
    (reportedFor cancelable c rounds)[k]? =
      some (if cancelable then [] else staleRecords r.anchor (r.items c)) := by
  have hent : entered c (traceFinal cancelable c none (rounds.take k)) r = none := by
    rw [Option.eq_none_iff_forall_ne_some]
    intro t ht
    obtain ⟨s, hs, -⟩ := (entered_take cancelable hr t).1 ht
    exact hl s hs
  rw [reportedFor_eq, traceOut_getElem?, hr, Option.map_some, traceStep, hent]

/-- The collector of `c` after a run. -/
theorem activeCollectors_iff (config : Config) (rounds : List Round) (c : CollectId) :
    ((GlobalCollector.start config).handleRounds rounds).activeCollectors.get? c ≠ none ↔
      ∃ s, OpenFrom c rounds s rounds.length := by
  have h := handleRounds_get? config rounds c
  have hf := traceFinal_eq_some config.cancelable (c := c) (Nat.le_refl rounds.length)
  rw [List.take_length] at hf
  constructor
  · intro hn
    obtain ⟨ac, hac⟩ := Option.ne_none_iff_exists'.1 hn
    rw [hac, Option.map_some] at h
    obtain ⟨s, hs, -⟩ := (hf _).1 h.symm
    exact ⟨s, hs⟩
  · rintro ⟨s, hs⟩ hn
    rw [hn, (hf _).2 ⟨s, hs, rfl⟩] at h
    cases h

end Fastrace
