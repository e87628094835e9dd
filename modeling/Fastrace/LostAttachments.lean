import Fastrace.Weights
import Mathlib.Algebra.BigOperators.Group.Finset.Piecewise

/-!
# Cancelling a trace without `cancelable`

`Span::cancel` is documented to need `cancelable`, but `DropCollect` removes the collector of its trace in both modes.
Without `cancelable` the later submissions of the trace are stale: their spans are reported all the same, each item by
itself.  What waits in the removed collector is lost, and so is every attachment that comes in another item than its
span.

`cancel_changes_nothing_iff` says which drops can be inserted in a run without changing what is reported: those after
which every span of the trace finds in its own item all that is attached to it (`SelfContained`).
-/

namespace Fastrace

/-! ### Inserted drops -/

/-- The second list is the first with drops inserted. -/
inductive DropsInserted : List CollectCommand → List CollectCommand → Prop
  | nil : DropsInserted [] []
  | keep {cmds cmds' : List CollectCommand} (cmd : CollectCommand) (h : DropsInserted cmds cmds') :
      DropsInserted (cmd :: cmds) (cmd :: cmds')
  | drop {cmds cmds' : List CollectCommand} (c : CollectId) (h : DropsInserted cmds cmds') :
      DropsInserted cmds (.dropCollect c :: cmds')

/-- The orders in which the collectors are visited need not be the same. -/
structure CancelledRound (r r' : Round) : Prop where
  commands : DropsInserted r.commands r'.commands
  anchor : r'.anchor = r.anchor

private theorem DropsInserted.subset {cmds cmds' : List CollectCommand} (h : DropsInserted cmds cmds') :
    cmds ⊆ cmds' := by
  induction h with
  | nil => exact List.Subset.refl _
  | keep cmd _ ih => exact List.cons_subset_cons cmd ih
  | drop c _ ih => exact fun cmd hcmd => List.mem_cons_of_mem _ (ih hcmd)

private theorem DropsInserted.mem_iff {cmds cmds' : List CollectCommand} (h : DropsInserted cmds cmds')
    {cmd : CollectCommand}
    (hcmd : ∀ c, cmd ≠ .dropCollect c) : cmd ∈ cmds' ↔ cmd ∈ cmds := by
  induction h with
  | nil => rfl
  | keep cmd' _ ih => rw [List.mem_cons, List.mem_cons, ih]
  | drop c _ ih => rw [List.mem_cons, ih, or_iff_right (hcmd c)]

private theorem DropsInserted.submitSpans_eq {cmds cmds' : List CollectCommand} (h : DropsInserted cmds cmds') :
    submitSpans cmds' = submitSpans cmds := by
  induction h with
  | nil => rfl
  | keep cmd _ ih =>
    unfold submitSpans at ih ⊢
    rw [List.filterMap_cons, List.filterMap_cons, ih]
  | drop c _ ih => exact ih

section

variable {r r' : Round} {c : CollectId}

private theorem CancelledRound.items_eq (h : CancelledRound r r') (c : CollectId) : r'.items c = r.items c := by
  simp only [Round.items, itemsFor, submissionsFor, h.commands.submitSpans_eq]

private theorem CancelledRound.starts_iff (h : CancelledRound r r') : r'.starts c ↔ r.starts c :=
  h.commands.mem_iff fun _ => nofun

private theorem CancelledRound.commits_iff (h : CancelledRound r r') : r'.commits c ↔ r.commits c :=
  h.commands.mem_iff fun _ => nofun

private theorem CancelledRound.drops (h : CancelledRound r r') (hd : r.drops c) : r'.drops c := h.commands.subset hd

end

section

variable {rounds rounds' : List Round} {c : CollectId} {s k : Nat}

private theorem cancelled_getElem? (h : List.Forall₂ CancelledRound rounds rounds') (k : Nat) :
    (rounds[k]? = none ∧ rounds'[k]? = none) ∨
      ∃ r r', rounds[k]? = some r ∧ rounds'[k]? = some r' ∧ CancelledRound r r' := by
  induction h generalizing k with
  | nil => exact Or.inl ⟨rfl, rfl⟩
  | cons hr _ ih =>
    cases k with
    | zero => exact Or.inr ⟨_, _, rfl, rfl, hr⟩
    | succ k => exact ih k

private theorem cancelled_right (h : List.Forall₂ CancelledRound rounds rounds') {r : Round}
    (hr : rounds[k]? = some r) : ∃ r', rounds'[k]? = some r' ∧ CancelledRound r r' := by
  rcases cancelled_getElem? h k with ⟨hnone, -⟩ | ⟨r₁, r', hr₁, hr', hcancel⟩
  · rw [hnone] at hr
    cases hr
  · rw [hr₁] at hr
    cases hr
    exact ⟨r', hr', hcancel⟩

private theorem cancelled_left (h : List.Forall₂ CancelledRound rounds rounds') {r' : Round}
    (hr : rounds'[k]? = some r') : ∃ r, rounds[k]? = some r ∧ CancelledRound r r' := by
  rcases cancelled_getElem? h k with ⟨-, hnone⟩ | ⟨r, r₁, hr', hr₁, hcancel⟩
  · rw [hnone] at hr
    cases hr
  · rw [hr₁] at hr
    cases hr
    exact ⟨r, hr', hcancel⟩

/-- A drop of `c` is received in one of the rounds `s, …, k`. -/
def DroppedWithin (c : CollectId) (rounds : List Round) (s k : Nat) : Prop :=
  ∃ j r, s ≤ j ∧ j ≤ k ∧ rounds[j]? = some r ∧ r.drops c

/-- The inserted drops end the life of a collector and change nothing else about it. -/
private theorem liveFrom_cancelled (h : List.Forall₂ CancelledRound rounds rounds') :
    LiveFrom c rounds' s k ↔ LiveFrom c rounds s k ∧ ¬DroppedWithin c rounds' s k := by
  constructor
  · intro hl
    refine ⟨⟨hl.le, ?_, ?_, ?_, ?_⟩, ?_⟩
    · obtain ⟨r', hr', hs⟩ := hl.start
      obtain ⟨r, hr, hcancel⟩ := cancelled_left h hr'
      exact ⟨r, hr, hcancel.starts_iff.1 hs⟩
    · intro j r hj hjk hr hs
      obtain ⟨r', hr', hcancel⟩ := cancelled_right h hr
      exact hl.noStart j r' hj hjk hr' (hcancel.starts_iff.2 hs)
    · intro j r hj hjk hr hd
      obtain ⟨r', hr', hcancel⟩ := cancelled_right h hr
      exact hl.noDrop j r' hj hjk hr' (hcancel.drops hd)
    · intro j r hj hjk hr hc
      obtain ⟨r', hr', hcancel⟩ := cancelled_right h hr
      exact hl.noCommit j r' hj hjk hr' (hcancel.commits_iff.2 hc)
    · rintro ⟨j, r', hj, hjk, hr', hd⟩
      exact hl.noDrop j r' hj hjk hr' hd
  · rintro ⟨hl, hnot⟩
    refine ⟨hl.le, ?_, ?_, ?_, ?_⟩
    · obtain ⟨r, hr, hs⟩ := hl.start
      obtain ⟨r', hr', hcancel⟩ := cancelled_right h hr
      exact ⟨r', hr', hcancel.starts_iff.2 hs⟩
    · intro j r' hj hjk hr' hs
      obtain ⟨r, hr, hcancel⟩ := cancelled_left h hr'
      exact hl.noStart j r hj hjk hr (hcancel.starts_iff.1 hs)
    · intro j r' hj hjk hr' hd
      exact hnot ⟨j, r', hj, hjk, hr', hd⟩
    · intro j r' hj hjk hr' hc
      obtain ⟨r, hr, hcancel⟩ := cancelled_left h hr'
      exact hl.noCommit j r hj hjk hr (hcancel.commits_iff.1 hc)

private theorem openState_cancelled (h : List.Forall₂ CancelledRound rounds rounds') :
    openState false c rounds' = openState false c rounds := by
  unfold openState
  generalize (⟨[], fun _ => []⟩ : TraceState) = t
  induction h generalizing t with
  | nil => rfl
  | cons hr _ ih => rw [List.foldl_cons, List.foldl_cons, hr.items_eq, hr.anchor, ih]

private theorem between_cancelled (h : List.Forall₂ CancelledRound rounds rounds') (s k : Nat) :
    List.Forall₂ CancelledRound (between rounds s k) (between rounds' s k) :=
  List.forall₂_drop s (List.forall₂_take k h)

/-- In a round whose collector has been dropped by an inserted drop, the items are stale. -/
private theorem reportedFor_dropped (h : List.Forall₂ CancelledRound rounds rounds') {r : Round}
    (hr : rounds[k]? = some r)
    (hl : LiveFrom c rounds s k) (hd : DroppedWithin c rounds' s k) :
    (reportedFor false c rounds')[k]? = some (staleRecords r.anchor (r.items c)) := by
  obtain ⟨r', hr', hcancel⟩ := cancelled_right h hr
  rw [reportedFor_dead false hr' fun s' hl' => ?_, hcancel.anchor, hcancel.items_eq]
  · rfl
  · obtain ⟨hl', hnot⟩ := (liveFrom_cancelled h).1 hl'
    rw [← hl.unique hl'] at hnot
    exact hnot hd

/-- In any other round the same is reported. -/
private theorem reportedFor_not_dropped (h : List.Forall₂ CancelledRound rounds rounds')
    (hnot : ∀ s, LiveFrom c rounds s k → ¬DroppedWithin c rounds' s k) :
    (reportedFor false c rounds')[k]? = (reportedFor false c rounds)[k]? := by
  rcases cancelled_getElem? h k with ⟨hr, hr'⟩ | ⟨r, r', hr, hr', hcancel⟩
  · rw [List.getElem?_eq_none_iff] at hr hr'
    rw [List.getElem?_eq_none (by rwa [reportedFor_length]), List.getElem?_eq_none (by rwa [reportedFor_length])]
  · by_cases hl : ∃ s, LiveFrom c rounds s k
    · obtain ⟨s, hl⟩ := hl
      have hl' : LiveFrom c rounds' s k := (liveFrom_cancelled h).2 ⟨hl, hnot s hl⟩
      rw [reportedFor_live false hr hl, reportedFor_live false hr' hl', if_pos (Or.inr rfl), if_pos (Or.inr rfl),
        openState_cancelled (between_cancelled h s k), hcancel.anchor, hcancel.items_eq]
    · rw [reportedFor_dead false hr fun s hs => hl ⟨s, hs⟩,
        reportedFor_dead false hr' fun s hs => hl ⟨s, ((liveFrom_cancelled h).1 hs).1⟩, hcancel.anchor,
        hcancel.items_eq]

end

/-! ### The attachments of a span in its own item -/

/-- The item has something visible for the span `x`. -/
def Item.AttachesTo (anchor : Anchor) (i : Item) (x : SpanId) : Prop :=
  ∃ a, (x, a) ∈ i.attachments anchor ∧ a.Visible

/-- The round brings the span `x` of `c`. -/
def Round.Brings (round : Round) (c : CollectId) (x : SpanId) : Prop := x ∈ (round.items c).flatMap Item.spanIds

/-- Round `j` brings something visible for the span `x` of `c`. -/
def AttachesIn (c : CollectId) (rounds : List Round) (x : SpanId) (j : Nat) : Prop :=
  ∃ r, rounds[j]? = some r ∧ ∃ a, (x, a) ∈ attachments (timed r.anchor (r.items c)) ∧ a.Visible

/-- The spans that round `k` brings for `c` need no collector: what round `k` has for a span comes in the first item
with that span, and what came for it since round `s` has been mounted on an earlier record. -/
structure SelfContained (c : CollectId) (rounds : List Round) (s k : Nat) (r : Round) : Prop where
  round : ∀ (pre : List Item) (i : Item) (post : List Item), r.items c = pre ++ i :: post → ∀ x ∈ i.spanIds,
    x ∉ pre.flatMap Item.spanIds → ∀ i' ∈ pre ++ post, ¬i'.AttachesTo r.anchor x
  before : ∀ x, r.Brings c x → ∀ j, s ≤ j → j < k → AttachesIn c rounds x j →
    ∃ j' r', j ≤ j' ∧ j' < k ∧ rounds[j']? = some r' ∧ r'.Brings c x

private theorem weightFor_eq_zero_iff {anchor : Anchor} {i : Item} {x : SpanId} :
    i.weightFor anchor x = 0 ↔ ¬i.AttachesTo anchor x := by
  rw [Item.weightFor, weight_eq_zero_iff]
  simp only [mem_keyed, Item.AttachesTo, not_exists, not_and]

private theorem waitingAfter_snoc (c : CollectId) (window : List Round) (r : Round) :
    waitingAfter c (fun _ => []) (window ++ [r]) =
      leftover (waitingAfter c (fun _ => []) window) (timed r.anchor (r.items c)) := by
  simp [waitingAfter]

/-- An attachment waits until its span arrives. -/
private theorem mem_waitingAfter {c : CollectId} {rounds : List Round} {s k : Nat} (hs : s ≤ k)
    (hk : k ≤ rounds.length) {x : SpanId} {a : DanglingItem} :
    a ∈ waitingAfter c (fun _ => []) (between rounds s k) x ↔ ∃ j r, s ≤ j ∧ j < k ∧ rounds[j]? = some r ∧
      (x, a) ∈ attachments (timed r.anchor (r.items c)) ∧
      ∀ j' r', j ≤ j' → j' < k → rounds[j']? = some r' → ¬r'.Brings c x := by
  induction k, hs using Nat.le_induction with
  | base =>
    rw [between_self]
    constructor
    · intro h
      cases h
    · rintro ⟨j, r, hj, hjk, -⟩
      omega
  | succ k hs ih =>
    have hr : rounds[k]? = some rounds[k] := List.getElem?_eq_getElem hk
    rw [between_succ hs hr, waitingAfter_snoc, leftover, heads_timed_spanId]
    by_cases hx : x ∈ (rounds[k].items c).flatMap Item.spanIds
    · rw [if_pos hx]
      constructor
      · intro h
        cases h
      · rintro ⟨j, r, -, hj, -, -, hnot⟩
        exact absurd hx (hnot k _ (by omega) (by omega) hr)
    · rw [if_neg hx, gathered, List.mem_append, ih (by omega), mem_keyed]
      constructor
      · rintro (⟨j, r, hj, hjk, hjr, ha, hnot⟩ | ha)
        · refine ⟨j, r, hj, by omega, hjr, ha, fun j' r' h₁ h₂ hr' => ?_⟩
          rcases Nat.lt_succ_iff_lt_or_eq.1 h₂ with h₂ | rfl
          · exact hnot j' r' h₁ h₂ hr'
          · rw [hr] at hr'
            cases hr'
            exact hx
        · refine ⟨k, _, hs, by omega, hr, ha, fun j' r' h₁ h₂ hr' => ?_⟩
          obtain rfl : j' = k := by omega
          rw [hr] at hr'
          cases hr'
          exact hx
      · rintro ⟨j, r, hj, hjk, hjr, ha, hnot⟩
        rcases Nat.lt_succ_iff_lt_or_eq.1 hjk with hjk | rfl
        · exact Or.inl ⟨j, r, hj, hjk, hjr, ha, fun j' r' h₁ h₂ => hnot j' r' h₁ (by omega)⟩
        · rw [hr] at hjr
          cases hjr
          exact Or.inr ha

private theorem waiting_weight_eq_zero_iff {c : CollectId} {rounds : List Round} {s k : Nat} (hs : s ≤ k)
    (hk : k ≤ rounds.length) {x : SpanId} :
    weight (waitingAfter c (fun _ => []) (between rounds s k) x) = 0 ↔ ∀ j, s ≤ j → j < k → AttachesIn c rounds x j →
      ∃ j' r', j ≤ j' ∧ j' < k ∧ rounds[j']? = some r' ∧ r'.Brings c x := by
  rw [weight_eq_zero_iff]
  constructor
  · rintro h j hj hjk ⟨r, hr, a, ha, hv⟩
    by_contra hnone
    refine h a ((mem_waitingAfter hs hk).2 ⟨j, r, hj, hjk, hr, ha, fun j' r' h₁ h₂ hr' hx => ?_⟩) hv
    exact hnone ⟨j', r', h₁, h₂, hr', hx⟩
  · intro h a ha hv
    obtain ⟨j, r, hj, hjk, hr, ha, hnot⟩ := (mem_waitingAfter hs hk).1 ha
    obtain ⟨j', r', h₁, h₂, hr', hx⟩ := h j hj hjk ⟨r, hr, a, ha, hv⟩
    exact hnot j' r' h₁ h₂ hr' hx

private theorem mem_of_mem_others {pre post : List Item} {i i' : Item} (h : i' ∈ pre ++ post) :
    i' ∈ pre ++ i :: post :=
  (List.mem_append.1 h).elim (List.mem_append_left _) fun h => List.mem_append_right _ (List.mem_cons_of_mem _ h)

private theorem exists_first {items : List Item} {x : SpanId} (h : x ∈ items.flatMap Item.spanIds) :
    ∃ pre i post, items = pre ++ i :: post ∧ x ∈ i.spanIds ∧ x ∉ pre.flatMap Item.spanIds := by
  induction items with
  | nil => cases h
  | cons i items ih =>
    by_cases hi : x ∈ i.spanIds
    · exact ⟨[], i, items, rfl, hi, List.not_mem_nil⟩
    · rw [List.flatMap_cons, List.mem_append, or_iff_right hi] at h
      obtain ⟨pre, i', post, rfl, hx, hnot⟩ := ih h
      refine ⟨i :: pre, i', post, rfl, hx, ?_⟩
      rw [List.flatMap_cons, List.mem_append]
      exact fun hmem => hmem.elim hi hnot

section

variable {rounds rounds' : List Round} {c : CollectId} {s k : Nat} {r : Round}

/-- What a live collector reports, as one pass. -/
private theorem reportedFor_pass (hr : rounds[k]? = some r) (hl : LiveFrom c rounds s k) :
    (reportedFor false c rounds)[k]? = some (mountAll (gathered
      (waitingAfter c (fun _ => []) (between rounds s k)) (timed r.anchor (r.items c)))
        (heads (timed r.anchor (r.items c)))) := by
  rw [reportedFor_live false hr hl, if_pos (Or.inr rfl), TraceState.pass, TraceState.receive, openState_items,
    openState_waiting, List.nil_append]
  rfl

/-- Self-contained spans are reported the same without a collector. -/
private theorem SelfContained.pass_eq (h : SelfContained c rounds s k r) (hr : rounds[k]? = some r)
    (hl : LiveFrom c rounds s k) :
    (reportedFor false c rounds)[k]? = some (staleRecords r.anchor (r.items c)) := by
  rw [reportedFor_pass hr hl]
  congr 1
  apply mountAll_eq_stale
  intro pre i post hsplit x hx
  have hbrings : r.Brings c x := List.mem_flatMap.2 ⟨i, by rw [hsplit]; simp, hx⟩
  unfold Waiting.without
  split
  · -- an item before has the span
    rename_i hpre
    obtain ⟨pre', i₀, post', rfl, hx₀, hfirst⟩ := exists_first hpre
    rw [sameMount_nil_iff]
    refine weightFor_eq_zero_iff.2 (h.round pre' i₀ (post' ++ i :: post) ?_ x hx₀ hfirst i (by simp))
    rw [hsplit, List.append_assoc, List.cons_append]
  · -- this is the first item with the span
    rename_i hpre
    have hwaiting := (waiting_weight_eq_zero_iff hl.le
      (Nat.le_of_lt (List.getElem?_eq_some_iff.1 hr).1)).2 (h.before x hbrings)
    have hother : ∀ i' ∈ pre ++ post, weight (keyed (i'.attachments r.anchor) x) = 0 := fun i' hi' =>
      weightFor_eq_zero_iff.2 (h.round pre i post hsplit x hx hpre i' hi')
    have hkeyed : keyed (attachments (timed r.anchor (r.items c))) x =
        (pre.flatMap fun i => keyed (i.attachments r.anchor) x) ++ (keyed (i.attachments r.anchor) x ++
          post.flatMap fun i => keyed (i.attachments r.anchor) x) := by
      rw [keyed_attachments, timed, List.flatMap_map, hsplit, List.flatMap_append, List.flatMap_cons]
    rw [gathered, hkeyed]
    exact sameMount_of_zero hwaiting (weight_flatMap_eq_zero fun i' hi' => hother i' (List.mem_append_left _ hi'))
      (weight_flatMap_eq_zero fun i' hi' => hother i' (List.mem_append_right _ hi'))

end

/-! ### What all traces report -/

/-- The records the reporter is given, over all calls. -/
def allReported (rounds : List Round) : List SpanRecord :=
  ((GlobalCollector.start { cancelable := false }).handleRounds rounds).reported.flatten

private theorem allReported_eq (rounds : List Round) :
    allReported rounds = (attributedRun false HashMap.empty rounds).flatten.map (·.2) := by
  rw [allReported, handleRounds_reported, List.map_flatten]

private theorem ownedBy_flatten (c : CollectId) (ls : List (List (CollectId × SpanRecord))) :
    ownedBy c ls.flatten = (ls.map (ownedBy c)).flatten := by
  induction ls with
  | nil => rfl
  | cons l ls ih => rw [List.flatten_cons, ownedBy_append, ih, List.map_cons, List.flatten_cons]

private theorem allReported_perm {rounds rounds' : List Round}
    (h : ∀ c, reportedFor false c rounds' = reportedFor false c rounds) :
    (allReported rounds').Perm (allReported rounds) := by
  rw [allReported_eq, allReported_eq]
  refine List.Perm.map _ (perm_of_ownedBy fun c => ?_)
  rw [ownedBy_flatten, ownedBy_flatten]
  exact congrArg List.flatten (h c)

private theorem total_ownedBy (w : SpanRecord → Nat) (l : List (CollectId × SpanRecord)) {ids : Finset CollectId}
    (h : ∀ p ∈ l, p.1 ∈ ids) : total w (l.map (·.2)) = ∑ c ∈ ids, total w (ownedBy c l) := by
  induction l with
  | nil => simp [total, ownedBy]
  | cons p l ih =>
    rw [List.forall_mem_cons] at h
    have hcons : ∀ c, total w (ownedBy c (p :: l)) = (if p.1 = c then w p.2 else 0) + total w (ownedBy c l) := by
      intro c
      by_cases hc : p.1 = c <;> simp [ownedBy, total, hc]
    simp only [hcons, Finset.sum_add_distrib, ← ih h.2, Finset.sum_ite_eq, if_pos h.1]
    simp [total]

private theorem eq_of_sum_eq {l l' : List Nat} (h : List.Forall₂ (· ≤ ·) l l') (hsum : l.sum = l'.sum) : l = l' := by
  induction h with
  | nil => rfl
  | cons hle hrest ih =>
    have := hrest.sum_le_sum
    rw [List.sum_cons, List.sum_cons] at hsum
    rw [ih (by omega)]
    congr 1
    omega

private theorem total_flatten (w : SpanRecord → Nat) (ls : List (List SpanRecord)) :
    total w ls.flatten = (ls.map (total w)).sum := by
  rw [← List.flatMap_id, total_flatMap]
  rfl

/-- When no trace reports more in any round of the first run than in the same round of the second, and both report
the same in total, then every trace reports as much in every round. -/
private theorem total_eq {rounds rounds' : List Round} (w : SpanRecord → Nat)
    (hlength : rounds'.length = rounds.length)
    (hperm : (allReported rounds').Perm (allReported rounds))
    (hle : ∀ (c : CollectId) (k : Nat) (recs recs' : List SpanRecord), (reportedFor false c rounds)[k]? = some recs →
      (reportedFor false c rounds')[k]? = some recs' → total w recs' ≤ total w recs) (c : CollectId) :
    (reportedFor false c rounds').map (total w) = (reportedFor false c rounds).map (total w) := by
  have hforall : ∀ c, List.Forall₂ (· ≤ ·) ((reportedFor false c rounds').map (total w))
      ((reportedFor false c rounds).map (total w)) := by
    intro c
    rw [List.forall₂_map_left_iff, List.forall₂_map_right_iff, List.forall₂_iff_get]
    refine ⟨by rw [reportedFor_length, reportedFor_length, hlength], fun k h₁ h₂ => ?_⟩
    exact hle c k _ _ (List.getElem?_eq_getElem h₂) (List.getElem?_eq_getElem h₁)
  apply eq_of_sum_eq (hforall c)
  -- over all traces the totals agree
  let all := (attributedRun false HashMap.empty rounds').flatten ++ (attributedRun false HashMap.empty rounds).flatten
  let ids := (all.map (·.1)).toFinset
  have hids : ∀ p ∈ all, p.1 ∈ ids := fun p hp => List.mem_toFinset.2 (List.mem_map_of_mem hp)
  have htotal : total w (allReported rounds') = total w (allReported rounds) := (hperm.map w).sum_eq
  rw [allReported_eq, allReported_eq, total_ownedBy w _ fun p hp => hids p (List.mem_append_left _ hp),
    total_ownedBy w _ fun p hp => hids p (List.mem_append_right _ hp)] at htotal
  have hsum : ∀ c rounds, total w (ownedBy c (attributedRun false HashMap.empty rounds).flatten) =
      ((reportedFor false c rounds).map (total w)).sum := by
    intro c rounds
    rw [ownedBy_flatten, total_flatten]
    rfl
  by_cases hc : c ∈ ids
  · simp only [hsum] at htotal
    exact (Finset.sum_eq_sum_iff_of_le fun c _ => (hforall c).sum_le_sum).1 htotal c hc
  · have hnone : ∀ l, (∀ p ∈ l, p ∈ all) → ownedBy c l = [] := by
      intro l hl
      simp only [ownedBy, List.map_eq_nil_iff, List.filter_eq_nil_iff, decide_eq_true_eq]
      exact fun p hp heq => hc (heq ▸ hids p (hl p hp))
    rw [← hsum, ← hsum, hnone _ fun p hp => List.mem_append_left _ hp, hnone _ fun p hp => List.mem_append_right _ hp]

/-! ### Cancelling changes nothing -/

/-- A span id belongs to one span in one set, which may be submitted for several token items; no set is submitted
under a parent that is in it. -/
structure SetsOnce (rounds : List Round) : Prop where
  spans : ∀ r ∈ rounds, ∀ c, ∀ i ∈ r.items c, ∀ r' ∈ rounds, ∀ c', ∀ i' ∈ r'.items c', ∀ raw ∈ i.spans.raws,
    ∀ raw' ∈ i'.spans.raws, raw.rawKind = .span → raw'.rawKind = .span → raw.id = raw'.id →
      i.spans = i'.spans ∧ raw = raw'
  parents : ∀ r ∈ rounds, ∀ c, ∀ i ∈ r.items c, i.parentId ∉ i.spanIds

private theorem mem_spanIds_iff {i : Item} {x : SpanId} :
    x ∈ i.spanIds ↔ ∃ raw ∈ i.spans.raws, raw.rawKind = .span ∧ raw.id = x := by
  simp [Item.spanIds, and_assoc]

/-- What a set has for one of its own spans does not depend on the item. -/
private theorem weightFor_congr {anchor : Anchor} {i i' : Item} {x : SpanId} (hspans : i.spans = i'.spans)
    (hparent : i.parentId ≠ x) (hparent' : i'.parentId ≠ x) : i.weightFor anchor x = i'.weightFor anchor x := by
  have hof : ∀ raw : RawSpan, i.parentOf raw = x ↔ i'.parentOf raw = x := by
    intro raw
    unfold Item.parentOf
    rw [← hspans]
    split
    · simp [hparent, hparent']
    · split
      · simp [hparent, hparent']
      · rfl
  unfold Item.weightFor
  rw [keyed_item, keyed_item, hspans]
  simp only [hof]

section

variable {rounds rounds' : List Round} {c : CollectId} {s k : Nat} {r : Round}

/-- Before mounting all records of a span have the same size. -/
private theorem SetsOnce.size_eq (h : SetsOnce rounds) (x : SpanId) : ∃ n, ∀ r ∈ rounds, ∀ c, ∀ i ∈ r.items c,
    ∀ anchor, ∀ rec ∈ i.heads anchor, rec.spanId = x → rec.size = n := by
  by_cases hx : ∃ r ∈ rounds, ∃ c, ∃ i ∈ r.items c, x ∈ i.spanIds
  · obtain ⟨r₀, hr₀, c₀, i₀, hi₀, hx₀⟩ := hx
    obtain ⟨raw₀, hraw₀, hkind₀, rfl⟩ := mem_spanIds_iff.1 hx₀
    refine ⟨(raw₀.properties.getD []).length, fun r hr c i hi anchor rec hrec hid => ?_⟩
    obtain ⟨raw, hraw, rfl⟩ := List.mem_map.1 hrec
    rw [List.mem_filter, decide_eq_true_iff] at hraw
    obtain ⟨-, rfl⟩ := h.spans r hr c i hi r₀ hr₀ c₀ i₀ hi₀ raw hraw.1 raw₀ hraw₀ hraw.2 hkind₀ hid
    rfl
  · refine ⟨0, fun r hr c i hi anchor rec hrec hid => ?_⟩
    refine absurd ⟨r, hr, c, i, hi, ?_⟩ hx
    rw [← hid, ← item_heads_spanId anchor]
    exact List.mem_map_of_mem hrec

/-- The totals of a round in which the collector has been dropped, without and with the drop. -/
private theorem dropped_totals (h : List.Forall₂ CancelledRound rounds rounds') (hr : rounds[k]? = some r)
    (hl : LiveFrom c rounds s k) (hd : DroppedWithin c rounds' s k) {w : SpanRecord → Nat}
    (heq : (reportedFor false c rounds').map (total w) = (reportedFor false c rounds).map (total w)) :
    total w (staleRecords r.anchor (r.items c)) = total w (mountAll (gathered
      (waitingAfter c (fun _ => []) (between rounds s k)) (timed r.anchor (r.items c)))
        (heads (timed r.anchor (r.items c)))) := by
  have hk := congrArg (fun l => l[k]?) heq
  simp only [List.getElem?_map, reportedFor_dropped h hr hl hd, reportedFor_pass hr hl, Option.map_some,
    Option.some.injEq] at hk
  exact hk

/-- A total that is not larger in the rounds with a dropped collector is not larger in any round. -/
private theorem total_le (h : List.Forall₂ CancelledRound rounds rounds') {P : Nat → Nat → Prop} (hrefl : ∀ n, P n n)
    {w : SpanRecord → Nat}
    (hdropped : ∀ (c : CollectId) (s k : Nat) (r : Round), rounds[k]? = some r → LiveFrom c rounds s k →
      DroppedWithin c rounds' s k → P (total w (staleRecords r.anchor (r.items c))) (total w (mountAll (gathered
        (waitingAfter c (fun _ => []) (between rounds s k)) (timed r.anchor (r.items c)))
          (heads (timed r.anchor (r.items c)))))) (c : CollectId) (k : Nat) (recs recs' : List SpanRecord)
    (hrecs : (reportedFor false c rounds)[k]? = some recs) (hrecs' : (reportedFor false c rounds')[k]? = some recs') :
    P (total w recs') (total w recs) := by
  have hk : k < rounds.length := by
    rw [← reportedFor_length false c]
    exact (List.getElem?_eq_some_iff.1 hrecs).1
  have hr : rounds[k]? = some rounds[k] := List.getElem?_eq_getElem hk
  by_cases hcut : ∃ s, LiveFrom c rounds s k ∧ DroppedWithin c rounds' s k
  · obtain ⟨s, hl, hd⟩ := hcut
    rw [reportedFor_pass hr hl] at hrecs
    rw [reportedFor_dropped h hr hl hd] at hrecs'
    cases hrecs
    cases hrecs'
    exact hdropped c s k _ hr hl hd
  · rw [reportedFor_not_dropped h fun s hl hd => hcut ⟨s, hl, hd⟩, hrecs] at hrecs'
    cases hrecs'
    exact hrefl _

/-- When as much is reported with the drops as without, every dropped round is self-contained. -/
private theorem selfContained_of_perm (h : List.Forall₂ CancelledRound rounds rounds') (honce : SetsOnce rounds)
    (hperm : (allReported rounds').Perm (allReported rounds)) (hr : rounds[k]? = some r) (hl : LiveFrom c rounds s k)
    (hd : DroppedWithin c rounds' s k) : SelfContained c rounds s k r := by
  have hmem : r ∈ rounds := List.mem_of_getElem? hr
  -- by their sizes, nothing is lost in any round
  have hsizes : ∀ x c, (reportedFor false c rounds').map (total (sizeAt x)) =
      (reportedFor false c rounds).map (total (sizeAt x)) := fun x =>
    total_eq (sizeAt x) h.length_eq.symm hperm
      (total_le h (P := fun m n => m ≤ n) (fun n => le_refl n) fun c s k r _ _ _ => stale_size_le _ r.anchor _ x)
  have hsize : ∀ x (c : CollectId) (s k : Nat) (r : Round), rounds[k]? = some r → LiveFrom c rounds s k →
      DroppedWithin c rounds' s k → total (sizeAt x) (staleRecords r.anchor (r.items c)) =
        total (sizeAt x) (mountAll (gathered (waitingAfter c (fun _ => []) (between rounds s k))
          (timed r.anchor (r.items c))) (heads (timed r.anchor (r.items c)))) :=
    fun x c s k r hr hl hd => dropped_totals h hr hl hd (hsizes x c)
  have hnothing : ∀ x, r.Brings c x → weight (waitingAfter c (fun _ => []) (between rounds s k) x) = 0 ∧
      ∀ i ∈ r.items c, x ∉ i.spanIds → i.weightFor r.anchor x = 0 := fun x hx =>
    waits_nothing (hsize x c s k r hr hl hd) hx
  refine ⟨fun pre i post hsplit x hx hfirst i' hi' => ?_, fun x hx => ?_⟩
  · have hmem' : i' ∈ r.items c := hsplit ▸ mem_of_mem_others hi'
    have hmemi : i ∈ r.items c := by rw [hsplit]; simp
    have hbrings : r.Brings c x := List.mem_flatMap.2 ⟨i, hmemi, hx⟩
    rw [← weightFor_eq_zero_iff]
    by_cases hx' : x ∈ i'.spanIds
    · -- then the item has for the span what the first one has, and only one of them may have something
      have hpost : i' ∈ post := by
        rcases List.mem_append.1 hi' with hi' | hi'
        · exact absurd (List.mem_flatMap.2 ⟨i', hi', hx'⟩) hfirst
        · exact hi'
      obtain ⟨raw, hraw, hkind, rfl⟩ := mem_spanIds_iff.1 hx
      obtain ⟨raw', hraw', hkind', hid⟩ := mem_spanIds_iff.1 hx'
      have hsame : i.weightFor r.anchor raw.id = i'.weightFor r.anchor raw.id :=
        weightFor_congr (honce.spans r hmem c i hmemi r hmem c i' hmem' raw hraw raw' hraw' hkind hkind' hid.symm).1
          (fun heq => honce.parents r hmem c i hmemi (heq ▸ hx))
          (fun heq => honce.parents r hmem c i' hmem' (heq ▸ hx'))
      obtain ⟨n, hn⟩ := honce.size_eq raw.id
      have hloaded := dropped_totals h hr hl hd (total_eq (loadedAt raw.id n) h.length_eq hperm.symm
        (fun c k recs' recs hrecs' hrecs => total_le h (P := fun m n => n ≤ m) (fun n => le_refl n)
          (fun c s k r hr hl hd => loaded_le_stale (fun i hi => hn r (List.mem_of_getElem? hr) c i hi r.anchor)
            (hsize raw.id c s k r hr hl hd)) c k recs recs' hrecs hrecs') c).symm
      by_contra hpos
      exact hpos (loads_one (fun i hi => hn r hmem c i hi r.anchor) hloaded.symm hsplit hpost hx hx' (by omega))
    · exact (hnothing x hbrings).2 i' hmem' hx'
  · exact (waiting_weight_eq_zero_iff hl.le (Nat.le_of_lt (List.getElem?_eq_some_iff.1 hr).1)).1 (hnothing x hx).1

end

/-- Without `cancelable`, drops inserted in a run leave the reported records as they are, if every round that they
take the collector from is self-contained; and, where span ids are unique, only then. -/
theorem cancel_changes_nothing_iff {rounds rounds' : List Round} (h : List.Forall₂ CancelledRound rounds rounds') :
    ((∀ (c : CollectId) (s k : Nat) (r : Round), rounds[k]? = some r → LiveFrom c rounds s k →
        DroppedWithin c rounds' s k → SelfContained c rounds s k r) →
      (allReported rounds').Perm (allReported rounds)) ∧
    (SetsOnce rounds → (allReported rounds').Perm (allReported rounds) →
      ∀ (c : CollectId) (s k : Nat) (r : Round), rounds[k]? = some r → LiveFrom c rounds s k →
        DroppedWithin c rounds' s k → SelfContained c rounds s k r) := by
  refine ⟨fun hself => allReported_perm fun c => ?_, fun honce hperm c s k r hr hl hd =>
    selfContained_of_perm h honce hperm hr hl hd⟩
  apply List.ext_getElem?
  intro k
  by_cases hcut : ∃ s, LiveFrom c rounds s k ∧ DroppedWithin c rounds' s k
  · obtain ⟨s, hl, hd⟩ := hcut
    by_cases hk : k < rounds.length
    · have hr : rounds[k]? = some rounds[k] := List.getElem?_eq_getElem hk
      rw [reportedFor_dropped h hr hl hd, (hself c s k _ hr hl hd).pass_eq hr hl]
    · rw [List.getElem?_eq_none, List.getElem?_eq_none]
      · rw [reportedFor_length]
        omega
      · rw [reportedFor_length, ← h.length_eq]
        omega
  · exact reportedFor_not_dropped h fun s hl hd => hcut ⟨s, hl, hd⟩

/-! ### A cancelled root -/

/-- `splitRounds` with a cancel of the root while it is open. -/
def cancelledSplitRounds : List Round := [
  ⟨[.startCollect 3, .submitSpans ⟨.span childEvent, [⟨⟨1⟩, ⟨7⟩, 3, false, true⟩]⟩], fun i => i.ticks, .stored⟩,
  ⟨[.dropCollect 3, .commitCollect 3, .submitSpans ⟨.span childSpan, [⟨⟨1⟩, ⟨5⟩, 3, false, true⟩]⟩],
    fun i => i.ticks, .stored⟩]

/-- The event of the child gets lost. -/
theorem cancel_loses_event : List.Forall₂ CancelledRound splitRounds cancelledSplitRounds ∧
    allReported splitRounds = [⟨⟨1⟩, ⟨7⟩, ⟨5⟩, 10, 20, "child", [], [⟨"event", 20, []⟩]⟩] ∧
    allReported cancelledSplitRounds = [⟨⟨1⟩, ⟨7⟩, ⟨5⟩, 10, 20, "child", [], []⟩] ∧
    ¬(allReported cancelledSplitRounds).Perm (allReported splitRounds) := by
  have hfull : allReported splitRounds = [⟨⟨1⟩, ⟨7⟩, ⟨5⟩, 10, 20, "child", [], [⟨"event", 20, []⟩]⟩] := by decide
  have hlost : allReported cancelledSplitRounds = [⟨⟨1⟩, ⟨7⟩, ⟨5⟩, 10, 20, "child", [], []⟩] := by decide
  refine ⟨.cons ⟨.keep _ (.keep _ .nil), rfl⟩ (.cons ⟨.drop 3 (.keep _ (.keep _ .nil)), rfl⟩ .nil), hfull, hlost, ?_⟩
  rw [hfull, hlost, List.singleton_perm_singleton]
  decide

/-- The child has no event. -/
def quietRounds (cmds : List CollectCommand) : List Round := [
  ⟨[.startCollect 3], fun i => i.ticks, .stored⟩,
  ⟨cmds ++ [.submitSpans ⟨.span childSpan, [⟨⟨1⟩, ⟨5⟩, 3, false, true⟩]⟩, .commitCollect 3],
    fun i => i.ticks, .stored⟩]

private theorem quiet_attachments (c : CollectId) : ∀ r ∈ quietRounds [], ∀ i ∈ r.items c,
    i.attachments r.anchor = [] := by
  intro r hr i hi
  have hspans : i.spans = .span childSpan := by
    rcases List.mem_cons.1 hr with rfl | hr
    · cases hi
    · cases List.mem_singleton.1 hr
      simp only [Round.items, itemsFor, submissionsFor, submitSpans, List.nil_append, List.filterMap_cons,
        List.filterMap_nil, List.flatMap_cons, List.flatMap_nil, List.append_nil, List.map_map, List.mem_map] at hi
      obtain ⟨item, -, rfl⟩ := hi
      rfl
  simp [Item.attachments, hspans, SpanSet.raws, childSpan]

theorem cancel_changes_nothing_quiet : (allReported (quietRounds [.dropCollect 3])).Perm
    (allReported (quietRounds [])) := by
  have hrounds : List.Forall₂ CancelledRound (quietRounds []) (quietRounds [.dropCollect 3]) :=
    .cons ⟨.keep _ .nil, rfl⟩ (.cons ⟨.drop 3 (.keep _ (.keep _ .nil)), rfl⟩ .nil)
  refine (cancel_changes_nothing_iff hrounds).1 fun c s k r hr _ _ => ⟨?_, ?_⟩
  · rintro pre i post hsplit x - - i' hi' ⟨a, ha, -⟩
    have hmem : i' ∈ r.items c := hsplit ▸ mem_of_mem_others hi'
    rw [quiet_attachments c r (List.mem_of_getElem? hr) i' hmem] at ha
    cases ha
  · rintro x - j - - ⟨r', hr', a, ha, -⟩
    obtain ⟨t, ht, ha⟩ := List.mem_flatMap.1 ha
    obtain ⟨i, hi, rfl⟩ := List.mem_map.1 ht
    rw [quiet_attachments c r' (List.mem_of_getElem? hr') i hi] at ha
    cases ha

end Fastrace
