import Fastrace.Lifetime

/-!
# Holding the spans of a trace until its commit

With `cancelable` the spans of a trace are held until the round that commits the trace and reported there, all at
once.  A call sorts its batch into starts, drops, submissions and commits before it acts, so only the round in which
a command arrives counts, not its place in the round.
-/

namespace Fastrace

/-- Round `k` commits `c`, which was started in round `s` and neither dropped up to round `k` nor committed
before it. -/
structure CommittedFrom (c : CollectId) (rounds : List Round) (s k : Nat) : Prop where
  le : s ≤ k
  start : ∃ r, rounds[s]? = some r ∧ r.starts c
  commit : ∃ r, rounds[k]? = some r ∧ r.commits c
  noDrop : ∀ j r, s ≤ j → j ≤ k → rounds[j]? = some r → ¬r.drops c
  noCommit : ∀ j r, s ≤ j → j < k → rounds[j]? = some r → ¬r.commits c

/-- The commands received over a run. -/
def received (rounds : List Round) : List CollectCommand := rounds.flatMap Round.commands

theorem mem_received {rounds : List Round} {cmd : CollectCommand} :
    cmd ∈ received rounds ↔ ∃ (j : Nat) (r : Round), rounds[j]? = some r ∧ cmd ∈ r.commands := by
  unfold received
  rw [List.mem_flatMap]
  constructor
  · rintro ⟨r, hr, hc⟩
    obtain ⟨j, hj⟩ := List.mem_iff_getElem?.1 hr
    exact ⟨j, r, hj, hc⟩
  · rintro ⟨j, r, hj, hc⟩
    exact ⟨r, List.mem_of_getElem? hj, hc⟩

/-- A command received at most once is in the batch of at most one round. -/
theorem round_unique {rounds : List Round} {cmd : CollectCommand} (honce : (received rounds).count cmd ≤ 1)
    {i j : Nat} {r r' : Round} (hi : rounds[i]? = some r) (hr : cmd ∈ r.commands) (hj : rounds[j]? = some r')
    (hr' : cmd ∈ r'.commands) : i = j := by
  by_contra hne
  wlog hlt : i < j generalizing i j r r'
  · exact this hj hr' hi hr (Ne.symm hne) (by omega)
  have h1 : cmd ∈ received (rounds.take j) :=
    mem_received.2 ⟨i, r, by rw [List.getElem?_take_of_lt hlt, hi], hr⟩
  have h2 : cmd ∈ received (rounds.drop j) :=
    mem_received.2 ⟨0, r', by rw [List.getElem?_drop, Nat.add_zero, hj], hr'⟩
  have hsplit : received rounds = received (rounds.take j) ++ received (rounds.drop j) := by
    unfold received
    rw [← List.flatMap_append, List.take_append_drop]
  rw [hsplit, List.count_append] at honce
  have := List.count_pos_iff.2 h1
  have := List.count_pos_iff.2 h2
  omega

private theorem CommittedFrom.live {c : CollectId} {rounds : List Round} {s k : Nat}
    (honce : (received rounds).count (.startCollect c) ≤ 1) (h : CommittedFrom c rounds s k) :
    LiveFrom c rounds s k := by
  obtain ⟨r, hr, hs⟩ := h.start
  refine ⟨h.le, h.start, fun j r' h1 _ hj hs' => ?_, h.noDrop, h.noCommit⟩
  have := round_unique honce hr hs hj hs'
  omega

/-- With `cancelable` and `c` started at most once: a round that commits `c` reports the items of `c` received from
the start on, when `c` was started and neither dropped nor committed since; in every other case a round reports
nothing for `c`. -/
theorem cancelable_reports_at_commit (c : CollectId) (rounds : List Round)
    (honce : (received rounds).count (.startCollect c) ≤ 1) (k : Nat) (r : Round) (hr : rounds[k]? = some r) :
    (∀ s, CommittedFrom c rounds s k → (reportedFor true c rounds)[k]? =
        some (recordsOf (fun _ => []) (timed r.anchor ((between rounds s (k + 1)).flatMap (·.items c))))) ∧
      ((¬∃ s, CommittedFrom c rounds s k) → (reportedFor true c rounds)[k]? = some []) := by
  constructor
  · intro s h
    have hc : r.commits c := by
      obtain ⟨r', hr', hc⟩ := h.commit
      rw [hr] at hr'; cases hr'; exact hc
    rw [reportedFor_live true hr (h.live honce), openState_cancelable, between_succ h.le hr]
    simp [hc, TraceState.receive, TraceState.pass]
  · intro h
    by_cases hl : ∃ s, LiveFrom c rounds s k
    · obtain ⟨s, hl⟩ := hl
      have hc : ¬r.commits c := fun hc =>
        h ⟨s, hl.le, hl.start, ⟨r, hr, hc⟩, hl.noDrop, hl.noCommit⟩
      rw [reportedFor_live true hr hl]
      simp [hc]
    · rw [reportedFor_dead true hr fun s hs => hl ⟨s, hs⟩]
      rfl

/-! ### A trace in two batches -/

def childSpan : RawSpan where
  id := ⟨7⟩
  parentId := default
  beginInstant := ⟨10⟩
  name := "child"
  properties := none
  rawKind := .span
  endInstant := ⟨30⟩

/-- An event as `Span::add_event` submits it. -/
def childEvent : RawSpan where
  id := ⟨8⟩
  parentId := default
  beginInstant := ⟨20⟩
  name := "event"
  properties := none
  rawKind := .event
  endInstant := .zero

/-- In the batch of its start trace `3` gets an event of `childSpan`, in that of its commit the span. -/
def splitRounds : List Round := [
  ⟨[.startCollect 3, .submitSpans ⟨.span childEvent, [⟨⟨1⟩, ⟨7⟩, 3, false, true⟩]⟩], fun i => i.ticks, .stored⟩,
  ⟨[.commitCollect 3, .submitSpans ⟨.span childSpan, [⟨⟨1⟩, ⟨5⟩, 3, false, true⟩]⟩], fun i => i.ticks, .stored⟩]

private theorem splitRounds_committed : CommittedFrom 3 splitRounds 0 1 where
  le := Nat.zero_le _
  start := ⟨_, rfl, by decide⟩
  commit := ⟨_, rfl, by decide⟩
  noDrop j r _ _ hj := (by decide : ∀ r ∈ splitRounds, ¬r.drops 3) r (List.mem_of_getElem? hj)
  noCommit j r _ hj hr := by
    obtain rfl : j = 0 := by omega
    cases hr
    decide

theorem cancelable_reports_at_commit_split : (reportedFor true 3 splitRounds)[1]? =
    some (recordsOf (fun _ => []) (timed (fun i => i.ticks) ((between splitRounds 0 2).flatMap (·.items 3)))) :=
  (cancelable_reports_at_commit 3 splitRounds (by decide) 1 _ rfl).1 0 splitRounds_committed

end Fastrace
