import Fastrace.Cancelable
import Fastrace.Delivery

/-!
# Reporting before the root finishes

`Config::report_before_root_finish` is documented to configure whether spans are reported before the root span
finishes.  It sets `cancelable`, which says the opposite: with `report_before_root_finish(true)` the spans of a trace
are held until its commit, and with `false` they are reported at once.  So the option keeps its word only where the
difference does not show, in runs in which no span arrives before the round of the commit of its trace.
-/

namespace Fastrace

/-- The round brings a span of `c`. -/
def Round.BringsSpan (round : Round) (c : CollectId) : Prop :=
  ∃ i ∈ round.items c, ∃ raw ∈ i.spans.raws, raw.rawKind = .span

/-- Up to round `k`, `c` has been started, and no commit of it has been received since. -/
def Uncommitted (c : CollectId) (rounds : List Round) (k : Nat) : Prop :=
  ∃ s ≤ k, (∃ r, rounds[s]? = some r ∧ r.starts c) ∧ ∀ j r, s ≤ j → j ≤ k → rounds[j]? = some r → ¬r.commits c

/-- What `report_before_root_finish(true)` promises: the spans received for a trace that is started, not dropped and
not committed before are reported in the same round. -/
def ReportsEarly (config : Config) (rounds : List Round) : Prop :=
  ∀ (c : CollectId) (s k : Nat) (r : Round), rounds[k]? = some r → LiveFrom c rounds s k →
    ∃ recs, (reportedFor config.cancelable c rounds)[k]? = some recs ∧
      ((heads (timed r.anchor (r.items c))).map SpanRecord.bare).Sublist (recs.map SpanRecord.bare)

/-- What `report_before_root_finish(false)` promises: no span of a started trace is reported before the round of its
commit. -/
def HoldsUntilCommit (config : Config) (rounds : List Round) : Prop :=
  ∀ (c : CollectId) (k : Nat), k < rounds.length → Uncommitted c rounds k →
    (reportedFor config.cancelable c rounds)[k]? = some []

private theorem heads_eq_nil_iff {round : Round} {c : CollectId} :
    heads (timed round.anchor (round.items c)) = [] ↔ ¬round.BringsSpan c := by
  simp [heads, timed, Item.heads, Round.BringsSpan]

/-- Without `cancelable` a round reports the spans it receives, whatever has become of the trace. -/
private theorem reportedFor_bare {c : CollectId} {rounds : List Round} {k : Nat} {r : Round}
    (hr : rounds[k]? = some r) : ∃ recs, (reportedFor false c rounds)[k]? = some recs ∧
      recs.map SpanRecord.bare = (heads (timed r.anchor (r.items c))).map SpanRecord.bare := by
  by_cases hl : ∃ s, LiveFrom c rounds s k
  · obtain ⟨s, hl⟩ := hl
    refine ⟨_, reportedFor_live false hr hl, ?_⟩
    rw [if_pos (Or.inr rfl), TraceState.pass, recordsOf_bare, TraceState.receive, openState_items, List.nil_append]
  · refine ⟨_, reportedFor_dead false hr fun s hs => hl ⟨s, hs⟩, ?_⟩
    rw [if_neg (by decide)]
    exact staleRecords_bare r.anchor (r.items c)

/-- With `cancelable` a trace that is live has nothing reported in a round that does not commit it. -/
private theorem reportsEarly_cancelable (rounds : List Round) :
    ReportsEarly { cancelable := true } rounds ↔ ∀ (c : CollectId) (s k : Nat) (r : Round), rounds[k]? = some r →
      LiveFrom c rounds s k → r.BringsSpan c → r.commits c := by
  constructor
  · intro h c s k r hr hl hspan
    by_contra hc
    obtain ⟨recs, hrecs, hsub⟩ := h c s k r hr hl
    rw [reportedFor_live true hr hl, if_neg (by simp [hc])] at hrecs
    cases hrecs
    rw [List.map_nil, List.sublist_nil, List.map_eq_nil_iff, heads_eq_nil_iff] at hsub
    exact hsub hspan
  · intro h c s k r hr hl
    refine ⟨_, reportedFor_live true hr hl, ?_⟩
    by_cases hc : r.commits c
    · have hsplit : timed r.anchor ((openState true c (between rounds s k)).items ++ r.items c) =
          timed r.anchor (openState true c (between rounds s k)).items ++ timed r.anchor (r.items c) :=
        List.map_append
      simp only [if_pos (Or.inl hc), TraceState.pass, recordsOf_bare, TraceState.receive]
      rw [hsplit, heads_append, List.map_append]
      exact List.sublist_append_right _ _
    · have hspan : heads (timed r.anchor (r.items c)) = [] := heads_eq_nil_iff.2 fun hb => hc (h c s k r hr hl hb)
      rw [hspan]
      exact List.nil_sublist _

private theorem holdsUntilCommit_not_cancelable (rounds : List Round) :
    HoldsUntilCommit { cancelable := false } rounds ↔ ∀ (c : CollectId) (k : Nat) (r : Round), rounds[k]? = some r →
      r.BringsSpan c → ¬Uncommitted c rounds k := by
  have hreported : ∀ (c : CollectId) (k : Nat) (r : Round), rounds[k]? = some r →
      ((reportedFor false c rounds)[k]? = some [] ↔ ¬r.BringsSpan c) := by
    intro c k r hr
    obtain ⟨recs, hrecs, hbare⟩ := reportedFor_bare (c := c) hr
    rw [hrecs, Option.some_inj, ← heads_eq_nil_iff, ← List.map_eq_nil_iff (f := SpanRecord.bare), hbare,
      List.map_eq_nil_iff]
  constructor
  · intro h c k r hr hspan hopen
    exact (hreported c k r hr).1 (h c k (List.getElem?_eq_some_iff.1 hr).1 hopen) hspan
  · intro h c k hk hopen
    have hr : rounds[k]? = some rounds[k] := List.getElem?_eq_getElem hk
    exact (hreported c k _ hr).2 fun hspan => h c k _ hr hspan hopen

/-- The option keeps its promise: with `true`, exactly when every round that brings a span of a live trace also
commits the trace; with `false`, exactly when no round brings a span of a trace that is started and uncommitted. -/
theorem report_before_root_finish_iff (rounds : List Round) :
    (ReportsEarly (Config.default.reportBeforeRootFinish true) rounds ↔
        ∀ (c : CollectId) (s k : Nat) (r : Round), rounds[k]? = some r → LiveFrom c rounds s k → r.BringsSpan c →
          r.commits c) ∧
      (HoldsUntilCommit (Config.default.reportBeforeRootFinish false) rounds ↔
        ∀ (c : CollectId) (k : Nat) (r : Round), rounds[k]? = some r → r.BringsSpan c → ¬Uncommitted c rounds k) :=
  ⟨reportsEarly_cancelable rounds, holdsUntilCommit_not_cancelable rounds⟩

/-- The root of trace `3` is still open when its child arrives. -/
def openRounds : List Round := [
  ⟨[.startCollect 3, .submitSpans ⟨.span childSpan, [⟨⟨1⟩, ⟨5⟩, 3, false, true⟩]⟩], fun i => i.ticks, .stored⟩,
  ⟨[.commitCollect 3], fun i => i.ticks, .stored⟩]

/-- With `true` the child waits for the commit, with `false` it does not. -/
theorem report_before_root_finish_inverted :
    ¬ReportsEarly (Config.default.reportBeforeRootFinish true) openRounds ∧
      ¬HoldsUntilCommit (Config.default.reportBeforeRootFinish false) openRounds ∧
      ((GlobalCollector.start (Config.default.reportBeforeRootFinish true)).handleRounds openRounds).reported =
        [[], [⟨⟨1⟩, ⟨7⟩, ⟨5⟩, 10, 20, "child", [], []⟩]] ∧
      ((GlobalCollector.start (Config.default.reportBeforeRootFinish false)).handleRounds openRounds).reported =
        [[⟨⟨1⟩, ⟨7⟩, ⟨5⟩, 10, 20, "child", [], []⟩], []] := by
  have hlive : LiveFrom 3 openRounds 0 0 := (liveFrom_iff rfl).2 ⟨by decide, Or.inl ⟨by decide, rfl⟩⟩
  have hopen : Uncommitted 3 openRounds 0 := by
    refine ⟨0, le_refl 0, ⟨_, rfl, by decide⟩, fun j r _ hj hr => ?_⟩
    obtain rfl : j = 0 := by omega
    cases hr
    decide
  refine ⟨fun h => ?_, fun h => ?_, by decide, by decide⟩
  · obtain ⟨recs, hrecs, hsub⟩ := h 3 0 0 _ rfl hlive
    have hnone : (reportedFor true 3 openRounds)[0]? = some [] := by decide
    rw [show (Config.default.reportBeforeRootFinish true).cancelable = true from rfl, hnone] at hrecs
    cases hrecs
    exact absurd hsub (by decide)
  · exact absurd (h 3 0 (by decide) hopen) (by decide)

end Fastrace
