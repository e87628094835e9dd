import Fastrace.Copies

/-!
# Attachments of a span that outlives its trace

`Span::add_event` and `Span::add_properties` submit the attachment by itself, before the span.  While the collector
of the trace lives, the attachment waits there for the span.  After the commit (or without a start) there is no
collector: every submission is post-processed alone, so an attachment is dropped and its span reported without it;
an attachment that waited in a collector goes with the collector.  And a span with several items in the trace has
several records, of which the first takes everything.  So a span carries its attachments exactly when it has one item
in the trace and they have all been received by the collector that is live when the span arrives
(`record_carries_attachments`).
-/

namespace Fastrace

/-- Round `j` brings an event or a property for the span `x`. -/
def ArrivesIn (x : SpanId) (rounds : List Round) (j : Nat) : Prop :=
  ∃ r, rounds[j]? = some r ∧ ∃ a ∈ attachmentsOf x r.commands, a.Attaches

/-! ### The records of a span -/

section Records

variable {raw : RawSpan} {token : CollectToken} {c : CollectId} {rounds : List Round} {k : Nat} {r : Round}

/-- An item without the span has no key of the span. -/
private theorem keys_eq_nil {i : Item} {x : SpanId} (hx : x ∉ i.spanIds) :
    i.keys.filter (·.spanId = x) = [] := by
  rw [List.filter_eq_nil_iff]
  intro key hkey hid
  obtain ⟨raw, hraw, rfl⟩ := List.mem_map.1 hkey
  rw [decide_eq_true_iff] at hid
  exact hx (List.mem_map.2 ⟨raw, hraw, hid⟩)

/-- The round of a span reports one record for each item of its token. -/
private theorem records_of_span (hco : Coherent (submitSpans (received rounds))) (hkind : raw.rawKind = .span)
    (hr : rounds[k]? = some r) (hspan : ⟨.span raw, token⟩ ∈ submitSpans r.commands) :
    ∃ recs, (reportedFor false c rounds)[k]? = some recs ∧
      (recs.filter (·.spanId = raw.id)).length = (token.filter (·.collectId = c)).length := by
  obtain ⟨recs, hrecs, hkeys⟩ := reportedFor_round_keys (c := c) hr
  refine ⟨recs, hrecs, ?_⟩
  have hsub : (submitSpans r.commands).Sublist (submitSpans (received rounds)) := by
    have hround : [r].Sublist rounds := List.singleton_sublist.2 (List.mem_of_getElem? hr)
    have hcmds := hround.flatMap (·.commands)
    rw [List.flatMap_singleton] at hcmds
    exact submitSpans_sublist hcmds
  have hitems := items_of_span (c := c) hkind (only_submission hco hsub hspan)
  have hlength : (recs.filter (·.spanId = raw.id)).length =
      ((recs.map SpanRecord.key).filter (·.spanId = raw.id)).length := by
    rw [List.filter_map, List.length_map]
    rfl
  rw [hlength, hkeys, List.filter_flatMap, Round.items, flatMap_filter_of_nil (p := fun i => raw.id ∈ i.spanIds)
    (fun i _ hx => keys_eq_nil (by simpa using hx)), hitems, List.flatMap_map]
  simp [Item.keys, itemOf, SpanSet.raws, hkind]

/-- That nothing attached to the span by round `k` adds anything, or all of it has arrived at the live collector, put
round by round. -/
private theorem arrives_iff {one : Prop} (x : SpanId) :
    ((∀ a ∈ attachmentsOf x (received (rounds.take (k + 1))), ¬a.Attaches) ∨
        one ∧ ArrivedBy c (rounds.take (k + 1)) x k) ↔
      ∀ j ≤ k, ArrivesIn x rounds j → one ∧ ∃ s ≤ j, LiveFrom c rounds s k := by
  have hget : ∀ j ≤ k, (rounds.take (k + 1))[j]? = rounds[j]? := fun j hj =>
    List.getElem?_take_of_lt (Nat.lt_succ_of_le hj)
  constructor
  · rintro (hnone | ⟨hone, s, hl, harrived⟩) j hj ⟨r, hr, a, ha, hattaches⟩
    · refine absurd hattaches (hnone a ?_)
      rw [attachmentsOf_received]
      exact List.mem_flatMap.2 ⟨r, List.mem_of_getElem? ((hget j hj).trans hr), ha⟩
    · exact ⟨hone, s, (harrived j r ((hget j hj).trans hr) ⟨a, ha, hattaches⟩).1, liveFrom_take.1 hl⟩
  · intro h
    by_cases hnone : ∀ a ∈ attachmentsOf x (received (rounds.take (k + 1))), ¬a.Attaches
    · exact Or.inl hnone
    -- some round brings something, so the collector is live, and it is the same for all rounds
    have harrives : ∀ (j : Nat) (r : Round), (rounds.take (k + 1))[j]? = some r →
        (∃ a ∈ attachmentsOf x r.commands, a.Attaches) → j ≤ k ∧ ArrivesIn x rounds j := by
      intro j r hr ha
      have hj : j ≤ k := by
        have hlt := (List.getElem?_eq_some_iff.1 hr).1
        rw [List.length_take] at hlt
        omega
      exact ⟨hj, r, (hget j hj).symm.trans hr, ha⟩
    push Not at hnone
    obtain ⟨a, ha, hattaches⟩ := hnone
    rw [attachmentsOf_received] at ha
    obtain ⟨r, hr, ha⟩ := List.mem_flatMap.1 ha
    obtain ⟨j, hj⟩ := List.mem_iff_getElem?.1 hr
    obtain ⟨hle, hin⟩ := harrives j r hj ⟨a, ha, hattaches⟩
    obtain ⟨hone, s, -, hl⟩ := h j hle hin
    refine Or.inr ⟨hone, s, liveFrom_take.2 hl, fun j' r' hr' ha' => ?_⟩
    obtain ⟨hle', hin'⟩ := harrives j' r' hr' ha'
    obtain ⟨-, s', hs', hl'⟩ := h j' hle' hin'
    exact ⟨hl.unique hl' ▸ hs', hle'⟩

end Records

/-- Without `cancelable`, for what a program with fresh ids has submitted: the round of a span reports one record of
the span for each item of its token in the trace, and these records carry all that has been attached to the span so
far, each exactly once, if and only if every round that brought something for the span came no earlier than the start
of the collector that is live in the round of the span, and the token has one item in the trace. -/
theorem record_carries_attachments {T : Type} [DecidableEq T] (as : List (T × Op)) (hfresh : FreshIds as)
    (w : World T) (hrun : Steps.run World.step World.init as = some w) (rounds : List Round)
    (hreceived : (received rounds).Subperm w.commands) (c : CollectId) (k : Nat) (r : Round)
    (hr : rounds[k]? = some r) (raw : RawSpan) (token : CollectToken) (hkind : raw.rawKind = .span)
    (hspan : ⟨.span raw, token⟩ ∈ submitSpans r.commands) (hitem : ∃ item ∈ token, item.collectId = c) :
    ∃ recs, (reportedFor false c rounds)[k]? = some recs ∧
      (recs.filter (·.spanId = raw.id)).length = (token.filter (·.collectId = c)).length ∧
      ((∀ rec ∈ recs, rec.spanId = raw.id →
          Carries rec raw (attachmentsOf raw.id (received (rounds.take (k + 1))))) ↔
        ∀ j ≤ k, ArrivesIn raw.id rounds j →
          (token.filter (·.collectId = c)).length = 1 ∧ ∃ s ≤ j, LiveFrom c rounds s k) := by
  have hpart : (received (rounds.take (k + 1))).Subperm w.commands :=
    ((List.take_sublist _ _).flatMap _).subperm.trans hreceived
  have hco : Coherent (submitSpans (received rounds)) :=
    (coherent_of_run hfresh hrun).subperm (subperm_submitSpans hreceived)
  have hco' : Coherent (submitSpans (received (rounds.take (k + 1)))) :=
    (coherent_of_run hfresh hrun).subperm (subperm_submitSpans hpart)
  have hr' : (rounds.take (k + 1))[k]? = some r := (List.getElem?_take_of_lt (Nat.lt_succ_self k)).trans hr
  obtain ⟨recs, hrecs, hlength⟩ := records_of_span (c := c) hco hkind hr hspan
  have hne : ∃ rec ∈ recs, rec.spanId = raw.id := by
    obtain ⟨item, hmem, hc⟩ := hitem
    have hpos : 0 < (recs.filter (·.spanId = raw.id)).length :=
      hlength ▸ List.length_pos_of_mem (List.mem_filter.2 ⟨hmem, by simpa using hc⟩)
    obtain ⟨rec, hrec⟩ := List.exists_mem_of_length_pos hpos
    rw [List.mem_filter, decide_eq_true_iff] at hrec
    exact ⟨rec, hrec⟩
  refine ⟨recs, hrecs, hlength, ?_⟩
  rw [span_carries_iff hco' (mem_submitSpans_received (List.mem_of_getElem? hr') hspan) hkind hr'
    ((reportedFor_take false c rounds k).trans hrecs) hne, arrives_iff]

/-! ### A span that outlives its root -/

/-- The root is dropped and so committed; then its child gets an event and is dropped. -/
def lateProgram : List (Unit × Op) := [
  ((), .setReporter),
  ((), .root 0 "root" ⟨⟨1⟩, ⟨9⟩, true⟩ ⟨1⟩ ⟨10⟩),
  ((), .enterWithParent 1 "child" 0 ⟨2⟩ ⟨11⟩),
  ((), .dropSpan 0 ⟨12⟩),
  ((), .addEvent 1 ⟨"event", none⟩ ⟨3⟩ ⟨13⟩),
  ((), .dropSpan 1 ⟨14⟩)]

def rawLate : RawSpan := ⟨⟨2⟩, default, ⟨11⟩, "child", none, .span, ⟨14⟩⟩

/-- The first call of `handle_commands` takes what has been sent when the root has been dropped. -/
def lateRounds : List Round := [
  ⟨(afterProgram lateProgram).commands.take 3, fun i => i.ticks, .stored⟩,
  ⟨(afterProgram lateProgram).commands.drop 3, fun i => i.ticks, .stored⟩]

theorem record_carries_attachments_late :
    ∃ recs, (reportedFor false 0 (oneRound lateProgram))[0]? = some recs ∧ ∀ rec ∈ recs, rec.spanId = ⟨2⟩ →
      Carries rec rawLate (attachmentsOf ⟨2⟩ (received (oneRound lateProgram))) := by
  have hlive : LiveFrom 0 (oneRound lateProgram) 0 0 := (liveFrom_iff rfl).2 ⟨by decide, Or.inl ⟨by decide, rfl⟩⟩
  obtain ⟨recs, hrecs, -, hcarries⟩ := record_carries_attachments lateProgram ⟨by decide, by decide⟩
    (afterProgram lateProgram) rfl (oneRound lateProgram) (by rw [oneRound, received, List.flatMap_singleton]) 0 0 _
    rfl rawLate [⟨⟨1⟩, ⟨1⟩, 0, false, true⟩] rfl (by decide) (by decide)
  exact ⟨recs, hrecs, hcarries.2 fun j _ _ => ⟨rfl, 0, Nat.zero_le j, hlive⟩⟩

/-- The event arrives with its span, right before it, and gets lost. -/
theorem late_event_lost :
    FreshIds lateProgram ∧ Steps.run World.step World.init lateProgram = some (afterProgram lateProgram) ∧
      received lateRounds = (afterProgram lateProgram).commands ∧
      (attachmentsOf ⟨2⟩ (received lateRounds)).map (fun a => (a.name, a.rawKind)) = [("event", .event)] ∧
      ((GlobalCollector.start { cancelable := false }).handleRounds lateRounds).reported =
        [[⟨⟨1⟩, ⟨1⟩, ⟨9⟩, 10, 2, "root", [], []⟩], [⟨⟨1⟩, ⟨2⟩, ⟨1⟩, 11, 3, "child", [], []⟩]] ∧
      ∃ recs, (reportedFor false 0 lateRounds)[1]? = some recs ∧ ¬∀ rec ∈ recs, rec.spanId = ⟨2⟩ →
        Carries rec rawLate (attachmentsOf ⟨2⟩ (received lateRounds)) := by
  refine ⟨⟨by decide, by decide⟩, rfl, rfl, by decide, by decide, _, rfl, fun h => ?_⟩
  have hrecord := (h _ (List.mem_cons_self ..) rfl).size
  exact absurd hrecord (by decide)

end Fastrace
