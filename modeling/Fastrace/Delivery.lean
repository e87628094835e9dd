import Fastrace.Attribution

/-!
# Exactly-once reporting

Without `cancelable` a call leaves no span behind: the span collections of every active collector are empty between
calls (`traceFinal_items`), so a start that overwrites a collector, or a drop, loses attachments at most.  Hence
every call reports the spans it has received, each once for each item of its token, by whichever route an item goes.
-/

namespace Fastrace

/-- The records a round calls for: one for each submission, token item and raw span of kind `Span`. -/
def expectedRecords (round : Round) : List SpanRecord :=
  (submitSpans round.commands).flatMap fun cmd =>
    cmd.collectToken.flatMap fun item => (itemOf cmd.spans item).heads round.anchor

/-- The same with the collect id of the item. -/
private def expectedOwned (round : Round) : List (CollectId × SpanRecord) :=
  (submitSpans round.commands).flatMap fun cmd =>
    cmd.collectToken.flatMap fun item =>
      ((itemOf cmd.spans item).heads round.anchor).map fun r => (item.collectId, r)

/-! ### Two attributed lists with the same entries of every trace -/

theorem count_ownedBy {α : Type} [DecidableEq α] (l : List (CollectId × α)) (c : CollectId) (a : α) :
    l.count (c, a) = (ownedBy c l).count a := by
  induction l with
  | nil => rfl
  | cons p l ih =>
    obtain ⟨c', a'⟩ := p
    rw [List.count_cons, ih]
    by_cases hc : c' = c
    · subst hc
      by_cases ha : a' = a <;> simp [ownedBy, ha]
    · simp [ownedBy, hc]

theorem perm_of_ownedBy {α : Type} [DecidableEq α] {l l' : List (CollectId × α)}
    (h : ∀ c, ownedBy c l = ownedBy c l') : l.Perm l' := by
  rw [List.perm_iff_count]
  intro p
  rw [count_ownedBy, count_ownedBy, h]

theorem ownedBy_map_snd {α β : Type} (f : α → β) (l : List (CollectId × α)) (c : CollectId) :
    ownedBy c (l.map fun p => (p.1, f p.2)) = (ownedBy c l).map f := by
  simp [ownedBy, List.filter_map, Function.comp_def]

private theorem ownedBy_expectedOwned (round : Round) (c : CollectId) :
    ownedBy c (expectedOwned round) = heads (timed round.anchor (round.items c)) := by
  unfold expectedOwned Round.items
  rw [itemsFor_eq, ownedBy_flatMap, heads, timed, List.flatMap_map, List.flatMap_assoc]
  congr 1
  funext cmd
  rw [ownedBy_flatMap]
  induction cmd.collectToken with
  | nil => rfl
  | cons item token ih =>
    rw [List.flatMap_cons, ih, ownedBy_map]
    by_cases h : item.collectId = c <;> simp [h]

/-! ### The invariant between calls -/

/-- Without `cancelable` a call leaves no span collections in the collector. -/
theorem traceStep_items {c : CollectId} {st : Option TraceState} {round : Round} {t : TraceState}
    (h : (traceStep false c st round).1 = some t) : t.items = [] := by
  unfold traceStep at h
  split at h
  · cases h
  · split at h
    · cases h
    · simp only [Bool.false_eq_true, ↓reduceIte, Option.some.injEq] at h
      rw [← h]

/-- Stale spans are reported as any others, up to attachments. -/
theorem staleRecords_bare (anchor : Anchor) (items : List Item) :
    (staleRecords anchor items).map SpanRecord.bare = (heads (timed anchor items)).map SpanRecord.bare := by
  unfold staleRecords heads timed
  rw [List.map_flatMap, List.flatMap_map, List.map_flatMap]
  congr 1
  funext i
  rw [recordsOf_bare]
  simp [heads]

/-- Up to attachments a call reports for `c` the spans it has received for `c`. -/
theorem traceStep_bare {c : CollectId} {st : Option TraceState} (hst : ∀ t, st = some t → t.items = [])
    (round : Round) :
    ((traceStep false c st round).2).map SpanRecord.bare =
      (heads (timed round.anchor (round.items c))).map SpanRecord.bare := by
  have hent : ∀ t, entered c st round = some t → t.items = round.items c := by
    intro t ht
    obtain ⟨-, ⟨-, rfl⟩ | ⟨-, t', ht', rfl⟩⟩ := entered_eq_some.1 ht
    · rfl
    · simp [TraceState.receive, hst t' ht']
  unfold traceStep
  cases h : entered c st round with
  | none => exact staleRecords_bare round.anchor (round.items c)
  | some t =>
    have hpass : (t.pass round.anchor).map SpanRecord.bare =
        (heads (timed round.anchor (round.items c))).map SpanRecord.bare := by
      rw [TraceState.pass, recordsOf_bare, hent t h]
    by_cases hc : round.commits c <;> simpa [hc] using hpass

private theorem attributed_perm {active : ActiveCollectors} (hact : ∀ c t, (active.get? c).map
    ActiveCollector.trace = some t → t.items = []) (round : Round) :
    ((attributed false active round).map fun p => (p.1, p.2.bare)).Perm
      ((expectedOwned round).map fun p => (p.1, p.2.bare)) := by
  apply perm_of_ownedBy
  intro c
  rw [ownedBy_map_snd, ownedBy_map_snd, ownedBy_expectedOwned, attributed_ownedBy]
  exact traceStep_bare (hact c) round

private theorem attributedRun_perm {active : ActiveCollectors} (hact : ∀ c t, (active.get? c).map
    ActiveCollector.trace = some t → t.items = []) (rounds : List Round) :
    List.Forall₂ (fun round recs =>
        (recs.map SpanRecord.bare).Perm ((expectedRecords round).map SpanRecord.bare))
      rounds ((attributedRun false active rounds).map (List.map (·.2))) := by
  induction rounds generalizing active with
  | nil => exact List.Forall₂.nil
  | cons round rounds ih =>
    refine List.Forall₂.cons ?_ (ih ?_)
    · have h := (attributed_perm hact round).map (·.2)
      rw [List.map_map, List.map_map] at h
      rw [List.map_map]
      refine h.trans (List.Perm.of_eq ?_)
      simp [expectedOwned, expectedRecords, List.map_flatMap, Function.comp_def]
    · intro c t ht
      rw [collectRound_get?] at ht
      exact traceStep_items ht

/-- Exactly-once reporting: in every run of calls without `cancelable`, each call passes to the reporter, up to
their attachments, exactly the records its submissions call for, one for each token item and raw span. -/
theorem submissions_reported_once (rounds : List Round) :
    List.Forall₂ (fun round recs =>
        (recs.map SpanRecord.bare).Perm ((expectedRecords round).map SpanRecord.bare))
      rounds ((GlobalCollector.start { cancelable := false }).handleRounds rounds).reported := by
  rw [handleRounds_reported]
  apply attributedRun_perm
  intro c t h
  simp at h

end Fastrace
