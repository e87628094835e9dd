import Fastrace.Replicas

/-!
# Joins

The keys of what a program submits are all different as long as no span with two items in one trace becomes the
parent of a span or of a local span (`ParentsDistinct`).  A join of two spans of one trace is the span whose token has
two items in that trace.
-/

namespace Fastrace

variable {T : Type}

/-- The token of the span in a variable. -/
def View.spanToken (v : View T) (h : Var) : CollectToken := ((v.inner h).map SpanInner.collectToken).getD []

/-- The token of the local parent of a thread. -/
def View.lineToken (v : View T) (t : T) : CollectToken :=
  ((v.spanStack t).spanLines.head?.bind SpanLine.collectToken).getD []

/-- The spans, or the local parent, that the call uses as a parent name every trace once. -/
def ParentsDistinct (v : View T) (a : T × Op) : Prop :=
  (∀ h ∈ a.2.parents, DistinctTraces (v.spanToken h)) ∧ (a.2.usesLine → DistinctTraces (v.lineToken a.1))

instance (v : View T) (a : T × Op) : Decidable (ParentsDistinct v a) := inferInstanceAs (Decidable (_ ∧ _))

/-- A line with a span has a token that names every trace once. -/
def DistinctLine (line : SpanLine) : Prop :=
  ∀ token, line.collectToken = some token → (∃ raw ∈ line.spanQueue.spanQueue, raw.rawKind = .span) →
    DistinctTraces token

/-- What keeps the keys apart. -/
structure Distinct (v : View T) : Prop where
  span : ∀ h s, v.inner h = some s → DistinctEdges s.collectToken
  line : ∀ t, ∀ line ∈ (v.spanStack t).spanLines, DistinctLine line
  submitted : ∀ cmd ∈ v.submitted, cmd.keys.Nodup ∧ ∀ localSpans, cmd.spans ≠ .sharedLocalSpans localSpans

section Step

variable [DecidableEq T] {drawn : List SpanId} {v v' : View T} {a : T × Op}

omit [DecidableEq T] in
private theorem View.spanToken_eq {h : Var} {s : SpanInner} (hs : v.inner h = some s) :
    v.spanToken h = s.collectToken := by
  simp [View.spanToken, hs]

omit [DecidableEq T] in
private theorem View.lineToken_eq {t : T} {line : SpanLine} {lines : List SpanLine} {token : CollectToken}
    (hlines : (v.spanStack t).spanLines = line :: lines) (htoken : line.collectToken = some token) :
    v.lineToken t = token := by
  simp [View.lineToken, hlines, htoken]

omit [DecidableEq T] in
/-- Distinct variables hold spans with distinct ids. -/
private theorem parents_ids_nodup (ho : Owned drawn v) {hs : List Var} (hnodup : hs.Nodup) :
    ((hs.filterMap v.inner).map (·.rawSpan.id)).Nodup := by
  rw [List.map_filterMap]
  refine hnodup.filterMap fun h h' x hx hx' => ?_
  have hmem : ∀ h'' : Var, x ∈ (v.inner h'').map (·.rawSpan.id) → x ∈ v.holds (.span h'') := by
    intro h'' hx
    obtain ⟨s, hs, rfl⟩ := Option.map_eq_some_iff.1 hx
    simp [View.holds, hs]
  have howner := ho.exclusive.owner (.span h) (.span h') x (hmem h hx) (hmem h' hx')
  cases howner
  rfl

omit [DecidableEq T] in
/-- The token of a new span names no trace twice with one parent. -/
private theorem born_edges (ho : Owned drawn v) (hparents : a.2.parents.Nodup) (hcond : ParentsDistinct v a)
    {token : CollectToken} (hfrom : TokenFrom v a token) : DistinctEdges token := by
  cases hfrom with
  | root hop parent collectId => exact List.nodup_singleton _
  | parents =>
    refine issue_distinctEdges (parents_ids_nodup ho hparents) fun s hs => ?_
    obtain ⟨h, hh, hs⟩ := List.mem_filterMap.1 hs
    have htoken := hcond.1 h hh
    rwa [View.spanToken_eq hs] at htoken
  | @line line lines token huses hlines htoken =>
    obtain ⟨token', htoken', rfl⟩ := Option.map_eq_some_iff.1 htoken
    have htraces := hcond.2 huses
    rw [View.lineToken_eq hlines htoken'] at htraces
    refine DistinctTraces.edges ?_
    unfold DistinctTraces
    rw [List.map_map]
    exact htraces

omit [DecidableEq T] in
private theorem line_recorded (h : Distinct v) (hcond : ParentsDistinct v a) {label : Option (SpanId × RawKind)}
    {stack : LocalSpanStack} (htop : (v.spanStack a.1).TopChange label stack)
    (hlabel : ∀ x k, label = some (x, k) → a.2.id? = some x ∧ (k = .span → a.2.usesLine)) :
    ∀ line ∈ stack.spanLines, DistinctLine line := by
  obtain ⟨line, lines, line', hlines, hchange, rfl⟩ := htop
  intro l hl token htoken ⟨raw, hraw, hkind⟩
  have hold : ∀ l ∈ line :: lines, DistinctLine l := hlines ▸ h.line a.1
  rcases List.mem_cons.1 hl with rfl | hl
  · rw [hchange.collectToken] at htoken
    rcases hchange.spans hraw with ⟨raw', hraw', -, hkind'⟩ | hnew
    · exact hold line (List.mem_cons_self ..) token htoken ⟨raw', hraw', hkind'.trans hkind⟩
    · have huses := (hlabel _ _ hnew).2 hkind
      have htraces := hcond.2 huses
      rwa [View.lineToken_eq hlines htoken] at htraces
  · exact hold l (List.mem_cons_of_mem _ hl) token htoken ⟨raw, hraw, hkind⟩

omit [DecidableEq T] in
private theorem line_lost (h : Distinct v) {stack : LocalSpanStack} (hlost : Lost (v.spanStack a.1) stack) :
    ∀ line ∈ stack.spanLines, DistinctLine line := by
  intro line hline
  apply h.line a.1 line
  rcases hlost with hl | ⟨top, hl⟩
  · rwa [← hl]
  · rw [hl]
    exact List.mem_cons_of_mem _ hline

omit [DecidableEq T] in
private theorem distinct_append (h : Distinct v) {spans : SpanSet} {token : CollectToken}
    (hkeys : (SubmitSpans.keys ⟨spans, retainSampled token⟩).Nodup)
    (hshared : ∀ localSpans, spans ≠ .sharedLocalSpans localSpans) :
    ∀ cmd ∈ v.submitted ++ submission spans token,
      cmd.keys.Nodup ∧ ∀ localSpans, cmd.spans ≠ .sharedLocalSpans localSpans := by
  intro cmd hcmd
  rcases List.mem_append.1 hcmd with hold | hnew
  · exact h.submitted cmd hold
  · rw [mem_submission hnew]
    exact ⟨hkeys, hshared⟩

omit [DecidableEq T] in
/-- The entries of the top line are distinct. -/
private theorem top_ids_nodup (ho : Owned drawn v) {stack : LocalSpanStack} {line : SpanLine}
    (hlines : (v.spanStack a.1).spanLines = line :: stack.spanLines) (now : Instant) :
    (LocalSpansInner.ids ⟨line.spanQueue.spanQueue, now⟩).Nodup := by
  have hnodup := ho.exclusive.nodup (.stack a.1)
  change ((v.spanStack a.1).ids).Nodup at hnodup
  rw [ids_of_pop hlines] at hnodup
  exact List.Nodup.of_append_left hnodup

theorem Distinct.step (ho : Owned drawn v) (h : Distinct v) (heffect : Effect v a v') (hpushes : a.2.pushes = false)
    (hparents : a.2.parents.Nodup) (hcond : ParentsDistinct v a) : Distinct v' := by
  have hspan : ∀ (h' : Var) (s : Option SpanInner), (∀ s', s = some s' → DistinctEdges s'.collectToken) →
      ∀ h'' s', Function.update v.inner h' s h'' = some s' → DistinctEdges s'.collectToken := fun h' s hs =>
    update_forall (P := fun s : Option SpanInner => ∀ s', s = some s' → DistinctEdges s'.collectToken) h.span h' hs
  have hline : ∀ stack : LocalSpanStack, (∀ line ∈ stack.spanLines, DistinctLine line) →
      ∀ t, ∀ line ∈ (Function.update v.spanStack a.1 stack t).spanLines, DistinctLine line := fun stack hstack =>
    update_forall (P := fun stack : LocalSpanStack => ∀ line ∈ stack.spanLines, DistinctLine line) h.line a.1 hstack
  cases heffect with
  | quiet => exact h
  | @born h' s hfree hid hkind hfrom =>
    refine ⟨hspan h' _ fun s' hs' => ?_, h.line, h.submitted⟩
    cases hs'
    exact born_edges ho hparents hcond hfrom
  | @amended h' s s' hs hsame =>
    refine ⟨hspan h' _ fun s'' hs'' => ?_, h.line, h.submitted⟩
    cases hs''
    rw [hsame.token_eq]
    exact h.span h' s hs
  | @dropped h' s s' hs hsame =>
    refine ⟨hspan h' _ (fun s'' hs'' => by cases hs''), h.line, distinct_append h ?_ fun _ => by simp⟩
    exact span_keys_nodup (h.span h' s hs).retain
  | @attached h' s raw hs hid hkind =>
    refine ⟨h.span, h.line, distinct_append h ?_ fun _ => by simp⟩
    have hnil : ∀ token, SubmitSpans.keys ⟨.span raw, token⟩ = [] := by
      intro token
      simp [SubmitSpans.keys, Item.keys, itemOf, SpanSet.raws, hkind]
    rw [hnil]
    exact List.nodup_nil
  | pushed hop => rw [hop] at hpushes; cases hpushes
  | recorded htop hlabel => exact ⟨h.span, hline _ (line_recorded h hcond htop hlabel), h.submitted⟩
  | @registered capacity epoch token stack hlines htoken =>
    refine ⟨h.span, hline _ fun line hl token' htoken' hraw => ?_, h.submitted⟩
    rw [hlines] at hl
    rcases List.mem_cons.1 hl with rfl | hl
    · obtain ⟨raw, hraw, -⟩ := hraw
      cases hraw
    · exact h.line a.1 line hl token' htoken' hraw
  | lost hlost => exact ⟨h.span, hline _ (line_lost h hlost), h.submitted⟩
  | collectedNone hlost hfree => exact ⟨h.span, hline _ (line_lost h hlost), h.submitted⟩
  | collected hlines hfree => exact ⟨h.span, hline _ (line_lost h (Or.inr ⟨_, hlines⟩)), h.submitted⟩
  | @closed now line token stack hlines htoken =>
    refine ⟨h.span, hline _ (line_lost h (Or.inr ⟨_, hlines⟩)), distinct_append h ?_ fun _ => by simp⟩
    refine localSpans_keys_nodup (top_ids_nodup ho hlines now) fun hraw => DistinctTraces.retain ?_
    exact h.line a.1 line (by rw [hlines]; exact List.mem_cons_self ..) token htoken hraw

end Step

private theorem Distinct.init [DecidableEq T] : Distinct (World.init : World T).view where
  span h s hs := by cases hs
  line t line hline := by cases hline
  submitted cmd hcmd := by cases hcmd

/-- No two keys of all that has been submitted are the same. -/
private theorem Distinct.keys_nodup {drawn : List SpanId} {v : View T} (ho : Owned drawn v) (h : Distinct v) :
    (v.submitted.flatMap SubmitSpans.keys).Nodup := by
  have hids := ho.exclusive.nodup .submitted
  change (v.submitted.flatMap SubmitSpans.ownIds).Nodup at hids
  rw [List.nodup_flatMap] at hids ⊢
  refine ⟨fun cmd hcmd => (h.submitted cmd hcmd).1, ?_⟩
  refine hids.2.imp_of_mem fun {cmd cmd'} hcmd hcmd' hdisjoint k hk hk' => ?_
  exact hdisjoint (keys_ownIds (h.submitted cmd hcmd).2 hk) (keys_ownIds (h.submitted cmd' hcmd').2 hk')

/-- In a program with fresh ids that calls `enter_with_parents` with distinct parents, does not push local spans and
never makes a span with two items in one trace the parent of another: whatever part of the commands sent has been
received, and in whatever rounds, no two of the records reported have the same trace, span and parent. -/
theorem no_duplicate_records [DecidableEq T] (as : List (T × Op)) (hfresh : FreshIds as)
    (hcalls : ∀ a ∈ as, a.2.pushes = false ∧ a.2.parents.Nodup)
    (hmeet : Steps.Meet World.step (fun w a => ParentsDistinct w.view a) World.init as) (w : World T)
    (hrun : Steps.run World.step World.init as = some w) (cancelable : Bool) (rounds : List Round)
    (hreceived : (received rounds).Subperm w.commands) :
    (((GlobalCollector.start { cancelable := cancelable }).handleRounds rounds).reported.flatten.map
      SpanRecord.key).Nodup := by
  have hmeet' : Steps.Meet World.step (fun (w : World T) a => ParentsDistinct w.view a ∧ a.2.pushes = false ∧
      a.2.parents.Nodup) World.init as := hmeet.and_mem hcalls
  have hstep : ∀ (drawn : List SpanId) (w : World T) (a : T × Op) (w' : World T),
      Owned drawn w.view ∧ Distinct w.view →
      ParentsDistinct w.view a ∧ a.2.pushes = false ∧ a.2.parents.Nodup →
      (∀ x, a.2.id? = some x → x ∉ drawn ∧ x ≠ default) → w.step a = some w' →
      Owned (drawn ++ a.2.id?.toList) w'.view ∧ Distinct w'.view := by
    rintro drawn w a w' ⟨howned, hdistinct⟩ ⟨hcond, hpushes, hparents⟩ hx hw
    have heffect := step_effect hw
    exact ⟨howned.step heffect fun x hx' => (hx x hx').1, hdistinct.step howned heffect hpushes hparents hcond⟩
  obtain ⟨howned, hdistinct⟩ := fresh_induction (P := fun drawn v => Owned drawn v ∧ Distinct v) hstep
    ⟨Owned.init, Distinct.init⟩ hfresh.nodup hfresh.nonzero hmeet' hrun
  have hsub := subperm_flatMap (subperm_submitSpans hreceived) SubmitSpans.keys
  exact Exclusive.nodup_of_subperm ((reported_keys cancelable rounds).trans hsub) (hdistinct.keys_nodup howned)

/-! ### A join and its child -/

/-- A root, its child, and a join of the two. -/
def joinProgram : List (Unit × Op) := [
  ((), .setReporter),
  ((), .root 0 "root" ⟨⟨1⟩, ⟨9⟩, true⟩ ⟨1⟩ ⟨10⟩),
  ((), .enterWithParent 1 "child" 0 ⟨2⟩ ⟨11⟩),
  ((), .enterWithParents 2 "join" [0, 1] ⟨3⟩ ⟨12⟩)]

def joinDrops : List (Unit × Op) := [
  ((), .dropSpan 2 ⟨20⟩),
  ((), .dropSpan 1 ⟨21⟩),
  ((), .dropSpan 0 ⟨22⟩)]

/-- The join gets a child of its own. -/
def joinChildProgram : List (Unit × Op) :=
  joinProgram ++ [((), .enterWithParent 3 "grandchild" 2 ⟨4⟩ ⟨13⟩), ((), .dropSpan 3 ⟨14⟩)] ++ joinDrops

def afterProgram (as : List (Unit × Op)) : World Unit := (Steps.run World.step World.init as).getD World.init

/-- All commands of a program in one round. -/
def oneRound (as : List (Unit × Op)) : List Round := [⟨(afterProgram as).commands, fun i => i.ticks, .stored⟩]

theorem no_duplicate_records_join :
    (((GlobalCollector.start { cancelable := false }).handleRounds
      (oneRound (joinProgram ++ joinDrops))).reported.flatten.map SpanRecord.key).Nodup :=
  no_duplicate_records (joinProgram ++ joinDrops) ⟨by decide, by decide⟩ (by decide) (by decide)
    (afterProgram (joinProgram ++ joinDrops)) rfl false _ (by rw [oneRound, received, List.flatMap_singleton])

/-- The grandchild is reported twice, both times in the only trace and with the join as its parent. -/
theorem child_of_join_reported_twice :
    FreshIds joinChildProgram ∧ (∀ a ∈ joinChildProgram, a.2.pushes = false ∧ a.2.parents.Nodup) ∧
      Steps.run World.step World.init joinChildProgram = some (afterProgram joinChildProgram) ∧
      received (oneRound joinChildProgram) = (afterProgram joinChildProgram).commands ∧
      ((GlobalCollector.start { cancelable := false }).handleRounds (oneRound joinChildProgram)).reported.flatten.map
          SpanRecord.key =
        [⟨⟨1⟩, ⟨4⟩, ⟨3⟩⟩, ⟨⟨1⟩, ⟨4⟩, ⟨3⟩⟩, ⟨⟨1⟩, ⟨3⟩, ⟨1⟩⟩, ⟨⟨1⟩, ⟨3⟩, ⟨2⟩⟩, ⟨⟨1⟩, ⟨2⟩, ⟨1⟩⟩, ⟨⟨1⟩, ⟨1⟩, ⟨9⟩⟩] ∧
      ¬(((GlobalCollector.start { cancelable := false }).handleRounds
        (oneRound joinChildProgram)).reported.flatten.map SpanRecord.key).Nodup :=
  ⟨⟨by decide, by decide⟩, by decide, rfl, rfl, by decide, by decide⟩

end Fastrace
