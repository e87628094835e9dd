import Fastrace.Ownership

/-!
# Tokens of spans and of their attachments

The token of a span does not change, and everything that is attached to the span travels with items made from that
token: its events and properties (`Span::add_event`, `Span::add_properties`), the local spans recorded under it and
the local spans pushed to it.  So an attachment of a span names each trace as often as the span itself does.

`tokenOf` gives the token of every span made so far, and `none` for the ids of local spans and of attachments.
`Issued tokenOf cmd` says that a submission has been made from these tokens; all submissions of a program are
(`Tokens.step`).
-/

namespace Fastrace

variable {T : Type} {tokenOf tokenOf' : SpanId → Option CollectToken} {drawn drawn' : List SpanId}

/-- The id of an entry of a queue: drawn, not zero and not the id of a span. -/
structure LocalId (tokenOf : SpanId → Option CollectToken) (drawn : List SpanId) (x : SpanId) : Prop where
  known : x ∈ drawn
  nonzero : x ≠ default
  token_eq_none : tokenOf x = none

/-- The entries of a queue; links point backwards. -/
structure LocalSet (tokenOf : SpanId → Option CollectToken) (drawn : List SpanId) (spans : List RawSpan) : Prop where
  back : SpanQueue.LinkedBack spans
  ids : ∀ raw ∈ spans, LocalId tokenOf drawn raw.id

inductive Issued (tokenOf : SpanId → Option CollectToken) (drawn : List SpanId) : SubmitSpans → Prop
  | span {raw : RawSpan} {token : CollectToken} (hkind : raw.rawKind = .span) (h : tokenOf raw.id = some token) :
      Issued tokenOf drawn ⟨.span raw, retainSampled token⟩
  | attachment {raw : RawSpan} {x : SpanId} {token : CollectToken} (hkind : raw.rawKind ≠ .span)
      (h : tokenOf x = some token) : Issued tokenOf drawn ⟨.span raw, retainSampled (issueToken x token)⟩
  | localSpans {spans : SpanSet} {localSpans : LocalSpansInner} {x : SpanId} {token : CollectToken}
      (hspans : spans = .localSpansInner localSpans ∨ spans = .sharedLocalSpans localSpans)
      (hset : LocalSet tokenOf drawn localSpans.spans) (h : tokenOf x = some token) :
      Issued tokenOf drawn ⟨spans, retainSampled (issueToken x token)⟩

/-- The token of a line was issued by a span. -/
def IssuedLine (tokenOf : SpanId → Option CollectToken) (line : SpanLine) : Prop :=
  ∀ token, line.collectToken = some token → ∃ x token', tokenOf x = some token' ∧ token = issueToken x token'

structure LineOk (tokenOf : SpanId → Option CollectToken) (drawn : List SpanId) (line : SpanLine) : Prop where
  issued : IssuedLine tokenOf line
  linked : line.spanQueue.Linked
  ids : ∀ raw ∈ line.spanQueue.spanQueue, LocalId tokenOf drawn raw.id

/-- `drawn` are the ids drawn so far. -/
structure Tokens (tokenOf : SpanId → Option CollectToken) (drawn : List SpanId) (v : View T) : Prop where
  known : ∀ x token, tokenOf x = some token → x ∈ drawn
  span : ∀ h s, v.inner h = some s → tokenOf s.rawSpan.id = some s.collectToken ∧ s.rawSpan.rawKind = .span
  line : ∀ t, ∀ line ∈ (v.spanStack t).spanLines, LineOk tokenOf drawn line
  collected : ∀ l localSpans, v.collected l = some localSpans → LocalSet tokenOf drawn localSpans.spans
  submitted : ∀ cmd ∈ v.submitted, Issued tokenOf drawn cmd

/-! ### Later tokens -/

/-- More ids have been drawn; the ones drawn before have kept their tokens. -/
structure Later (tokenOf : SpanId → Option CollectToken) (drawn : List SpanId)
    (tokenOf' : SpanId → Option CollectToken) (drawn' : List SpanId) : Prop where
  grown : drawn ⊆ drawn'
  same : ∀ x ∈ drawn, tokenOf' x = tokenOf x
  kept : ∀ x token, tokenOf x = some token → tokenOf' x = some token

private theorem LocalId.later (hl : Later tokenOf drawn tokenOf' drawn') {x : SpanId} (h : LocalId tokenOf drawn x) :
    LocalId tokenOf' drawn' x where
  known := hl.grown h.known
  nonzero := h.nonzero
  token_eq_none := (hl.same x h.known).trans h.token_eq_none

private theorem LocalSet.later (hl : Later tokenOf drawn tokenOf' drawn') {spans : List RawSpan}
    (h : LocalSet tokenOf drawn spans) : LocalSet tokenOf' drawn' spans where
  back := h.back
  ids raw hraw := (h.ids raw hraw).later hl

private theorem Issued.later (hl : Later tokenOf drawn tokenOf' drawn') {cmd : SubmitSpans}
    (h : Issued tokenOf drawn cmd) :
    Issued tokenOf' drawn' cmd := by
  cases h with
  | span hkind h => exact .span hkind (hl.kept _ _ h)
  | attachment hkind h => exact .attachment hkind (hl.kept _ _ h)
  | localSpans hspans hset h => exact .localSpans hspans (hset.later hl) (hl.kept _ _ h)

private theorem LineOk.later (hl : Later tokenOf drawn tokenOf' drawn') {line : SpanLine}
    (h : LineOk tokenOf drawn line) :
    LineOk tokenOf' drawn' line where
  issued token htoken := by
    obtain ⟨x, token', hx, rfl⟩ := h.issued token htoken
    exact ⟨x, token', hl.kept x token' hx, rfl⟩
  linked := h.linked
  ids raw hraw := (h.ids raw hraw).later hl

/-- Without a new span the tokens stay as they are. -/
private theorem Later.refl (tokenOf : SpanId → Option CollectToken) (drawn ids : List SpanId) :
    Later tokenOf drawn tokenOf (drawn ++ ids) where
  grown := List.subset_append_left _ _
  same _ _ := rfl
  kept _ _ h := h

/-- A new span gets its token under a fresh id. -/
private theorem Later.born (hdrawn : ∀ x token, tokenOf x = some token → x ∈ drawn) {x : SpanId} (hx : x ∉ drawn)
    (token : CollectToken) : Later tokenOf drawn (Function.update tokenOf x (some token)) (drawn ++ [x]) where
  grown := List.subset_append_left _ _
  same y hy := Function.update_of_ne (ne_of_mem_of_not_mem hy hx) _ _
  kept y token' h := by
    rw [Function.update_of_ne (ne_of_mem_of_not_mem (hdrawn y token' h) hx), h]

/-! ### A step -/

section Step

variable [DecidableEq T] {v v' : View T} {a : T × Op}

/-- A variable holds no span, or one with its token. -/
private def SpanOk (tokenOf : SpanId → Option CollectToken) (s : Option SpanInner) : Prop :=
  ∀ s', s = some s' → tokenOf s'.rawSpan.id = some s'.collectToken ∧ s'.rawSpan.rawKind = .span

private def StackOk (tokenOf : SpanId → Option CollectToken) (drawn : List SpanId) (stack : LocalSpanStack) : Prop :=
  ∀ line ∈ stack.spanLines, LineOk tokenOf drawn line

private def CollectedOk (tokenOf : SpanId → Option CollectToken) (drawn : List SpanId)
    (localSpans : Option LocalSpansInner) : Prop :=
  ∀ localSpans', localSpans = some localSpans' → LocalSet tokenOf drawn localSpans'.spans

private theorem lines_lost {stack stack' : LocalSpanStack} (h : StackOk tokenOf drawn stack)
    (hlost : Lost stack stack') : StackOk tokenOf drawn stack' := by
  intro line hline
  apply h
  rcases hlost with hl | ⟨top, hl⟩
  · rwa [← hl]
  · rw [hl]
    exact List.mem_cons_of_mem _ hline

private theorem lines_recorded {stack stack' : LocalSpanStack} (h : StackOk tokenOf drawn stack)
    {label : Option (SpanId × RawKind)} (htop : stack.TopChange label stack')
    (hlabel : ∀ x k, label = some (x, k) → LocalId tokenOf drawn x) : StackOk tokenOf drawn stack' := by
  obtain ⟨line, lines, line', hlines, hchange, rfl⟩ := htop
  rw [StackOk, hlines, List.forall_mem_cons] at h
  intro l hl
  rcases List.mem_cons.1 hl with rfl | hl
  · refine ⟨fun token htoken => ?_, hchange.linked h.1.linked, fun raw hraw => ?_⟩
    · rw [hchange.collectToken] at htoken
      exact h.1.issued token htoken
    · rcases hchange.spans hraw with ⟨raw', hraw', hid, -⟩ | hnew
      · exact hid ▸ h.1.ids raw' hraw'
      · exact hlabel _ _ hnew
  · exact h.2 l hl

omit [DecidableEq T] in
private theorem issued_append (h : ∀ cmd ∈ v.submitted, Issued tokenOf drawn cmd) {spans : SpanSet}
    {token : CollectToken} (hnew : Issued tokenOf drawn ⟨spans, retainSampled token⟩) :
    ∀ cmd ∈ v.submitted ++ submission spans token, Issued tokenOf drawn cmd := by
  intro cmd hcmd
  rcases List.mem_append.1 hcmd with hold | hcmd
  · exact h cmd hold
  · rw [mem_submission hcmd]
    exact hnew

omit [DecidableEq T] in
private theorem Tokens.later (h : Tokens tokenOf drawn v) (ids : List SpanId) : Tokens tokenOf (drawn ++ ids) v where
  known x token hx := List.mem_append_left _ (h.known x token hx)
  span := h.span
  line t line hline := (h.line t line hline).later (.refl ..)
  collected l localSpans hl := (h.collected l localSpans hl).later (.refl ..)
  submitted cmd hcmd := (h.submitted cmd hcmd).later (.refl ..)

omit [DecidableEq T] in
private theorem tokens_born (h : Tokens tokenOf drawn v) {h' : Var} {s : SpanInner} (hx : s.rawSpan.id ∉ drawn)
    (hkind : s.rawSpan.rawKind = .span) :
    Tokens (Function.update tokenOf s.rawSpan.id (some s.collectToken)) (drawn ++ [s.rawSpan.id])
      { v with inner := Function.update v.inner h' (some s) } := by
  have hl := Later.born h.known hx s.collectToken
  have hspan : ∀ h'', SpanOk (Function.update tokenOf s.rawSpan.id (some s.collectToken)) (v.inner h'') :=
    fun h'' s' hs' => ⟨hl.kept _ _ (h.span h'' s' hs').1, (h.span h'' s' hs').2⟩
  refine ⟨fun x token hx' => ?_, update_forall hspan h' fun s' hs' => ?_,
    fun t line hline => (h.line t line hline).later hl,
    fun l localSpans hc => (h.collected l localSpans hc).later hl, fun cmd hcmd => (h.submitted cmd hcmd).later hl⟩
  · by_cases hxs : x = s.rawSpan.id
    · simp [hxs]
    · rw [Function.update_of_ne hxs] at hx'
      exact List.mem_append_left _ (h.known x token hx')
  · cases hs'
    exact ⟨Function.update_self .., hkind⟩

/-- Every step keeps the tokens, for the tokens of the spans made up to then. -/
theorem Tokens.step (h : Tokens tokenOf drawn v) (heffect : Effect v a v')
    (hfresh : ∀ x, a.2.id? = some x → x ∉ drawn ∧ x ≠ default) :
    ∃ tokenOf', Tokens tokenOf' (drawn ++ a.2.id?.toList) v' := by
  have hlater := h.later a.2.id?.toList
  -- an id drawn for an entry or an attachment is no span
  have hlocal : ∀ x, a.2.id? = some x → LocalId tokenOf (drawn ++ a.2.id?.toList) x := by
    intro x hx
    refine ⟨by simp [hx], (hfresh x hx).2, Option.eq_none_iff_forall_ne_some.2 fun token htoken => ?_⟩
    exact (hfresh x hx).1 (h.known x token htoken)
  have hspan : ∀ (h' : Var) (s : Option SpanInner), SpanOk tokenOf s →
      ∀ h'', SpanOk tokenOf (Function.update v.inner h' s h'') := fun h' _ hs => update_forall hlater.span h' hs
  have hline : ∀ stack, StackOk tokenOf (drawn ++ a.2.id?.toList) stack →
      ∀ t, StackOk tokenOf (drawn ++ a.2.id?.toList) (Function.update v.spanStack a.1 stack t) :=
    fun _ hs => update_forall hlater.line a.1 hs
  have hcollected : ∀ (l : Var) (localSpans : Option LocalSpansInner),
      CollectedOk tokenOf (drawn ++ a.2.id?.toList) localSpans →
      ∀ l', CollectedOk tokenOf (drawn ++ a.2.id?.toList) (Function.update v.collected l localSpans l') :=
    fun l _ hc => update_forall hlater.collected l hc
  cases heffect with
  | quiet => exact ⟨tokenOf, hlater⟩
  | born hfree hid hkind hfrom =>
    rw [hid]
    exact ⟨_, tokens_born h (hfresh _ hid).1 hkind⟩
  | @amended h' s s' hs hsame =>
    refine ⟨tokenOf, hlater.known, hspan h' _ fun s'' hs'' => ?_, hlater.line, hlater.collected, hlater.submitted⟩
    cases hs''
    rw [hsame.id_eq, hsame.kind_eq, hsame.token_eq]
    exact h.span h' s hs
  | @dropped h' s s' hs hsame =>
    obtain ⟨htoken, hkind⟩ := h.span h' s hs
    exact ⟨tokenOf, hlater.known, hspan h' none (fun s'' hs'' => by cases hs''), hlater.line, hlater.collected,
      issued_append hlater.submitted (.span (hsame.kind_eq.trans hkind) (hsame.id_eq ▸ htoken))⟩
  | @attached h' s raw hs hid hkind =>
    exact ⟨tokenOf, hlater.known, hlater.span, hlater.line, hlater.collected,
      issued_append hlater.submitted (.attachment hkind (h.span h' s hs).1)⟩
  | @pushed h' l s localSpans hop hs hl =>
    exact ⟨tokenOf, hlater.known, hlater.span, hlater.line, hlater.collected, issued_append hlater.submitted
      (.localSpans (Or.inr rfl) (hlater.collected l localSpans hl) (h.span h' s hs).1)⟩
  | recorded htop hlabel =>
    have hlines := lines_recorded (hlater.line a.1) htop fun x k hx => hlocal x (hlabel x k hx).1
    exact ⟨tokenOf, hlater.known, hlater.span, hline _ hlines, hlater.collected, hlater.submitted⟩
  | @registered capacity epoch token stack hlines htoken =>
    refine ⟨tokenOf, hlater.known, hlater.span, hline stack fun line hl => ?_, hlater.collected, hlater.submitted⟩
    rw [hlines] at hl
    rcases List.mem_cons.1 hl with rfl | hl
    · -- the token of the new line is issued from the span that is attached
      refine ⟨fun token' htoken' => ?_, SpanQueue.linked_withCapacity capacity, fun raw hraw => by cases hraw⟩
      obtain ⟨h', s, hs, rfl⟩ := htoken token' htoken'
      exact ⟨_, _, (h.span h' s hs).1, rfl⟩
    · exact hlater.line a.1 line hl
  | lost hlost =>
    exact ⟨tokenOf, hlater.known, hlater.span, hline _ (lines_lost (hlater.line a.1) hlost), hlater.collected,
      hlater.submitted⟩
  | @collectedNone l now stack hlost hfree =>
    refine ⟨tokenOf, hlater.known, hlater.span, hline _ (lines_lost (hlater.line a.1) hlost),
      hcollected l _ fun localSpans hl => ?_, hlater.submitted⟩
    cases hl
    exact ⟨fun i raw hraw => by simp at hraw, fun raw hraw => by cases hraw⟩
  | @collected l now line stack hlines hfree =>
    have hok := hlater.line a.1 line (by rw [hlines]; exact List.mem_cons_self ..)
    refine ⟨tokenOf, hlater.known, hlater.span,
      hline _ (lines_lost (hlater.line a.1) (Or.inr ⟨line, hlines⟩)),
      hcollected l _ fun localSpans hl => ?_, hlater.submitted⟩
    cases hl
    exact ⟨hok.linked.back, hok.ids⟩
  | @closed now line token stack hlines htoken =>
    have hok := hlater.line a.1 line (by rw [hlines]; exact List.mem_cons_self ..)
    obtain ⟨x, token', hx, rfl⟩ := hok.issued token htoken
    exact ⟨tokenOf, hlater.known, hlater.span, hline _ (lines_lost (hlater.line a.1) (Or.inr ⟨line, hlines⟩)),
      hlater.collected, issued_append hlater.submitted (.localSpans (Or.inl rfl) ⟨hok.linked.back, hok.ids⟩ hx)⟩

end Step

theorem Tokens.init [DecidableEq T] : Tokens (fun _ => none) [] (World.init : World T).view where
  known x token hx := by cases hx
  span h s hs := by cases hs
  line t line hline := by cases hline
  collected l localSpans hl := by cases hl
  submitted cmd hcmd := by cases hcmd

end Fastrace
