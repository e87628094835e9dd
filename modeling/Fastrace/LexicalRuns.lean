import Fastrace.Layers

/-!
# The calls do what they mean

A world agrees with the meaning of its calls (`Agrees`) when every span is at its site, the stacks hold the lines of the
layers, and the submissions ask for what has been submitted.  Every call in order keeps the agreement (`Agrees.step`).
-/

namespace Fastrace

variable {T : Type}

/-! ### Agreement -/

/-- The world is as the calls so far mean. -/
structure Agrees (w : World T) (l : Lexical T) : Prop where
  ready : w.reporterReady = l.ready
  next : w.nextCollectId = l.nextCollectId
  spans : ∀ h, (w.inner h).map SpanInner.site = l.spans h
  kinds : ∀ h s, w.inner h = some s → s.rawSpan.rawKind = .span
  placed : Placed w l.layers
  collected : ∀ k, (w.collected k).map (fun localSpans => entriesOf localSpans.spans) = l.collected k
  submitted : w.submitted.flatMap SubmitSpans.asked = l.submitted

namespace Agrees

variable {w w' : World T} {l : Lexical T} {t : T}

theorem init : Agrees (World.init : World T) Lexical.init where
  ready := rfl
  next := rfl
  spans _ := rfl
  kinds h s hs := by cases hs
  placed := by
    refine ⟨fun t => .nil, fun t => rfl, fun t scope handle h => ?_, fun t => List.nodup_nil, fun t => List.nodup_nil⟩
    cases scope <;> cases h
  collected _ := rfl
  submitted := rfl

/-- The site of a variable. -/
theorem site_of_spans (h : Agrees w l) {v : Var} {span : Span} (hspan : w.spans v = some span) :
    l.spans v = span.inner.map SpanInner.site := by
  rw [← h.spans, World.inner, hspan, Option.bind_some]

private theorem site_of_free (h : Agrees w l) {v : Var} (hfree : w.spans v = none) : l.spans v = none := by
  rw [← h.spans, World.inner, hfree, Option.bind_none, Option.map_none]

/-- What has been submitted after commands that ask for `asked`. -/
theorem send (h : Agrees w l) (t : T) {cmds : List CollectCommand} {asked : List Asked}
    (hasked : (submitSpans cmds).flatMap SubmitSpans.asked = asked) : Agrees (w.send t cmds) (l.submit asked) :=
  { h with
    placed := h.placed.congr rfl rfl rfl
    submitted := by
      have hsub : (w.send t cmds).submitted = w.submitted ++ submitSpans cmds :=
        congrArg View.submitted (view_send w t cmds)
      rw [hsub, List.flatMap_append, h.submitted, hasked]
      rfl }

private theorem send_quiet (h : Agrees w l) (t : T) {cmds : List CollectCommand}
    (hasked : (submitSpans cmds).flatMap SubmitSpans.asked = []) : Agrees (w.send t cmds) l := by
  have hsend := h.send t hasked
  rwa [Lexical.submit, List.append_nil] at hsend

private theorem setSpan (h : Agrees w l) (v : Var) (span : Option Span)
    (hkind : ∀ s, span.bind Span.inner = some s → s.rawSpan.rawKind = .span) {site : Option Site}
    (hsite : (span.bind Span.inner).map SpanInner.site = site) : Agrees (w.setSpan v span) (l.setSpan v site) := by
  have hinner := inner_setSpan w v span
  refine { h with placed := h.placed.congr rfl rfl rfl, spans := fun v' => ?_, kinds := fun v' s hs => ?_ }
  · rw [hinner]
    change _ = Function.update l.spans v site v'
    by_cases hv : v' = v
    · subst hv
      rw [Function.update_self, Function.update_self, hsite]
    · rw [Function.update_of_ne hv, Function.update_of_ne hv, h.spans]
  · rw [hinner] at hs
    by_cases hv : v' = v
    · subst hv
      rw [Function.update_self] at hs
      exact hkind s hs
    · rw [Function.update_of_ne hv] at hs
      exact h.kinds v' s hs

/-- A new span. -/
private theorem newSpan (h : Agrees w l) {v : Var} {span : Span} (hw : w.newSpan v span = some w')
    (hkind : ∀ s, span.inner = some s → s.rawSpan.rawKind = .span) {site : Option Site}
    (hsite : span.inner.map SpanInner.site = site) : Agrees w' (l.setSpan v site) := by
  obtain ⟨-, rfl⟩ := newSpan_eq_some hw
  exact h.setSpan v (some span) hkind hsite

/-! ### Calls on spans -/

private theorem setNext (h : Agrees w l) (c : CollectId) :
    Agrees { w with nextCollectId := c } { l with nextCollectId := c } :=
  { h with placed := h.placed.congr rfl rfl rfl, next := rfl }

private theorem site_root (name : String) (parent : SpanContext) (c c' : CollectId) (id : SpanId) (now : Instant) :
    (Span.new (Span.rootToken parent c) name (some c') id now).inner.map SpanInner.site =
      some (Site.root parent c id) := by
  cases hsampled : parent.sampled <;>
    simp [Span.new, SpanInner.site, Span.rootToken, retainSampled, hsampled, Site.root, RawSpan.beginWith]

/-- What a call of `Span::root` returns and sends. -/
theorem root_cases (ready : Bool) (next : CollectId) (name : String) (parent : SpanContext) (id : SpanId)
    (now : Instant) :
    let out := Span.root ready next name parent id now
    submitSpans out.2.2 = [] ∧ (∀ s, out.1.inner = some s → s.rawSpan.rawKind = .span) ∧
      out.1.inner.map SpanInner.site = (if ready then some (Site.root parent next id) else none) ∧
      out.2.1 = if ready ∧ parent.sampled then next + 1 else next := by
  have hroot : Span.root true next name parent id now = if parent.sampled then
      (Span.new (Span.rootToken parent next) name (some next) id now, next + 1, [.startCollect next])
    else (Span.new (Span.rootToken parent notSampledCollectId) name (some notSampledCollectId) id now, next, []) := rfl
  cases ready with
  | false => exact ⟨rfl, (fun s hs => by cases hs), rfl, rfl⟩
  | true =>
    intro out
    cases hsampled : parent.sampled with
    | false =>
      have hout : out = _ := hroot.trans (if_neg (by simp [hsampled]))
      rw [hout]
      refine ⟨rfl, (fun s hs => by cases hs; rfl), ?_, by simp⟩
      simp only [site_root, if_true]
      simp [Site.root, hsampled]
    | true =>
      have hout : out = _ := hroot.trans (if_pos hsampled)
      rw [hout]
      refine ⟨rfl, (fun s hs => by cases hs; rfl), ?_, by simp⟩
      simp only [site_root, if_true]

variable [DecidableEq T]

private theorem root (h : Agrees w l) {v : Var} {name : String} {parent : SpanContext} {id : SpanId} {now : Instant}
    (hw : w.step (t, .root v name parent id now) = some w') : Agrees w' (l.step (t, .root v name parent id now)) := by
  obtain ⟨w₁, hw₁, rfl⟩ := Option.map_eq_some_iff.1 hw
  obtain ⟨hfree, rfl⟩ := newSpan_eq_some hw₁
  obtain ⟨hcmds, hkind, hsite, hnext⟩ := root_cases w.reporterReady w.nextCollectId name parent id now
  have hstep : { l with nextCollectId := (Span.root w.reporterReady w.nextCollectId name parent id now).2.1 }.setSpan v
      ((Span.root w.reporterReady w.nextCollectId name parent id now).1.inner.map SpanInner.site) =
        l.step (t, .root v name parent id now) := by
    rw [hsite, hnext, h.ready, h.next]
    cases hready : l.ready with
    | false =>
      simp only [Lexical.step, hready, Lexical.setSpan, Bool.false_eq_true, false_and, if_false]
      rw [← h.site_of_free hfree, Function.update_eq_self, ← hready]
    | true => simp [Lexical.step, hready]
  rw [← hstep]
  exact ((h.setNext _).setSpan v (some _) hkind rfl).send_quiet t (by rw [hcmds]; rfl)

omit [DecidableEq T] in
/-- The sites of the parents. -/
private theorem sites_of_mapM (h : Agrees w l) {parents : List Var} {spans : List Span}
    (hspans : parents.mapM w.spans = some spans) :
    (spans.filterMap Span.inner).map SpanInner.site = parents.filterMap l.spans := by
  induction parents generalizing spans with
  | nil => cases hspans; rfl
  | cons v parents ih =>
    rw [List.mapM_cons] at hspans
    obtain ⟨span, hspan, hspans⟩ := Option.bind_eq_some_iff.1 hspans
    obtain ⟨spans', hspans', heq⟩ := Option.bind_eq_some_iff.1 hspans
    cases heq
    rw [List.filterMap_cons, List.filterMap_cons, h.site_of_spans hspan]
    cases span.inner with
    | none => exact ih hspans'
    | some s => exact congrArg (s.site :: ·) (ih hspans')

/-- A span under the spans `spans`. -/
private theorem site_enterWithParents (name : String) (spans : List Span) (id : SpanId) (now : Instant) :
    (Span.enterWithParents name spans id now).inner.map SpanInner.site =
      some (.join ((spans.filterMap Span.inner).map SpanInner.site) id) := by
  have hlead : List.Forall₂ LeadsTo ((spans.filterMap Span.inner).map SpanInner.issueCollectToken)
      ((spans.filterMap Span.inner).map SpanInner.site) := by
    rw [List.forall₂_map_left_iff, List.forall₂_map_right_iff]
    exact List.forall₂_same.2 fun s _ => leadsTo_issue s
  exact congrArg some (site_join rfl (List.flatMap_def ..) hlead)

private theorem enterWithParents (h : Agrees w l) {v : Var} {name : String} {parents : List Var} {id : SpanId}
    {now : Instant}
    (hw : w.step (t, .enterWithParents v name parents id now) = some w') :
    Agrees w' (l.step (t, .enterWithParents v name parents id now)) := by
  obtain ⟨spans, hspans, hw⟩ := Option.bind_eq_some_iff.1 hw
  refine h.newSpan hw (fun s hs => by cases hs; rfl) ?_
  rw [site_enterWithParents, h.sites_of_mapM hspans]

private theorem enterWithParent (h : Agrees w l) {v : Var} {name : String} {parent : Var} {id : SpanId} {now : Instant}
    (hw : w.step (t, .enterWithParent v name parent id now) = some w') :
    Agrees w' (l.step (t, .enterWithParent v name parent id now)) := by
  obtain ⟨span, hspan, hw⟩ := Option.bind_eq_some_iff.1 hw
  simp only [Lexical.step, h.site_of_spans hspan]
  unfold Span.enterWithParent at hw
  cases hinner : span.inner with
  | none =>
    rw [hinner] at hw
    exact h.newSpan hw (fun s hs => by cases hs) rfl
  | some s =>
    rw [hinner] at hw
    refine h.newSpan hw (fun s hs => by cases hs; rfl) ?_
    rw [site_enterWithParents, List.filterMap_cons_some hinner]
    rfl

omit [DecidableEq T] in
/-- The line on top leads to where the thread is. -/
private theorem current_of_top (h : Agrees w l) (t : T) :
    (∃ token site, (w.spanStack t).currentCollectToken = some token ∧ (l.layers t).head?.bind Layer.here = some site ∧
      LeadsTo token site) ∨
      (w.spanStack t).currentCollectToken = none ∧ (l.layers t).head?.bind Layer.here = none := by
  unfold LocalSpanStack.currentCollectToken
  cases hlayers : l.layers t with
  | nil => rw [h.placed.lines_nil hlayers]; exact Or.inr ⟨rfl, rfl⟩
  | cons layer rest =>
    obtain ⟨line, lines, hlines, hline, -⟩ := h.placed.top hlayers
    rw [hlines]
    simp only [List.head?_cons, Option.bind_some, Layer.here, SpanLine.currentCollectToken]
    have htoken := hline.token
    generalize line.collectToken = token at htoken
    generalize layer.site = site at htoken
    cases htoken with
    | none => exact Or.inr ⟨rfl, rfl⟩
    | some hlead =>
      refine Or.inl ⟨_, _, rfl, rfl, ?_, fun item hitem => ?_⟩
      · simp only [retainSampled, List.filter_map, List.map_map, Function.comp_def]
        exact hlead.traces
      · obtain ⟨item', hitem', rfl⟩ := List.mem_map.1 hitem
        change line.spanQueue.nextParentId.getD item'.parentId = _
        rw [hline.register, hlead.parents item' hitem']

private theorem enterWithLocalParent (h : Agrees w l) {v : Var} {name : String} {id : SpanId} {now : Instant}
    (hw : w.step (t, .enterWithLocalParent v name id now) = some w') :
    Agrees w' (l.step (t, .enterWithLocalParent v name id now)) := by
  simp only [World.step, Span.enterWithStack] at hw
  simp only [Lexical.step]
  rcases h.current_of_top t with ⟨token, site, htoken, hsite, hlead⟩ | ⟨htoken, hsite⟩
  · rw [htoken] at hw
    rw [hsite]
    refine h.newSpan hw (fun s hs => by cases hs; rfl) (congrArg some ?_)
    have hflat : token = [token].flatten := (List.append_nil token).symm
    exact site_join rfl hflat (.cons hlead .nil)
  · rw [htoken] at hw
    rw [hsite]
    exact h.newSpan hw (fun s hs => by cases hs) rfl

private theorem withProperties (h : Agrees w l) {v : Var} {properties : Properties}
    (hw : w.step (t, .withProperties v properties) = some w') : Agrees w' l := by
  obtain ⟨span, hspan, rfl⟩ := Option.map_eq_some_iff.1 hw
  have hsite : (span.withProperties properties).inner.map SpanInner.site = l.spans v := by
    rw [h.site_of_spans hspan, Span.withProperties, Option.map_map]
    rfl
  have hkind : ∀ s, (span.withProperties properties).inner = some s → s.rawSpan.rawKind = .span := by
    intro s hs
    obtain ⟨s', hs', rfl⟩ := Option.map_eq_some_iff.1 hs
    exact h.kinds v s' (by rw [World.inner, hspan, Option.bind_some, hs'])
  have hset := h.setSpan v (some (span.withProperties properties)) hkind hsite
  rwa [Lexical.setSpan, Function.update_eq_self] at hset

omit [DecidableEq T] in
/-- An attachment is sent in a submission of its own. -/
private theorem asked_addProperties (span : Span) (properties : Properties) (id : SpanId) (now : Instant) :
    (submitSpans (span.addProperties properties id now)).flatMap SubmitSpans.asked = [] := by
  unfold Span.addProperties Span.enterWithParent
  cases span.inner with
  | none => rfl
  | some s =>
    simp only [Span.withProperties, Span.enterWithParents, Span.new, Option.map_some, SpanInner.submitSpans,
      submitSpans_submitSpans]
    exact asked_attachment (by simp) _

omit [DecidableEq T] in
private theorem asked_addEvent (span : Span) (event : Event) (id : SpanId) (now : Instant) :
    (submitSpans (span.addEvent event id now)).flatMap SubmitSpans.asked = [] := by
  unfold Span.addEvent Span.enterWithParent
  cases span.inner with
  | none => rfl
  | some s =>
    simp only [Span.enterWithParents, Span.new, SpanInner.submitSpans, submitSpans_submitSpans]
    exact asked_attachment (by simp) _

private theorem pushChildSpans (h : Agrees w l) {v k : Var} (hw : w.step (t, .pushChildSpans v k) = some w') :
    Agrees w' (l.step (t, .pushChildSpans v k)) := by
  obtain ⟨span, hspan, hw⟩ := Option.bind_eq_some_iff.1 hw
  obtain ⟨localSpans, hk, rfl⟩ := Option.map_eq_some_iff.1 hw
  refine h.send t ?_
  rw [h.site_of_spans hspan, ← h.collected k, hk]
  unfold Span.pushChildSpans
  cases span.inner with
  | none => rfl
  | some s =>
    simp only [SpanInner.pushChildSpans, Option.map_some, Option.elim_some, Option.getD_some]
    split
    · rename_i hempty
      rw [List.isEmpty_iff.1 hempty]
      simp [submitSpans, Site.under, entriesOf]
    · rw [submitSpans_submitSpans]
      exact asked_local (fun _ _ => rfl) (leadsTo_issue s)

private theorem dropSpan (h : Agrees w l) {v : Var} {now : Instant} (hw : w.step (t, .dropSpan v now) = some w') :
    Agrees w' (l.step (t, .dropSpan v now)) := by
  obtain ⟨span, hspan, rfl⟩ := Option.map_eq_some_iff.1 hw
  refine (h.setSpan v none (fun s hs => by cases hs) rfl).send t ?_
  rw [h.site_of_spans hspan]
  cases hinner : span.inner with
  | none => simp [Span.drop, hinner, submitSpans]
  | some s =>
    have hkind : s.rawSpan.rawKind = .span := h.kinds v s (by rw [World.inner, hspan, Option.bind_some, hinner])
    rw [drop_submitted hinner]
    exact asked_span rfl hkind

omit [DecidableEq T] in
theorem submitSpans_cancel (span : Span) : submitSpans span.cancel = [] := by
  unfold Span.cancel
  split
  · split <;> rfl
  · rfl

private theorem cancel (h : Agrees w l) {v : Var} (hw : w.step (t, .cancel v) = some w') : Agrees w' l := by
  obtain ⟨span, -, rfl⟩ := Option.map_eq_some_iff.1 hw
  exact h.send_quiet t (by rw [submitSpans_cancel]; rfl)

/-! ### Calls on the stack -/

omit [DecidableEq T] in
/-- Only stacks, guards, collectors and local spans change. -/
private theorem onStack {layers : T → List Layer} (h : Agrees w l) (hsame : OnStack w w') (hplaced : Placed w' layers) :
    Agrees w' { l with layers := layers } where
  ready := hsame.ready.trans h.ready
  next := hsame.next.trans h.next
  spans v := by rw [hsame.inner]; exact h.spans v
  kinds v s hs := h.kinds v s (hsame.inner ▸ hs)
  placed := hplaced
  collected k := by rw [hsame.collected]; exact h.collected k
  submitted := by
    rw [World.submitted, hsame.commands]
    exact h.submitted

/-- A change that the layers do not see. -/
private theorem unseen (h : Agrees w l) {stack : LocalSpanStack} (hunseen : UnseenTop (w.spanStack t) stack) :
    Agrees (w.setStack t stack) l := by
  have hsame : OnStack w (w.setStack t stack) := ⟨rfl, rfl, rfl, rfl, rfl⟩
  suffices hplaced : Placed (w.setStack t stack) l.layers from h.onStack hsame hplaced
  rcases hunseen with rfl | ⟨line, lines, line', hlines, hline', rfl⟩
  · exact h.placed.congr rfl rfl (Function.update_eq_self ..)
  · obtain ⟨layer, rest, hlayers, hline, -⟩ := h.placed.top_of_line hlines
    have honce := h.placed.localsOnce t
    rw [hlayers, List.flatMap_cons] at honce
    have hok : LayerOk (w.setStack t { w.spanStack t with spanLines := line' :: lines }) t layer line' :=
      { hline with
        token := by rw [hline'.token]; exact hline.token
        handle := by rw [hline'.keeps.epoch]; exact hline.handle
        locals := hline.locals.congr hline'.keeps fun _ _ => rfl
        register := hline'.register.trans hline.register
        entries := hline'.entries.trans hline.entries }
    have hplaced : Placed (w.setStack t { w.spanStack t with spanLines := line' :: lines })
        (Function.update l.layers t (layer :: rest)) :=
      h.placed.setTop hlayers hlines rfl rfl rfl hok (fun _ _ _ _ _ _ => rfl) honce
    rwa [← hlayers, Function.update_eq_self] at hplaced

/-- There is a new layer and a new line, or none on a full stack. -/
theorem opened_cases (h : Agrees w l) (t : T) (layer : Layer) (token : Option CollectToken) :
    (∃ epoch, (l.opened t layer).layers = Function.update l.layers t (layer :: l.layers t) ∧
      (LocalCollector.new token (w.spanStack t)).2.spanLines =
        SpanLine.new defaultSpanQueueSize epoch token :: (w.spanStack t).spanLines) ∨
      (l.opened t layer).layers = l.layers ∧ (LocalCollector.new token (w.spanStack t)).2 = w.spanStack t := by
  have hlength : (l.layers t).length = (w.spanStack t).spanLines.length := (h.placed.lines t).length_eq
  unfold Lexical.opened LocalCollector.new LocalSpanStack.registerSpanLine
  rw [h.placed.capacity t, ← hlength]
  by_cases hroom : (l.layers t).length < defaultSpanStackSize
  · rw [if_pos hroom, if_neg (Nat.not_le.2 hroom)]
    exact Or.inl ⟨_, rfl, rfl⟩
  · rw [if_neg hroom, if_pos (Nat.not_lt.1 hroom)]
    exact Or.inr ⟨rfl, rfl⟩

/-- A local parent or a local collector is set. -/
private theorem opened {scope : Scope} {token : Option CollectToken} {site : Option Site} (h : Agrees w l)
    (hsame : OnStack w w') (hfree : w.handles scope = none) (htoken : Option.Rel LeadsTo token site)
    (hstack : w'.spanStack = Function.update w.spanStack t (LocalCollector.new token (w.spanStack t)).2)
    (hhandles : w'.handles =
      Function.update w.handles scope (some (t, (LocalCollector.new token (w.spanStack t)).1.inner)))
    (hlocals : w'.localSpans = w.localSpans) : Agrees w' (l.opened t ⟨scope, site, [], []⟩) := by
  have hlength : (l.layers t).length = (w.spanStack t).spanLines.length := (h.placed.lines t).length_eq
  unfold Lexical.opened
  unfold LocalCollector.new LocalSpanStack.registerSpanLine at hstack hhandles
  rw [h.placed.capacity t, ← hlength] at hstack hhandles
  by_cases hroom : (l.layers t).length < defaultSpanStackSize
  · rw [if_neg (Nat.not_le.2 hroom)] at hstack hhandles
    rw [if_pos hroom]
    refine h.onStack hsame (h.placed.push hfree rfl rfl hstack hhandles hlocals rfl rfl ?_)
    refine ⟨htoken, ?_, trivial, rfl, rfl⟩
    rw [hhandles, Function.update_self]
    rfl
  · rw [if_pos (Nat.not_lt.1 hroom)] at hstack hhandles
    rw [if_neg hroom]
    refine h.onStack hsame (h.placed.setIdle (fun u handle heq => ?_) (fun u hmem => ?_) hhandles hlocals ?_)
    · cases heq
    · obtain ⟨lay, hlay, rfl⟩ := List.mem_map.1 hmem
      obtain ⟨handle, howner⟩ := h.placed.owner hlay
      rw [hfree] at howner
      cases howner
    · rw [hstack, Function.update_eq_self]

private theorem setLocalParent (h : Agrees w l) {g v : Var} (hw : w.step (t, .setLocalParent g v) = some w') :
    Agrees w' (l.step (t, .setLocalParent g v)) := by
  obtain ⟨span, hspan, hw⟩ := Option.bind_eq_some_iff.1 hw
  simp only at hw
  split at hw
  · rename_i hfree
    cases hw
    have hnone : w.handles (.guard g) = none := by
      rw [World.handles, Option.isNone_iff_eq_none.1 hfree, Option.map_none]
    have hsite := h.site_of_spans hspan
    unfold Span.attachIntoStack
    simp only [Lexical.step]
    cases hinner : span.inner with
    | none =>
      rw [hinner, Option.map_none] at hsite
      rw [hsite]
      show Agrees _ { l with layers := l.layers }
      refine h.onStack ⟨rfl, rfl, rfl, rfl, rfl⟩ (h.placed.setIdle (fun u handle heq => ?_) (fun u hmem => ?_)
        (handles_updateGuard w g _) rfl ?_)
      · cases heq
      · obtain ⟨lay, hlay, heq⟩ := List.mem_map.1 hmem
        obtain ⟨handle, howner⟩ := h.placed.owner hlay
        rw [heq, hnone] at howner
        cases howner
      · exact Function.update_eq_self ..
    | some s =>
      rw [hinner, Option.map_some] at hsite
      rw [hsite]
      show Agrees _ (l.opened t ⟨.guard g, some s.site, [], []⟩)
      exact h.opened ⟨rfl, rfl, rfl, rfl, rfl⟩ hnone (.some (leadsTo_issue s)) rfl (handles_updateGuard w g _) rfl
  · cases hw

private theorem startCollector (h : Agrees w l) {k : Var} (hw : w.step (t, .startCollector k) = some w') :
    Agrees w' (l.step (t, .startCollector k)) := by
  simp only [World.step] at hw
  split at hw
  · rename_i hfree
    cases hw
    have hnone : w.handles (.collector k) = none := by
      rw [World.handles, Option.isNone_iff_eq_none.1 hfree, Option.map_none]
    show Agrees _ (l.opened t ⟨.collector k, none, [], []⟩)
    exact h.opened ⟨rfl, rfl, rfl, rfl, rfl⟩ hnone .none rfl (handles_updateCollector w k _) rfl
  · cases hw

/-- The scope is that of the innermost layer of the thread, in which no local span is open. -/
structure Innermost (w : World T) (l : Lexical T) (t : T) (scope : Scope) (layer : Layer) (rest : List Layer)
    (line : SpanLine) (lines : List SpanLine) : Prop where
  layers : l.layers t = layer :: rest
  closing : l.closing t scope = some (layer, rest)
  scope : layer.scope = scope
  locals : layer.locals = []
  lines : (w.spanStack t).spanLines = line :: lines
  ok : LayerOk w t layer line

/-- The scope has no layer. -/
structure Idle (l : Lexical T) (t : T) (scope : Scope) : Prop where
  closing : l.closing t scope = none
  layers : ∀ u, scope ∉ (l.layers u).map Layer.scope

omit [DecidableEq T] in
/-- A scope that is closed in order is the innermost layer and has the handle of the top line, or it has neither a layer
nor a handle. -/
private theorem closes {scope : Scope} {handle : Option SpanLineHandle} (h : Agrees w l)
    (hscope : w.handles scope = some (t, handle)) (horder : l.Closes t scope) :
    (∃ layer rest line lines, Innermost w l t scope layer rest line lines ∧ handle = some ⟨line.epoch⟩) ∨
      Idle l t scope ∧ handle = none := by
  rcases horder with htop | hnone
  · left
    cases hlayers : l.layers t with
    | nil => rw [hlayers] at htop; cases htop
    | cons layer rest =>
      rw [hlayers] at htop
      obtain ⟨rfl, hlocals⟩ := Prod.mk.inj (Option.some.inj htop)
      obtain ⟨line, lines, hlines, hline, -⟩ := h.placed.top hlayers
      have hhandle : some (t, handle) = some (t, some ⟨line.epoch⟩) := hscope.symm.trans hline.handle
      cases hhandle
      refine ⟨layer, rest, line, lines, ⟨hlayers, ?_, rfl, hlocals, hlines, hline⟩, rfl⟩
      rw [Lexical.closing, hlayers]
      exact if_pos rfl
  · right
    refine ⟨⟨?_, fun u hmem => ?_⟩, ?_⟩
    · unfold Lexical.closing
      cases hlayers : l.layers t with
      | nil => rfl
      | cons layer rest =>
        refine if_neg fun heq => hnone ?_
        rw [hlayers, List.map_cons, heq]
        exact List.mem_cons_self ..
    · obtain ⟨lay, hlay, heq⟩ := List.mem_map.1 hmem
      obtain ⟨handle', howner⟩ := h.placed.owner hlay
      rw [heq, hscope] at howner
      cases howner
      exact hnone hmem
    · cases handle with
      | none => rfl
      | some handle => exact absurd (h.placed.scopes t scope handle hscope) hnone

omit [DecidableEq T] in
/-- The stack after the line on top has been taken off. -/
def popped (w : World T) (t : T) (lines : List SpanLine) : LocalSpanStack :=
  { w.spanStack t with spanLines := lines }

/-- A guard that is dropped in order submits the line of the innermost layer, or it does nothing. -/
theorem dropGuard_cases {g : Var} {now : Instant} (h : Agrees w l) (horder : l.Closes t (.guard g))
    (hw : w.step (t, .dropGuard g now) = some w') :
    (∃ layer rest line lines, Innermost w l t (.guard g) layer rest line lines ∧
      w' = { w.setStack t (popped w t lines) with guards := Function.update w.guards g none }.send t
        (line.collectToken.elim [] fun token =>
          GlobalCollect.submitSpans (.localSpansInner ⟨line.spanQueue.spanQueue, now⟩) token)) ∨
      Idle l t (.guard g) ∧
        w' = { w.setStack t (w.spanStack t) with guards := Function.update w.guards g none }.send t [] := by
  obtain ⟨guard, hguard, rfl⟩ := Option.map_eq_some_iff.1 hw
  have hscope : w.handles (.guard g) = some (t, guard.inner.bind LocalCollector.inner) := by
    rw [World.handles, owned_eq_some hguard, Option.map_some]
  rcases h.closes hscope horder with ⟨layer, rest, line, lines, htop, hhandle⟩ | ⟨hidle, hhandle⟩
  · obtain ⟨collector, hinner, hcollector⟩ := Option.bind_eq_some_iff.1 hhandle
    have hdrop : guard.drop (w.spanStack t) now =
        (line.collectToken.elim [] fun token =>
          GlobalCollect.submitSpans (.localSpansInner ⟨line.spanQueue.spanQueue, now⟩) token, popped w t lines) := by
      simp only [LocalParentGuard.drop, hinner, LocalCollector.collectSpansAndToken, hcollector,
        LocalSpanStack.unregisterAndCollect, htop.lines, SpanLine.collect, if_true, Option.getD_some, popped]
      cases line.collectToken <;> rfl
    exact Or.inl ⟨layer, rest, line, lines, htop, by simp only [hdrop]⟩
  · have hdrop : guard.drop (w.spanStack t) now = ([], w.spanStack t) := by
      unfold LocalParentGuard.drop
      cases hinner : guard.inner with
      | none => rfl
      | some collector =>
        rw [hinner, Option.bind_some] at hhandle
        simp only [LocalCollector.collectSpansAndToken, hhandle]
    exact Or.inr ⟨hidle, by simp only [hdrop]⟩

/-- A local collector that is collected in order has the entries of the innermost layer, or none. -/
theorem collect_cases {k c : Var} {now : Instant} (h : Agrees w l) (horder : l.Closes t (.collector k))
    (hw : w.step (t, .collect k c now) = some w') : w.collected c = none ∧
    ((∃ layer rest line lines, Innermost w l t (.collector k) layer rest line lines ∧
      w' = { w.setStack t (popped w t lines) with
        collectors := Function.update w.collectors k none
        collected := Function.update w.collected c (some ⟨line.spanQueue.spanQueue, now⟩) }) ∨
      Idle l t (.collector k) ∧ w' = { w.setStack t (w.spanStack t) with
        collectors := Function.update w.collectors k none
        collected := Function.update w.collected c (some ⟨[], now⟩) }) := by
  obtain ⟨collector, hcollector, hw⟩ := Option.bind_eq_some_iff.1 hw
  simp only at hw
  split at hw
  · rename_i hfree
    cases hw
    refine ⟨Option.isNone_iff_eq_none.1 hfree, ?_⟩
    have hscope : w.handles (.collector k) = some (t, collector.inner) := by
      rw [World.handles, owned_eq_some hcollector, Option.map_some]
    rcases h.closes hscope horder with ⟨layer, rest, line, lines, htop, hhandle⟩ | ⟨hidle, hhandle⟩
    · have hcollect : collector.collect (w.spanStack t) now =
          (⟨line.spanQueue.spanQueue, now⟩, popped w t lines) := by
        simp only [LocalCollector.collect, LocalCollector.collectSpansAndToken, hhandle,
          LocalSpanStack.unregisterAndCollect, htop.lines, SpanLine.collect, if_true, Option.getD_some, popped]
        rfl
      exact Or.inl ⟨layer, rest, line, lines, htop, by simp only [hcollect]⟩
    · have hcollect : collector.collect (w.spanStack t) now = (⟨[], now⟩, w.spanStack t) := by
        simp only [LocalCollector.collect, LocalCollector.collectSpansAndToken, hhandle]
      exact Or.inr ⟨hidle, by simp only [hcollect]⟩
  · cases hw

theorem dropCollector_cases {k : Var} (h : Agrees w l) (horder : l.Closes t (.collector k))
    (hw : w.step (t, .dropCollector k) = some w') :
    (∃ layer rest line lines, Innermost w l t (.collector k) layer rest line lines ∧
      w' = { w.setStack t (popped w t lines) with collectors := Function.update w.collectors k none }) ∨
      Idle l t (.collector k) ∧
        w' = { w.setStack t (w.spanStack t) with collectors := Function.update w.collectors k none } := by
  obtain ⟨collector, hcollector, rfl⟩ := Option.map_eq_some_iff.1 hw
  have hscope : w.handles (.collector k) = some (t, collector.inner) := by
    rw [World.handles, owned_eq_some hcollector, Option.map_some]
  rcases h.closes hscope horder with ⟨layer, rest, line, lines, htop, hhandle⟩ | ⟨hidle, hhandle⟩
  · have hdrop : collector.drop (w.spanStack t) = popped w t lines := by
      simp only [LocalCollector.drop, hhandle, LocalSpanStack.unregisterAndCollect, htop.lines, popped]
    exact Or.inl ⟨layer, rest, line, lines, htop, by simp only [hdrop]⟩
  · have hdrop : collector.drop (w.spanStack t) = w.spanStack t := by
      simp only [LocalCollector.drop, hhandle]
    exact Or.inr ⟨hidle, by simp only [hdrop]⟩

/-- The innermost layer is closed. -/
private theorem pop {scope : Scope} {layer : Layer} {rest : List Layer} {line : SpanLine} {lines : List SpanLine}
    (h : Agrees w l) (htop : Innermost w l t scope layer rest line lines) (hsame : OnStack w w')
    (hstack : w'.spanStack = Function.update w.spanStack t (popped w t lines))
    (hhandles : w'.handles = Function.update w.handles scope none) (hlocals : w'.localSpans = w.localSpans) :
    Agrees w' (l.setLayers t rest) :=
  h.onStack hsame (h.placed.pop htop.layers htop.lines hstack (htop.scope ▸ hhandles) hlocals)

/-- A scope without a layer is closed. -/
private theorem closeIdle {scope : Scope} (h : Agrees w l) (hidle : Idle l t scope) (hsame : OnStack w w')
    (hstack : w'.spanStack = Function.update w.spanStack t (w.spanStack t))
    (hhandles : w'.handles = Function.update w.handles scope none) (hlocals : w'.localSpans = w.localSpans) :
    Agrees w' l :=
  h.onStack hsame (h.placed.setIdle (fun _ _ heq => by cases heq) hidle.layers hhandles hlocals
    (hstack.trans (Function.update_eq_self ..)))

private theorem dropGuard (h : Agrees w l) {g : Var} {now : Instant} (horder : l.InOrder (t, .dropGuard g now))
    (hw : w.step (t, .dropGuard g now) = some w') : Agrees w' (l.step (t, .dropGuard g now)) := by
  rcases h.dropGuard_cases horder hw with ⟨layer, rest, line, lines, htop, rfl⟩ | ⟨hidle, rfl⟩
  · simp only [Lexical.step, htop.closing]
    have hpop : Agrees { w.setStack t (popped w t lines) with guards := Function.update w.guards g none }
        (l.setLayers t rest) := h.pop htop ⟨rfl, rfl, rfl, rfl, rfl⟩ rfl (handles_updateGuard w g none) rfl
    refine hpop.send t ?_
    have htoken := htop.ok.token
    generalize line.collectToken = token at htoken
    generalize layer.site = site at htoken
    cases htoken with
    | none => rfl
    | some hlead =>
      rw [Option.elim_some, submitSpans_submitSpans, Option.elim_some, ← htop.ok.entries]
      exact asked_local (fun _ _ => rfl) hlead
  · simp only [Lexical.step, hidle.closing]
    have hclose : Agrees { w.setStack t (w.spanStack t) with guards := Function.update w.guards g none } l :=
      h.closeIdle hidle ⟨rfl, rfl, rfl, rfl, rfl⟩ rfl (handles_updateGuard w g none) rfl
    exact hclose.send_quiet t rfl

omit [DecidableEq T] in
/-- The local spans of a collector are kept. -/
private theorem keep (h : Agrees w l) (c : Var) (localSpans : LocalSpansInner) {entries : List LocalEntry}
    (hentries : entriesOf localSpans.spans = entries) :
    Agrees { w with collected := Function.update w.collected c (some localSpans) }
      { l with collected := Function.update l.collected c (some entries) } where
  ready := h.ready
  next := h.next
  spans := h.spans
  kinds := h.kinds
  placed := h.placed.congr rfl rfl rfl
  collected k := by
    by_cases hk : k = c
    · subst hk
      simp only [Function.update_self, Option.map_some, hentries]
    · simp only [Function.update_of_ne hk]
      exact h.collected k
  submitted := h.submitted

theorem collect (h : Agrees w l) {k c : Var} {now : Instant} (horder : l.InOrder (t, .collect k c now))
    (hw : w.step (t, .collect k c now) = some w') : Agrees w' (l.step (t, .collect k c now)) := by
  rcases (h.collect_cases horder hw).2 with ⟨layer, rest, line, lines, htop, rfl⟩ | ⟨hidle, rfl⟩
  · simp only [Lexical.step, htop.closing]
    have hpop : Agrees { w.setStack t (popped w t lines) with collectors := Function.update w.collectors k none }
        (l.setLayers t rest) := h.pop htop ⟨rfl, rfl, rfl, rfl, rfl⟩ rfl (handles_updateCollector w k none) rfl
    exact hpop.keep c _ htop.ok.entries
  · simp only [Lexical.step, hidle.closing]
    have hclose : Agrees { w.setStack t (w.spanStack t) with collectors := Function.update w.collectors k none } l :=
      h.closeIdle hidle ⟨rfl, rfl, rfl, rfl, rfl⟩ rfl (handles_updateCollector w k none) rfl
    exact hclose.keep c ⟨[], now⟩ rfl

private theorem dropCollector (h : Agrees w l) {k : Var} (horder : l.InOrder (t, .dropCollector k))
    (hw : w.step (t, .dropCollector k) = some w') : Agrees w' (l.step (t, .dropCollector k)) := by
  rcases h.dropCollector_cases horder hw with ⟨layer, rest, line, lines, htop, rfl⟩ | ⟨hidle, rfl⟩
  · simp only [Lexical.step, htop.closing]
    exact h.pop htop ⟨rfl, rfl, rfl, rfl, rfl⟩ rfl (handles_updateCollector w k none) rfl
  · simp only [Lexical.step, hidle.closing]
    exact h.closeIdle hidle ⟨rfl, rfl, rfl, rfl, rfl⟩ rfl (handles_updateCollector w k none) rfl

/-! ### Local spans -/

private theorem enterLocal (h : Agrees w l) {v : Var} {name : String} {id : SpanId} {now : Instant} (hid : id ≠ default)
    (hw : w.step (t, .enterLocal v name id now) = some w') :
    Agrees w' (l.step (t, .enterLocal v name id now)) := by
  obtain ⟨line, lines, hlines, -, -, hfree, rfl⟩ := step_enterLocal hw
  obtain ⟨layer, rest, hlayers, hline, -⟩ := h.placed.top_of_line hlines
  set raw : RawSpan := .beginWith id line.spanQueue.parentId now name .span with hraw
  have hparent : raw.parentId = layer.current.getD default := by
    rw [hraw, ← hline.register]
    rfl
  have hother : ∀ u, ∀ lay ∈ l.layers u, v ∉ lay.locals.map Prod.fst := by
    intro u lay hlay hmem
    obtain ⟨span, hspan⟩ := h.placed.localOwner hlay hmem
    rw [hfree] at hspan
    cases hspan
  have hnew : ∀ u, ∀ lay ∈ l.layers u, ∀ v' ∈ lay.locals.map Prod.fst, v' ≠ v := by
    intro u lay hlay v' hv' heq
    exact hother u lay hlay (heq ▸ hv')
  have hmem : layer ∈ l.layers t := by
    rw [hlayers]
    exact List.mem_cons_self ..
  have honce : (v :: (l.layers t).flatMap fun layer => layer.locals.map Prod.fst).Nodup := by
    rw [List.nodup_cons]
    refine ⟨fun hv => ?_, h.placed.localsOnce t⟩
    obtain ⟨lay, hlay, hv⟩ := List.mem_flatMap.1 hv
    exact hother t lay hlay hv
  rw [hlayers, List.flatMap_cons] at honce
  simp only [Lexical.step, hlayers]
  show Agrees _ { l with layers := Function.update l.layers t (layer.enter v id :: rest) }
  refine h.onStack ⟨rfl, rfl, rfl, rfl, rfl⟩ (h.placed.setTop hlayers hlines rfl rfl rfl ?_ ?_ honce)
  · refine ⟨hline.token, hline.handle,
      ⟨⟨hid, line.spanQueue.spanQueue.length, raw, ?_, ?_, rfl, rfl, hparent⟩, ?_⟩, rfl, ?_⟩
    · exact Function.update_self ..
    · exact List.getElem?_concat_length
    · refine hline.locals.congr ⟨rfl, fun i raw₀ hraw₀ => ⟨raw₀, ?_, ⟨rfl, rfl, rfl⟩⟩⟩ fun v' hv' => ?_
      · exact (List.getElem?_append_left (List.getElem?_eq_some_iff.1 hraw₀).1).trans hraw₀
      · exact Function.update_of_ne (hnew t layer hmem v' hv') ..
    · -- the register is no zero id, so the entry names the innermost open local span
      have hentry : raw.entry = ⟨layer.current, id⟩ := by
        rw [RawSpan.entry, hparent]
        cases hcurrent : layer.current with
        | none => rfl
        | some x =>
          have hx : x ≠ default := fun heq => hline.current_ne (by rw [hcurrent, heq])
          exact congrArg (LocalEntry.mk · id) (if_neg hx)
      show entriesOf (line.spanQueue.spanQueue ++ [raw]) = layer.entries ++ [⟨layer.current, id⟩]
      rw [entriesOf_append, hline.entries, ← hentry]
      rfl
  · intro u lay hlay _ v' hv'
    exact Function.update_of_ne (hnew u lay hlay v' hv') ..

/-- The local span of the variable is open in the innermost layer, and its handle is that of an entry of the top
line. -/
structure OpenLocal (w : World T) (l : Lexical T) (t : T) (v : Var) (layer : Layer) (rest : List Layer)
    (line : SpanLine) (lines : List SpanLine) (i : Nat) (raw : RawSpan) : Prop where
  layers : l.layers t = layer :: rest
  lines : (w.spanStack t).spanLines = line :: lines
  ok : LayerOk w t layer line
  mem : (v, raw.id) ∈ layer.locals
  handle : w.localSpans v = some (t, ⟨some ⟨line.epoch, ⟨i⟩⟩⟩)
  entry : line.spanQueue.spanQueue[i]? = some raw
  kind : raw.rawKind = .span

omit [DecidableEq T] in
theorem openLocal {v : Var} {x : SpanId} {layer : Layer} {rest : List Layer} (h : Agrees w l)
    (hlayers : l.layers t = layer :: rest) (hmem : (v, x) ∈ layer.locals) :
    ∃ line lines i raw, OpenLocal w l t v layer rest line lines i raw ∧ raw.id = x := by
  obtain ⟨line, lines, hlines, hline, -⟩ := h.placed.top hlayers
  obtain ⟨i, raw, hv, hraw, rfl, hkind⟩ := hline.locals.entry hmem
  exact ⟨line, lines, i, raw, ⟨hlayers, hlines, hline, hmem, hv, hraw, hkind⟩, rfl⟩

/-- The line after the local span has been left. -/
def closed (line : SpanLine) (i : Nat) (raw : RawSpan) (now : Instant) : SpanLine :=
  { line with spanQueue := { line.spanQueue with
    spanQueue := line.spanQueue.spanQueue.set i (raw.endWith now)
    nextParentId := (some raw.parentId).filter fun id => id ≠ default } }

theorem dropLocal_cases {v : Var} {now : Instant} (h : Agrees w l) (horder : l.InOrder (t, .dropLocal v now))
    (hw : w.step (t, .dropLocal v now) = some w') :
    ∃ layer rest line lines i raw locals, OpenLocal w l t v layer rest line lines i raw ∧
      layer.locals = (v, raw.id) :: locals ∧
      w' = { w.setStack t (popped w t (closed line i raw now :: lines)) with
        localSpans := Function.update w.localSpans v none } := by
  obtain ⟨layer, hlayer, hlocal⟩ := Option.bind_eq_some_iff.1 horder
  obtain ⟨⟨v, x⟩, hhead, rfl⟩ := Option.map_eq_some_iff.1 hlocal
  obtain ⟨rest, hlayers⟩ := List.head?_eq_some_iff.1 hlayer
  obtain ⟨locals, hlocals⟩ := List.head?_eq_some_iff.1 hhead
  obtain ⟨line, lines, i, raw, hopen, rfl⟩ := h.openLocal hlayers (hlocals ▸ List.mem_cons_self ..)
  have hfinish : line.finishSpan ⟨line.epoch, ⟨i⟩⟩ now = some (closed line i raw now) := by
    simp only [SpanLine.finishSpan, SpanQueue.finishSpan, hopen.entry, if_true, Option.map_some, closed]
  obtain ⟨span, hspan, hw⟩ := Option.bind_eq_some_iff.1 hw
  obtain ⟨stack, hstack, rfl⟩ := Option.map_eq_some_iff.1 hw
  have howned : span = ⟨some ⟨line.epoch, ⟨i⟩⟩⟩ := by
    have hspan := (owned_eq_some hspan).symm.trans hopen.handle
    cases hspan
    rfl
  subst howned
  simp only [LocalSpan.drop, LocalSpanStack.exitSpan, hopen.lines, hfinish, Option.map_some] at hstack
  cases hstack
  exact ⟨layer, rest, line, lines, i, raw, locals, hopen, hlocals, rfl⟩

private theorem dropLocal (h : Agrees w l) {v : Var} {now : Instant} (horder : l.InOrder (t, .dropLocal v now))
    (hw : w.step (t, .dropLocal v now) = some w') : Agrees w' (l.step (t, .dropLocal v now)) := by
  obtain ⟨layer, rest, line, lines, i, raw, locals, hopen, hlocals, rfl⟩ := h.dropLocal_cases horder hw
  have hlayers := hopen.layers
  have hline := hopen.ok
  have hall := hline.locals
  rw [hlocals] at hall
  obtain ⟨⟨-, i', raw', hv, hraw, -, -, hparent⟩, hall⟩ := hall
  obtain rfl : i = i' := by
    have heq := hopen.handle.symm.trans hv
    cases heq
    rfl
  rw [hopen.entry] at hraw
  cases hraw
  have hleave : layer.leave.locals = locals := by rw [Layer.leave, hlocals, List.tail_cons]
  have hsame : SpanQueue.SameEntry raw (raw.endWith now) := ⟨rfl, rfl, rfl⟩
  have hkeeps : KeepsEntries line (closed line i raw now) := ⟨rfl, getElem?_set_same hopen.entry hsame⟩
  -- no other open local span is in the same variable
  have honce := h.placed.localsOnce t
  rw [hlayers, List.flatMap_cons, hlocals, List.map_cons, List.cons_append, List.nodup_cons, List.mem_append,
    not_or] at honce
  have hother : ∀ u, ∀ lay ∈ l.layers u, (u = t → lay ∈ rest) → ∀ v' ∈ lay.locals.map Prod.fst, v' ≠ v := by
    rintro u lay hlay hrest v' hv' rfl
    obtain ⟨span, hspan⟩ := h.placed.localOwner hlay hv'
    rw [hv] at hspan
    cases hspan
    exact honce.1.2 (List.mem_flatMap.2 ⟨lay, hrest rfl, hv'⟩)
  simp only [Lexical.step, hlayers]
  show Agrees _ { l with layers := Function.update l.layers t (layer.leave :: rest) }
  refine h.onStack ⟨rfl, rfl, rfl, rfl, rfl⟩ (h.placed.setTop hlayers hopen.lines rfl rfl rfl ?_ ?_ ?_)
  · refine ⟨hline.token, hline.handle, ?_, ?_, ?_⟩
    · rw [hleave]
      refine hall.congr hkeeps fun v' hv' => Function.update_of_ne ?_ ..
      rintro rfl
      exact honce.1.1 hv'
    · have hcurrent : layer.leave.current ≠ some default := by
        unfold Layer.current
        rw [hleave]
        cases locals with
        | nil => simp
        | cons p locals => exact fun heq => hall.1.1 (Option.some.inj heq)
      have hregister := register_restored hcurrent
      rw [Layer.current, hleave, ← hparent] at hregister
      rw [Layer.current, hleave]
      exact hregister
    · exact (entriesOf_set hopen.entry hsame).trans hline.entries
  · intro u lay hlay hrest v' hv'
    exact Function.update_of_ne (hother u lay hlay hrest v' hv') ..
  · rw [hleave]
    exact honce.2

/-! ### Runs -/

theorem step (h : Agrees w l) {a : T × Op} (horder : l.InOrder a) (hid : ∀ x, a.2.id? = some x → x ≠ default)
    (hw : w.step a = some w') : Agrees w' (l.step a) := by
  obtain ⟨t, op⟩ := a
  cases op with
  | setReporter =>
    cases hw
    exact { h with ready := rfl, placed := h.placed.congr rfl rfl rfl }
  | root v name parent id now => exact h.root hw
  | enterWithParent v name parent id now => exact h.enterWithParent hw
  | enterWithParents v name parents id now => exact h.enterWithParents hw
  | enterWithLocalParent v name id now => exact h.enterWithLocalParent hw
  | withProperties v properties => exact h.withProperties hw
  | addProperties v properties id now =>
    obtain ⟨span, -, rfl⟩ := Option.map_eq_some_iff.1 hw
    exact h.send_quiet t (asked_addProperties span properties id now)
  | addEvent v event id now =>
    obtain ⟨span, -, rfl⟩ := Option.map_eq_some_iff.1 hw
    exact h.send_quiet t (asked_addEvent span event id now)
  | pushChildSpans v k => exact h.pushChildSpans hw
  | cancel v => exact h.cancel hw
  | dropSpan v now => exact h.dropSpan hw
  | setLocalParent g v => exact h.setLocalParent hw
  | startCollector k => exact h.startCollector hw
  | dropGuard g now => exact h.dropGuard horder hw
  | collect k c now => exact h.collect horder hw
  | dropCollector k => exact h.dropCollector horder hw
  | enterLocal v name id now => exact h.enterLocal (hid id rfl) hw
  | dropLocal v now => exact h.dropLocal horder hw
  | localWithProperties v properties =>
    obtain ⟨span, -, hw⟩ := Option.bind_eq_some_iff.1 hw
    obtain ⟨stack, hstack, rfl⟩ := Option.map_eq_some_iff.1 hw
    exact h.unseen (unseen_withProperties hstack)
  | localAddEvent event id now =>
    cases hw
    exact h.unseen (unseen_addEvent ..)
  | localAddProperties properties id =>
    cases hw
    exact h.unseen (unseen_addProperties ..)

theorem run {as : List (T × Op)} (h : Agrees w l) (horder : Interleavings.Along Lexical.step Lexical.InOrder l as)
    (hids : default ∉ drawnIds as) (hrun : Steps.run World.step w as = some w') :
    Agrees w' (as.foldl Lexical.step l) := by
  induction as generalizing w l with
  | nil => cases hrun; exact h
  | cons a as ih =>
    obtain ⟨w₁, hw₁, hrun⟩ := Option.bind_eq_some_iff.1 hrun
    rw [drawnIds_cons, List.mem_append, not_or] at hids
    have hid : ∀ x, a.2.id? = some x → x ≠ default := by
      rintro x hx rfl
      exact hids.1 (by rw [hx]; exact List.mem_singleton_self _)
    exact ih (h.step horder.1 hid hw₁) horder.2 hids.2 hrun

end Agrees

end Fastrace
