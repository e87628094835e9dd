import Fastrace.Facts
import Fastrace.Roots
import Fastrace.Submissions
import Fastrace.Tally

/-!
# Worlds that agree with a meaning

While one thread runs a program of nested blocks, every line of its stack is at a place of the meaning
(`SpanLine.At`): what is recorded next is recorded under that place, as the register of the line and the items of its
token have it.  The world agrees with the meaning of the program so far (`Traced`) when every live span stands where
the meaning has it and when the submissions, the lines and the live spans together ask for the facts of the meaning
(`View.Owes`).  New spans, drops of spans and the submission of a line keep this.
-/

namespace Fastrace

/-! ### Places of spans and lines -/

def SpanInner.place (s : SpanInner) : Place := ⟨s.rawSpan.id, s.collectToken.map (·.traceId)⟩

def SpanInner.facts (s : SpanInner) : List Fact := SubmitSpans.facts ⟨.span s.rawSpan, s.collectToken⟩

/-- The live span of the variable `h` is the one the meaning has there; it is a root just when `h` is for roots. -/
structure Stands (roots : List Var) (m : Meaning) (h : Var) (s : SpanInner) : Prop where
  place : m.spans h = some s.place
  nonempty : s.collectToken ≠ []
  sampled : ∀ item ∈ s.collectToken, item.isSampled = true
  kind : s.rawSpan.rawKind = .span
  bare : s.rawSpan.properties = none
  root : s.collectId ≠ none ↔ h ∈ roots

/-- The line records at the place: its register has the id of the place, or is empty and the token items have it. -/
structure SpanLine.At (line : SpanLine) (place : Place) : Prop where
  token : ∃ token, line.collectToken = some token ∧ token ≠ [] ∧ (∀ item ∈ token, item.isSampled = true) ∧
    token.map (·.traceId) = place.traces ∧ ∀ item ∈ token, line.spanQueue.nextParentId.getD item.parentId = place.id
  sampled : line.isSampled = true
  register : line.spanQueue.nextParentId ≠ some default

namespace SpanLine.At

variable {line : SpanLine} {place : Place}

theorem grow (h : line.At place) (new : List RawSpan) : (line.grow new).At place := ⟨h.token, h.sampled, h.register⟩

theorem opened (h : line.At place) {raw : RawSpan} (hid : raw.id ≠ default) :
    (line.opened raw).At ⟨raw.id, place.traces⟩ where
  token := by
    obtain ⟨token, htoken, hnonempty, hsampled, htraces, -⟩ := h.token
    exact ⟨token, htoken, hnonempty, hsampled, htraces, fun item _ => rfl⟩
  sampled := h.sampled
  register := fun heq => hid (Option.some.inj heq)

/-- The line of a new local parent. -/
theorem new {s : SpanInner} (hnonempty : s.collectToken ≠ [])
    (hsampled : ∀ item ∈ s.collectToken, item.isSampled = true) (capacity epoch : Nat) :
    (SpanLine.new capacity epoch (some s.issueCollectToken)).At s.place where
  token := by
    refine ⟨s.issueCollectToken, rfl, fun hnil => hnonempty (List.map_eq_nil_iff.1 hnil), fun item hitem => ?_, ?_,
      fun item hitem => ?_⟩
    · obtain ⟨item', hitem', rfl⟩ := List.mem_map.1 hitem
      exact hsampled item' hitem'
    · exact List.map_map
    · obtain ⟨item', -, rfl⟩ := List.mem_map.1 hitem
      rfl
  sampled := by
    obtain ⟨item, hitem⟩ := List.exists_mem_of_ne_nil _ hnonempty
    refine List.any_eq_true.2 ⟨{ item with parentId := s.rawSpan.id, isRoot := false }, ?_, hsampled item hitem⟩
    exact List.mem_map.2 ⟨item, hitem, rfl⟩
  register := fun heq => by cases heq

/-- What is recorded next is recorded under the place. -/
private theorem parentOf (h : line.At place) {token : CollectToken} (htoken : line.collectToken = some token)
    {item : CollectTokenItem} (hitem : item ∈ token) {raw : RawSpan} (hraw : raw.parentId = line.spanQueue.parentId) :
    (if raw.parentId = default then item.parentId else raw.parentId) = place.id := by
  obtain ⟨token', htoken', -, -, -, hplace⟩ := h.token
  rw [htoken] at htoken'
  cases htoken'
  have hid := hplace item hitem
  have hregister := h.register
  rw [hraw, SpanQueue.parentId]
  cases hnext : line.spanQueue.nextParentId with
  | none =>
    rw [hnext] at hid
    exact hid
  | some x =>
    rw [hnext] at hid hregister
    have hx : x ≠ default := fun he => hregister (congrArg some he)
    rw [Option.getD_some, if_neg hx]
    exact hid

/-- A local span is a child of the place. -/
theorem child (h : line.At place) {token : CollectToken} (htoken : line.collectToken = some token) {raw : RawSpan}
    (hraw : raw.parentId = line.spanQueue.parentId) (hkind : raw.rawKind = .span) (hbare : raw.properties = none) :
    (token.map fun item => localFact item raw) = place.child raw.id := by
  obtain ⟨token', htoken', -, -, htraces, -⟩ := h.token
  rw [htoken] at htoken'
  cases htoken'
  rw [Place.child, ← htraces, List.map_map]
  refine List.map_congr_left fun item hitem => ?_
  rw [localFact, fact_of_span _ hkind, hbare]
  exact congrArg (fun x => Fact.record ⟨item.traceId, raw.id, x⟩ []) (h.parentOf htoken hitem hraw)

/-- An event or properties are attached to the place. -/
theorem attach (h : line.At place) {token : CollectToken} (htoken : line.collectToken = some token) {raw : RawSpan}
    (hraw : raw.parentId = line.spanQueue.parentId) (hkind : raw.rawKind ≠ .span) :
    (token.map fun item => localFact item raw) = place.attach (raw.dangling fun _ => 0) := by
  obtain ⟨token', htoken', -, -, htraces, -⟩ := h.token
  rw [htoken] at htoken'
  cases htoken'
  rw [Place.attach, ← htraces, List.map_map]
  refine List.map_congr_left fun item hitem => ?_
  rw [localFact, fact_of_attachment _ hkind]
  exact congrArg (fun x => Fact.attached item.traceId x _) (h.parentOf htoken hitem hraw)

/-- The token for a span made at the place. -/
theorem currentCollectToken (h : line.At place) {token : CollectToken} (htoken : line.collectToken = some token) :
    line.currentCollectToken = some (token.map fun item => { item with parentId := place.id }) := by
  obtain ⟨token', htoken', -, -, -, hplace⟩ := h.token
  rw [htoken] at htoken'
  cases htoken'
  rw [SpanLine.currentCollectToken, htoken, Option.map_some]
  refine congrArg some (List.map_congr_left fun item hitem => ?_)
  exact congrArg (fun x => { item with parentId := x }) (hplace item hitem)

end SpanLine.At

inductive Top : List SpanLine → Option Place → Prop
  | none : Top [] none
  | some {line : SpanLine} {lines : List SpanLine} {place : Place} (h : line.At place) :
      Top (line :: lines) (some place)

theorem Top.grown {lines lines' : List SpanLine} {scope : Option Place} {n : Nat} (h : Top lines scope)
    (hgrown : Grown n lines lines') : Top lines' scope := by
  cases hgrown with
  | bare hlines =>
    subst hlines
    exact h
  | top hlines hlength =>
    subst hlines
    cases h with
    | some hat => exact .some (hat.grow _)

/-- The top line has recorded something. -/
theorem lines_facts {line line' : SpanLine} {new : List Fact} (h : line'.facts.Perm (line.facts ++ new))
    (lines : List SpanLine) : ((line' :: lines).flatMap SpanLine.facts).Perm
      ((line :: lines).flatMap SpanLine.facts ++ new) := by
  rw [List.flatMap_cons, List.flatMap_cons]
  rw [List.perm_iff_count] at h ⊢
  intro fact
  have hcount := h fact
  simp only [List.count_append] at hcount ⊢
  omega

/-! ### Worlds that agree with a meaning -/

section Traced

variable {T : Type}

def View.spanFacts (v : View T) (h : Var) : List Fact := (v.inner h).elim [] SpanInner.facts

/-- What the submissions, the lines of the thread and the live spans ask for together. -/
def View.Owes (v : View T) (t : T) (facts : List Fact) : Prop :=
  ∃ live, Tally v.spanFacts live ∧
    (v.submitted.flatMap SubmitSpans.facts ++ ((v.spanStack t).spanLines.flatMap SpanLine.facts ++ live)).Perm facts

namespace View.Owes

variable {v v' : View T} {t : T} {facts : List Fact}

private theorem spanFacts_update (v : View T) (h : Var) (s : Option SpanInner) :
    View.spanFacts { v with inner := Function.update v.inner h s } =
      Function.update v.spanFacts h (s.elim [] SpanInner.facts) := by
  funext h'
  by_cases hh : h' = h
  · subst hh
    simp [View.spanFacts]
  · simp [View.spanFacts, hh]

private theorem born (h : v.Owes t facts) {h' : Var} (hfree : v.inner h' = none) (s : SpanInner) :
    View.Owes { v with inner := Function.update v.inner h' (some s) } t (facts ++ s.facts) := by
  obtain ⟨live, htally, hperm⟩ := h
  obtain ⟨rest, hlive, hupdate⟩ := htally.update h'
  have hnone : v.spanFacts h' = [] := by rw [View.spanFacts, hfree]; rfl
  rw [hnone, List.nil_append] at hlive
  refine ⟨s.facts ++ rest, ?_, ?_⟩
  · rw [spanFacts_update]
    exact hupdate s.facts
  · rw [List.perm_iff_count] at hperm hlive ⊢
    intro fact
    have hcount := hperm fact
    have hrest := hlive fact
    simp only [List.count_append] at hcount ⊢
    omega

private theorem dropped (h : v.Owes t facts) {h' : Var} {s : SpanInner} (hs : v.inner h' = some s)
    {subs : List SubmitSpans}
    (hsubs : subs.flatMap SubmitSpans.facts = s.facts) :
    View.Owes { v with inner := Function.update v.inner h' none, submitted := v.submitted ++ subs } t facts := by
  obtain ⟨live, htally, hperm⟩ := h
  obtain ⟨rest, hlive, hupdate⟩ := htally.update h'
  have hspan : v.spanFacts h' = s.facts := by rw [View.spanFacts, hs]; rfl
  rw [hspan] at hlive
  refine ⟨[] ++ rest, ?_, ?_⟩
  · change Tally (View.spanFacts { v with inner := Function.update v.inner h' none }) _
    rw [spanFacts_update]
    exact hupdate []
  · rw [List.flatMap_append, hsubs]
    rw [List.perm_iff_count] at hperm hlive ⊢
    intro fact
    have hcount := hperm fact
    have hrest := hlive fact
    simp only [List.count_append, List.nil_append] at hcount hrest ⊢
    omega

/-- The lines of the thread have recorded something. -/
private theorem recorded (h : v.Owes t facts) (hinner : v'.inner = v.inner) (hsubmitted : v'.submitted = v.submitted)
    {new : List Fact} (hlines : ((v'.spanStack t).spanLines.flatMap SpanLine.facts).Perm
      ((v.spanStack t).spanLines.flatMap SpanLine.facts ++ new)) : v'.Owes t (facts ++ new) := by
  obtain ⟨live, htally, hperm⟩ := h
  refine ⟨live, ?_, ?_⟩
  · have hsame : v'.spanFacts = v.spanFacts := by
      funext h'
      rw [View.spanFacts, View.spanFacts, hinner]
    rwa [hsame]
  · rw [hsubmitted]
    rw [List.perm_iff_count] at hperm hlines ⊢
    intro fact
    have hcount := hperm fact
    have hnew := hlines fact
    simp only [List.count_append] at hcount hnew ⊢
    omega

/-- The top line of the thread is submitted. -/
private theorem closed (h : v.Owes t facts) (hinner : v'.inner = v.inner) {line : SpanLine}
    (hlines : (v.spanStack t).spanLines = line :: (v'.spanStack t).spanLines) {subs : List SubmitSpans}
    (hsubmitted : v'.submitted = v.submitted ++ subs) (hsubs : subs.flatMap SubmitSpans.facts = line.facts) :
    v'.Owes t facts := by
  obtain ⟨live, htally, hperm⟩ := h
  refine ⟨live, ?_, ?_⟩
  · have hsame : v'.spanFacts = v.spanFacts := by
      funext h'
      rw [View.spanFacts, View.spanFacts, hinner]
    rwa [hsame]
  · rw [hlines, List.flatMap_cons] at hperm
    rw [hsubmitted, List.flatMap_append, hsubs]
    rw [List.perm_iff_count] at hperm ⊢
    intro fact
    have hcount := hperm fact
    simp only [List.count_append] at hcount ⊢
    omega

/-- In the end the submissions ask for all. -/
theorem submitted (h : v.Owes t facts) (hinner : ∀ h', v.inner h' = none) (hlines : (v.spanStack t).spanLines = []) :
    (v.submitted.flatMap SubmitSpans.facts).Perm facts := by
  obtain ⟨live, htally, hperm⟩ := h
  have hnil : live = [] := htally.eq_nil fun h' => by
    rw [View.spanFacts, hinner h']
    rfl
  rwa [hnil, hlines, List.flatMap_nil, List.append_nil, List.append_nil] at hperm

end View.Owes

/-- The world after a program with the meaning `m`, run by `t` alone. -/
structure Traced (roots : List Var) (t : T) (m : Meaning) (w : World T) : Prop where
  ready : w.reporterReady = true
  spans : ∀ h span, w.spans h = some span → ∃ s, span.inner = some s ∧ Stands roots m h s
  counted : Counted w.commands w.inner w.nextCollectId
  order : w.commands.Pairwise MayPrecede
  collected : ∀ l, w.collected l = none
  owes : w.view.Owes t m.facts

theorem commands_send (w : World T) (t : T) (cmds : List CollectCommand) :
    (w.send t cmds).commands = w.commands ++ cmds := by
  simp [World.commands, World.send, Function.comp_def]

theorem inner_setSpan (w : World T) (h : Var) (span : Option Span) :
    (w.setSpan h span).inner = Function.update w.inner h (span.bind Span.inner) :=
  congrArg View.inner (view_setSpan w h span)

/-- Only stacks, guards and local spans differ. -/
structure OnStack (w w' : World T) : Prop where
  ready : w'.reporterReady = w.reporterReady
  next : w'.nextCollectId = w.nextCollectId
  spans : w'.spans = w.spans
  collected : w'.collected = w.collected
  sent : w'.sent = w.sent

theorem OnStack.inner {w w' : World T} (h : OnStack w w') : w'.inner = w.inner := by
  funext v
  rw [World.inner, World.inner, h.spans]

theorem OnStack.commands {w w' : World T} (h : OnStack w w') : w'.commands = w.commands := by
  rw [World.commands, World.commands, h.sent]

namespace Traced

variable {roots : List Var} {t : T} {m : Meaning} {w w' : World T}

theorem inner (h : Traced roots t m w) {v : Var} {s : SpanInner} (hs : w.inner v = some s) : Stands roots m v s := by
  obtain ⟨span, hspan, hinner⟩ := Option.bind_eq_some_iff.1 hs
  obtain ⟨s', hs', hstands⟩ := h.spans v span hspan
  rw [hinner] at hs'
  cases hs'
  exact hstands

/-- No live span is a no-op. -/
theorem live (h : Traced roots t m w) {v : Var} {span : Span} (hspan : w.spans v = some span) :
    ∃ s, span = ⟨some s⟩ ∧ w.inner v = some s ∧ Stands roots m v s := by
  obtain ⟨s, hs, hstands⟩ := h.spans v span hspan
  refine ⟨s, ?_, ?_, hstands⟩
  · cases span
    exact congrArg Span.mk hs
  · rw [World.inner, hspan, Option.bind_some, hs]

theorem onStack (h : Traced roots t m w) (hsame : OnStack w w') {new : List Fact}
    (hlines : ((w'.spanStack t).spanLines.flatMap SpanLine.facts).Perm
      ((w.spanStack t).spanLines.flatMap SpanLine.facts ++ new)) : Traced roots t (m.add new) w' where
  ready := hsame.ready.trans h.ready
  spans v span hspan := by
    rw [hsame.spans] at hspan
    obtain ⟨s, hs, hstands⟩ := h.spans v span hspan
    exact ⟨s, hs, hstands.place, hstands.nonempty, hstands.sampled, hstands.kind, hstands.bare, hstands.root⟩
  counted := by
    rw [hsame.commands, hsame.inner, hsame.next]
    exact h.counted
  order := by
    rw [hsame.commands]
    exact h.order
  collected := by
    rw [hsame.collected]
    exact h.collected
  owes := by
    refine h.owes.recorded hsame.inner ?_ hlines
    change submitSpans w'.commands = submitSpans w.commands
    rw [hsame.commands]

private theorem stands_newSpan (h : Traced roots t m w) {v : Var} {s : SpanInner}
    (hstands : Stands roots (m.newSpan v s.place s.facts) v s) : ∀ v' span,
      Function.update w.spans v (some ⟨some s⟩) v' = some span →
      ∃ s', span.inner = some s' ∧ Stands roots (m.newSpan v s.place s.facts) v' s' := by
  intro v' span hspan
  by_cases hv : v' = v
  · subst hv
    rw [Function.update_self] at hspan
    cases hspan
    exact ⟨s, rfl, hstands⟩
  · rw [Function.update_of_ne hv] at hspan
    obtain ⟨s', hs', hstands'⟩ := h.spans v' span hspan
    refine ⟨s', hs', ?_, hstands'.nonempty, hstands'.sampled, hstands'.kind, hstands'.bare, hstands'.root⟩
    exact (Function.update_of_ne hv ..).trans hstands'.place

private theorem inner_none {v : Var} (hfree : w.spans v = none) : w.inner v = none := by
  rw [World.inner, hfree, Option.bind_none]

theorem newSpan (h : Traced roots t m w) {v : Var} {s : SpanInner} (hfree : w.spans v = none)
    (hstands : Stands roots (m.newSpan v s.place s.facts) v s) (hchild : s.collectId = none) :
    Traced roots t (m.newSpan v s.place s.facts) (w.setSpan v (some ⟨some s⟩)) where
  ready := h.ready
  spans := stands_newSpan h hstands
  counted := by
    rw [inner_setSpan]
    exact h.counted.born (inner_none hfree) hchild
  order := h.order
  collected := h.collected
  owes := by
    rw [view_setSpan]
    exact h.owes.born (inner_none hfree) s

theorem root (h : Traced roots t m w) {v : Var} {s : SpanInner} (hfree : w.spans v = none)
    (hstands : Stands roots (m.newSpan v s.place s.facts) v s) (hroot : s.collectId = some w.nextCollectId)
    (htoken : ∀ item ∈ s.collectToken, item.collectId = w.nextCollectId)
    (hnew : ∀ cmd ∈ w.submitted, ∀ item ∈ cmd.collectToken, item.collectId ≠ w.nextCollectId) :
    Traced roots t (m.newSpan v s.place s.facts)
      (({ w with nextCollectId := w.nextCollectId + 1 }.setSpan v (some ⟨some s⟩)).send t
        [.startCollect w.nextCollectId]) where
  ready := h.ready
  spans := stands_newSpan h hstands
  counted := by
    rw [commands_send]
    change Counted (w.commands ++ _) (World.inner ({ w with nextCollectId := w.nextCollectId + 1 }.setSpan v _)) _
    rw [inner_setSpan]
    exact h.counted.root (inner_none hfree) hroot htoken
  order := by
    rw [commands_send]
    change (w.commands ++ _).Pairwise MayPrecede
    rw [List.pairwise_append]
    refine ⟨h.order, List.pairwise_singleton .., fun a ha b hb => ?_⟩
    rw [List.mem_singleton.1 hb]
    exact mayPrecede_start hnew a ha
  collected := h.collected
  owes := by
    rw [view_send_nil _ _ rfl, view_setSpan]
    exact h.owes.born (inner_none hfree) s

private theorem retainSampled_all {token : CollectToken} (h : ∀ item ∈ token, item.isSampled = true) :
    retainSampled token = token := List.filter_eq_self.2 h

theorem submit_all {token : CollectToken} (hnonempty : token ≠ []) (hsampled : ∀ item ∈ token, item.isSampled = true)
    (spans : SpanSet) : GlobalCollect.submitSpans spans token = [.submitSpans ⟨spans, token⟩] := by
  have hkept : token.isEmpty = false := List.isEmpty_eq_false_iff.2 hnonempty
  unfold GlobalCollect.submitSpans
  simp only [retainSampled_all hsampled, hkept, Bool.not_false, if_true]

/-- What a span with sampled items sends when it is dropped. -/
theorem drop_eq {s : SpanInner} (hnonempty : s.collectToken ≠ [])
    (hsampled : ∀ item ∈ s.collectToken, item.isSampled = true) (now : Instant) :
    (Span.mk (some s)).drop now = [⟨.span (s.rawSpan.endWith now), s.collectToken⟩].map .submitSpans ++
      s.collectId.toList.map .commitCollect := by
  unfold Span.drop SpanInner.submitSpans
  simp only [submit_all hnonempty hsampled]
  cases s.collectId <;> rfl

/-- A span may be dropped as long as none of its traces has been committed. -/
theorem dropSpan (h : Traced roots t m w) {v : Var} {s : SpanInner} (hs : w.inner v = some s)
    (hopen : ∀ item ∈ s.collectToken, .commitCollect item.collectId ∉ w.commands) (now : Instant) :
    Traced roots t m ((w.setSpan v none).send t ((Span.mk (some s)).drop now)) := by
  have hstands := h.inner hs
  have hdrop := drop_eq hstands.nonempty hstands.sampled now
  rw [hdrop]
  refine ⟨h.ready, fun v' span hspan => ?_, ?_, ?_, h.collected, ?_⟩
  · change Function.update w.spans v none v' = some span at hspan
    by_cases hv : v' = v
    · subst hv
      rw [Function.update_self] at hspan
      cases hspan
    · rw [Function.update_of_ne hv] at hspan
      exact h.spans v' span hspan
  · rw [commands_send]
    change Counted (w.commands ++ _) (World.inner (w.setSpan v none)) _
    rw [inner_setSpan, ← List.append_assoc]
    exact (h.counted.submit _).dropped hs
  · rw [commands_send]
    change (w.commands ++ _).Pairwise MayPrecede
    have hsubmit : ∀ a ∈ w.commands, MayPrecede a (.submitSpans ⟨.span (s.rawSpan.endWith now), s.collectToken⟩) := by
      refine mayPrecede_submit hopen fun item hitem x hx => ?_
      -- a span attaches nothing
      have hnone : (itemOf (.span (s.rawSpan.endWith now)) item).attachedTo = [] := by
        have hkind : (s.rawSpan.endWith now).rawKind = .span := hstands.kind
        simp [Item.attachedTo, itemOf, SpanSet.raws, hkind]
      rw [hnone] at hx
      cases hx
    have hcommits : (s.collectId.toList.map CollectCommand.commitCollect).Pairwise MayPrecede := by
      cases s.collectId with
      | none => exact List.Pairwise.nil
      | some c => exact List.pairwise_singleton ..
    have hlast : ∀ a : CollectCommand, ∀ b ∈ s.collectId.toList.map CollectCommand.commitCollect, MayPrecede a b := by
      intro a b hb
      obtain ⟨c, -, rfl⟩ := List.mem_map.1 hb
      exact mayPrecede_commit a c
    rw [List.map_singleton, List.singleton_append, List.pairwise_append, List.pairwise_cons]
    refine ⟨h.order, ⟨hlast _, hcommits⟩, fun a ha b hb => ?_⟩
    rcases List.mem_cons.1 hb with rfl | hb
    · exact hsubmit a ha
    · exact hlast a b hb
  · rw [view_send, view_setSpan]
    have hsubs : submitSpans ([⟨.span (s.rawSpan.endWith now), s.collectToken⟩].map .submitSpans ++
        s.collectId.toList.map .commitCollect) = [⟨.span (s.rawSpan.endWith now), s.collectToken⟩] := by
      cases s.collectId <;> rfl
    rw [hsubs]
    refine h.owes.dropped hs ?_
    have hkind : (s.rawSpan.endWith now).rawKind = .span := hstands.kind
    rw [List.flatMap_singleton, facts_of_span hkind hstands.bare, SpanInner.facts,
      facts_of_span hstands.kind hstands.bare]
    rfl

/-- The line on top is submitted. -/
theorem dropGuard (h : Traced roots t m w) {w₀ : World T} (hsame : OnStack w w₀) {line : SpanLine}
    (hlines : (w.spanStack t).spanLines = line :: (w₀.spanStack t).spanLines) {token : CollectToken}
    (htoken : line.collectToken = some token) (hopen : ∀ c, .commitCollect c ∉ w.commands)
    (hattached : ∀ item ∈ token, ∀ x ∈ (itemOf (.localSpansInner ⟨line.spanQueue.spanQueue, .zero⟩) item).attachedTo,
      ∀ cmd ∈ w.submitted, ∀ raw ∈ cmd.spans.raws, raw.rawKind = .span → raw.id ≠ x) (now : Instant) :
    Traced roots t m (w₀.send t [.submitSpans ⟨.localSpansInner ⟨line.spanQueue.spanQueue, now⟩, token⟩]) where
  ready := hsame.ready.trans h.ready
  spans v span hspan := h.spans v span (hsame.spans ▸ hspan)
  counted := by
    rw [commands_send, hsame.commands]
    change Counted _ w₀.inner w₀.nextCollectId
    rw [hsame.inner, hsame.next]
    exact h.counted.submit [⟨.localSpansInner ⟨line.spanQueue.spanQueue, now⟩, token⟩]
  order := by
    rw [commands_send, hsame.commands, List.pairwise_append]
    refine ⟨h.order, List.pairwise_singleton .., fun a ha b hb => ?_⟩
    rw [List.mem_singleton.1 hb]
    exact mayPrecede_submit (fun item _ => hopen item.collectId) hattached a ha
  collected := by
    change ∀ l, w₀.collected l = none
    rw [hsame.collected]
    exact h.collected
  owes := by
    have hline : line.facts = SubmitSpans.facts ⟨.localSpansInner ⟨line.spanQueue.spanQueue, now⟩, token⟩ := by
      rw [SpanLine.facts, htoken, facts_of_line]
      rfl
    have hsubmitted : World.submitted (w₀.send t [.submitSpans ⟨.localSpansInner ⟨line.spanQueue.spanQueue, now⟩,
        token⟩]) = w.submitted ++ [⟨.localSpansInner ⟨line.spanQueue.spanQueue, now⟩, token⟩] := by
      rw [World.submitted, commands_send, hsame.commands]
      exact List.filterMap_append
    refine h.owes.closed hsame.inner hlines hsubmitted ?_
    rw [List.flatMap_singleton, hline]

end Traced

end Traced

end Fastrace
