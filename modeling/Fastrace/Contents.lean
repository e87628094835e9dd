import Fastrace.Copies
import Fastrace.Notes

/-!
# Records say what the calls said

What is attached to a span waits in lines, in collected sets and in submissions, and wherever it is the chronicle has it
for the span it will be mounted on (`Assigned`).  Together with the notes (`Told`) this says of every record that it is
what the calls have said of its span (`reported_told`): in any interleaving, whatever rounds the collector makes of the
commands, and whether they commit, cancel or lose any of them.
-/

namespace Fastrace

/-! ### Where records come from -/

section Sources

variable {P : Item → Prop} {A : Anchor → Prop} {cancelable : Bool} {c : CollectId} {t : TraceState} {anchor : Anchor}

/-- An item with `P` attaches it to the span, under an anchor with `A`. -/
def AttachedBy (P : Item → Prop) (A : Anchor → Prop) (x : SpanId) (a : DanglingItem) : Prop :=
  ∃ i anchor, P i ∧ A anchor ∧ (x, a) ∈ i.attachments anchor

/-- The record of a raw span of an item, with attachments to that span. -/
def RecordedBy (P : Item → Prop) (A : Anchor → Prop) (r : SpanRecord) : Prop :=
  ∃ i anchor raw items, P i ∧ A anchor ∧ raw ∈ i.spans.raws ∧ raw.rawKind = .span ∧
    r = (i.record anchor raw).mount items ∧ ∀ a ∈ items, AttachedBy P A raw.id a

structure Sourced (P : Item → Prop) (A : Anchor → Prop) (t : TraceState) : Prop where
  items : ∀ i ∈ t.items, P i
  waiting : ∀ x, ∀ a ∈ t.waiting x, AttachedBy P A x a

private theorem attachedBy_gathered {d : Waiting} (hd : ∀ x, ∀ a ∈ d x, AttachedBy P A x a) {items : List Item}
    (hitems : ∀ i ∈ items, P i) (hanchor : A anchor) {x : SpanId} {a : DanglingItem}
    (ha : a ∈ gathered d (timed anchor items) x) : AttachedBy P A x a := by
  rcases List.mem_append.1 ha with hold | hnew
  · exact hd x a hold
  · obtain ⟨t, ht, hattached⟩ := List.mem_flatMap.1 (mem_keyed.1 hnew)
    obtain ⟨i, hi, rfl⟩ := List.mem_map.1 ht
    exact ⟨i, anchor, hitems i hi, hanchor, hattached⟩

private theorem recordedBy_recordsOf {d : Waiting} (hd : ∀ x, ∀ a ∈ d x, AttachedBy P A x a) {items : List Item}
    (hitems : ∀ i ∈ items, P i) (hanchor : A anchor) {r : SpanRecord} (hr : r ∈ recordsOf d (timed anchor items)) :
    RecordedBy P A r := by
  obtain ⟨head, hhead, attached, rfl, hattached⟩ := mem_mountAll hr
  obtain ⟨t, ht, hhead⟩ := List.mem_flatMap.1 hhead
  obtain ⟨i, hi, rfl⟩ := List.mem_map.1 ht
  obtain ⟨raw, hraw, rfl⟩ := List.mem_map.1 hhead
  obtain ⟨hmem, hkind⟩ := List.mem_filter.1 hraw
  exact ⟨i, anchor, raw, attached, hitems i hi, hanchor, hmem, of_decide_eq_true hkind, rfl,
    fun a ha => attachedBy_gathered hd hitems hanchor (hattached a ha)⟩

theorem Sourced.leftover (h : Sourced P A t) (hanchor : A anchor) :
    Sourced P A ⟨[], leftover t.waiting (timed anchor t.items)⟩ where
  items i hi := by cases hi
  waiting x a ha := by
    dsimp only [Fastrace.leftover] at ha
    split at ha
    · cases ha
    · exact attachedBy_gathered h.waiting h.items hanchor ha

/-- A round brings its items under its anchor. -/
theorem Sourced.traceStep {st : Option TraceState} (h : ∀ t, st = some t → Sourced P A t) {round : Round}
    (hitems : ∀ i ∈ round.items c, P i) (hanchor : A round.anchor) :
    (∀ t, (traceStep cancelable c st round).1 = some t → Sourced P A t) ∧
      ∀ r ∈ (traceStep cancelable c st round).2, RecordedBy P A r := by
  unfold Fastrace.traceStep
  cases hentered : entered c st round with
  | none =>
    refine ⟨(fun t ht => by cases ht), fun r hr => ?_⟩
    cases cancelable with
    | true => cases hr
    | false =>
      obtain ⟨i, hi, hr⟩ := List.mem_flatMap.1 hr
      have hone : ∀ i' ∈ [i], P i' := fun i' hi' => List.mem_singleton.1 hi' ▸ hitems i hi
      exact recordedBy_recordsOf (fun x a ha => by cases ha) hone hanchor hr
  | some t =>
    have ht : Sourced P A t := by
      obtain ⟨-, ⟨-, rfl⟩ | ⟨-, t', ht', rfl⟩⟩ := entered_eq_some.1 hentered
      · exact ⟨hitems, fun x a ha => by cases ha⟩
      · refine ⟨fun i hi => ?_, (h t' ht').waiting⟩
        exact (List.mem_append.1 hi).elim ((h t' ht').items i) (hitems i)
    have hpass : ∀ r ∈ t.pass round.anchor, RecordedBy P A r := fun r hr =>
      recordedBy_recordsOf ht.waiting ht.items hanchor hr
    dsimp only
    split_ifs
    · exact ⟨(fun t' ht' => by cases ht'), hpass⟩
    · exact ⟨fun t' ht' => Option.some.inj ht' ▸ ht, fun r hr => absurd hr List.not_mem_nil⟩
    · exact ⟨fun t' ht' => Option.some.inj ht' ▸ ht.leftover hanchor, hpass⟩

private theorem recordedBy_traceOut {rounds : List Round} {st : Option TraceState}
    (h : ∀ t, st = some t → Sourced P A t)
    (hrounds : ∀ round ∈ rounds, (∀ i ∈ round.items c, P i) ∧ A round.anchor) :
    ∀ r ∈ (traceOut cancelable c st rounds).flatten, RecordedBy P A r := by
  induction rounds generalizing st with
  | nil => intro r hr; cases hr
  | cons round rounds ih =>
    rw [List.forall_mem_cons] at hrounds
    have hround : (∀ t, (traceStep cancelable c st round).1 = some t → Sourced P A t) ∧
        ∀ r ∈ (traceStep cancelable c st round).2, RecordedBy P A r := Sourced.traceStep h hrounds.1.1 hrounds.1.2
    intro r hr
    rw [traceOut, List.flatten_cons, List.mem_append] at hr
    exact hr.elim (hround.2 r) (ih hround.1 hrounds.2 r)

end Sources

/-! ### Attachments and what they are mounted on -/

variable {T : Type}

/-- What the entry attaches has been added to the span it names, or is `loose`. -/
def Chronicle.Has (n : Chronicle) (loose : Attachment → Prop) (raw : RawSpan) : Prop :=
  if raw.parentId = default then loose raw.attachment else raw.attachment ∈ n.attached raw.parentId

/-- What names no span in the line of a layer has been added to the span of the layer, or to the local collector. -/
def Chronicle.Loose (n : Chronicle) (layer : Layer) (attachment : Attachment) : Prop :=
  match layer.site, layer.scope with
  | some site, _ => attachment ∈ n.attached site.id
  | none, .collector k => attachment ∈ n.loose k
  | none, .guard _ => True

structure LineHas (n : Chronicle) (layer : Layer) (line : SpanLine) : Prop where
  bare : ∀ k, layer.scope = .collector k → layer.site = none
  attached : ∀ raw ∈ line.spanQueue.spanQueue, raw.rawKind ≠ .span → n.Has (n.Loose layer) raw

structure Assigned (v : View T) (layers : T → List Layer) (n : Chronicle) : Prop where
  lines : ∀ t, List.Forall₂ (LineHas n) (layers t) (v.spanStack t).spanLines
  collected : ∀ c localSpans, v.collected c = some localSpans → ∀ raw ∈ localSpans.spans, raw.rawKind ≠ .span →
    n.Has (· ∈ n.kept c) raw
  submitted : ∀ cmd ∈ v.submitted, ∀ raw ∈ cmd.spans.raws, raw.rawKind ≠ .span → ∀ item ∈ cmd.collectToken,
    raw.attachment ∈ n.attached ((itemOf cmd.spans item).parentOf raw)

namespace Assigned

variable {v : View T} {layers : T → List Layer} {n n' : Chronicle}

private theorem has_mono {loose loose' : Attachment → Prop} {raw : RawSpan} (h : n.Has loose raw)
    (hattached : ∀ x, n.attached x ⊆ n'.attached x) (hloose : loose raw.attachment → loose' raw.attachment) :
    n'.Has loose' raw := by
  unfold Chronicle.Has at h ⊢
  split_ifs at h ⊢
  · exact hloose h
  · exact hattached raw.parentId h

private theorem lineHas_mono {layer : Layer} {line : SpanLine} (h : LineHas n layer line)
    (hattached : ∀ x, n.attached x ⊆ n'.attached x)
    (hloose : ∀ k, layer.scope = .collector k → n.loose k ⊆ n'.loose k) : LineHas n' layer line where
  bare := h.bare
  attached raw hraw hkind := by
    refine has_mono (h.attached raw hraw hkind) hattached fun hlayer => ?_
    unfold Chronicle.Loose at hlayer ⊢
    cases hsite : layer.site with
    | some site =>
      rw [hsite] at hlayer
      exact hattached site.id hlayer
    | none =>
      cases hscope : layer.scope with
      | guard g => trivial
      | collector k =>
        rw [hsite, hscope] at hlayer
        exact hloose k hscope hlayer

/-- More has been added. -/
private theorem mono (h : Assigned v layers n) (hattached : ∀ x, n.attached x ⊆ n'.attached x)
    (hloose : ∀ t, ∀ layer ∈ layers t, ∀ k, layer.scope = .collector k → n.loose k ⊆ n'.loose k)
    (hkept : ∀ c, v.collected c ≠ none → n.kept c ⊆ n'.kept c) : Assigned v layers n' where
  lines t := by
    have hlines := h.lines t
    have hlayers := hloose t
    generalize layers t = las at hlines hlayers
    generalize (v.spanStack t).spanLines = lines at hlines
    induction hlines with
    | nil => exact .nil
    | cons hline _ ih =>
      rw [List.forall_mem_cons] at hlayers
      exact .cons (lineHas_mono hline hattached hlayers.1) (ih hlayers.2)
  collected c localSpans hc raw hraw hkind :=
    has_mono (h.collected c localSpans hc raw hraw hkind) hattached fun hmem =>
      hkept c (hc ▸ Option.some_ne_none localSpans) hmem
  submitted cmd hcmd raw hraw hkind item hitem := hattached _ (h.submitted cmd hcmd raw hraw hkind item hitem)

private theorem subset_update_append {α : Type} [DecidableEq α] (f : α → List Attachment) (a : α)
    (added : List Attachment)
    (b : α) : f b ⊆ Function.update f a (f a ++ added) b := by
  by_cases hb : b = a
  · subst hb
    rw [Function.update_self]
    exact List.subset_append_left ..
  · rw [Function.update_of_ne hb]
    exact List.Subset.refl _

/-- Something is added to a span. -/
private theorem attach (h : Assigned v layers n) (x : SpanId) (attachments : List Attachment) :
    Assigned v layers (n.attach x attachments) :=
  h.mono (subset_update_append n.attached x attachments) (fun _ _ _ _ _ => List.Subset.refl _)
    fun _ _ => List.Subset.refl _

private theorem mem_attach (n : Chronicle) (x : SpanId) (attachments : List Attachment) :
    attachments ⊆ (n.attach x attachments).attached x := by
  change _ ⊆ Function.update n.attached x _ x
  rw [Function.update_self]
  exact List.subset_append_right ..

private theorem congrSpans (h : Assigned v layers n) (value : Var → Option SpanInner) :
    Assigned { v with inner := value } layers n :=
  ⟨h.lines, h.collected, h.submitted⟩

private theorem submit (h : Assigned v layers n) (spans : SpanSet) (token : CollectToken)
    (hspans : ∀ raw ∈ spans.raws, raw.rawKind ≠ .span → ∀ item ∈ token,
      raw.attachment ∈ n.attached ((itemOf spans item).parentOf raw)) :
    Assigned { v with submitted := v.submitted ++ submission spans token } layers n where
  lines := h.lines
  collected := h.collected
  submitted cmd hcmd := by
    rcases List.mem_append.1 hcmd with hold | hnew
    · exact h.submitted cmd hold
    · rw [mem_submission hnew]
      exact fun raw hraw hkind item hitem => hspans raw hraw hkind item (List.mem_of_mem_filter hitem)

private theorem keep (h : Assigned v layers n) (c : Var) (localSpans : LocalSpansInner)
    (hset : ∀ raw ∈ localSpans.spans, raw.rawKind ≠ .span → n.Has (· ∈ n.kept c) raw) :
    Assigned { v with collected := Function.update v.collected c (some localSpans) } layers n where
  lines := h.lines
  collected := forall_update_some (fun localSpans' heq => by cases heq; exact hset) h.collected
  submitted := h.submitted

variable [DecidableEq T]

/-- The lines of one thread change. -/
private theorem setLines (h : Assigned v layers n) (t : T) {las : List Layer} (stack : LocalSpanStack)
    (hlines : List.Forall₂ (LineHas n) las stack.spanLines) :
    Assigned { v with spanStack := Function.update v.spanStack t stack } (Function.update layers t las) n where
  lines := lines_update h.lines t stack hlines
  collected := h.collected
  submitted := h.submitted

end Assigned

/-! ### Calls -/

namespace Assigned

variable {w w' : World T} {l : Lexical T} {n n' : Chronicle} {t : T}

/-- Notes say nothing of attachments. -/
private theorem congrNotes {v : View T} {layers : T → List Layer} (h : Assigned v layers n)
    (hattached : n'.attached = n.attached) (hloose : n'.loose = n.loose) (hkept : n'.kept = n.kept) :
    Assigned v layers n' :=
  h.mono (fun x => by rw [hattached]; exact List.Subset.refl _)
    (fun _ _ _ k _ => by rw [hloose]; exact List.Subset.refl _) fun c _ => by rw [hkept]; exact List.Subset.refl _

private theorem newSpan {layers : T → List Layer} (h : Assigned w.view layers n) {v : Var} {span : Span}
    (hw : w.newSpan v span = some w') : Assigned w'.view layers n := by
  obtain ⟨-, rfl⟩ := newSpan_eq_some hw
  rw [view_setSpan]
  exact h.congrSpans _

private theorem send_quiet {layers : T → List Layer} (h : Assigned w.view layers n) (t : T) {cmds : List CollectCommand}
    (hquiet : submitSpans cmds = []) : Assigned (w.send t cmds).view layers n := by
  rw [view_send_nil w t hquiet]
  exact h

/-- An attachment is sent for a span. -/
private theorem sendAttachment (h : Assigned w.view l.layers n) (t : T) {span : Span} {cmds : List CollectCommand}
    {attachment : Attachment} (hsubmits : SubmitsTo span cmds attachment) : Assigned (w.send t cmds).view l.layers
      ((span.inner.map SpanInner.site).elim n fun site => n.attach site.id [attachment]) := by
  rcases hsubmits with ⟨hnone, rfl⟩ | ⟨s, raw, hs, -, rfl, rfl⟩
  · rw [hnone]
    exact h.send_quiet t rfl
  · rw [view_send, submitSpans_submitSpans, hs]
    refine (h.attach s.site.id [raw.attachment]).submit (.span raw) _ fun raw' hraw _ item hitem => ?_
    have hparent : (itemOf (.span raw) item).parentOf raw' = s.site.id := (leadsTo_issue s).parents item hitem
    rw [hparent, List.mem_singleton.1 hraw]
    exact mem_attach n s.site.id _ (List.mem_singleton_self _)

/-- The parent of an entry of a set that is given to a span. -/
private theorem has_parentOf {spans : SpanSet} (hset : ∀ raw, spans ≠ .span raw) {token : CollectToken} {site : Site}
    (hlead : LeadsTo token site) {item : CollectTokenItem} (hitem : item ∈ token) {raw : RawSpan}
    (h : n.Has (· ∈ n.attached site.id) raw) :
    raw.attachment ∈ n.attached ((itemOf spans item).parentOf raw) := by
  rw [parentOf_set hset, hlead.parents item hitem]
  unfold Chronicle.Has at h
  split_ifs at h ⊢ <;> exact h

variable [DecidableEq T]

private theorem pushChildSpans (h : Assigned w.view l.layers n) (hagrees : Agrees w l) {v k : Var}
    (hw : w.step (t, .pushChildSpans v k) = some w') :
    Assigned w'.view l.layers (n.step l (t, .pushChildSpans v k)) := by
  obtain ⟨span, hspan, hw⟩ := Option.bind_eq_some_iff.1 hw
  obtain ⟨localSpans, hk, rfl⟩ := Option.map_eq_some_iff.1 hw
  simp only [Chronicle.step, hagrees.site_of_spans hspan]
  unfold Span.pushChildSpans
  cases span.inner with
  | none => exact h.send_quiet t rfl
  | some s =>
    simp only [SpanInner.pushChildSpans, Option.map_some, Option.elim_some]
    have hattach := h.attach s.site.id (n.kept k)
    split
    · exact hattach.send_quiet t rfl
    · rw [view_send, submitSpans_submitSpans]
      refine hattach.submit _ _ fun raw hraw hkind item hitem => ?_
      refine has_parentOf (fun _ heq => by cases heq) (leadsTo_issue s) hitem ?_
      exact has_mono (hattach.collected k localSpans hk raw hraw hkind) (fun _ => List.Subset.refl _)
        fun hmem => mem_attach n s.site.id _ hmem

private theorem dropSpan (h : Assigned w.view l.layers n) (hagrees : Agrees w l) {v : Var} {now : Instant}
    (hw : w.step (t, .dropSpan v now) = some w') : Assigned w'.view l.layers n := by
  obtain ⟨span, hspan, rfl⟩ := Option.map_eq_some_iff.1 hw
  rw [view_send, view_setSpan]
  cases hinner : span.inner with
  | none =>
    have hcmds : submitSpans (span.drop now) = [] := by rw [Span.drop, hinner]; rfl
    rw [hcmds, List.append_nil]
    exact h.congrSpans _
  | some s =>
    have hkind : s.rawSpan.rawKind = .span := hagrees.kinds v s (by rw [World.inner, hspan, Option.bind_some, hinner])
    rw [drop_submitted hinner]
    refine (h.congrSpans _).submit _ s.collectToken fun raw hraw hother => absurd ?_ hother
    rw [List.mem_singleton.1 hraw]
    exact hkind

private theorem stay (h : Assigned w.view l.layers n) :
    Assigned { w.view with spanStack := Function.update w.view.spanStack t (w.spanStack t) } l.layers n := by
  have hsame : Function.update w.view.spanStack t (w.spanStack t) = w.view.spanStack := Function.update_eq_self ..
  rw [hsame]
  exact h

private theorem opened (h : Assigned w.view l.layers n) (hagrees : Agrees w l) {scope : Scope} {site : Option Site}
    (hbare : ∀ k, scope = .collector k → site = none) (token : Option CollectToken) : Assigned { w.view with
      spanStack := Function.update w.view.spanStack t (LocalCollector.new token (w.spanStack t)).2 }
      (l.opened t ⟨scope, site, [], []⟩).layers n := by
  rcases hagrees.opened_cases t ⟨scope, site, [], []⟩ token with ⟨epoch, hlayers, hlines⟩ | ⟨hlayers, hstack⟩
  · rw [hlayers]
    refine h.setLines t _ (hlines ▸ .cons ⟨hbare, fun raw hraw => ?_⟩ (h.lines t))
    cases hraw
  · rw [hlayers, hstack]
    exact h.stay

private theorem setLocalParent (h : Assigned w.view l.layers n) (hagrees : Agrees w l) {g v : Var}
    (hw : w.step (t, .setLocalParent g v) = some w') :
    Assigned w'.view (l.step (t, .setLocalParent g v)).layers n := by
  obtain ⟨span, hspan, hw⟩ := Option.bind_eq_some_iff.1 hw
  simp only at hw
  split at hw
  · cases hw
    unfold Span.attachIntoStack
    simp only [Lexical.step, hagrees.site_of_spans hspan]
    cases span.inner with
    | none => exact h.stay
    | some s => exact h.opened hagrees (fun _ heq => by cases heq) (some s.issueCollectToken)
  · cases hw

private theorem startCollector (h : Assigned w.view l.layers n) (hagrees : Agrees w l) {k : Var}
    (hw : w.step (t, .startCollector k) = some w') :
    Assigned w'.view (l.step (t, .startCollector k)).layers (n.step l (t, .startCollector k)) := by
  simp only [World.step] at hw
  split at hw
  · rename_i hfree
    cases hw
    have hnone : w.handles (.collector k) = none := by
      rw [World.handles, Option.isNone_iff_eq_none.1 hfree, Option.map_none]
    -- no layer is that of the local collector
    have hreset : Assigned w.view l.layers { n with loose := Function.update n.loose k [] } := by
      refine h.mono (fun _ => List.Subset.refl _) (fun u layer hlayer k' hscope => ?_) fun _ _ => List.Subset.refl _
      have hne : k' ≠ k := by
        rintro rfl
        obtain ⟨handle, howner⟩ := hagrees.placed.owner hlayer
        rw [hscope, hnone] at howner
        cases howner
      dsimp only
      rw [Function.update_of_ne hne]
      exact List.Subset.refl _
    exact hreset.opened hagrees (fun _ _ => rfl) none
  · cases hw

/-- The top line is taken off. -/
private theorem pop (h : Assigned w.view l.layers n) {scope : Scope} {layer : Layer} {rest : List Layer}
    {line : SpanLine}
    {lines : List SpanLine} (htop : Agrees.Innermost w l t scope layer rest line lines) :
    Assigned { w.view with spanStack := Function.update w.view.spanStack t (Agrees.popped w t lines) }
      (l.setLayers t rest).layers n ∧ LineHas n layer line :=
  ⟨h.setLines t _ (lines_top h.lines htop.layers htop.lines).2, (lines_top h.lines htop.layers htop.lines).1⟩

private theorem dropGuard (h : Assigned w.view l.layers n) (hagrees : Agrees w l) {g : Var} {now : Instant}
    (horder : l.InOrder (t, .dropGuard g now)) (hw : w.step (t, .dropGuard g now) = some w') :
    Assigned w'.view (l.step (t, .dropGuard g now)).layers n := by
  rcases hagrees.dropGuard_cases horder hw with ⟨layer, rest, line, lines, htop, rfl⟩ | ⟨hidle, rfl⟩
  · simp only [Lexical.step, htop.closing]
    obtain ⟨hpop, hline⟩ := h.pop htop
    have htoken := htop.ok.token
    cases hsite : layer.site with
    | none =>
      rw [hsite] at htoken
      cases hcollect : line.collectToken with
      | some token => rw [hcollect] at htoken; cases htoken
      | none => exact send_quiet hpop t rfl
    | some site =>
      rw [hsite] at htoken
      cases hcollect : line.collectToken with
      | none => rw [hcollect] at htoken; cases htoken
      | some token =>
        rw [hcollect] at htoken
        have hlead : LeadsTo token site := by cases htoken; assumption
        rw [view_send, Option.elim_some, submitSpans_submitSpans]
        refine hpop.submit _ token fun raw hraw hkind item hitem => ?_
        refine has_parentOf (fun _ heq => by cases heq) hlead hitem ?_
        refine has_mono (hline.attached raw hraw hkind) (fun _ => List.Subset.refl _) fun hloose => ?_
        rwa [Chronicle.Loose, hsite] at hloose
  · simp only [Lexical.step, hidle.closing]
    exact send_quiet h.stay t rfl

theorem collect (h : Assigned w.view l.layers n) (hagrees : Agrees w l) {k c : Var} {now : Instant}
    (horder : l.InOrder (t, .collect k c now)) (hw : w.step (t, .collect k c now) = some w') :
    Assigned w'.view (l.step (t, .collect k c now)).layers (n.step l (t, .collect k c now)) := by
  obtain ⟨hfree, hcases⟩ := hagrees.collect_cases horder hw
  -- what waits in the local collector is kept with the collected spans
  have hkept : Assigned w.view l.layers (n.step l (t, .collect k c now)) := by
    refine h.mono (fun _ => List.Subset.refl _) (fun _ _ _ _ _ => List.Subset.refl _) fun c' hc => ?_
    have hne : c' ≠ c := fun heq => hc (heq ▸ hfree)
    change n.kept c' ⊆ Function.update n.kept c _ c'
    rw [Function.update_of_ne hne]
    exact List.Subset.refl _
  rcases hcases with ⟨layer, rest, line, lines, htop, rfl⟩ | ⟨hidle, rfl⟩
  · simp only [Lexical.step, htop.closing]
    obtain ⟨hpop, hline⟩ := hkept.pop htop
    refine hpop.keep c ⟨line.spanQueue.spanQueue, now⟩ fun raw hraw hkind => ?_
    refine has_mono (hline.attached raw hraw hkind) (fun _ => List.Subset.refl _) fun hloose => ?_
    rw [Chronicle.Loose, hline.bare k htop.scope, htop.scope] at hloose
    change raw.attachment ∈ Function.update n.kept c (n.loose k) c
    rw [Function.update_self]
    exact hloose
  · simp only [Lexical.step, hidle.closing]
    exact hkept.stay.keep c ⟨[], now⟩ fun raw hraw => by cases hraw

private theorem dropCollector (h : Assigned w.view l.layers n) (hagrees : Agrees w l) {k : Var}
    (horder : l.InOrder (t, .dropCollector k)) (hw : w.step (t, .dropCollector k) = some w') :
    Assigned w'.view (l.step (t, .dropCollector k)).layers n := by
  rcases hagrees.dropCollector_cases horder hw with ⟨layer, rest, line, lines, htop, rfl⟩ | ⟨hidle, rfl⟩
  · simp only [Lexical.step, htop.closing]
    exact (h.pop htop).1
  · simp only [Lexical.step, hidle.closing]
    exact h.stay

/-! Local spans. -/

omit [DecidableEq T] in
/-- The layer and the line change, but for what is attached. -/
private theorem lineHas_same {layer layer' : Layer} {line line' : SpanLine} (h : LineHas n layer line)
    (hscope : layer'.scope = layer.scope) (hsite : layer'.site = layer.site)
    (hraws : ∀ raw ∈ line'.spanQueue.spanQueue, raw.rawKind ≠ .span → raw ∈ line.spanQueue.spanQueue) :
    LineHas n layer' line' where
  bare k hk := hsite.trans (h.bare k (hscope ▸ hk))
  attached raw hraw hkind := by
    have hloose : n.Loose layer' = n.Loose layer := by
      unfold Chronicle.Loose
      rw [hscope, hsite]
    rw [hloose]
    exact h.attached raw (hraws raw hraw hkind) hkind

private theorem setTop (h : Assigned w.view l.layers n) {layer layer' : Layer} {rest : List Layer}
    {line line' : SpanLine}
    {lines : List SpanLine} (hlayers : l.layers t = layer :: rest) (hlines : (w.spanStack t).spanLines = line :: lines)
    (hline : LineHas n layer line → LineHas n layer' line') :
    Assigned { w.view with
      spanStack := Function.update w.view.spanStack t (Agrees.popped w t (line' :: lines)) }
      (l.setLayers t (layer' :: rest)).layers n :=
  h.setLines t _ (.cons (hline (lines_top h.lines hlayers hlines).1) (lines_top h.lines hlayers hlines).2)

private theorem enterLocal (h : Assigned w.view l.layers n) (hagrees : Agrees w l) {v : Var} {name : String}
    {id : SpanId}
    {now : Instant} (hw : w.step (t, .enterLocal v name id now) = some w') :
    Assigned w'.view (l.step (t, .enterLocal v name id now)).layers n := by
  obtain ⟨line, lines, hlines, -, -, -, rfl⟩ := step_enterLocal hw
  obtain ⟨layer, rest, hlayers, -, -⟩ := hagrees.placed.top_of_line hlines
  simp only [Lexical.step, hlayers]
  refine h.setTop hlayers hlines fun hline => lineHas_same hline rfl rfl fun raw hraw hkind => ?_
  refine (List.mem_append.1 hraw).resolve_right fun hnew => hkind ?_
  rw [List.mem_singleton.1 hnew]
  rfl

omit [DecidableEq T] in
/-- An entry that is a span is changed. -/
private theorem mem_of_set {raws : List RawSpan} {i : Nat} {raw raw' : RawSpan} (hmem : raw ∈ raws.set i raw')
    (hkind' : raw'.rawKind = .span) (hkind : raw.rawKind ≠ .span) : raw ∈ raws :=
  (List.mem_or_eq_of_mem_set hmem).resolve_right fun heq => hkind (heq ▸ hkind')

private theorem dropLocal (h : Assigned w.view l.layers n) (hagrees : Agrees w l) {v : Var} {now : Instant}
    (horder : l.InOrder (t, .dropLocal v now)) (hw : w.step (t, .dropLocal v now) = some w') :
    Assigned w'.view (l.step (t, .dropLocal v now)).layers n := by
  obtain ⟨layer, rest, line, lines, i, raw, locals, hopen, -, rfl⟩ := hagrees.dropLocal_cases horder hw
  simp only [Lexical.step, hopen.layers]
  refine h.setTop hopen.layers hopen.lines fun hline => lineHas_same hline rfl rfl fun raw' hraw hkind => ?_
  exact mem_of_set hraw hopen.kind hkind

private theorem localWithProperties (h : Assigned w.view l.layers n) (htold : Told w.view l.layers n)
    (hagrees : Agrees w l)
    {v : Var} {properties : Properties} (hcurrent : l.Current (t, .localWithProperties v properties))
    (hw : w.step (t, .localWithProperties v properties) = some w') : Assigned w'.view l.layers n := by
  obtain ⟨layer, rest, line, lines, i, raw, hopen, -, rfl⟩ := htold.localWithProperties_cases hagrees hcurrent hw
  have hline : LineHas n layer line → LineHas n layer (Told.extended line i raw properties) := fun hline =>
    lineHas_same hline rfl rfl fun raw' hraw hkind => mem_of_set hraw hopen.kind hkind
  have hset := h.setTop hopen.layers hopen.lines hline
  rwa [Lexical.setLayers, ← hopen.layers, Function.update_eq_self] at hset

omit [DecidableEq T] in
/-- What a thread adds has been added to the span it names, or waits. -/
private theorem has_attachIn {layer : Layer} {line : SpanLine} (hregister : line.spanQueue.nextParentId = layer.current)
    (hcurrent : layer.current ≠ some default) {raw : RawSpan} (hparent : raw.parentId = line.spanQueue.parentId) :
    (n.attachIn layer raw.attachment).Has ((n.attachIn layer raw.attachment).Loose layer) raw := by
  unfold Chronicle.attachIn Chronicle.Has Chronicle.Loose Layer.target
  rw [hparent, SpanQueue.parentId, hregister]
  cases hx : layer.current with
  | some x =>
    have hne : x ≠ default := fun heq => hcurrent (hx.trans (congrArg some heq))
    rw [Option.getD_some, if_neg hne]
    exact mem_attach n x _ (List.mem_singleton_self _)
  | none =>
    rw [Option.getD_none, if_pos rfl, Option.none_or]
    cases layer.site with
    | some site => exact mem_attach n site.id _ (List.mem_singleton_self _)
    | none =>
      cases layer.scope with
      | guard g => trivial
      | collector k =>
        change raw.attachment ∈ Function.update n.loose k _ k
        rw [Function.update_self]
        exact List.mem_append_right _ (List.mem_singleton_self _)

omit [DecidableEq T] in
private theorem subset_attachIn (n : Chronicle) (layer : Layer) (attachment : Attachment) :
    (∀ x, n.attached x ⊆ (n.attachIn layer attachment).attached x) ∧
      (∀ k, n.loose k ⊆ (n.attachIn layer attachment).loose k) ∧ (n.attachIn layer attachment).kept = n.kept := by
  unfold Chronicle.attachIn
  split
  · exact ⟨subset_update_append n.attached _ _, fun _ => List.Subset.refl _, rfl⟩
  · exact ⟨fun _ => List.Subset.refl _, subset_update_append n.loose _ _, rfl⟩
  · exact ⟨fun _ => List.Subset.refl _, fun _ => List.Subset.refl _, rfl⟩

/-- A thread adds something. -/
private theorem add (h : Assigned w.view l.layers n) (hagrees : Agrees w l) {stack : LocalSpanStack}
    {attachment : Attachment}
    (hadds : Adds (w.spanStack t) stack attachment) :
    Assigned { w.view with spanStack := Function.update w.view.spanStack t stack } l.layers
      ((l.layers t).head?.elim n fun layer => n.attachIn layer attachment) := by
  have hmono : Assigned w.view l.layers ((l.layers t).head?.elim n fun layer => n.attachIn layer attachment) := by
    cases (l.layers t).head? with
    | none => exact h
    | some layer =>
      obtain ⟨hattached, hloose, hkept⟩ := subset_attachIn n layer attachment
      refine h.mono hattached (fun _ _ _ k _ => hloose k) fun c _ => ?_
      rw [Option.elim_some, hkept]
      exact List.Subset.refl _
  rcases hadds with rfl | ⟨line, lines, raw, hlines, -, -, rfl, hparent, rfl⟩
  · exact hmono.stay
  · obtain ⟨layer, rest, hlayers, hok, -⟩ := hagrees.placed.top_of_line hlines
    have hnow : ((l.layers t).head?.elim n fun layer => n.attachIn layer raw.attachment) =
        n.attachIn layer raw.attachment := by rw [hlayers]; rfl
    rw [hnow] at hmono ⊢
    obtain ⟨hline, hrest⟩ := lines_top hmono.lines hlayers hlines
    have hgrown : LineHas (n.attachIn layer raw.attachment) layer (line.grow [raw]) := by
      refine ⟨hline.bare, fun raw' hraw hkind => ?_⟩
      rcases List.mem_append.1 hraw with hold | hnew
      · exact hline.attached raw' hold hkind
      · rw [List.mem_singleton.1 hnew]
        exact has_attachIn hok.register hok.current_ne hparent
    have hset := hmono.setLines t { w.spanStack t with spanLines := line.grow [raw] :: lines } (.cons hgrown hrest)
    rwa [← hlayers, Function.update_eq_self] at hset

/-- A call in order keeps what is attached assigned. -/
theorem step (h : Assigned w.view l.layers n) (htold : Told w.view l.layers n) (hagrees : Agrees w l) {a : T × Op}
    (horder : l.InOrder a) (hcurrent : l.Current a) (hw : w.step a = some w') :
    Assigned w'.view (l.step a).layers (n.step l a) := by
  obtain ⟨t, op⟩ := a
  cases op with
  | setReporter =>
    cases hw
    exact h
  | root v name parent id now =>
    obtain ⟨w₁, hw₁, rfl⟩ := Option.map_eq_some_iff.1 hw
    obtain ⟨hquiet, -⟩ := Agrees.root_cases w.reporterReady w.nextCollectId name parent id now
    have hsame : Assigned (World.view { w with
        nextCollectId := (Span.root w.reporterReady w.nextCollectId name parent id now).2.1 }) l.layers n := h
    rw [Told.layers_root]
    exact ((hsame.newSpan hw₁).send_quiet t hquiet).congrNotes rfl rfl rfl
  | enterWithParent v name parent id now =>
    obtain ⟨span, -, hw⟩ := Option.bind_eq_some_iff.1 hw
    exact (h.newSpan hw).congrNotes rfl rfl rfl
  | enterWithParents v name parents id now =>
    obtain ⟨spans, -, hw⟩ := Option.bind_eq_some_iff.1 hw
    exact (h.newSpan hw).congrNotes rfl rfl rfl
  | enterWithLocalParent v name id now => exact (h.newSpan hw).congrNotes rfl rfl rfl
  | withProperties v properties =>
    obtain ⟨span, -, rfl⟩ := Option.map_eq_some_iff.1 hw
    rw [view_setSpan]
    simp only [Chronicle.step]
    cases l.spans v <;> exact (h.congrSpans _).congrNotes rfl rfl rfl
  | addProperties v properties id now =>
    obtain ⟨span, hspan, rfl⟩ := Option.map_eq_some_iff.1 hw
    have hsent := h.sendAttachment t (submits_addProperties span properties id now)
    rwa [← hagrees.site_of_spans hspan] at hsent
  | addEvent v event id now =>
    obtain ⟨span, hspan, rfl⟩ := Option.map_eq_some_iff.1 hw
    have hsent := h.sendAttachment t (submits_addEvent span event id now)
    rwa [← hagrees.site_of_spans hspan] at hsent
  | pushChildSpans v k => exact h.pushChildSpans hagrees hw
  | cancel v =>
    obtain ⟨span, -, rfl⟩ := Option.map_eq_some_iff.1 hw
    exact h.send_quiet t (Agrees.submitSpans_cancel span)
  | dropSpan v now =>
    simp only [Chronicle.step]
    cases l.spans v <;> exact (h.dropSpan hagrees hw).congrNotes rfl rfl rfl
  | setLocalParent g v => exact h.setLocalParent hagrees hw
  | startCollector k => exact h.startCollector hagrees hw
  | dropGuard g now => exact h.dropGuard hagrees horder hw
  | collect k c now => exact h.collect hagrees horder hw
  | dropCollector k => exact h.dropCollector hagrees horder hw
  | enterLocal v name id now => exact (h.enterLocal hagrees hw).congrNotes rfl rfl rfl
  | dropLocal v now =>
    simp only [Chronicle.step]
    cases l.openLocal t v <;> exact (h.dropLocal hagrees horder hw).congrNotes rfl rfl rfl
  | localWithProperties v properties =>
    simp only [Chronicle.step]
    cases l.openLocal t v <;> exact (h.localWithProperties htold hagrees hcurrent hw).congrNotes rfl rfl rfl
  | localAddEvent event id now =>
    cases hw
    exact h.add hagrees (adds_addEvent ..)
  | localAddProperties properties id =>
    cases hw
    exact h.add hagrees (adds_addProperties ..)

end Assigned

/-! ### Runs -/

section Runs

variable [DecidableEq T] {w w' : World T} {drawn : List SpanId}

/-- The world beside the meaning of the calls and what they say. -/
structure Recounted (drawn : List SpanId) (w : World T) (s : Lexical T × Chronicle) : Prop where
  owned : Owned drawn w.view
  agrees : Agrees w s.1
  told : Told w.view s.1.layers s.2
  assigned : Assigned w.view s.1.layers s.2

private theorem Recounted.init : Recounted [] (World.init : World T) (Lexical.init, Chronicle.init) where
  owned := Owned.init
  agrees := Agrees.init
  told := ⟨(fun h s hs => by cases hs), fun t => .nil, (fun c localSpans hc => by cases hc),
    (fun cmd hcmd => by cases hcmd), fun cmd hcmd => by cases hcmd⟩
  assigned := ⟨fun t => .nil, (fun c localSpans hc => by cases hc), fun cmd hcmd => by cases hcmd⟩

private theorem Recounted.run {s : Lexical T × Chronicle} {as : List (T × Op)} (h : Recounted drawn w s)
    (hfresh : (drawn ++ drawnIds as).Nodup) (hids : default ∉ drawnIds as)
    (horder : Interleavings.Along Lexical.step Lexical.InOrder s.1 as)
    (hcurrent : Interleavings.Along Lexical.step Lexical.Current s.1 as)
    (hclock : ∀ a ∈ as, a.2.endsAt ≠ some Instant.zero) (hrun : Steps.run World.step w as = some w') :
    Recounted (drawn ++ drawnIds as) w' (as.foldl (fun s a => (s.1.step a, s.2.step s.1 a)) s) := by
  induction as generalizing drawn w s with
  | nil =>
    cases hrun
    simpa [drawnIds] using h
  | cons a as ih =>
    obtain ⟨w₁, hw, hrun⟩ := Option.bind_eq_some_iff.1 hrun
    obtain ⟨hnew, hfresh, hids⟩ := fresh_of_cons hfresh hids
    rw [drawnIds_cons, ← List.append_assoc]
    rw [List.forall_mem_cons] at hclock
    have hstep : Recounted (drawn ++ a.2.id?.toList) w₁ (s.1.step a, s.2.step s.1 a) :=
      ⟨h.owned.step (step_effect hw) fun x hx => (hnew x hx).1,
        h.agrees.step horder.1 (fun x hx => (hnew x hx).2) hw,
        h.told.step h.owned h.agrees (fun x hx => (hnew x hx).1) horder.1 hcurrent.1 hclock.1 hw,
        h.assigned.step h.told h.agrees horder.1 hcurrent.1 hw⟩
    exact ih hstep hfresh hids horder.2 hcurrent.2 hclock.2 hrun

end Runs

/-! ### Reports -/

/-- The item is one of a submission. -/
def Submitted (cmds : List SubmitSpans) (i : Item) : Prop :=
  ∃ cmd ∈ cmds, ∃ item ∈ cmd.collectToken, i = itemOf cmd.spans item

private theorem recordedBy_reported {config : Config} {rounds : List Round} {cmds : List CollectCommand}
    (hreceived : received rounds ⊆ cmds) {r : SpanRecord}
    (hr : r ∈ ((GlobalCollector.start config).handleRounds rounds).reported.flatten) :
    RecordedBy (Submitted (submitSpans cmds)) (· ∈ rounds.map Round.anchor) r := by
  obtain ⟨c, hr⟩ := exists_reportedFor hr
  rw [reportedFor_eq] at hr
  refine recordedBy_traceOut (fun t ht => by cases ht) (fun round hround => ⟨fun i hi => ?_, ?_⟩) r hr
  · obtain ⟨cmd, hcmd, item, hitem, -, rfl⟩ := mem_itemsFor.1 hi
    exact ⟨cmd, List.filterMap_subset _ hreceived (mem_submitSpans_received hround hcmd), item, hitem, rfl⟩
  · exact List.mem_map_of_mem hround

/-- A record of submitted raw spans is what is said of its span. -/
private theorem tells_of_recordedBy {v : View T} {layers : T → List Layer} {n : Chronicle} (htold : Told v layers n)
    (hassigned : Assigned v layers n) {anchors : List Anchor} {r : SpanRecord}
    (h : RecordedBy (Submitted v.submitted) (· ∈ anchors) r) : n.Tells anchors r := by
  obtain ⟨i, anchor, raw, items, ⟨cmd, hcmd, item, hitem, rfl⟩, hanchor, hraw, hkind, rfl, hitems⟩ := h
  refine ⟨raw.note (some (cmd.spans.endOf raw)), cmd.spans.endOf raw, anchor, items, ?_, rfl, hanchor, ?_, ?_⟩
  · rw [mount_spanId]
    exact htold.submitted cmd hcmd raw hraw hkind
  · rw [mount_eq, mount_eq]
    rfl
  · intro a ha
    obtain ⟨i', anchor', ⟨cmd', hcmd', item', hitem', rfl⟩, hanchor', hattached⟩ := hitems a ha
    obtain ⟨raw', hraw', heq⟩ := List.mem_map.1 hattached
    obtain ⟨hmem, hother⟩ := List.mem_filter.1 hraw'
    obtain ⟨hparent, rfl⟩ := Prod.mk.inj heq
    have hadded := hassigned.submitted cmd' hcmd' raw' hmem (of_decide_eq_true hother) item' hitem'
    rw [hparent] at hadded
    rw [mount_spanId]
    exact ⟨raw'.attachment, hadded, anchor', hanchor', raw'.dangling_eq anchor'⟩

/-- In any interleaving of threads each of which drops in order the guards, local collectors and local spans that it has
made: every record that the collector reports, from whatever of the commands it has received in whatever rounds, is what
the calls have said of the span, its name, begin, end and properties, with events and properties mounted on it that have
been added to this span and no other. -/
theorem reported_told {T : Type} [DecidableEq T] {w : World T} {as : List (T × Op)}
    (hrun : Steps.run World.step World.init as = some w) (hfresh : FreshIds as) (hnested : Nested as)
    (hcurrent : Interleavings.Along Lexical.step Lexical.Current Lexical.init as)
    (hclock : ∀ a ∈ as, a.2.endsAt ≠ some Instant.zero) {rounds : List Round} (hreceived : received rounds ⊆ w.commands)
    {config : Config} {r : SpanRecord}
    (hr : r ∈ ((GlobalCollector.start config).handleRounds rounds).reported.flatten) :
    (Chronicle.run as).Tells (rounds.map Round.anchor) r := by
  have horder := ordered_of_nested hrun hfresh.nonzero hnested
  have hrecounted := Recounted.init.run hfresh.nodup hfresh.nonzero horder hcurrent hclock hrun
  exact tells_of_recordedBy hrecounted.told hrecounted.assigned (recordedBy_reported hreceived hr)

/-- The thread `1` works for the root of the thread `0`. -/
def toldProgram : List (Nat × Op) := [
  (0, .setReporter),
  (0, .root 0 "root" ⟨⟨1⟩, ⟨9⟩, true⟩ ⟨1⟩ ⟨10⟩),
  (1, .setLocalParent 0 0),
  (1, .enterLocal 0 "work" ⟨2⟩ ⟨11⟩),
  (0, .withProperties 0 [("user", "7")]),
  (1, .localWithProperties 0 [("size", "3")]),
  (1, .localAddEvent ⟨"half", none⟩ ⟨3⟩ ⟨12⟩),
  (1, .dropLocal 0 ⟨13⟩),
  (1, .localAddProperties [("done", "yes")] ⟨4⟩),
  (1, .dropGuard 0 ⟨14⟩),
  (0, .addEvent 0 ⟨"end", none⟩ ⟨5⟩ ⟨15⟩),
  (0, .dropSpan 0 ⟨16⟩)]

def toldWorld : World Nat := (Steps.run World.step World.init toldProgram).getD World.init

def workRecord : SpanRecord where
  traceId := ⟨1⟩
  spanId := ⟨2⟩
  parentId := ⟨1⟩
  beginTimeUnixNs := 11
  durationNs := 2
  name := "work"
  properties := [("size", "3")]
  events := [⟨"half", 12, []⟩]

theorem reported_told_work : (Chronicle.run toldProgram).Tells [fun i => i.ticks] workRecord := by
  have hcurrent : Interleavings.Along Lexical.step Lexical.Current Lexical.init toldProgram :=
    ⟨trivial, trivial, trivial, trivial, trivial, rfl, trivial, trivial, trivial, trivial, trivial, trivial, trivial⟩
  have hreceived : received [⟨toldWorld.commands, fun i => i.ticks, .stored⟩] ⊆ toldWorld.commands := by
    rw [received, List.flatMap_singleton]
    exact List.Subset.refl _
  have hfresh : FreshIds toldProgram := ⟨by decide, by decide⟩
  have hreported : workRecord ∈ ((GlobalCollector.start Config.default).handleRounds
      [⟨toldWorld.commands, fun i => i.ticks, .stored⟩]).reported.flatten := by decide
  exact reported_told (w := toldWorld) rfl hfresh (by decide) hcurrent (by decide) hreceived hreported

end Fastrace
