import Fastrace.Chronicle

/-!
# Raw spans are as noted

Wherever a raw span is, in a variable, in a line, among collected local spans or in a submission, the chronicle has its
name, its begin and its properties, and its end unless it is open (`Told`).  A call that changes a raw span changes the
note of its id, and as ids are fresh no other raw span has it: the raw span is taken from its place, the note changed
(`Told.off`), and the raw span put back.
-/

namespace Fastrace

variable {T : Type}

/-! ### Raw spans and notes -/

def RawSpan.note (raw : RawSpan) (ended : Option Instant) : Note where
  name := raw.name
  beginInstant := raw.beginInstant
  properties := raw.properties.getD []
  endInstant := ended

/-- What a raw span attaches that is no span. -/
def RawSpan.attachment (raw : RawSpan) : Attachment :=
  match raw.rawKind with
  | .event => .event ⟨raw.name, raw.properties⟩ raw.beginInstant
  | _ => .properties (raw.properties.getD [])

theorem RawSpan.dangling_eq (anchor : Anchor) (raw : RawSpan) : raw.dangling anchor = raw.attachment.item anchor := by
  unfold dangling attachment
  cases raw.rawKind <;> rfl

/-- The raw spans have ended as noted; `end_instant` is not the zero instant, for which the end of the set stands. -/
def SetNoted (n : Chronicle) (raws : List RawSpan) : Prop :=
  ∀ raw ∈ raws, raw.rawKind = .span →
    n.notes raw.id = some (raw.note (some raw.endInstant)) ∧ raw.endInstant ≠ Instant.zero

/-- The raw spans of a line are as noted, those of the open local spans without an end. -/
structure LineNoted (n : Chronicle) (layer : Layer) (line : SpanLine) : Prop where
  sampled : line.spanQueue.spanQueue ≠ [] → line.isSampled = true
  nodup : (layer.locals.map Prod.snd).Nodup
  opened : ∀ raw ∈ line.spanQueue.spanQueue, raw.rawKind = .span → raw.id ∈ layer.locals.map Prod.snd →
    n.notes raw.id = some (raw.note none)
  ended : SetNoted n (line.spanQueue.spanQueue.filter (·.id ∉ layer.locals.map Prod.snd))

/-- All raw spans are as noted. -/
structure Told (v : View T) (layers : T → List Layer) (n : Chronicle) : Prop where
  spans : ∀ h s, v.inner h = some s → n.notes s.rawSpan.id = some (s.rawSpan.note none)
  lines : ∀ t, List.Forall₂ (LineNoted n) (layers t) (v.spanStack t).spanLines
  collected : ∀ c localSpans, v.collected c = some localSpans → SetNoted n localSpans.spans
  submitted : ∀ cmd ∈ v.submitted, ∀ raw ∈ cmd.spans.raws, raw.rawKind = .span →
    n.notes raw.id = some (raw.note (some (cmd.spans.endOf raw)))
  shared : ∀ cmd ∈ v.submitted, ∀ localSpans, cmd.spans = .sharedLocalSpans localSpans →
    ∃ c, v.collected c = some localSpans

/-! ### Updates -/

theorem forall_update_some {α β : Type} [DecidableEq α] {f : α → Option β} {a : α} {value : Option β}
    {P : α → β → Prop} (hvalue : ∀ b, value = some b → P a b) (h : ∀ a b, f a = some b → P a b) (a' : α) (b : β)
    (hb : Function.update f a value a' = some b) : P a' b := by
  by_cases heq : a' = a
  · subst heq
    rw [Function.update_self] at hb
    exact hvalue b hb
  · rw [Function.update_of_ne heq] at hb
    exact h a' b hb

section Lines

variable {R : Layer → SpanLine → Prop} {layers : T → List Layer} {spanStack : T → LocalSpanStack}

/-- The layers of a thread and its lines, innermost first. -/
theorem lines_top (h : ∀ t, List.Forall₂ R (layers t) (spanStack t).spanLines) {t : T} {layer : Layer}
    {rest : List Layer} {line : SpanLine} {lines : List SpanLine} (hlayers : layers t = layer :: rest)
    (hlines : (spanStack t).spanLines = line :: lines) : R layer line ∧ List.Forall₂ R rest lines := by
  have hall := h t
  rw [hlayers, hlines] at hall
  exact List.forall₂_cons.1 hall

/-- The lines of one thread change. -/
theorem lines_update [DecidableEq T] (h : ∀ t, List.Forall₂ R (layers t) (spanStack t).spanLines) (t : T)
    {las : List Layer} (stack : LocalSpanStack) (hlines : List.Forall₂ R las stack.spanLines) (u : T) :
    List.Forall₂ R (Function.update layers t las u) (Function.update spanStack t stack u).spanLines := by
  by_cases hu : u = t
  · subst hu
    rw [Function.update_self, Function.update_self]
    exact hlines
  · rw [Function.update_of_ne hu, Function.update_of_ne hu]
    exact h u

end Lines

/-! ### Notes of other spans -/

section Off

variable {n n' : Chronicle} {x : SpanId}

/-- The chronicles differ in the note of `x` alone. -/
def Chronicle.Off (n n' : Chronicle) (x : SpanId) : Prop := ∀ y, y ≠ x → n'.notes y = n.notes y

private theorem off_start (n : Chronicle) (x : SpanId) (name : String) (now : Instant) : n.Off (n.start x name now) x :=
  fun _ hy => Function.update_of_ne hy ..

private theorem off_amend (n : Chronicle) (x : SpanId) (f : Note → Note) : n.Off (n.amend x f) x :=
  fun _ hy => Function.update_of_ne hy ..

private theorem SetNoted.off {raws : List RawSpan} (h : SetNoted n raws) (hoff : n.Off n' x)
    (hx : x ∉ raws.map RawSpan.id) :
    SetNoted n' raws := by
  intro raw hraw hkind
  rw [hoff raw.id fun heq => hx (heq ▸ List.mem_map_of_mem hraw)]
  exact h raw hraw hkind

private theorem LineNoted.off {layer : Layer} {line : SpanLine} (h : LineNoted n layer line) (hoff : n.Off n' x)
    (hx : x ∉ line.spanQueue.ids) : LineNoted n' layer line :=
  { h with
    opened := fun raw hraw hkind hopen => by
      rw [hoff raw.id fun heq => hx (heq ▸ List.mem_map_of_mem hraw)]
      exact h.opened raw hraw hkind hopen
    ended := h.ended.off hoff fun hmem => hx ((List.filter_sublist.map _).subset hmem) }

private theorem linesNoted_off {layers : List Layer} {lines : List SpanLine}
    (h : List.Forall₂ (LineNoted n) layers lines)
    (hoff : n.Off n' x) (hx : x ∉ lines.flatMap fun line => line.spanQueue.ids) :
    List.Forall₂ (LineNoted n') layers lines := by
  induction h with
  | nil => exact .nil
  | cons hline _ ih =>
    rw [List.flatMap_cons, List.mem_append, not_or] at hx
    exact .cons (hline.off hoff hx.1) (ih hx.2)

end Off

namespace Told

variable {v : View T} {layers : T → List Layer} {n n' : Chronicle} {x : SpanId}

/-- The note of an id that no raw span has may change. -/
theorem off (h : Told v layers n) (hoff : n.Off n' x) (hfree : ∀ p, x ∉ v.holds p) : Told v layers n' where
  spans h' s hs := by
    rw [hoff s.rawSpan.id fun heq => hfree (.span h') (by simp [View.holds, hs, heq])]
    exact h.spans h' s hs
  lines t := linesNoted_off (h.lines t) hoff (hfree (.stack t))
  collected c localSpans hc := by
    refine (h.collected c localSpans hc).off hoff fun hx => hfree (.collected c) ?_
    simpa [View.holds, LocalSpansInner.ids, hc] using hx
  submitted cmd hcmd raw hraw hkind := by
    rw [hoff raw.id ?_]
    · exact h.submitted cmd hcmd raw hraw hkind
    rintro rfl
    cases hspans : cmd.spans with
    | sharedLocalSpans localSpans =>
      obtain ⟨c, hc⟩ := h.shared cmd hcmd localSpans hspans
      refine hfree (.collected c) ?_
      rw [hspans] at hraw
      simpa [View.holds, LocalSpansInner.ids, SpanSet.raws, hc] using List.mem_map_of_mem (f := RawSpan.id) hraw
    | span raw' =>
      refine hfree .submitted (List.mem_flatMap.2 ⟨cmd, hcmd, ?_⟩)
      rw [SubmitSpans.ownIds, hspans]
      rw [hspans] at hraw
      exact List.mem_map_of_mem (f := RawSpan.id) hraw
    | localSpansInner localSpans =>
      refine hfree .submitted (List.mem_flatMap.2 ⟨cmd, hcmd, ?_⟩)
      rw [SubmitSpans.ownIds, hspans]
      rw [hspans] at hraw
      exact List.mem_map_of_mem (f := RawSpan.id) hraw
  shared := h.shared

/-! ### Places -/

/-- What is said of spans does not depend on what is said of attachments. -/
private theorem congr (h : Told v layers n) (hnotes : n'.notes = n.notes) : Told v layers n' where
  spans := by rw [hnotes]; exact h.spans
  lines t := (h.lines t).imp fun layer line hline =>
    ⟨hline.sampled, hline.nodup, by rw [hnotes]; exact hline.opened,
      by unfold SetNoted; rw [hnotes]; exact hline.ended⟩
  collected := by unfold SetNoted; rw [hnotes]; exact h.collected
  submitted := by rw [hnotes]; exact h.submitted
  shared := h.shared

/-- Another span, or none, comes to a variable. -/
private theorem setSpan (h : Told v layers n) (h' : Var) (value : Option SpanInner)
    (hvalue : ∀ s, value = some s → n.notes s.rawSpan.id = some (s.rawSpan.note none)) :
    Told { v with inner := Function.update v.inner h' value } layers n where
  spans := forall_update_some hvalue h.spans
  lines := h.lines
  collected := h.collected
  submitted := h.submitted
  shared := h.shared

private theorem submit (h : Told v layers n) {spans : SpanSet} (token : CollectToken)
    (hspans : ∀ raw ∈ spans.raws, raw.rawKind = .span → n.notes raw.id = some (raw.note (some (spans.endOf raw))))
    (hshared : ∀ localSpans, spans = .sharedLocalSpans localSpans → ∃ c, v.collected c = some localSpans) :
    Told { v with submitted := v.submitted ++ submission spans token } layers n where
  spans := h.spans
  lines := h.lines
  collected := h.collected
  submitted cmd hcmd := by
    rcases List.mem_append.1 hcmd with hold | hnew
    · exact h.submitted cmd hold
    · rw [mem_submission hnew]
      exact hspans
  shared cmd hcmd := by
    rcases List.mem_append.1 hcmd with hold | hnew
    · exact h.shared cmd hold
    · rw [mem_submission hnew]
      exact hshared

private theorem keep (h : Told v layers n) {c : Var} (hfree : v.collected c = none) (localSpans : LocalSpansInner)
    (hset : SetNoted n localSpans.spans) :
    Told { v with collected := Function.update v.collected c (some localSpans) } layers n where
  spans := h.spans
  lines := h.lines
  collected := forall_update_some (fun localSpans' heq => by cases heq; exact hset) h.collected
  submitted := h.submitted
  shared cmd hcmd localSpans' hspans := by
    obtain ⟨c', hc⟩ := h.shared cmd hcmd localSpans' hspans
    have hne : c' ≠ c := fun heq => by rw [heq, hfree] at hc; cases hc
    exact ⟨c', (Function.update_of_ne hne ..).trans hc⟩

variable [DecidableEq T]

/-- The lines of one thread change. -/
private theorem setLines (h : Told v layers n) (t : T) {las : List Layer} (stack : LocalSpanStack)
    (hlines : List.Forall₂ (LineNoted n) las stack.spanLines) :
    Told { v with spanStack := Function.update v.spanStack t stack } (Function.update layers t las) n where
  spans := h.spans
  lines := lines_update h.lines t stack hlines
  collected := h.collected
  submitted := h.submitted
  shared := h.shared

/-- The innermost layer and the top line change, and the note of an id that is nowhere else. -/
private theorem setTop (h : Told v layers n) {t : T} {layer layer' : Layer} {rest : List Layer} {line line' : SpanLine}
    {lines : List SpanLine} {stack : LocalSpanStack} (hlayers : layers t = layer :: rest)
    (hlines : (v.spanStack t).spanLines = line :: lines) (hoff : n.Off n' x)
    (hfree : ∀ p, x ∉ View.holds { v with spanStack := Function.update v.spanStack t { stack with
      spanLines := lines } } p) (hline : LineNoted n' layer' line') :
    Told { v with spanStack := Function.update v.spanStack t { stack with spanLines := line' :: lines } }
      (Function.update layers t (layer' :: rest)) n' := by
  have htaken : Told { v with spanStack := Function.update v.spanStack t { stack with spanLines := lines } }
      (Function.update layers t rest) n := h.setLines t _ (lines_top h.lines hlayers hlines).2
  have hnoted := htaken.off hoff hfree
  have hrest := hnoted.lines t
  dsimp only at hrest
  rw [Function.update_self, Function.update_self] at hrest
  have hput := hnoted.setLines t { stack with spanLines := line' :: lines } (.cons hline hrest)
  dsimp only at hput
  rwa [Function.update_idem, Function.update_idem] at hput

end Told

/-! ### Ids that no raw span has -/

section Free

variable {drawn : List SpanId} {v : View T}

private theorem not_held_without_span (ho : Owned drawn v) {h' : Var} {s : SpanInner} (hs : v.inner h' = some s)
    (p : Holder T) : s.rawSpan.id ∉ View.holds { v with inner := Function.update v.inner h' none } p := by
  intro hp
  have hheld : s.rawSpan.id ∈ v.holds (.span h') := by simp [View.holds, hs]
  have hne : p ≠ .span h' := by
    rintro rfl
    simp [View.holds] at hp
  refine hne (ho.exclusive.owner p (.span h') _ ?_ hheld)
  cases p with
  | span h'' =>
    have hne' : h'' ≠ h' := fun heq => hne (heq ▸ rfl)
    simpa [View.holds, hne'] using hp
  | _ => exact hp

variable [DecidableEq T] {t : T} {line : SpanLine} {stack : LocalSpanStack} {x : SpanId} {p : Holder T}

private theorem held_without_line (hp : x ∈ View.holds { v with spanStack := Function.update v.spanStack t stack } p)
    (hlines : (v.spanStack t).spanLines = line :: stack.spanLines) : x ∈ v.holds p := by
  cases p with
  | stack u =>
    by_cases hu : u = t
    · subst hu
      change x ∈ (v.spanStack u).ids
      rw [ids_of_pop hlines]
      refine List.mem_append_right _ ?_
      simpa [View.holds] using hp
    · simpa [View.holds, hu] using hp
  | _ => exact hp

private theorem not_held_without_line (ho : Owned drawn v)
    (hlines : (v.spanStack t).spanLines = line :: stack.spanLines)
    (hx : x ∈ line.spanQueue.ids) (p : Holder T) :
    x ∉ View.holds { v with spanStack := Function.update v.spanStack t stack } p := by
  intro hp
  have hids := ids_of_pop hlines
  have hheld : x ∈ v.holds (.stack t) := by
    change x ∈ (v.spanStack t).ids
    rw [hids]
    exact List.mem_append_left _ hx
  obtain rfl := ho.exclusive.owner p (.stack t) x (held_without_line hp hlines) hheld
  have hnodup := ho.exclusive.nodup (.stack t)
  change (v.spanStack t).ids.Nodup at hnodup
  rw [hids] at hnodup
  refine List.disjoint_of_nodup_append hnodup hx ?_
  simpa [View.holds] using hp

end Free

/-! ### Changes of a line -/

section Lines

variable {n n' : Chronicle} {layer layer' : Layer} {line line' : SpanLine} {raw raw' : RawSpan} {i : Nat}

private theorem lineNoted_new (n : Chronicle) (scope : Scope) (site : Option Site) (capacity epoch : Nat)
    (token : Option CollectToken) : LineNoted n ⟨scope, site, [], []⟩ (SpanLine.new capacity epoch token) where
  sampled h := absurd rfl h
  nodup := List.nodup_nil
  opened raw hraw := by cases hraw
  ended raw hraw := by cases hraw

/-- A line in whose layer no local span is open. -/
private theorem LineNoted.closed (h : LineNoted n layer line) (hlocals : layer.locals = []) :
    SetNoted n line.spanQueue.spanQueue := by
  have hended := h.ended
  rwa [hlocals, List.filter_eq_self.2 (by simp)] at hended

private theorem LineNoted.enter (h : LineNoted n layer line) (v : Var) (hsampled : line.isSampled = true)
    (hfresh : raw.id ∉ line.spanQueue.ids) (hlocals : raw.id ∉ layer.locals.map Prod.snd)
    (hnote : n.notes raw.id = some (raw.note none)) : LineNoted n (layer.enter v raw.id) (line.opened raw) where
  sampled _ := hsampled
  nodup := List.nodup_cons.2 ⟨hlocals, h.nodup⟩
  opened raw' hraw' hkind hopen := by
    rcases List.mem_append.1 hraw' with hold | hnew
    · refine h.opened raw' hold hkind ((List.mem_cons.1 hopen).resolve_left fun heq => hfresh ?_)
      have hid : raw'.id = raw.id := heq
      exact hid ▸ List.mem_map_of_mem hold
    · rwa [List.mem_singleton.1 hnew]
  ended raw' hraw' := by
    obtain ⟨hmem, hout⟩ := List.mem_filter.1 hraw'
    rw [decide_eq_true_eq, Layer.enter, List.map_cons, List.mem_cons, not_or] at hout
    rcases List.mem_append.1 hmem with hold | hnew
    · exact h.ended raw' (List.mem_filter.2 ⟨hold, decide_eq_true hout.2⟩)
    · exact absurd (congrArg RawSpan.id (List.mem_singleton.1 hnew)) hout.1

/-- An entry that is no span. -/
private theorem LineNoted.push (h : LineNoted n layer line) (hsampled : line.isSampled = true)
    (hkind : raw.rawKind ≠ .span) :
    LineNoted n layer (line.grow [raw]) where
  sampled _ := hsampled
  nodup := h.nodup
  opened raw' hraw' hkind' := by
    rcases List.mem_append.1 hraw' with hold | hnew
    · exact h.opened raw' hold hkind'
    · exact absurd (List.mem_singleton.1 hnew ▸ hkind') hkind
  ended raw' hraw' hkind' := by
    obtain ⟨hmem, hout⟩ := List.mem_filter.1 hraw'
    rcases List.mem_append.1 hmem with hold | hnew
    · exact h.ended raw' (List.mem_filter.2 ⟨hold, hout⟩) hkind'
    · exact absurd (List.mem_singleton.1 hnew ▸ hkind') hkind

/-- The entries after one has been replaced. -/
private theorem mem_set_cases {raws : List RawSpan} (hnodup : (raws.map RawSpan.id).Nodup) (hraw : raws[i]? = some raw)
    {raw₁ : RawSpan} (h : raw₁ ∈ raws.set i raw') : raw₁ = raw' ∨ raw₁ ∈ raws ∧ raw₁.id ≠ raw.id := by
  obtain ⟨j, hj⟩ := List.mem_iff_getElem?.1 h
  by_cases hij : i = j
  · subst hij
    rw [List.getElem?_set_self (List.getElem?_eq_some_iff.1 hraw).1] at hj
    cases hj
    exact Or.inl rfl
  · rw [List.getElem?_set_ne hij] at hj
    exact Or.inr ⟨List.mem_of_getElem? hj, fun hid => hij (SpanQueue.eq_of_id_eq hnodup hraw hj hid.symm)⟩

/-- An entry and the note of its id change, and the local span of it may be left. -/
private theorem LineNoted.set (h : LineNoted n layer line) (hoff : n.Off n' raw.id) (hnodup : line.spanQueue.ids.Nodup)
    (hraw : line.spanQueue.spanQueue[i]? = some raw) (hqueue : line'.spanQueue.spanQueue =
      line.spanQueue.spanQueue.set i raw') (hsampled : line'.isSampled = line.isSampled) (hid : raw'.id = raw.id)
    (hlocals : (layer'.locals.map Prod.snd).Nodup) (hother : ∀ x, x ≠ raw.id →
      (x ∈ layer'.locals.map Prod.snd ↔ x ∈ layer.locals.map Prod.snd))
    (hopened : raw'.rawKind = .span → raw.id ∈ layer'.locals.map Prod.snd →
      n'.notes raw.id = some (raw'.note none))
    (hended : raw'.rawKind = .span → raw.id ∉ layer'.locals.map Prod.snd →
      n'.notes raw.id = some (raw'.note (some raw'.endInstant)) ∧ raw'.endInstant ≠ Instant.zero) :
    LineNoted n' layer' line' where
  sampled _ := hsampled.trans (h.sampled fun hnil => by rw [hnil] at hraw; cases hraw)
  nodup := hlocals
  opened raw₁ hraw₁ hkind hopen := by
    rcases mem_set_cases hnodup hraw (hqueue ▸ hraw₁) with rfl | ⟨hmem, hne⟩
    · rw [hid] at hopen ⊢
      exact hopened hkind hopen
    · rw [hoff _ hne]
      exact h.opened raw₁ hmem hkind ((hother _ hne).1 hopen)
  ended raw₁ hraw₁ hkind := by
    obtain ⟨hmem, hout⟩ := List.mem_filter.1 hraw₁
    rw [decide_eq_true_eq] at hout
    rcases mem_set_cases hnodup hraw (hqueue ▸ hmem) with rfl | ⟨hmem, hne⟩
    · rw [hid] at hout ⊢
      exact hended hkind hout
    · rw [hoff _ hne]
      exact h.ended raw₁ (List.mem_filter.2 ⟨hmem, decide_eq_true fun hin => hout ((hother _ hne).2 hin)⟩) hkind

end Lines

/-! ### New entries of a stack -/

/-- The stack has a new entry with the attachment in its top line, or it is the same. -/
def Adds (stack stack' : LocalSpanStack) (attachment : Attachment) : Prop :=
  stack' = stack ∨ ∃ line lines raw, stack.spanLines = line :: lines ∧ line.isSampled = true ∧ raw.rawKind ≠ .span ∧
    raw.attachment = attachment ∧ raw.parentId = line.spanQueue.parentId ∧
    stack' = { stack with spanLines := line.grow [raw] :: lines }

theorem adds_addEvent (stack : LocalSpanStack) (id : SpanId) (now : Instant) (event : Event) :
    Adds stack (stack.addEvent id now event) (.event event now) := by
  cases hlines : stack.spanLines with
  | nil => exact Or.inl (by simp only [LocalSpanStack.addEvent, hlines])
  | cons line lines =>
    by_cases hadds : line.isSampled = true ∧ line.spanQueue.spanQueue.length < line.spanQueue.capacity
    · exact Or.inr ⟨line, lines, _, hlines, hadds.1, by simp [RawSpan.beginWith], rfl, rfl,
        addEvent_grow hlines hadds.1 hadds.2 ..⟩
    · have hsame : line.addEvent id now event = line := by
        rw [SpanLine.addEvent, SpanQueue.addEvent]
        split_ifs with hsampled hroom
        · rfl
        · rfl
        · exact absurd ⟨by simpa using hsampled, Nat.not_le.1 hroom⟩ hadds
      left
      simp only [LocalSpanStack.addEvent, hlines, hsame]
      rw [← hlines]

theorem adds_addProperties (stack : LocalSpanStack) (id : SpanId) (properties : Properties) :
    Adds stack (stack.addProperties id properties) (.properties properties) := by
  cases hlines : stack.spanLines with
  | nil => exact Or.inl (by simp only [LocalSpanStack.addProperties, hlines])
  | cons line lines =>
    by_cases hadds : line.isSampled = true ∧ line.spanQueue.spanQueue.length < line.spanQueue.capacity
    · refine Or.inr ⟨line, lines, _, hlines, hadds.1, ?_, ?_, rfl, addProperties_grow hlines hadds.1 hadds.2 ..⟩
      · simp [RawSpan.extendProperties, RawSpan.beginWith]
      · rfl
    · have hsame : line.addProperties id properties = line := by
        rw [SpanLine.addProperties, SpanQueue.addProperties]
        split_ifs with hsampled hroom
        · rfl
        · rfl
        · exact absurd ⟨by simpa using hsampled, Nat.not_le.1 hroom⟩ hadds
      left
      simp only [LocalSpanStack.addProperties, hlines, hsame]
      rw [← hlines]

/-- The commands submit an attachment under the span, unless that is a no-op. -/
def SubmitsTo (span : Span) (cmds : List CollectCommand) (attachment : Attachment) : Prop :=
  span.inner = none ∧ cmds = [] ∨ ∃ s raw, span.inner = some s ∧ raw.rawKind ≠ .span ∧ raw.attachment = attachment ∧
    cmds = GlobalCollect.submitSpans (.span raw) s.issueCollectToken

theorem submits_addProperties (span : Span) (properties : Properties) (id : SpanId) (now : Instant) :
    SubmitsTo span (span.addProperties properties id now) (.properties properties) := by
  unfold Span.addProperties Span.enterWithParent
  cases hs : span.inner with
  | none => exact Or.inl ⟨hs, rfl⟩
  | some s =>
    refine Or.inr ⟨s, { (RawSpan.beginWith id default now "" .span).extendProperties properties with
      rawKind := .properties }, hs, by simp, rfl, ?_⟩
    simp [Span.withProperties, Span.enterWithParents, Span.new, hs, SpanInner.submitSpans, SpanInner.addProperties]

theorem submits_addEvent (span : Span) (event : Event) (id : SpanId) (now : Instant) :
    SubmitsTo span (span.addEvent event id now) (.event event now) := by
  unfold Span.addEvent Span.enterWithParent
  cases hs : span.inner with
  | none => exact Or.inl ⟨hs, rfl⟩
  | some s =>
    refine Or.inr ⟨s, { RawSpan.beginWith id default now event.name .span with
      rawKind := .event, properties := event.properties }, hs, by simp, rfl, ?_⟩
    simp [Span.enterWithParents, Span.new, hs, SpanInner.submitSpans]

/-! ### Calls -/

namespace Told

variable {w w' : World T} {l : Lexical T} {n : Chronicle} {drawn : List SpanId} {t : T}

private theorem send_quiet {layers : T → List Layer} (h : Told w.view layers n) (t : T) {cmds : List CollectCommand}
    (hquiet : submitSpans cmds = []) : Told (w.send t cmds).view layers n := by
  rw [view_send_nil w t hquiet]
  exact h

/-- A new span. -/
theorem start (h : Told w.view l.layers n) (howned : Owned drawn w.view) {v : Var} {span : Span}
    (hw : w.newSpan v span = some w') {id : SpanId} {name : String} {now : Instant} (hfresh : id ∉ drawn)
    (hraw : ∀ s, span.inner = some s → s.rawSpan = .beginWith id default now name .span) :
    Told w'.view l.layers (n.start id name now) := by
  obtain ⟨-, rfl⟩ := newSpan_eq_some hw
  rw [view_setSpan]
  have hoff : Told w.view l.layers (n.start id name now) :=
    h.off (off_start n id name now) fun p hp => hfresh (howned.exclusive.drawn p id hp)
  refine hoff.setSpan v _ fun s hs => ?_
  rw [hraw s hs]
  exact Function.update_self ..

/-- A span is changed, or dropped, together with its note. -/
private theorem amend (h : Told w.view l.layers n) (howned : Owned drawn w.view) {v : Var} {s : SpanInner}
    (hs : w.inner v = some s) (f : Note → Note) :
    Told { w.view with inner := Function.update w.view.inner v none } l.layers (n.amend s.rawSpan.id f) ∧
      (n.amend s.rawSpan.id f).notes s.rawSpan.id = some (f (s.rawSpan.note none)) := by
  have htaken : Told { w.view with inner := Function.update w.view.inner v none } l.layers n :=
    h.setSpan v none fun s hs => by cases hs
  refine ⟨htaken.off (off_amend n s.rawSpan.id f) (not_held_without_span howned hs), ?_⟩
  change Function.update n.notes s.rawSpan.id _ s.rawSpan.id = _
  rw [Function.update_self, h.spans v s hs]
  rfl

variable [DecidableEq T]

private theorem withProperties (h : Told w.view l.layers n) (howned : Owned drawn w.view) {v : Var}
    {properties : Properties}
    (hagrees : Agrees w l) (hw : w.step (t, .withProperties v properties) = some w') :
    Told w'.view l.layers (n.step l (t, .withProperties v properties)) := by
  obtain ⟨span, hspan, rfl⟩ := Option.map_eq_some_iff.1 hw
  simp only [Chronicle.step, hagrees.site_of_spans hspan]
  rw [view_setSpan]
  cases hinner : span.inner with
  | none =>
    rw [Option.bind_some, Span.withProperties, hinner]
    exact h.setSpan v none fun s hs => by cases hs
  | some s =>
    rw [Option.bind_some, Span.withProperties, hinner]
    obtain ⟨htold, hnote⟩ := h.amend howned (v := v) (by rw [World.inner, hspan, Option.bind_some, hinner])
      fun note => { note with properties := note.properties ++ properties }
    have hput := htold.setSpan v (some (s.addProperties properties)) fun s' hs' => by
      cases hs'
      exact hnote
    rwa [Function.update_idem] at hput

private theorem dropSpan (h : Told w.view l.layers n) (howned : Owned drawn w.view) {v : Var} {now : Instant}
    (hagrees : Agrees w l) (hw : w.step (t, .dropSpan v now) = some w') :
    Told w'.view l.layers (n.step l (t, .dropSpan v now)) := by
  obtain ⟨span, hspan, rfl⟩ := Option.map_eq_some_iff.1 hw
  simp only [Chronicle.step, hagrees.site_of_spans hspan]
  rw [view_send, view_setSpan]
  cases hinner : span.inner with
  | none =>
    have hcmds : submitSpans (span.drop now) = [] := by rw [Span.drop, hinner]; rfl
    rw [hcmds, List.append_nil]
    exact h.setSpan v none fun s hs => by cases hs
  | some s =>
    obtain ⟨htold, hnote⟩ := h.amend howned (v := v) (by rw [World.inner, hspan, Option.bind_some, hinner])
      fun note => { note with endInstant := some now }
    rw [drop_submitted hinner]
    refine htold.submit s.collectToken (fun raw hraw hkind => ?_) fun _ heq => by cases heq
    rw [List.mem_singleton.1 hraw]
    exact hnote

private theorem pushChildSpans (h : Told w.view l.layers n) {v k : Var}
    (hw : w.step (t, .pushChildSpans v k) = some w') :
    Told w'.view l.layers n := by
  obtain ⟨span, hspan, hw⟩ := Option.bind_eq_some_iff.1 hw
  obtain ⟨localSpans, hk, rfl⟩ := Option.map_eq_some_iff.1 hw
  unfold Span.pushChildSpans
  cases span.inner with
  | none => exact h.send_quiet t rfl
  | some s =>
    simp only [SpanInner.pushChildSpans]
    split
    · exact h.send_quiet t rfl
    · rw [view_send, submitSpans_submitSpans]
      refine h.submit _ (fun raw hraw hkind => ?_) fun localSpans' heq => ⟨k, by cases heq; exact hk⟩
      obtain ⟨hnote, hended⟩ := h.collected k localSpans hk raw hraw hkind
      rw [hnote, SpanSet.endOf, if_neg hended]

omit [DecidableEq T] in
/-- An attachment is no span. -/
private theorem sendAttachment (h : Told w.view l.layers n) (t : T) {span : Span} {cmds : List CollectCommand}
    {attachment : Attachment} (hsubmits : SubmitsTo span cmds attachment) : Told (w.send t cmds).view l.layers n := by
  rcases hsubmits with ⟨-, rfl⟩ | ⟨s, raw, -, hkind, -, rfl⟩
  · exact h.send_quiet t rfl
  · rw [view_send, submitSpans_submitSpans]
    exact h.submit _ (fun _ hraw hkind' => absurd (List.mem_singleton.1 hraw ▸ hkind') hkind) fun _ heq => by cases heq

/-! On the stack. -/

private theorem opened (h : Told w.view l.layers n) (hagrees : Agrees w l) (scope : Scope) (site : Option Site)
    (token : Option CollectToken) : Told { w.view with
      spanStack := Function.update w.view.spanStack t (LocalCollector.new token (w.spanStack t)).2 }
      (l.opened t ⟨scope, site, [], []⟩).layers n := by
  rcases hagrees.opened_cases t ⟨scope, site, [], []⟩ token with ⟨epoch, hlayers, hlines⟩ | ⟨hlayers, hstack⟩
  · rw [hlayers]
    exact h.setLines t _ (hlines ▸ .cons (lineNoted_new ..) (h.lines t))
  · have hsame : Function.update w.view.spanStack t (w.spanStack t) = w.view.spanStack := Function.update_eq_self ..
    rw [hlayers, hstack, hsame]
    exact h

private theorem setLocalParent (h : Told w.view l.layers n) (hagrees : Agrees w l) {g v : Var}
    (hw : w.step (t, .setLocalParent g v) = some w') : Told w'.view (l.step (t, .setLocalParent g v)).layers n := by
  obtain ⟨span, hspan, hw⟩ := Option.bind_eq_some_iff.1 hw
  simp only at hw
  split at hw
  · cases hw
    unfold Span.attachIntoStack
    simp only [Lexical.step, hagrees.site_of_spans hspan]
    cases span.inner with
    | none =>
      have hsame : Function.update w.view.spanStack t (w.spanStack t) = w.view.spanStack := Function.update_eq_self ..
      show Told { w.view with spanStack := Function.update w.view.spanStack t (w.spanStack t) } l.layers n
      rw [hsame]
      exact h
    | some s => exact h.opened hagrees (.guard g) (some s.site) (some s.issueCollectToken)
  · cases hw

private theorem startCollector (h : Told w.view l.layers n) (hagrees : Agrees w l) {k : Var}
    (hw : w.step (t, .startCollector k) = some w') :
    Told w'.view (l.step (t, .startCollector k)).layers (n.step l (t, .startCollector k)) := by
  simp only [World.step] at hw
  split at hw
  · cases hw
    exact (h.opened hagrees (.collector k) none none).congr rfl
  · cases hw

/-- The top line is taken off. -/
private theorem pop (h : Told w.view l.layers n) {scope : Scope} {layer : Layer} {rest : List Layer} {line : SpanLine}
    {lines : List SpanLine} (htop : Agrees.Innermost w l t scope layer rest line lines) :
    Told { w.view with spanStack := Function.update w.view.spanStack t (Agrees.popped w t lines) }
      (l.setLayers t rest).layers n ∧ SetNoted n line.spanQueue.spanQueue := by
  obtain ⟨hline, hrest⟩ := lines_top h.lines htop.layers htop.lines
  exact ⟨h.setLines t _ hrest, hline.closed htop.locals⟩

private theorem stay (h : Told w.view l.layers n) :
    Told { w.view with spanStack := Function.update w.view.spanStack t (w.spanStack t) } l.layers n := by
  have hsame : Function.update w.view.spanStack t (w.spanStack t) = w.view.spanStack := Function.update_eq_self ..
  rw [hsame]
  exact h

private theorem dropGuard (h : Told w.view l.layers n) (hagrees : Agrees w l) {g : Var} {now : Instant}
    (horder : l.InOrder (t, .dropGuard g now)) (hw : w.step (t, .dropGuard g now) = some w') :
    Told w'.view (l.step (t, .dropGuard g now)).layers n := by
  rcases hagrees.dropGuard_cases horder hw with ⟨layer, rest, line, lines, htop, rfl⟩ | ⟨hidle, rfl⟩
  · simp only [Lexical.step, htop.closing]
    obtain ⟨hpop, hset⟩ := h.pop htop
    cases line.collectToken with
    | none => exact send_quiet hpop t rfl
    | some token =>
      rw [view_send, Option.elim_some, submitSpans_submitSpans]
      refine hpop.submit token (fun raw hraw hkind => ?_) fun _ heq => by cases heq
      obtain ⟨hnote, hended⟩ := hset raw hraw hkind
      rw [hnote, SpanSet.endOf, if_neg hended]
  · simp only [Lexical.step, hidle.closing]
    exact send_quiet h.stay t rfl

theorem collect (h : Told w.view l.layers n) (hagrees : Agrees w l) {k c : Var} {now : Instant}
    (horder : l.InOrder (t, .collect k c now)) (hw : w.step (t, .collect k c now) = some w') :
    Told w'.view (l.step (t, .collect k c now)).layers (n.step l (t, .collect k c now)) := by
  obtain ⟨hfree, ⟨layer, rest, line, lines, htop, rfl⟩ | ⟨hidle, rfl⟩⟩ := hagrees.collect_cases horder hw
  · simp only [Lexical.step, htop.closing]
    obtain ⟨hpop, hset⟩ := h.pop htop
    exact (hpop.keep hfree ⟨line.spanQueue.spanQueue, now⟩ hset).congr rfl
  · simp only [Lexical.step, hidle.closing]
    exact (h.stay.keep hfree ⟨[], now⟩ fun raw hraw => by cases hraw).congr rfl

private theorem dropCollector (h : Told w.view l.layers n) (hagrees : Agrees w l) {k : Var}
    (horder : l.InOrder (t, .dropCollector k)) (hw : w.step (t, .dropCollector k) = some w') :
    Told w'.view (l.step (t, .dropCollector k)).layers n := by
  rcases hagrees.dropCollector_cases horder hw with ⟨layer, rest, line, lines, htop, rfl⟩ | ⟨hidle, rfl⟩
  · simp only [Lexical.step, htop.closing]
    exact (h.pop htop).1
  · simp only [Lexical.step, hidle.closing]
    exact h.stay

/-! Local spans. -/

private theorem enterLocal (h : Told w.view l.layers n) (howned : Owned drawn w.view) (hagrees : Agrees w l) {v : Var}
    {name : String} {id : SpanId} {now : Instant} (hfresh : id ∉ drawn)
    (hw : w.step (t, .enterLocal v name id now) = some w') :
    Told w'.view (l.step (t, .enterLocal v name id now)).layers (n.start id name now) := by
  obtain ⟨line, lines, hlines, hsampled, -, -, rfl⟩ := step_enterLocal hw
  obtain ⟨layer, rest, hlayers, hok, -⟩ := hagrees.placed.top_of_line hlines
  simp only [Lexical.step, hlayers]
  have hunheld : ∀ p, id ∉ w.view.holds p := fun p hp => hfresh (howned.exclusive.drawn p id hp)
  have hline : id ∉ line.spanQueue.ids := by
    intro hmem
    refine hunheld (.stack t) ?_
    change id ∈ (w.spanStack t).ids
    rw [LocalSpanStack.ids, hlines, List.flatMap_cons]
    exact List.mem_append_left _ hmem
  have hlocals : id ∉ layer.locals.map Prod.snd := by
    intro hmem
    obtain ⟨⟨v', x⟩, hlocal, rfl⟩ := List.mem_map.1 hmem
    obtain ⟨i, raw, -, hraw, hid, -⟩ := hok.locals.entry hlocal
    exact hline (hid ▸ List.mem_map_of_mem (List.mem_of_getElem? hraw))
  have hnoted : LineNoted (n.start id name now) layer line :=
    (lines_top h.lines hlayers hlines).1.off (off_start n id name now) hline
  refine h.setTop hlayers hlines (off_start n id name now) (fun p hp => hunheld p (held_without_line hp hlines)) ?_
  have hnote : (n.start id name now).notes (RawSpan.beginWith id line.spanQueue.parentId now name .span).id =
      some ((RawSpan.beginWith id line.spanQueue.parentId now name .span).note none) := Function.update_self ..
  exact hnoted.enter v hsampled hline hlocals hnote

/-- The entry of an open local span and its note change. -/
private theorem setEntry (h : Told w.view l.layers n) (howned : Owned drawn w.view) {v : Var} {layer layer' : Layer}
    {rest : List Layer} {line line' : SpanLine} {lines : List SpanLine} {i : Nat} {raw raw' : RawSpan}
    (hopen : Agrees.OpenLocal w l t v layer rest line lines i raw) (f : Note → Note)
    (hqueue : line'.spanQueue.spanQueue = line.spanQueue.spanQueue.set i raw')
    (hsampled : line'.isSampled = line.isSampled) (hsame : SpanQueue.SameEntry raw raw')
    (hlocals : (layer'.locals.map Prod.snd).Nodup) (hother : ∀ x, x ≠ raw.id →
      (x ∈ layer'.locals.map Prod.snd ↔ x ∈ layer.locals.map Prod.snd))
    (hopened : raw.id ∈ layer'.locals.map Prod.snd → f (raw.note none) = raw'.note none)
    (hended : raw.id ∉ layer'.locals.map Prod.snd →
      f (raw.note none) = raw'.note (some raw'.endInstant) ∧ raw'.endInstant ≠ Instant.zero) :
    Told { w.view with spanStack := Function.update w.view.spanStack t (Agrees.popped w t (line' :: lines)) }
      (l.setLayers t (layer' :: rest)).layers (n.amend raw.id f) := by
  have hmem : raw ∈ line.spanQueue.spanQueue := List.mem_of_getElem? hopen.entry
  have hid : raw.id ∈ line.spanQueue.ids := List.mem_map_of_mem hmem
  have hnodup : line.spanQueue.ids.Nodup := by
    have hall := howned.exclusive.nodup (.stack t)
    change (w.spanStack t).ids.Nodup at hall
    rw [LocalSpanStack.ids, hopen.lines, List.flatMap_cons] at hall
    exact List.Nodup.of_append_left hall
  have hline := (lines_top h.lines hopen.layers hopen.lines).1
  have hnote : raw'.rawKind = .span → (n.amend raw.id f).notes raw.id = some (f (raw.note none)) := by
    intro hkind
    change Function.update n.notes raw.id _ raw.id = _
    rw [Function.update_self, hline.opened raw hmem (hsame.kind_eq ▸ hkind) (List.mem_map_of_mem hopen.mem)]
    rfl
  refine h.setTop hopen.layers hopen.lines (off_amend n raw.id f)
    (not_held_without_line howned hopen.lines hid) ?_
  refine hline.set (off_amend n raw.id f) hnodup hopen.entry hqueue hsampled hsame.id_eq hlocals hother
    (fun hkind hin => ?_) fun hkind hout => ?_
  · rw [hnote hkind, hopened hin]
  · rw [hnote hkind, (hended hout).1]
    exact ⟨rfl, (hended hout).2⟩

private theorem dropLocal (h : Told w.view l.layers n) (howned : Owned drawn w.view) (hagrees : Agrees w l) {v : Var}
    {now : Instant} (hnow : now ≠ Instant.zero) (horder : l.InOrder (t, .dropLocal v now))
    (hw : w.step (t, .dropLocal v now) = some w') :
    Told w'.view (l.step (t, .dropLocal v now)).layers (n.step l (t, .dropLocal v now)) := by
  obtain ⟨layer, rest, line, lines, i, raw, locals, hopen, hlocals, rfl⟩ := hagrees.dropLocal_cases horder hw
  have hlayers := hopen.layers
  have hnodup := (lines_top h.lines hlayers hopen.lines).1.nodup
  rw [hlocals, List.map_cons, List.nodup_cons] at hnodup
  have hleave : layer.leave.locals = locals := by rw [Layer.leave, hlocals, List.tail_cons]
  have hlocal : l.openLocal t v = some raw.id := by simp [Lexical.openLocal, hlayers, hlocals]
  simp only [Lexical.step, hlayers, Chronicle.step, hlocal]
  have hsame : SpanQueue.SameEntry raw (raw.endWith now) := ⟨rfl, rfl, rfl⟩
  refine h.setEntry howned hopen _ rfl rfl hsame (hleave ▸ hnodup.2) (fun x hx => ?_)
    (fun hin => absurd (hleave ▸ hin) hnodup.1) fun _ => ⟨rfl, hnow⟩
  rw [hleave, hlocals, List.map_cons, List.mem_cons]
  exact (or_iff_right hx).symm

/-- The line after an open local span has been given properties. -/
def extended (line : SpanLine) (i : Nat) (raw : RawSpan) (properties : Properties) : SpanLine :=
  { line with spanQueue := { line.spanQueue with
    spanQueue := line.spanQueue.spanQueue.set i (raw.extendProperties properties) } }

theorem localWithProperties_cases (h : Told w.view l.layers n) (hagrees : Agrees w l) {v : Var}
    {properties : Properties} (hcurrent : l.Current (t, .localWithProperties v properties))
    (hw : w.step (t, .localWithProperties v properties) = some w') :
    ∃ layer rest line lines i raw, Agrees.OpenLocal w l t v layer rest line lines i raw ∧
      l.openLocal t v = some raw.id ∧
      w' = w.setStack t (Agrees.popped w t (extended line i raw properties :: lines)) := by
  obtain ⟨x, hlocal⟩ := Option.isSome_iff_exists.1 hcurrent
  obtain ⟨layer, hhead, hlookup⟩ := Option.bind_eq_some_iff.1 hlocal
  obtain ⟨rest, hlayers⟩ := List.head?_eq_some_iff.1 hhead
  have hmem : (v, x) ∈ layer.locals := by
    obtain ⟨locals, locals', hlocals, -⟩ := List.lookup_eq_some_iff.1 hlookup
    rw [hlocals]
    exact List.mem_append_right _ (List.mem_cons_self ..)
  obtain ⟨line, lines, i, raw, hopen, rfl⟩ := hagrees.openLocal hlayers hmem
  have hsampled : line.isSampled = true := (lines_top h.lines hlayers hopen.lines).1.sampled fun hnil => by
    have hentry := hopen.entry
    rw [hnil] at hentry
    cases hentry
  have hline : line.withProperties ⟨line.epoch, ⟨i⟩⟩ properties = some (extended line i raw properties) := by
    simp only [SpanLine.withProperties, hsampled, SpanQueue.withProperties, hopen.entry, Bool.not_true,
      Bool.false_eq_true, if_false, if_true, Option.map_some, extended]
  obtain ⟨span, hspan, hw⟩ := Option.bind_eq_some_iff.1 hw
  obtain ⟨stack, hstack, rfl⟩ := Option.map_eq_some_iff.1 hw
  have howned : span = ⟨some ⟨line.epoch, ⟨i⟩⟩⟩ := by
    have hspan := (owned_eq_some hspan).symm.trans hopen.handle
    cases hspan
    rfl
  subst howned
  simp only [LocalSpan.withProperties, LocalSpanStack.withProperties, hopen.lines, hline, Option.map_some] at hstack
  cases hstack
  exact ⟨layer, rest, line, lines, i, raw, hopen, hlocal, rfl⟩

private theorem localWithProperties (h : Told w.view l.layers n) (howned : Owned drawn w.view) (hagrees : Agrees w l)
    {v : Var} {properties : Properties} (hcurrent : l.Current (t, .localWithProperties v properties))
    (hw : w.step (t, .localWithProperties v properties) = some w') :
    Told w'.view l.layers (n.step l (t, .localWithProperties v properties)) := by
  obtain ⟨layer, rest, line, lines, i, raw, hopen, hlocal, rfl⟩ := h.localWithProperties_cases hagrees hcurrent hw
  simp only [Chronicle.step, hlocal]
  have hsame : SpanQueue.SameEntry raw (raw.extendProperties properties) := ⟨rfl, rfl, rfl⟩
  have hline' : (extended line i raw properties).spanQueue.spanQueue =
      line.spanQueue.spanQueue.set i (raw.extendProperties properties) := rfl
  have hset := h.setEntry howned hopen (fun note => { note with properties := note.properties ++ properties }) hline'
    rfl hsame (lines_top h.lines hopen.layers hopen.lines).1.nodup (fun x hx => Iff.rfl) (fun _ => rfl)
    fun hout => absurd (List.mem_map_of_mem hopen.mem) hout
  rwa [Lexical.setLayers, ← hopen.layers, Function.update_eq_self] at hset

/-- A thread adds something. -/
private theorem add (h : Told w.view l.layers n) (hagrees : Agrees w l) {stack : LocalSpanStack}
    {attachment : Attachment}
    (hadds : Adds (w.spanStack t) stack attachment) :
    Told { w.view with spanStack := Function.update w.view.spanStack t stack } l.layers n := by
  rcases hadds with rfl | ⟨line, lines, raw, hlines, hsampled, hkind, -, -, rfl⟩
  · exact h.stay
  · obtain ⟨layer, rest, hlayers, -, -⟩ := hagrees.placed.top_of_line hlines
    obtain ⟨hline, hrest⟩ := lines_top h.lines hlayers hlines
    have hset := h.setLines t { w.spanStack t with spanLines := line.grow [raw] :: lines }
      (.cons (hline.push hsampled hkind) hrest)
    rwa [← hlayers, Function.update_eq_self] at hset

theorem layers_root (l : Lexical T) (t : T) (v : Var) (name : String) (parent : SpanContext) (id : SpanId)
    (now : Instant) : (l.step (t, .root v name parent id now)).layers = l.layers := by
  simp only [Lexical.step]
  split <;> rfl

omit [DecidableEq T] in
/-- What is added to spans changes no note. -/
private theorem notes_attachIn (n : Chronicle) (layer : Layer) (attachment : Attachment) :
    (n.attachIn layer attachment).notes = n.notes := by
  unfold Chronicle.attachIn
  split <;> rfl

/-- A call in order keeps everything as noted. -/
theorem step (h : Told w.view l.layers n) (howned : Owned drawn w.view) (hagrees : Agrees w l) {a : T × Op}
    (hfresh : ∀ x, a.2.id? = some x → x ∉ drawn) (horder : l.InOrder a) (hcurrent : l.Current a)
    (hclock : a.2.endsAt ≠ some Instant.zero) (hw : w.step a = some w') :
    Told w'.view (l.step a).layers (n.step l a) := by
  obtain ⟨t, op⟩ := a
  cases op with
  | setReporter =>
    cases hw
    exact h
  | root v name parent id now =>
    obtain ⟨w₁, hw₁, rfl⟩ := Option.map_eq_some_iff.1 hw
    obtain ⟨hquiet, -⟩ := Agrees.root_cases w.reporterReady w.nextCollectId name parent id now
    have hstart : Told w₁.view l.layers (n.start id name now) := by
      have hsame : Told (World.view { w with
          nextCollectId := (Span.root w.reporterReady w.nextCollectId name parent id now).2.1 }) l.layers n := h
      refine hsame.start howned hw₁ (hfresh id rfl) fun s hs => ?_
      unfold Span.root at hs
      split_ifs at hs <;> cases hs <;> rfl
    rw [layers_root]
    exact hstart.send_quiet t hquiet
  | enterWithParent v name parent id now =>
    obtain ⟨span, -, hw⟩ := Option.bind_eq_some_iff.1 hw
    refine h.start howned hw (hfresh id rfl) fun s hs => ?_
    unfold Span.enterWithParent at hs
    split at hs <;> cases hs
    rfl
  | enterWithParents v name parents id now =>
    obtain ⟨spans, -, hw⟩ := Option.bind_eq_some_iff.1 hw
    exact h.start howned hw (hfresh id rfl) fun s hs => by cases hs; rfl
  | enterWithLocalParent v name id now =>
    refine h.start howned hw (hfresh id rfl) fun s hs => ?_
    unfold Span.enterWithStack at hs
    split at hs <;> cases hs
    rfl
  | withProperties v properties => exact h.withProperties howned hagrees hw
  | addProperties v properties id now =>
    obtain ⟨span, -, rfl⟩ := Option.map_eq_some_iff.1 hw
    refine (h.sendAttachment t (submits_addProperties span properties id now)).congr ?_
    simp only [Chronicle.step]
    cases l.spans v <;> rfl
  | addEvent v event id now =>
    obtain ⟨span, -, rfl⟩ := Option.map_eq_some_iff.1 hw
    refine (h.sendAttachment t (submits_addEvent span event id now)).congr ?_
    simp only [Chronicle.step]
    cases l.spans v <;> rfl
  | pushChildSpans v k =>
    refine (h.pushChildSpans hw).congr ?_
    simp only [Chronicle.step]
    cases l.spans v <;> rfl
  | cancel v =>
    obtain ⟨span, -, rfl⟩ := Option.map_eq_some_iff.1 hw
    exact h.send_quiet t (Agrees.submitSpans_cancel span)
  | dropSpan v now => exact h.dropSpan howned hagrees hw
  | setLocalParent g v => exact h.setLocalParent hagrees hw
  | startCollector k => exact h.startCollector hagrees hw
  | dropGuard g now => exact h.dropGuard hagrees horder hw
  | collect k c now => exact h.collect hagrees horder hw
  | dropCollector k => exact h.dropCollector hagrees horder hw
  | enterLocal v name id now => exact h.enterLocal howned hagrees (hfresh id rfl) hw
  | dropLocal v now => exact h.dropLocal howned hagrees (fun heq => hclock (congrArg some heq)) horder hw
  | localWithProperties v properties => exact h.localWithProperties howned hagrees hcurrent hw
  | localAddEvent event id now =>
    cases hw
    refine (h.add hagrees (adds_addEvent ..)).congr ?_
    simp only [Chronicle.step]
    cases (l.layers t).head? with
    | none => rfl
    | some layer => exact notes_attachIn n layer _
  | localAddProperties properties id =>
    cases hw
    refine (h.add hagrees (adds_addProperties ..)).congr ?_
    simp only [Chronicle.step]
    cases (l.layers t).head? with
    | none => rfl
    | some layer => exact notes_attachIn n layer _

end Told

end Fastrace
