import Fastrace.Orphans
import Fastrace.SpanTrees
import Fastrace.Submissions

/-!
# The tree of a trace

A token item leads from a span to its parent.  For an item somewhere in the program, `Due` says under which keys spans
are reported for it, now or later, and a parent `Descends` from the root when a chain of such keys leads to it.  The
parents of all items that have been issued do: a step issues items that name spans of the items it takes them from
(`carried_step`), and what is due stays due (`Due.step`).

So when everything has been dropped, every record of a trace is reached from the record of the root, and
`from_span_records` shows the trace.
-/

namespace Fastrace

variable {T : Type}

/-- The item is in the token of a span or of a line and sampled, or in a submission. -/
inductive Carried (v : View T) (item : CollectTokenItem) : Prop
  | span {h : Var} {s : SpanInner} (hs : v.inner h = some s) (hitem : item ∈ retainSampled s.collectToken) :
      Carried v item
  | line {t : T} {line : SpanLine} {token : CollectToken} (hline : line ∈ (v.spanStack t).spanLines)
      (htoken : line.collectToken = some token) (hitem : item ∈ retainSampled token) : Carried v item
  | submitted {cmd : SubmitSpans} (hcmd : cmd ∈ v.submitted) (hitem : item ∈ cmd.collectToken) : Carried v item

/-- What a line records, as it is submitted. -/
def SpanLine.keys (line : SpanLine) (item : CollectTokenItem) : List RecordKey :=
  (itemOf (.localSpansInner ⟨line.spanQueue.spanQueue, Instant.zero⟩) item).keys

/-- A span is reported under the key for the item, when it is dropped or its line is taken at the latest. -/
inductive Due (v : View T) (item : CollectTokenItem) (k : RecordKey) : Prop
  | span {h : Var} {s : SpanInner} (hs : v.inner h = some s) (hitem : item ∈ retainSampled s.collectToken)
      (hk : k ∈ (itemOf (.span s.rawSpan) item).keys) : Due v item k
  | line {t : T} {line : SpanLine} {token : CollectToken} (hline : line ∈ (v.spanStack t).spanLines)
      (htoken : line.collectToken = some token) (hitem : item ∈ retainSampled token) (hk : k ∈ line.keys item) :
      Due v item k
  | submitted {cmd : SubmitSpans} (hcmd : cmd ∈ v.submitted) (hitem : item ∈ cmd.collectToken)
      (hk : k ∈ (itemOf cmd.spans item).keys) : Due v item k

private theorem mem_keys_span {raw : RawSpan} {item : CollectTokenItem} {k : RecordKey} :
    k ∈ (itemOf (.span raw) item).keys ↔ raw.rawKind = .span ∧ k = ⟨item.traceId, raw.id, item.parentId⟩ := by
  by_cases hkind : raw.rawKind = .span <;> simp [Item.keys, itemOf, SpanSet.raws, Item.parentOf, hkind]

private theorem SpanInner.Same.keys {s s' : SpanInner} (h : s.Same s') {item : CollectTokenItem} {k : RecordKey}
    (hk : k ∈ (itemOf (.span s.rawSpan) item).keys) : k ∈ (itemOf (.span s'.rawSpan) item).keys := by
  rw [mem_keys_span] at hk ⊢
  rwa [h.kind_eq, h.id_eq]

private theorem SpanLine.mem_keys {line : SpanLine} {item : CollectTokenItem} {k : RecordKey} : k ∈ line.keys item ↔
    ∃ raw ∈ line.spanQueue.spanQueue, raw.rawKind = .span ∧
      k = ⟨item.traceId, raw.id, if raw.parentId = default then item.parentId else raw.parentId⟩ := by
  unfold SpanLine.keys Item.keys
  simp only [List.mem_map, List.mem_filter, decide_eq_true_eq, and_assoc]
  refine exists_congr fun raw => and_congr_right fun _ => and_congr_right fun _ => ?_
  rw [eq_comm]
  rfl

/-- What has been recorded in a line stays due. -/
private theorem SpanLine.Change.keys {line line' : SpanLine} {label : Option (SpanId × RawKind)}
    (h : line.Change label line')
    {item : CollectTokenItem} {k : RecordKey} (hk : k ∈ line.keys item) : k ∈ line'.keys item := by
  obtain ⟨raw, hraw, hkind, rfl⟩ := SpanLine.mem_keys.1 hk
  suffices hkept : ∃ raw' ∈ line'.spanQueue.spanQueue, SpanQueue.SameEntry raw raw' by
    obtain ⟨raw', hraw', hsame⟩ := hkept
    exact SpanLine.mem_keys.2 ⟨raw', hraw', hsame.kind_eq.trans hkind, by rw [hsame.id_eq, hsame.parentId_eq]⟩
  cases h with
  | push hpush hnext => exact ⟨raw, List.mem_append_left _ hraw, rfl, rfl, rfl⟩
  | @set i old new next hold hsame hnext =>
    obtain ⟨j, hj⟩ := List.mem_iff_getElem?.1 hraw
    by_cases hij : i = j
    · subst hij
      rw [hold] at hj
      cases hj
      exact ⟨new, List.mem_of_getElem? (List.getElem?_set_self (List.getElem?_eq_some_iff.1 hold).1), hsame⟩
    · exact ⟨raw, List.mem_of_getElem? ((List.getElem?_set_ne hij).trans hj), rfl, rfl, rfl⟩

section Step

variable [DecidableEq T] {v v' : View T} {a : T × Op} {item : CollectTokenItem} {k : RecordKey}

/-- What is due in a line that goes is submitted. -/
private theorem due_lost {t u : T} {line : SpanLine} {token : CollectToken}
    (hline : line ∈ (v.spanStack u).spanLines) (htoken : line.collectToken = some token)
    (hitem : item ∈ retainSampled token) (hk : k ∈ line.keys item) {stack : LocalSpanStack}
    (hlost : Lost (v.spanStack t) stack) (hstack : v'.spanStack = Function.update v.spanStack t stack)
    (hcollects : Collects v t v') : Due v' item k := by
  have hstack' : v'.spanStack t = stack := by rw [hstack, Function.update_self]
  by_cases hu : u = t
  · subst hu
    rcases hlost with hsame | ⟨top, htop⟩
    · refine .line (t := u) (?_ : line ∈ _) htoken hitem hk
      rw [hstack', hsame]
      exact hline
    · rw [htop] at hline
      rcases List.mem_cons.1 hline with rfl | hline
      · obtain ⟨now, hsubmitted⟩ := hcollects line token (by rw [hstack']; exact htop) htoken
        rw [submission_of_mem hitem] at hsubmitted
        have hcmd : ⟨.localSpansInner ⟨line.spanQueue.spanQueue, now⟩, retainSampled token⟩ ∈ v'.submitted := by
          rw [hsubmitted]
          exact List.mem_append_right _ (List.mem_singleton.2 rfl)
        exact .submitted hcmd hitem hk
      · refine .line (t := u) (?_ : line ∈ _) htoken hitem hk
        rw [hstack']
        exact hline
  · refine .line (t := u) (?_ : line ∈ _) htoken hitem hk
    rw [hstack, Function.update_of_ne hu]
    exact hline

/-- What is due stays due. -/
theorem Due.step (h : Due v item k) (heffect : Effect v a v') (hcollects : Collects v a.1 v') : Due v' item k := by
  cases h with
  | submitted hcmd hitem hk => exact .submitted (heffect.submitted_prefix.subset hcmd) hitem hk
  | @span h s hs hitem hk =>
    cases heffect with
    | @born h' s' hfree hid hkind hfrom =>
      have hne : h ≠ h' := fun heq => by rw [heq, hfree] at hs; cases hs
      exact .span (h := h) ((Function.update_of_ne hne ..).trans hs) hitem hk
    | @amended h' s₁ s₂ hs₁ hsame =>
      by_cases heq : h = h'
      · subst heq
        rw [hs₁] at hs
        cases hs
        exact .span (h := h) (Function.update_self ..) (hsame.token_eq.symm ▸ hitem) (hsame.keys hk)
      · exact .span (h := h) ((Function.update_of_ne heq ..).trans hs) hitem hk
    | @dropped h' s₁ s₂ hs₁ hsame =>
      by_cases heq : h = h'
      · subst heq
        rw [hs₁] at hs
        cases hs
        rw [submission_of_mem hitem]
        exact .submitted (List.mem_append_right _ (List.mem_singleton.2 rfl)) hitem (hsame.keys hk)
      · exact .span (h := h) ((Function.update_of_ne heq ..).trans hs) hitem hk
    | _ => exact .span (h := h) hs hitem hk
  | @line t line token hline htoken hitem hk =>
    cases heffect with
    | @recorded label stack htop hlabel =>
      by_cases ht : t = a.1
      · subst ht
        obtain ⟨top, lines, top', hlines, hchange, rfl⟩ := htop
        rw [hlines] at hline
        rcases List.mem_cons.1 hline with rfl | hline
        · refine .line (t := a.1) (?_ : top' ∈ _) (hchange.collectToken.trans htoken) hitem (hchange.keys hk)
          simp only [Function.update_self]
          exact List.mem_cons_self ..
        · refine .line (t := a.1) (?_ : line ∈ _) htoken hitem hk
          simp only [Function.update_self]
          exact List.mem_cons_of_mem _ hline
      · refine .line (t := t) (?_ : line ∈ _) htoken hitem hk
        simp only [Function.update_of_ne ht]
        exact hline
    | @registered capacity epoch token' stack hlines htoken' =>
      refine .line (t := t) (?_ : line ∈ _) htoken hitem hk
      by_cases ht : t = a.1
      · subst ht
        simp only [Function.update_self, hlines]
        exact List.mem_cons_of_mem _ hline
      · simp only [Function.update_of_ne ht]
        exact hline
    | lost hlost => exact due_lost hline htoken hitem hk hlost rfl hcollects
    | collectedNone hlost hfree => exact due_lost hline htoken hitem hk hlost rfl hcollects
    | collected hlines hfree => exact due_lost hline htoken hitem hk (Or.inr ⟨_, hlines⟩) rfl hcollects
    | closed hlines htoken' => exact due_lost hline htoken hitem hk (Or.inr ⟨_, hlines⟩) rfl hcollects
    | _ => exact .line (t := t) hline htoken hitem hk

/-- Where the items come from that a step brings in. -/
inductive IssuedBy (v : View T) (item : CollectTokenItem) : Prop
  | root (hroot : item.isRoot = true)
  | span {h : Var} {s : SpanInner} (hs : v.inner h = some s) (hitem : item ∈ retainSampled s.issueCollectToken)
  | line {t : T} {line : SpanLine} {token : CollectToken} (hline : line ∈ (v.spanStack t).spanLines)
      (htoken : line.currentCollectToken = some token) (hitem : item ∈ retainSampled token)

omit [DecidableEq T] in
/-- The items of a new span. -/
private theorem issued_of_from {token : CollectToken} (hfrom : TokenFrom v a token)
    (hitem : item ∈ retainSampled token) : IssuedBy v item := by
  cases hfrom with
  | root hroot parent c =>
    cases List.mem_singleton.1 (List.mem_of_mem_filter hitem)
    exact .root rfl
  | parents =>
    obtain ⟨hmem, hsampled⟩ := List.mem_filter.1 hitem
    obtain ⟨s, hs, hmem⟩ := List.mem_flatMap.1 hmem
    obtain ⟨h, -, hs⟩ := List.mem_filterMap.1 hs
    exact .span hs (List.mem_filter.2 ⟨hmem, hsampled⟩)
  | line huses hlines htoken => exact .line (by rw [hlines]; exact List.mem_cons_self ..) htoken hitem

omit [DecidableEq T] in
/-- A submission carries the items of the token it is made with. -/
private theorem carried_append {spans : SpanSet} {token : CollectToken}
    (hold : ∀ item, item ∈ retainSampled token → Carried v item ∨ IssuedBy v item) {cmd : SubmitSpans}
    (hcmd : cmd ∈ v.submitted ++ submission spans token) (hitem : item ∈ cmd.collectToken) :
    Carried v item ∨ IssuedBy v item := by
  rcases List.mem_append.1 hcmd with hcmd | hcmd
  · exact Or.inl (.submitted hcmd hitem)
  · rw [mem_submission hcmd] at hitem
    exact hold item hitem

/-- The items of a changed table of stacks. -/
private theorem carried_stack {t : T} {stack : LocalSpanStack}
    (hstack : ∀ line ∈ stack.spanLines, ∀ token, line.collectToken = some token → item ∈ retainSampled token →
      Carried v item ∨ IssuedBy v item) {u : T} {line : SpanLine} {token : CollectToken}
    (hline : line ∈ (Function.update v.spanStack t stack u).spanLines) (htoken : line.collectToken = some token)
    (hitem : item ∈ retainSampled token) : Carried v item ∨ IssuedBy v item := by
  by_cases hu : u = t
  · subst hu
    rw [Function.update_self] at hline
    exact hstack line hline token htoken hitem
  · rw [Function.update_of_ne hu] at hline
    exact Or.inl (.line hline htoken hitem)

/-- A step takes over the items there are, or issues items of them. -/
theorem carried_step (heffect : Effect v a v') (h : Carried v' item) : Carried v item ∨ IssuedBy v item := by
  cases h with
  | @span h₁ s₁ hs hitem =>
    cases heffect with
    | @born h' s hfree hid hkind hfrom =>
      change Function.update v.inner h' (some s) h₁ = some s₁ at hs
      by_cases heq : h₁ = h'
      · subst heq
        rw [Function.update_self] at hs
        cases hs
        exact Or.inr (issued_of_from hfrom hitem)
      · rw [Function.update_of_ne heq] at hs
        exact Or.inl (.span hs hitem)
    | @amended h' s s' hs₀ hsame =>
      change Function.update v.inner h' (some s') h₁ = some s₁ at hs
      by_cases heq : h₁ = h'
      · subst heq
        rw [Function.update_self] at hs
        cases hs
        rw [hsame.token_eq] at hitem
        exact Or.inl (.span hs₀ hitem)
      · rw [Function.update_of_ne heq] at hs
        exact Or.inl (.span hs hitem)
    | @dropped h' s s' hs₀ hsame =>
      change Function.update v.inner h' none h₁ = some s₁ at hs
      by_cases heq : h₁ = h'
      · subst heq
        rw [Function.update_self] at hs
        cases hs
      · rw [Function.update_of_ne heq] at hs
        exact Or.inl (.span hs hitem)
    | _ => exact Or.inl (.span hs hitem)
  | line hline htoken hitem =>
    have hlost : ∀ {stack : LocalSpanStack}, Lost (v.spanStack a.1) stack → ∀ line ∈ stack.spanLines, ∀ token,
        line.collectToken = some token → item ∈ retainSampled token → Carried v item ∨ IssuedBy v item :=
      fun hlost line hline token htoken hitem => Or.inl (.line (mem_line_of_lost hlost hline) htoken hitem)
    cases heffect with
    | @recorded label stack htop hlabel =>
      refine carried_stack (fun line hline token htoken hitem => Or.inl ?_) hline htoken hitem
      obtain ⟨top, lines, top', hlines, hchange, rfl⟩ := htop
      rcases List.mem_cons.1 hline with rfl | hline
      · exact .line (t := a.1) (by rw [hlines]; exact List.mem_cons_self ..) (hchange.collectToken ▸ htoken) hitem
      · exact .line (t := a.1) (by rw [hlines]; exact List.mem_cons_of_mem _ hline) htoken hitem
    | @registered capacity epoch token' stack hlines htoken' =>
      refine carried_stack (fun line hline token htoken hitem => ?_) hline htoken hitem
      rw [hlines] at hline
      rcases List.mem_cons.1 hline with rfl | hline
      · obtain ⟨h', s, hs, rfl⟩ := htoken' token htoken
        exact Or.inr (.span hs hitem)
      · exact Or.inl (.line hline htoken hitem)
    | lost hlost' => exact carried_stack (hlost hlost') hline htoken hitem
    | collectedNone hlost' hfree => exact carried_stack (hlost hlost') hline htoken hitem
    | collected hlines hfree => exact carried_stack (hlost (Or.inr ⟨_, hlines⟩)) hline htoken hitem
    | closed hlines htoken' => exact carried_stack (hlost (Or.inr ⟨_, hlines⟩)) hline htoken hitem
    | _ => exact Or.inl (.line hline htoken hitem)
  | submitted hcmd hitem =>
    cases heffect with
    | dropped hs hsame => exact carried_append (fun _ hitem => Or.inl (.span hs hitem)) hcmd hitem
    | attached hs hid hkind => exact carried_append (fun _ hitem => Or.inr (.span hs hitem)) hcmd hitem
    | pushed hop hs hl => exact carried_append (fun _ hitem => Or.inr (.span hs hitem)) hcmd hitem
    | @closed now line token stack hlines htoken =>
      have hline : line ∈ (v.spanStack a.1).spanLines := by
        rw [hlines]
        exact List.mem_cons_self ..
      exact carried_append (fun _ hitem => Or.inl (.line hline htoken hitem)) hcmd hitem
    | _ => exact Or.inl (.submitted hcmd hitem)

end Step

/-! ### AllDescend parents -/

/-- A span is due for `c` under the parent `p`. -/
def Leads (v : View T) (c : CollectId) (p x : SpanId) : Prop :=
  ∃ item k, Due v item k ∧ item.collectId = c ∧ k.parentId = p ∧ k.spanId = x

/-- There is a way to the span from one that is due for an item of the root of `c`. -/
def Descends (v : View T) (c : CollectId) (x : SpanId) : Prop :=
  ∃ item k, Due v item k ∧ item.collectId = c ∧ item.isRoot = true ∧ Relation.ReflTransGen (Leads v c) k.spanId x

/-- The parents that issued items name descend from the roots. -/
def AllDescend (v : View T) : Prop :=
  ∀ item, Carried v item → item.isRoot = false → Descends v item.collectId item.parentId

section Ways

variable {v v' : View T} {a : T × Op} {c : CollectId} {x y : SpanId}

private theorem Descends.tail (h : Descends v c x) (hlead : Leads v c x y) : Descends v c y := by
  obtain ⟨item, k, hdue, hc, hroot, hreached⟩ := h
  exact ⟨item, k, hdue, hc, hroot, hreached.tail hlead⟩

private theorem Descends.trans (h : Descends v c x) (hreached : Relation.ReflTransGen (Leads v c) x y) :
    Descends v c y := by
  induction hreached with
  | refl => exact h
  | tail _ hlead ih => exact ih.tail hlead

theorem Descends.mono (h : Descends v c x) (hdue : ∀ item k, Due v item k → Due v' item k) : Descends v' c x := by
  obtain ⟨item, k, hk, hc, hroot, hreached⟩ := h
  refine ⟨item, k, hdue item k hk, hc, hroot, Relation.ReflTransGen.mono ?_ _ _ hreached⟩
  rintro p q ⟨item', k', hk', hlead⟩
  exact ⟨item', k', hdue item' k' hk', hlead⟩

/-- In a set that links backwards every span is reached from the parent of the item. -/
private theorem reached_in_set {R : SpanId → SpanId → Prop} {spans : SpanSet} {item : CollectTokenItem}
    (hlinked : LinkedSet spans) (hR : ∀ k ∈ (itemOf spans item).keys, R k.parentId k.spanId) {k : RecordKey}
    (hk : k ∈ (itemOf spans item).keys) : Relation.ReflTransGen R item.parentId k.spanId := by
  have hlocal : ∀ localSpans : LocalSpansInner, spans.raws = localSpans.spans →
      SpanQueue.LinkedBack localSpans.spans →
      (∀ raw, (itemOf spans item).parentOf raw = if raw.parentId = default then item.parentId else raw.parentId) →
      Relation.ReflTransGen R item.parentId k.spanId := by
    intro localSpans hraws hback hparent
    have hmem : ∀ raw ∈ localSpans.spans, raw.rawKind = .span →
        R (if raw.parentId = default then item.parentId else raw.parentId) raw.id := by
      intro raw hraw hkind
      have hkey : ⟨item.traceId, raw.id, (itemOf spans item).parentOf raw⟩ ∈ (itemOf spans item).keys :=
        List.mem_map.2 ⟨raw, List.mem_filter.2 ⟨hraws ▸ hraw, by rw [hkind]; rfl⟩, rfl⟩
      rw [← hparent]
      exact hR _ hkey
    have hup : ∀ (n i : Nat) (raw : RawSpan), i < n → localSpans.spans[i]? = some raw → raw.rawKind = .span →
        Relation.ReflTransGen R item.parentId raw.id := by
      intro n
      induction n with
      | zero => exact fun i raw hlt => absurd hlt (Nat.not_lt_zero i)
      | succ n ih =>
        intro i raw hlt hraw hkind
        have hlead := hmem raw (List.mem_of_getElem? hraw) hkind
        by_cases hroot : raw.parentId = default
        · rw [if_pos hroot] at hlead
          exact .single hlead
        · rw [if_neg hroot] at hlead
          obtain ⟨j, hj, parent, hparent, hid, hkind'⟩ := (hback i raw hraw).resolve_left hroot
          rw [← hid] at hlead
          exact (ih j parent (by omega) hparent hkind').tail hlead
    obtain ⟨raw, hraw, rfl⟩ := List.mem_map.1 hk
    obtain ⟨hraw, hkind⟩ := List.mem_filter.1 hraw
    obtain ⟨i, hi⟩ := List.mem_iff_getElem?.1 (show raw ∈ localSpans.spans from hraws ▸ hraw)
    exact hup (i + 1) i raw (Nat.lt_succ_self i) hi (by simpa using hkind)
  cases spans with
  | span raw =>
    obtain ⟨-, rfl⟩ := mem_keys_span.1 hk
    exact .single (hR _ hk)
  | localSpansInner localSpans => exact hlocal localSpans rfl hlinked fun raw => rfl
  | sharedLocalSpans localSpans => exact hlocal localSpans rfl hlinked fun raw => rfl

/-- A live span descends from the root of every item of its token. -/
theorem descends_span (hall : AllDescend v) (hparented : Parented v) {h : Var} {s : SpanInner}
    (hs : v.inner h = some s) {item : CollectTokenItem} (hitem : item ∈ retainSampled s.collectToken) :
    Descends v item.collectId s.rawSpan.id := by
  have hdue : Due v item ⟨item.traceId, s.rawSpan.id, item.parentId⟩ :=
    .span hs hitem (mem_keys_span.2 ⟨(hparented.span h s hs).1, rfl⟩)
  cases hroot : item.isRoot with
  | true => exact ⟨item, _, hdue, rfl, hroot, .refl⟩
  | false => exact (hall item (.span hs hitem) hroot).tail ⟨item, _, hdue, rfl, rfl, rfl⟩

/-- The local span that is open in a line descends from the root of every item of the line. -/
theorem descends_current (hall : AllDescend v) (hparented : Parented v) {t : T} {line : SpanLine}
    (hline : line ∈ (v.spanStack t).spanLines) {token : CollectToken} (htoken : line.collectToken = some token)
    {item : CollectTokenItem} (hitem : item ∈ retainSampled token) :
    Descends v item.collectId ((line.spanQueue.currentParentId).getD item.parentId) := by
  obtain ⟨hlinked, hissues⟩ := hparented.line t line hline
  have hup := hall item (.line hline htoken hitem) (hissues token htoken item hitem).1
  unfold SpanQueue.currentParentId
  cases hnext : line.spanQueue.nextParentId with
  | none => exact hup
  | some x =>
    obtain ⟨i, raw, hraw, rfl, hkind⟩ := hlinked.register x hnext
    have hkey : ⟨item.traceId, raw.id, if raw.parentId = default then item.parentId else raw.parentId⟩ ∈
        line.keys item := SpanLine.mem_keys.2 ⟨raw, List.mem_of_getElem? hraw, hkind, rfl⟩
    have hleads : ∀ k ∈ line.keys item, Leads v item.collectId k.parentId k.spanId :=
      fun k hk => ⟨item, k, .line hline htoken hitem hk, rfl, rfl, rfl⟩
    have hset : LinkedSet (.localSpansInner ⟨line.spanQueue.spanQueue, Instant.zero⟩) := hlinked.back
    exact hup.trans (reached_in_set hset hleads hkey)

variable [DecidableEq T]

theorem AllDescend.step (h : AllDescend v) (hparented : Parented v) (heffect : Effect v a v')
    (hcollects : Collects v a.1 v') : AllDescend v' := by
  intro item hitem hroot
  have hlater : ∀ {c : CollectId} {x : SpanId}, Descends v c x → Descends v' c x :=
    fun hx => hx.mono fun item k hk => hk.step heffect hcollects
  rcases carried_step heffect hitem with hold | hissued
  · exact hlater (h item hold hroot)
  · cases hissued with
    | root hroot' => rw [hroot] at hroot'; cases hroot'
    | span hs hitem =>
      obtain ⟨item', hitem', rfl⟩ := mem_retainSampled_map (by simp) hitem
      have hspan := descends_span h hparented hs hitem'
      exact hlater hspan
    | line hline htoken hitem =>
      obtain ⟨token', htoken', rfl⟩ := Option.map_eq_some_iff.1 htoken
      obtain ⟨item', hitem', rfl⟩ := mem_retainSampled_map (by simp) hitem
      have hcurrent := descends_current h hparented hline htoken' hitem'
      exact hlater hcurrent

end Ways

/-! ### The records of a trace -/

section Trace

variable [DecidableEq T] {w : World T} {as : List (T × Op)} {c : CollectId} {id : SpanId} {parent : SpanContext}
  {rounds : List Round}

theorem allDescend_of_run (hlifo : Lifo (fun _ => []) as) (hrun : Steps.run World.step World.init as = some w) :
    AllDescend w.view ∧ Parented w.view ∧ w.Scoped (scopesRun (fun _ => []) as) := by
  have hinit : AllDescend (World.init : World T).view := by
    intro item hitem
    cases hitem with
    | span hs hitem => cases hs
    | line hline htoken hitem => cases hline
    | submitted hcmd hitem => cases hcmd
  have hboth := scoped_induction (P := fun w : World T => AllDescend w.view ∧ Parented w.view)
    (fun w a w' h hw hcollects => ⟨h.1.step h.2 (step_effect hw) hcollects, h.2.step (step_effect hw) hcollects⟩)
    hlifo scoped_init ⟨hinit, Parented.init⟩ hrun
  exact ⟨hboth.1.1, hboth.1.2, hboth.2⟩

/-- From the span of a record to a record under it. -/
def ParentRecord (records : List SpanRecord) (p x : SpanId) : Prop :=
  ∃ r ∈ records, r.parentId = p ∧ r.spanId = x

omit [DecidableEq T] in
/-- What is reported for `c` are the keys due for `c`, when everything has been dropped. -/
theorem mem_keysFor_iff_reported (hreceived : (received rounds).Perm w.commands) {k : RecordKey} :
    k ∈ keysFor c w.submitted ↔ ∃ r ∈ (reportedFor false c rounds).flatten, r.key = k := by
  have hkeys : ((reportedFor false c rounds).flatten.map SpanRecord.key).Perm (keysFor c w.submitted) := by
    rw [reportedFor_false_keys, keysFor_itemsFor]
    exact (hreceived.filterMap _).flatMap_right _
  rw [← hkeys.mem_iff, List.mem_map]

omit [DecidableEq T] in
private theorem inner_none (hspans : ∀ h, w.spans h = none) (h : Var) : w.view.inner h = none := by
  change (w.spans h).bind Span.inner = none
  rw [hspans h, Option.bind_none]

omit [DecidableEq T] in
/-- When everything has been dropped, all that is due has been submitted. -/
private theorem submitted_of_due {scopes : T → List Scope} (hscoped : w.Scoped scopes)
    (hspans : ∀ h, w.spans h = none) (hguards : ∀ g, w.guards g = none) {item : CollectTokenItem} {k : RecordKey}
    (hk : Due w.view item k) : ∃ cmd ∈ w.submitted, item ∈ cmd.collectToken ∧ k ∈ (itemOf cmd.spans item).keys := by
  cases hk with
  | @span h s hs hitem hk => rw [inner_none hspans h] at hs; cases hs
  | @line t line token hline htoken hitem hk =>
    rw [hscoped.no_tokens hguards t line hline] at htoken
    cases htoken
  | submitted hcmd hitem hk => exact ⟨_, hcmd, hitem, hk⟩

/-- An item of the root is submitted with the span of the root only. -/
private theorem own_of_due (hrun : Steps.run World.step World.init as = some w) (hlifo : Lifo (fun _ => []) as)
    (hspans : ∀ h, w.spans h = none) (hguards : ∀ g, w.guards g = none) (hroot : RootCall as parent id c)
    (hsampled : parent.sampled = true) {item : CollectTokenItem} {k : RecordKey} (hk : Due w.view item k)
    (hc : item.collectId = c) (hitemRoot : item.isRoot = true) : k.spanId = id := by
  obtain ⟨-, -, hscoped⟩ := allDescend_of_run hlifo hrun
  obtain ⟨cmd, hcmd, hitem, hk⟩ := submitted_of_due hscoped hspans hguards hk
  have hretained : item ∈ retainSampled cmd.collectToken :=
    List.mem_filter.2 ⟨hitem, ((rooted_of_run hrun).submitted cmd hcmd item hitem).2⟩
  cases ownRoot_of_run hlifo hrun hroot hsampled with
  | @live h s hs hid hkind htoken hothers hsubmitted => rw [inner_none hspans h] at hs; cases hs
  | @dropped before after raw heq hid hkind hothers hsubmitted =>
    rw [show w.submitted = _ from heq] at hcmd
    rcases List.mem_append.1 hcmd with hcmd | hcmd
    · cases (hsubmitted cmd (List.mem_append_left _ hcmd) item hretained hc).symm.trans hitemRoot
    · rcases List.mem_cons.1 hcmd with rfl | hcmd
      · obtain ⟨-, rfl⟩ := mem_keys_span.1 hk
        exact hid
      · cases (hsubmitted cmd (List.mem_append_right _ hcmd) item hretained hc).symm.trans hitemRoot

omit [DecidableEq T] in
/-- What leads from one span to another is reported in the end. -/
private theorem parentRecord_of_leads {scopes : T → List Scope} (hscoped : w.Scoped scopes)
    (hspans : ∀ h, w.spans h = none) (hguards : ∀ g, w.guards g = none)
    (hreceived : (received rounds).Perm w.commands) {p x : SpanId} (h : Leads w.view c p x) :
    ParentRecord (reportedFor false c rounds).flatten p x := by
  obtain ⟨item, k, hk, hc, rfl, rfl⟩ := h
  obtain ⟨cmd, hcmd, hitem, hk⟩ := submitted_of_due hscoped hspans hguards hk
  obtain ⟨r, hr, rfl⟩ := (mem_keysFor_iff_reported hreceived).1 (mem_keysFor.2 ⟨cmd, hcmd, item, hitem, hc, hk⟩)
  exact ⟨r, hr, rfl, rfl⟩

/-- There is a way from the span of the root to every span that descends from it. -/
theorem reached_of_descends (hrun : Steps.run World.step World.init as = some w)
    (hlifo : Lifo (fun _ => []) as) (hspans : ∀ h, w.spans h = none) (hguards : ∀ g, w.guards g = none)
    (hreceived : (received rounds).Perm w.commands) (hroot : RootCall as parent id c)
    (hsampled : parent.sampled = true) {x : SpanId} (h : Descends w.view c x) :
    Relation.ReflTransGen (ParentRecord (reportedFor false c rounds).flatten) id x := by
  obtain ⟨-, -, hscoped⟩ := allDescend_of_run hlifo hrun
  obtain ⟨item, k, hk, hc, hitemRoot, hreached⟩ := h
  rw [own_of_due hrun hlifo hspans hguards hroot hsampled hk hc hitemRoot] at hreached
  exact Relation.ReflTransGen.mono (fun p x => parentRecord_of_leads hscoped hspans hguards hreceived) _ _ hreached

/-- There is a way from the span of the root to every record of its trace. -/
theorem records_reached_from (hrun : Steps.run World.step World.init as = some w)
    (hlifo : Lifo (fun _ => []) as) (hspans : ∀ h, w.spans h = none) (hguards : ∀ g, w.guards g = none)
    (hreceived : (received rounds).Perm w.commands) (hroot : RootCall as parent id c)
    (hsampled : parent.sampled = true) : ∀ r ∈ (reportedFor false c rounds).flatten,
      Relation.ReflTransGen (ParentRecord (reportedFor false c rounds).flatten) id r.spanId := by
  obtain ⟨hall, hparented, -⟩ := allDescend_of_run hlifo hrun
  intro r hr
  obtain ⟨cmd, hcmd, item, hitem, rfl, hk⟩ := mem_keysFor.1 ((mem_keysFor_iff_reported hreceived).2 ⟨r, hr, rfl⟩)
  refine reached_of_descends hrun hlifo hspans hguards hreceived hroot hsampled ?_
  cases hitemRoot : item.isRoot with
  | true => exact ⟨item, r.key, .submitted hcmd hitem hk, rfl, hitemRoot, .refl⟩
  | false =>
    exact (hall item (.submitted hcmd hitem) hitemRoot).trans (reached_in_set (hparented.submitted cmd hcmd).1
      (fun k hk => ⟨item, k, .submitted hcmd hitem hk, rfl, rfl, rfl⟩) hk)

/-- The record of the root itself. -/
theorem own_reported (hrun : Steps.run World.step World.init as = some w) (hlifo : Lifo (fun _ => []) as)
    (hspans : ∀ h, w.spans h = none) (hreceived : (received rounds).Perm w.commands) (hroot : RootCall as parent id c)
    (hsampled : parent.sampled = true) :
    ∃ r ∈ (reportedFor false c rounds).flatten, r.key = ⟨parent.traceId, id, parent.spanId⟩ := by
  refine (mem_keysFor_iff_reported hreceived).1 ?_
  cases ownRoot_of_run hlifo hrun hroot hsampled with
  | @live h s hs hid hkind htoken hothers hsubmitted => rw [inner_none hspans h] at hs; cases hs
  | @dropped before after raw heq hid hkind hothers hsubmitted =>
    refine mem_keysFor.2 ⟨⟨.span raw, Span.rootToken parent c⟩, ?_, _, List.mem_singleton.2 rfl, rfl,
      mem_keys_span.2 ⟨hkind, by rw [hid]⟩⟩
    rw [show w.submitted = _ from heq]
    exact List.mem_append_right _ (List.mem_cons_self ..)

/-- With fresh ids no record has the id of a missing parent. -/
theorem reported_nonzero (hrun : Steps.run World.step World.init as = some w) (hfresh : FreshIds as)
    (hreceived : (received rounds).Perm w.commands) :
    default ∉ (reportedFor false c rounds).flatten.map SpanRecord.spanId := by
  intro hmem
  obtain ⟨r, hr, hid⟩ := List.mem_map.1 hmem
  obtain ⟨cmd, hcmd, item, hitem, -, hk⟩ := mem_keysFor.1 ((mem_keysFor_iff_reported hreceived).2 ⟨r, hr, rfl⟩)
  obtain ⟨raw, hraw, hkey⟩ := List.mem_map.1 hk
  have hraw : raw ∈ cmd.spans.raws := List.mem_of_mem_filter hraw
  have hrawId : raw.id = default := (congrArg RecordKey.spanId hkey).trans hid
  obtain ⟨howned, -⟩ := owned_of_run hfresh hrun
  have hdrawn : ∀ (place : Holder T), raw.id ∈ w.view.holds place → False := fun place hplace =>
    hfresh.nonzero (hrawId ▸ howned.exclusive.drawn place raw.id hplace)
  have hsubmitted : raw.id ∈ SubmitSpans.ownIds cmd → False := fun hown =>
    hdrawn .submitted (List.mem_flatMap.2 ⟨cmd, hcmd, hown⟩)
  cases hspans : cmd.spans with
  | span rawSpan =>
    rw [hspans] at hraw
    exact hsubmitted (by simp [SubmitSpans.ownIds, hspans, List.mem_singleton.1 hraw])
  | localSpansInner localSpans =>
    rw [hspans] at hraw
    refine hsubmitted ?_
    rw [SubmitSpans.ownIds, hspans]
    exact List.mem_map_of_mem hraw
  | sharedLocalSpans localSpans =>
    rw [hspans] at hraw
    obtain ⟨l, hl⟩ := howned.shared cmd hcmd localSpans hspans
    refine hdrawn (.collected l) ?_
    simp only [View.holds, hl, Option.toList_some, List.flatMap_singleton]
    exact List.mem_map_of_mem hraw

/-- With scopes closed in order, every span and every guard dropped and all commands received, in whatever rounds and
order, the records of the trace of a sampled root: every one of them is reached from the span of the root, from a span
to a record that has it as its parent; and when no span is reported twice for the trace and the parent of the root is
no span of the trace, they form a forest. -/
theorem trace_forest (hrun : Steps.run World.step World.init as = some w) (hlifo : Lifo (fun _ => []) as)
    (hspans : ∀ h, w.spans h = none) (hguards : ∀ g, w.guards g = none)
    (hreceived : (received rounds).Perm w.commands) (hroot : RootCall as parent id c)
    (hsampled : parent.sampled = true) :
    (∀ r ∈ (reportedFor false c rounds).flatten,
      Relation.ReflTransGen (ParentRecord (reportedFor false c rounds).flatten) id r.spanId) ∧
    (((reportedFor false c rounds).flatten.map SpanRecord.spanId).Nodup →
      parent.spanId ∉ (reportedFor false c rounds).flatten.map SpanRecord.spanId →
        Forests.IsForest (ParentRecord (reportedFor false c rounds).flatten)) := by
  have hreached := records_reached_from hrun hlifo hspans hguards hreceived hroot hsampled
  refine ⟨hreached, fun hnodup houtside => ?_⟩
  obtain ⟨own, hown, hkey⟩ := own_reported hrun hlifo hspans hreceived hroot hsampled
  generalize (reportedFor false c rounds).flatten = reported at hreached hown hnodup houtside
  have hid : own.spanId = id := congrArg RecordKey.spanId hkey
  have hunique : ∀ {p p' x : SpanId}, ParentRecord reported p x → ParentRecord reported p' x → p = p' := by
    rintro p p' x ⟨r, hr, rfl, hx⟩ ⟨r', hr', rfl, hx'⟩
    rw [List.inj_on_of_nodup_map hnodup hr hr' (hx.trans hx'.symm)]
  have htop : ParentRecord reported parent.spanId id := ⟨own, hown, congrArg RecordKey.parentId hkey, hid⟩
  have hnone : ∀ p, ¬ParentRecord reported p parent.spanId := by
    rintro p ⟨r, hr, -, hx⟩
    exact houtside (hx ▸ List.mem_map_of_mem hr)
  -- the ancestors of the root are none but the parent in its context
  have hup : ∀ {x y : SpanId}, Relation.TransGen (ParentRecord reported) x y → y = id → x = parent.spanId := by
    intro x y h
    induction h using Relation.TransGen.head_induction_on with
    | single h => exact fun heq => hunique h (heq ▸ htop)
    | head h _ ih => exact fun heq => absurd (ih heq ▸ h) (hnone _)
  refine ⟨hunique, fun x hcycle => ?_, fun x => ?_⟩
  · -- everything above a node of a cycle is on the cycle, and so is the root
    obtain ⟨p, -, r, hr, -, rfl⟩ := Relation.TransGen.tail'_iff.1 hcycle
    have hcycles : ∀ {y : SpanId}, Relation.ReflTransGen (ParentRecord reported) y r.spanId →
        Relation.TransGen (ParentRecord reported) y y := by
      intro y hy
      induction hy using Relation.ReflTransGen.head_induction_on with
      | refl => exact hcycle
      | @head y z hyz _ ih =>
        obtain ⟨q, hzq, hqz⟩ := Relation.TransGen.tail'_iff.1 ih
        rw [hunique hyz hqz]
        exact (Relation.TransGen.single hqz).trans_left hzq
    have hidCycle := hcycles (hreached r hr)
    have heq := hup hidCycle rfl
    obtain ⟨q, -, hq⟩ := Relation.TransGen.tail'_iff.1 hidCycle
    exact hnone q (heq ▸ hq)
  · by_cases hx : ∃ r ∈ reported, r.spanId = x
    · obtain ⟨r, hr, rfl⟩ := hx
      exact ⟨parent.spanId, .head htop (hreached r hr), hnone⟩
    · refine ⟨x, .refl, ?_⟩
      rintro p ⟨r, hr, -, hx'⟩
      exact hx ⟨r, hr, hx'⟩

omit [DecidableEq T] in
/-- Records that are all reached from one at the top form a tree, and `from_span_records` returns it, in any order. -/
theorem tree_of_records {reported : List SpanRecord} {own : SpanRecord} (hown : own ∈ reported)
    (hparent : own.parentId = default)
    (hreached : ∀ r ∈ reported, Relation.ReflTransGen (ParentRecord reported) own.spanId r.spanId)
    (hnonzero : default ∉ reported.map SpanRecord.spanId) (hnodup : (reported.map SpanRecord.spanId).Nodup)
    {depth : Nat} (hdepth : reported.length < depth) :
    ∃ t, Tree.Shows (reported.map Tree.recordRow) [t] ∧
      ∀ records, records.Perm reported → Tree.fromSpanRecords depth records = some t := by
  have hdistinct : Tree.DistinctIds (reported.map Tree.recordRow) :=
    ⟨Tree.ids_recordRow reported ▸ hnodup, Tree.ids_recordRow reported ▸ hnonzero⟩
  have hchild : ∀ {p x : SpanId}, ParentRecord reported p x ↔
      x ∈ Tree.childrenOf (reported.map Tree.recordRow) p := by
    intro p x
    rw [Tree.mem_childrenOf]
    simp only [List.mem_map, exists_exists_and_eq_and]
    rfl
  have htop : ParentRecord reported default own.spanId := ⟨own, hown, hparent, rfl⟩
  have hrooted : Tree.Rooted (reported.map Tree.recordRow) := by
    intro row hrow
    obtain ⟨r, hr, rfl⟩ := List.mem_map.1 hrow
    exact Relation.ReflTransGen.mono (fun _ _ => hchild.1) _ _ (.head htop (hreached r hr))
  -- only the root is at the top
  have honly : ∀ x ∈ Tree.childrenOf (reported.map Tree.recordRow) default, x = own.spanId := by
    intro x hx
    obtain ⟨r, hr, hrp, rfl⟩ := hchild.2 hx
    rcases Relation.ReflTransGen.cases_tail (hreached r hr) with heq | ⟨p, hp, hlast⟩
    · exact heq
    · have hzero : p = default := hdistinct.arborescent.unique (hchild.1 hlast) hx
      subst hzero
      exfalso
      rcases Relation.ReflTransGen.cases_tail hp with heq | ⟨q, -, r', hr', -, hzero⟩
      · exact hnonzero (heq ▸ List.mem_map_of_mem hown)
      · exact hnonzero (hzero ▸ List.mem_map_of_mem hr')
  have hrowsDepth : (reported.map Tree.recordRow).length < depth := by rwa [List.length_map]
  obtain ⟨t, ht, hshows⟩ := Tree.ofRows_shows hdistinct hrooted hrowsDepth
  have hlength : t.children.length = 1 := by
    have hone : Tree.childrenOf (reported.map Tree.recordRow) default = [own.spanId] :=
      List.perm_singleton.1 ((List.perm_ext_iff_of_nodup (hdistinct.arborescent.nodup default)
        (List.nodup_singleton _)).2 fun x =>
          ⟨fun hx => List.mem_singleton.2 (honly x hx), fun hx => List.mem_singleton.1 hx ▸ hchild.1 htop⟩)
    rw [Tree.length_children_of_ofRows hdistinct ht, hone, List.length_singleton]
  obtain ⟨child, hchildren⟩ := List.length_eq_one_iff.1 hlength
  refine ⟨child, hchildren ▸ hshows, fun records hperm => ?_⟩
  rw [Tree.fromSpanRecords, ← Tree.ofRows_perm hdistinct (hperm.symm.map Tree.recordRow), ht, Option.bind_some,
    Tree.onlyChild, hchildren]

/-- A trace that begins with a root without a parent, in a program with fresh ids whose scopes are closed in order, once
every span and every guard has been dropped and all commands have been received: if no span is reported twice for the
trace, `from_span_records` returns a tree on its records, in any order, and the tree holds every record once, under its
parent. -/
theorem tree_of_trace (hrun : Steps.run World.step World.init as = some w) (hfresh : FreshIds as)
    (hlifo : Lifo (fun _ => []) as) (hspans : ∀ h, w.spans h = none) (hguards : ∀ g, w.guards g = none)
    (hreceived : (received rounds).Perm w.commands) (hroot : RootCall as parent id c)
    (hsampled : parent.sampled = true) (hparent : parent.spanId = default)
    (hnodup : ((reportedFor false c rounds).flatten.map SpanRecord.spanId).Nodup) {depth : Nat}
    (hdepth : (reportedFor false c rounds).flatten.length < depth) :
    ∃ t, Tree.Shows ((reportedFor false c rounds).flatten.map Tree.recordRow) [t] ∧
      ∀ records, records.Perm (reportedFor false c rounds).flatten → Tree.fromSpanRecords depth records = some t := by
  obtain ⟨own, hown, hkey⟩ := own_reported hrun hlifo hspans hreceived hroot hsampled
  have hid : own.spanId = id := congrArg RecordKey.spanId hkey
  refine tree_of_records hown ((congrArg RecordKey.parentId hkey).trans hparent) ?_
    (reported_nonzero hrun hfresh hreceived) hnodup hdepth
  rw [hid]
  exact records_reached_from hrun hlifo hspans hguards hreceived hroot hsampled

end Trace

/-! ### A trace with spans of two threads -/

/-- Two variables that have been filled and emptied. -/
theorem emptied {α : Type} (a b : Option α) (x y h : Nat) :
    Function.update (Function.update (Function.update (Function.update (fun _ => none) x a) y b) x none) y none h =
      none := by
  simp only [Function.update_apply]
  split_ifs <;> rfl

theorem trace_forest_nested :
    (∀ r ∈ (reportedFor false 0 nestedRounds).flatten,
      Relation.ReflTransGen (ParentRecord (reportedFor false 0 nestedRounds).flatten) ⟨1⟩ r.spanId) ∧
    Forests.IsForest (ParentRecord (reportedFor false 0 nestedRounds).flatten) := by
  have hroot : RootCall nestedProgram ⟨⟨1⟩, ⟨9⟩, true⟩ ⟨1⟩ 0 :=
    ⟨[(0, .setReporter)], _, 0, 0, "root", ⟨10⟩, _, rfl, rfl, rfl, rfl⟩
  have hreceived : (received nestedRounds).Perm nestedWorld.commands := by
    rw [nestedRounds, received, List.flatMap_singleton]
  have h := trace_forest (w := nestedWorld) rfl (by decide) (emptied _ _ 0 3) (emptied _ _ 1 4) hreceived hroot rfl
  exact ⟨h.1, h.2 (by decide) (by decide)⟩

/-- The same with a root that has no parent. -/
def plantedProgram : List (Nat × Op) :=
  (0, .setReporter) :: (0, .root 0 "root" ⟨⟨1⟩, default, true⟩ ⟨1⟩ ⟨10⟩) :: nestedProgram.drop 2

def plantedWorld : World Nat := (Steps.run World.step World.init plantedProgram).getD World.init

/-- The commands in the order of sending, in two calls. -/
def plantedRounds : List Round := [
  ⟨plantedWorld.commands.take 2, fun i => i.ticks, .stored⟩, ⟨plantedWorld.commands.drop 2, fun i => i.ticks, .stored⟩]

theorem tree_of_trace_planted :
    ∃ t, Tree.Shows ((reportedFor false 0 plantedRounds).flatten.map Tree.recordRow) [t] ∧
      ∀ records : List SpanRecord, records.Perm (reportedFor false 0 plantedRounds).flatten →
        Tree.fromSpanRecords 5 records = some t := by
  have hroot : RootCall plantedProgram ⟨⟨1⟩, default, true⟩ ⟨1⟩ 0 :=
    ⟨[(0, .setReporter)], _, 0, 0, "root", ⟨10⟩, _, rfl, rfl, rfl, rfl⟩
  have hreceived : received plantedRounds = plantedWorld.commands := by simp [received, plantedRounds]
  exact tree_of_trace (w := plantedWorld) rfl ⟨by decide, by decide⟩ (by decide) (emptied _ _ 0 3)
    (emptied _ _ 1 4) (List.Perm.of_eq hreceived) hroot rfl rfl (by decide) (by decide)

end Fastrace
