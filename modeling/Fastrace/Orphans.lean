import Fastrace.Joins
import Fastrace.Roots
import Fastrace.Scopes

/-!
# No orphans

A token item names a parent, and the parent may be a span that is still live or a local span in the line of some
thread.  Such a parent is promised to the trace of the item (`Promised`): it is submitted for that trace sooner or
later, when its span is dropped or the line is taken off the stack.  A step breaks no promise as long as the scopes of
every thread are closed last in first out (`Promised.step`); so when all spans and guards have been dropped every
record other than that of the root has its parent among the records of the trace (`no_orphan_records`).
-/

namespace Fastrace

variable {T : Type}

/-- The span `p` has been submitted for `c`, or is live, or is recorded in a line, and is due to be. -/
inductive Promised (c : CollectId) (p : SpanId) (v : View T) : Prop
  | submitted {cmd : SubmitSpans} {item : CollectTokenItem} {raw : RawSpan} (hcmd : cmd ∈ v.submitted)
      (hitem : item ∈ cmd.collectToken) (hc : item.collectId = c) (hraw : raw ∈ cmd.spans.raws)
      (hkind : raw.rawKind = .span) (hid : raw.id = p) : Promised c p v
  | live {h : Var} {s : SpanInner} {item : CollectTokenItem} (hs : v.inner h = some s)
      (hitem : item ∈ retainSampled s.collectToken) (hc : item.collectId = c) (hkind : s.rawSpan.rawKind = .span)
      (hid : s.rawSpan.id = p) : Promised c p v
  | recorded {t : T} {line : SpanLine} {token : CollectToken} {item : CollectTokenItem} {raw : RawSpan}
      (hline : line ∈ (v.spanStack t).spanLines) (htoken : line.collectToken = some token)
      (hitem : item ∈ retainSampled token) (hc : item.collectId = c) (hraw : raw ∈ line.spanQueue.spanQueue)
      (hkind : raw.rawKind = .span) (hid : raw.id = p) : Promised c p v

theorem submission_of_mem {spans : SpanSet} {token : CollectToken} {item : CollectTokenItem}
    (h : item ∈ retainSampled token) : submission spans token = [⟨spans, retainSampled token⟩] := by
  unfold submission
  rw [if_neg]
  intro hempty
  rw [List.isEmpty_iff.1 hempty] at h
  cases h

/-- What has been recorded in a line stays there. -/
private theorem SpanLine.Change.keeps {line line' : SpanLine} {label : Option (SpanId × RawKind)}
    (h : line.Change label line') {raw : RawSpan} (hraw : raw ∈ line.spanQueue.spanQueue) :
    ∃ raw' ∈ line'.spanQueue.spanQueue, raw'.id = raw.id ∧ raw'.rawKind = raw.rawKind := by
  cases h with
  | push hpush hnext => exact ⟨raw, List.mem_append_left _ hraw, rfl, rfl⟩
  | @set i old new next hold hsame hnext =>
    obtain ⟨j, hj⟩ := List.mem_iff_getElem?.1 hraw
    by_cases hij : i = j
    · subst hij
      rw [hold] at hj
      cases hj
      exact ⟨new, List.mem_of_getElem? (List.getElem?_set_self (List.getElem?_eq_some_iff.1 hold).1), hsame.id_eq,
        hsame.kind_eq⟩
    · exact ⟨raw, List.mem_of_getElem? ((List.getElem?_set_ne hij).trans hj), rfl, rfl⟩

section Step

variable [DecidableEq T] {v v' : View T} {a : T × Op} {c : CollectId} {p : SpanId}

theorem Effect.submitted_prefix (h : Effect v a v') : v.submitted <+: v'.submitted := by
  cases h <;> first | exact List.prefix_rfl | exact List.prefix_append _ _

/-- A promised local span in a line that goes is submitted. -/
private theorem promised_lost {t u : T} {line : SpanLine} {token : CollectToken} {item : CollectTokenItem}
    {raw : RawSpan} (hline : line ∈ (v.spanStack u).spanLines) (htoken : line.collectToken = some token)
    (hitem : item ∈ retainSampled token) (hc : item.collectId = c) (hraw : raw ∈ line.spanQueue.spanQueue)
    (hkind : raw.rawKind = .span) (hid : raw.id = p) {stack : LocalSpanStack}
    (hlost : Lost (v.spanStack t) stack) (hstack : v'.spanStack = Function.update v.spanStack t stack)
    (hcollects : Collects v t v') : Promised c p v' := by
  have hstack' : v'.spanStack t = stack := by rw [hstack, Function.update_self]
  by_cases hu : u = t
  · subst hu
    rcases hlost with hsame | ⟨top, htop⟩
    · refine .recorded (t := u) (?_ : line ∈ _) htoken hitem hc hraw hkind hid
      rw [hstack', hsame]
      exact hline
    · rw [htop] at hline
      rcases List.mem_cons.1 hline with rfl | hline
      · obtain ⟨now, hsubmitted⟩ := hcollects line token (by rw [hstack']; exact htop) htoken
        rw [submission_of_mem hitem] at hsubmitted
        have hcmd : ⟨.localSpansInner ⟨line.spanQueue.spanQueue, now⟩, retainSampled token⟩ ∈ v'.submitted := by
          rw [hsubmitted]
          exact List.mem_append_right _ (List.mem_singleton.2 rfl)
        exact .submitted hcmd hitem hc hraw hkind hid
      · refine .recorded (t := u) (?_ : line ∈ _) htoken hitem hc hraw hkind hid
        rw [hstack']
        exact hline
  · refine .recorded (t := u) (?_ : line ∈ _) htoken hitem hc hraw hkind hid
    rw [hstack, Function.update_of_ne hu]
    exact hline

/-- No step breaks a promise. -/
theorem Promised.step (h : Promised c p v) (heffect : Effect v a v') (hcollects : Collects v a.1 v') :
    Promised c p v' := by
  cases h with
  | submitted hcmd hitem hc hraw hkind hid =>
    exact .submitted (heffect.submitted_prefix.subset hcmd) hitem hc hraw hkind hid
  | @live h s item hs hitem hc hkind hid =>
    cases heffect with
    | @born h' s' hfree hid' hkind' hfrom =>
      have hne : h ≠ h' := fun heq => by rw [heq, hfree] at hs; cases hs
      exact .live (h := h) ((Function.update_of_ne hne ..).trans hs) hitem hc hkind hid
    | @amended h' s₁ s₂ hs₁ hsame =>
      by_cases heq : h = h'
      · subst heq
        rw [hs₁] at hs
        cases hs
        exact .live (h := h) (Function.update_self ..) (hsame.token_eq.symm ▸ hitem) hc
          (hsame.kind_eq.trans hkind) (hsame.id_eq.trans hid)
      · exact .live (h := h) ((Function.update_of_ne heq ..).trans hs) hitem hc hkind hid
    | @dropped h' s₁ s₂ hs₁ hsame =>
      by_cases heq : h = h'
      · subst heq
        rw [hs₁] at hs
        cases hs
        rw [submission_of_mem hitem]
        exact .submitted (List.mem_append_right _ (List.mem_singleton.2 rfl)) hitem hc (List.mem_singleton.2 rfl)
          (hsame.kind_eq.trans hkind) (hsame.id_eq.trans hid)
      · exact .live (h := h) ((Function.update_of_ne heq ..).trans hs) hitem hc hkind hid
    | _ => exact .live (h := h) hs hitem hc hkind hid
  | @recorded t line token item raw hline htoken hitem hc hraw hkind hid =>
    cases heffect with
    | @recorded label stack htop hlabel =>
      by_cases ht : t = a.1
      · subst ht
        obtain ⟨top, lines, top', hlines, hchange, rfl⟩ := htop
        rw [hlines] at hline
        rcases List.mem_cons.1 hline with rfl | hline
        · obtain ⟨raw', hraw', hid', hkind'⟩ := hchange.keeps hraw
          refine .recorded (t := a.1) (?_ : top' ∈ _) (hchange.collectToken.trans htoken) hitem hc hraw'
            (hkind'.trans hkind) (hid'.trans hid)
          simp only [Function.update_self]
          exact List.mem_cons_self ..
        · refine .recorded (t := a.1) (?_ : line ∈ _) htoken hitem hc hraw hkind hid
          simp only [Function.update_self]
          exact List.mem_cons_of_mem _ hline
      · refine .recorded (t := t) (?_ : line ∈ _) htoken hitem hc hraw hkind hid
        simp only [Function.update_of_ne ht]
        exact hline
    | @registered capacity epoch token' stack hlines htoken' =>
      refine .recorded (t := t) (?_ : line ∈ _) htoken hitem hc hraw hkind hid
      by_cases ht : t = a.1
      · subst ht
        simp only [Function.update_self, hlines]
        exact List.mem_cons_of_mem _ hline
      · simp only [Function.update_of_ne ht]
        exact hline
    | lost hlost => exact promised_lost hline htoken hitem hc hraw hkind hid hlost rfl hcollects
    | collectedNone hlost hfree => exact promised_lost hline htoken hitem hc hraw hkind hid hlost rfl hcollects
    | collected hlines hfree =>
      exact promised_lost hline htoken hitem hc hraw hkind hid (Or.inr ⟨_, hlines⟩) rfl hcollects
    | closed hlines htoken' =>
      exact promised_lost hline htoken hitem hc hraw hkind hid (Or.inr ⟨_, hlines⟩) rfl hcollects
    | _ => exact .recorded (t := t) hline htoken hitem hc hraw hkind hid

end Step

/-! ### The parents of all items -/

/-- All sampled items have been issued to children, and name promised parents. -/
def Issues (v : View T) (token : CollectToken) : Prop :=
  ∀ item ∈ retainSampled token, item.isRoot = false ∧ Promised item.collectId item.parentId v

def LinkedSet : SpanSet → Prop
  | .span _ => True
  | .localSpansInner localSpans => SpanQueue.LinkedBack localSpans.spans
  | .sharedLocalSpans localSpans => SpanQueue.LinkedBack localSpans.spans

/-- All sampled items but those of the roots name promised parents. -/
structure Parented (v : View T) : Prop where
  span : ∀ h s, v.inner h = some s → s.rawSpan.rawKind = .span ∧
    ∀ item ∈ retainSampled s.collectToken, item.isRoot = false → Promised item.collectId item.parentId v
  line : ∀ t, ∀ line ∈ (v.spanStack t).spanLines, line.spanQueue.Linked ∧
    ∀ token, line.collectToken = some token → Issues v token
  collected : ∀ l localSpans, v.collected l = some localSpans → SpanQueue.LinkedBack localSpans.spans
  submitted : ∀ cmd ∈ v.submitted, LinkedSet cmd.spans ∧
    ∀ item ∈ cmd.collectToken, item.isRoot = false → Promised item.collectId item.parentId v

theorem mem_retainSampled_map {token : CollectToken} {f : CollectTokenItem → CollectTokenItem}
    (hf : ∀ item, (f item).isSampled = item.isSampled) {item : CollectTokenItem}
    (h : item ∈ retainSampled (token.map f)) : ∃ item' ∈ retainSampled token, item = f item' := by
  obtain ⟨hmem, hsampled⟩ := List.mem_filter.1 h
  obtain ⟨item', hitem', rfl⟩ := List.mem_map.1 hmem
  exact ⟨item', List.mem_filter.2 ⟨hitem', (hf item').symm.trans hsampled⟩, rfl⟩

section Parents

variable {v v' : View T} {a : T × Op}

/-- The items that a live span issues promise the span. -/
private theorem Parented.issues (h : Parented v) {h' : Var} {s : SpanInner} (hs : v.inner h' = some s) :
    Issues v s.issueCollectToken := by
  intro item hitem
  obtain ⟨item', hitem', rfl⟩ := mem_retainSampled_map (by simp) hitem
  exact ⟨rfl, .live hs hitem' rfl (h.span h' s hs).1 rfl⟩

/-- The items of a line promise the local span that is open, or what the items of the line promise. -/
private theorem Parented.current (h : Parented v) {t : T} {line : SpanLine} (hline : line ∈ (v.spanStack t).spanLines)
    {token : CollectToken} (htoken : line.currentCollectToken = some token) : Issues v token := by
  obtain ⟨token', htoken', rfl⟩ := Option.map_eq_some_iff.1 htoken
  obtain ⟨hlinked, hissues⟩ := h.line t line hline
  intro item hitem
  obtain ⟨item', hitem', rfl⟩ := mem_retainSampled_map (by simp) hitem
  obtain ⟨hroot, hpromised⟩ := hissues token' htoken' item' hitem'
  refine ⟨hroot, ?_⟩
  unfold SpanQueue.currentParentId
  cases hnext : line.spanQueue.nextParentId with
  | none => exact hpromised
  | some x =>
    obtain ⟨i, raw, hraw, hid, hkind⟩ := hlinked.register x hnext
    exact .recorded hline htoken' hitem' rfl (List.mem_of_getElem? hraw) hkind hid

/-- The items of a new span. -/
private theorem Parented.from (h : Parented v) {token : CollectToken} (hfrom : TokenFrom v a token) :
    Issues v token ∨ a.2.isRoot = true ∧ ∃ parent c, token = Span.rootToken parent c := by
  cases hfrom with
  | root hroot parent c => exact Or.inr ⟨hroot, parent, c, rfl⟩
  | parents =>
    left
    intro item hitem
    obtain ⟨hmem, hsampled⟩ := List.mem_filter.1 hitem
    obtain ⟨s, hs, hmem⟩ := List.mem_flatMap.1 hmem
    obtain ⟨h', -, hs⟩ := List.mem_filterMap.1 hs
    exact h.issues hs item (List.mem_filter.2 ⟨hmem, hsampled⟩)
  | @line line lines token huses hlines htoken =>
    exact Or.inl (h.current (by rw [hlines]; exact List.mem_cons_self ..) htoken)

/-- Later promises, and what is new. -/
private theorem Parented.later (h : Parented v) (hlater : ∀ c p, Promised c p v → Promised c p v')
    (hspan : ∀ h' s, v'.inner h' = some s → (∃ s', v.inner h' = some s' ∧ s'.Same s) ∨
      s.rawSpan.rawKind = .span ∧
        ∀ item ∈ retainSampled s.collectToken, item.isRoot = false → Promised item.collectId item.parentId v')
    (hline : ∀ t, ∀ line ∈ (v'.spanStack t).spanLines, (line.spanQueue.Linked ∧
      ∀ token, line.collectToken = some token → Issues v token))
    (hcollected : ∀ l localSpans, v'.collected l = some localSpans → SpanQueue.LinkedBack localSpans.spans)
    (hsubmitted : ∀ cmd ∈ v'.submitted, cmd ∈ v.submitted ∨ LinkedSet cmd.spans ∧
      ∀ item ∈ cmd.collectToken, item.isRoot = false → Promised item.collectId item.parentId v) :
    Parented v' where
  span h' s hs := by
    rcases hspan h' s hs with ⟨s', hs', hsame⟩ | hnew
    · obtain ⟨hkind, hitems⟩ := h.span h' s' hs'
      refine ⟨hsame.kind_eq.trans hkind, fun item hitem hroot => hlater _ _ (hitems item ?_ hroot)⟩
      rwa [hsame.token_eq] at hitem
    · exact hnew
  line t line hmem := by
    obtain ⟨hlinked, hissues⟩ := hline t line hmem
    exact ⟨hlinked, fun token htoken item hitem => ⟨(hissues token htoken item hitem).1,
      hlater _ _ (hissues token htoken item hitem).2⟩⟩
  collected := hcollected
  submitted cmd hcmd := by
    have hall : LinkedSet cmd.spans ∧
        ∀ item ∈ cmd.collectToken, item.isRoot = false → Promised item.collectId item.parentId v := by
      rcases hsubmitted cmd hcmd with hold | hnew
      · exact h.submitted cmd hold
      · exact hnew
    exact ⟨hall.1, fun item hitem hroot => hlater _ _ (hall.2 item hitem hroot)⟩

private theorem lines_of_lost (h : Parented v) {t : T} {stack : LocalSpanStack} (hlost : Lost (v.spanStack t) stack) :
    ∀ line ∈ stack.spanLines, line.spanQueue.Linked ∧ ∀ token, line.collectToken = some token → Issues v token :=
  fun line hmem => h.line t line (mem_line_of_lost hlost hmem)

private theorem submitted_append {spans : SpanSet} {token : CollectToken} (hset : LinkedSet spans)
    (hitems : ∀ item ∈ retainSampled token, item.isRoot = false → Promised item.collectId item.parentId v) :
    ∀ cmd ∈ v.submitted ++ submission spans token, cmd ∈ v.submitted ∨ LinkedSet cmd.spans ∧
      ∀ item ∈ cmd.collectToken, item.isRoot = false → Promised item.collectId item.parentId v := by
  intro cmd hcmd
  rcases List.mem_append.1 hcmd with hold | hnew
  · exact Or.inl hold
  · rw [mem_submission hnew]
    exact Or.inr ⟨hset, hitems⟩

variable [DecidableEq T]

theorem Parented.step (h : Parented v) (heffect : Effect v a v') (hcollects : Collects v a.1 v') : Parented v' := by
  have hlater : ∀ c p, Promised c p v → Promised c p v' := fun c p hp => hp.step heffect hcollects
  have hspan : ∀ h' s, v.inner h' = some s → ∃ s', v.inner h' = some s' ∧ s'.Same s :=
    fun h' s hs => ⟨s, hs, rfl, rfl, rfl⟩
  have hline : ∀ stack : LocalSpanStack,
      (∀ line ∈ stack.spanLines, line.spanQueue.Linked ∧ ∀ token, line.collectToken = some token → Issues v token) →
      ∀ t, ∀ line ∈ (Function.update v.spanStack a.1 stack t).spanLines, line.spanQueue.Linked ∧
        ∀ token, line.collectToken = some token → Issues v token :=
    fun _ hs => update_forall (P := fun stack : LocalSpanStack => ∀ line ∈ stack.spanLines, line.spanQueue.Linked ∧
      ∀ token, line.collectToken = some token → Issues v token) h.line a.1 hs
  have hcollected : ∀ (l : Var) (localSpans : LocalSpansInner), SpanQueue.LinkedBack localSpans.spans →
      ∀ l' localSpans', Function.update v.collected l (some localSpans) l' = some localSpans' →
        SpanQueue.LinkedBack localSpans'.spans :=
    fun l localSpans hset => update_forall (P := fun spans : Option LocalSpansInner => ∀ localSpans',
      spans = some localSpans' → SpanQueue.LinkedBack localSpans'.spans) h.collected l
      (fun localSpans' heq => by cases heq; exact hset)
  have hissues : ∀ {h' : Var} {s : SpanInner}, v.inner h' = some s →
      ∀ item ∈ retainSampled s.issueCollectToken, item.isRoot = false → Promised item.collectId item.parentId v :=
    fun hs item hitem _ => (h.issues hs item hitem).2
  cases heffect with
  | quiet => exact h
  | @born h' s hfree hid hkind hfrom =>
    refine h.later hlater (fun h'' s' hs' => ?_) h.line h.collected fun cmd hcmd => Or.inl hcmd
    change Function.update v.inner h' (some s) h'' = some s' at hs'
    by_cases heq : h'' = h'
    · subst heq
      rw [Function.update_self] at hs'
      cases hs'
      refine Or.inr ⟨hkind, fun item hitem hroot => hlater _ _ ?_⟩
      rcases h.from hfrom with hissued | ⟨-, parent, c, htoken⟩
      · exact (hissued item hitem).2
      · rw [htoken] at hitem
        cases List.mem_singleton.1 (List.mem_of_mem_filter hitem)
        cases hroot
    · rw [Function.update_of_ne heq] at hs'
      exact Or.inl (hspan h'' s' hs')
  | @amended h' s s' hs hsame =>
    refine h.later hlater (fun h'' s'' hs'' => Or.inl ?_) h.line h.collected fun cmd hcmd => Or.inl hcmd
    change Function.update v.inner h' (some s') h'' = some s'' at hs''
    by_cases heq : h'' = h'
    · subst heq
      rw [Function.update_self] at hs''
      cases hs''
      exact ⟨s, hs, hsame⟩
    · rw [Function.update_of_ne heq] at hs''
      exact hspan h'' s'' hs''
  | @dropped h' s s' hs hsame =>
    refine h.later hlater (fun h'' s'' hs'' => Or.inl ?_) h.line h.collected
      (submitted_append trivial (h.span h' s hs).2)
    change Function.update v.inner h' none h'' = some s'' at hs''
    by_cases heq : h'' = h'
    · subst heq
      rw [Function.update_self] at hs''
      cases hs''
    · rw [Function.update_of_ne heq] at hs''
      exact hspan h'' s'' hs''
  | @attached h' s raw hs hid hkind =>
    exact h.later hlater (fun h'' s' hs' => Or.inl (hspan h'' s' hs')) h.line h.collected
      (submitted_append trivial (hissues hs))
  | @pushed h' l s localSpans hop hs hl =>
    exact h.later hlater (fun h'' s' hs' => Or.inl (hspan h'' s' hs')) h.line h.collected
      (submitted_append (h.collected l localSpans hl) (hissues hs))
  | @recorded label stack htop hlabel =>
    refine h.later hlater (fun h' s hs => Or.inl (hspan h' s hs)) (hline stack fun line hmem => ?_) h.collected
      fun cmd hcmd => Or.inl hcmd
    obtain ⟨top, lines, top', hlines, hchange, rfl⟩ := htop
    rcases List.mem_cons.1 hmem with rfl | hmem
    · obtain ⟨hlinked, hitems⟩ := h.line a.1 top (by rw [hlines]; exact List.mem_cons_self ..)
      exact ⟨hchange.linked hlinked, fun token htoken => hitems token (hchange.collectToken ▸ htoken)⟩
    · exact h.line a.1 line (by rw [hlines]; exact List.mem_cons_of_mem _ hmem)
  | @registered capacity epoch token stack hlines htoken =>
    refine h.later hlater (fun h' s hs => Or.inl (hspan h' s hs)) (hline stack fun line hmem => ?_) h.collected
      fun cmd hcmd => Or.inl hcmd
    rw [hlines] at hmem
    rcases List.mem_cons.1 hmem with rfl | hmem
    · refine ⟨SpanQueue.linked_withCapacity capacity, fun token' htoken' => ?_⟩
      obtain ⟨h', s, hs, rfl⟩ := htoken token' htoken'
      exact h.issues hs
    · exact h.line a.1 line hmem
  | lost hlost =>
    exact h.later hlater (fun h' s hs => Or.inl (hspan h' s hs)) (hline _ (lines_of_lost h hlost)) h.collected
      fun cmd hcmd => Or.inl hcmd
  | @collectedNone l now stack hlost hfree =>
    exact h.later hlater (fun h' s hs => Or.inl (hspan h' s hs)) (hline _ (lines_of_lost h hlost))
      (hcollected l ⟨[], now⟩ fun i raw hraw => by simp at hraw) fun cmd hcmd => Or.inl hcmd
  | @collected l now line stack hlines hfree =>
    obtain ⟨hlinked, -⟩ := h.line a.1 line (by rw [hlines]; exact List.mem_cons_self ..)
    exact h.later hlater (fun h' s hs => Or.inl (hspan h' s hs)) (hline _ (lines_of_lost h (Or.inr ⟨line, hlines⟩)))
      (hcollected l ⟨line.spanQueue.spanQueue, now⟩ hlinked.back) fun cmd hcmd => Or.inl hcmd
  | @closed now line token stack hlines htoken =>
    obtain ⟨hlinked, hitems⟩ := h.line a.1 line (by rw [hlines]; exact List.mem_cons_self ..)
    exact h.later hlater (fun h' s hs => Or.inl (hspan h' s hs)) (hline _ (lines_of_lost h (Or.inr ⟨line, hlines⟩)))
      h.collected (submitted_append hlinked.back fun item hitem _ => (hitems token htoken item hitem).2)

end Parents

/-! ### The span of the root -/

/-- The token has no item of the root of `c` itself. -/
def NoRoot (c : CollectId) (token : CollectToken) : Prop :=
  ∀ item ∈ retainSampled token, item.collectId = c → item.isRoot = false

/-- There is one span or submission with the item of the root of `c` itself. -/
inductive OwnRoot (c : CollectId) (id : SpanId) (parent : SpanContext) (v : View T) : Prop
  | live {h : Var} {s : SpanInner} (hs : v.inner h = some s) (hid : s.rawSpan.id = id)
      (hkind : s.rawSpan.rawKind = .span) (htoken : s.collectToken = Span.rootToken parent c)
      (hothers : ∀ h' s', h' ≠ h → v.inner h' = some s' → NoRoot c s'.collectToken)
      (hsubmitted : ∀ cmd ∈ v.submitted, NoRoot c cmd.collectToken) : OwnRoot c id parent v
  | dropped {before after : List SubmitSpans} {raw : RawSpan}
      (heq : v.submitted = before ++ ⟨.span raw, Span.rootToken parent c⟩ :: after) (hid : raw.id = id)
      (hkind : raw.rawKind = .span) (hothers : ∀ h s, v.inner h = some s → NoRoot c s.collectToken)
      (hsubmitted : ∀ cmd ∈ before ++ after, NoRoot c cmd.collectToken) : OwnRoot c id parent v

section Own

variable {v v' : View T} {a : T × Op} {c : CollectId} {id : SpanId} {parent : SpanContext}

private theorem NoRoot.retain {token : CollectToken} (h : NoRoot c token) : NoRoot c (retainSampled token) := by
  intro item hitem
  rw [retainSampled_idem] at hitem
  exact h item hitem

private theorem Issues.noRoot {token : CollectToken} (h : Issues v token) (c : CollectId) : NoRoot c token :=
  fun item hitem _ => (h item hitem).1

/-- The spans other than the root keep to their items, and so do the new submissions. -/
private theorem ownRoot_later (h : OwnRoot c id parent v)
    (hkept : ∀ h' s, v.inner h' = some s → s.collectToken = Span.rootToken parent c →
      ∃ s', v'.inner h' = some s' ∧ s.Same s')
    (hold : ∀ h' s', v'.inner h' = some s' → (∃ s, v.inner h' = some s ∧ s.Same s') ∨ NoRoot c s'.collectToken)
    {new : List SubmitSpans} (hsubmitted : v'.submitted = v.submitted ++ new)
    (hnew : ∀ cmd ∈ new, NoRoot c cmd.collectToken) : OwnRoot c id parent v' := by
  have hothers : ∀ h' s', v'.inner h' = some s' → (∀ s, v.inner h' = some s → NoRoot c s.collectToken) →
      NoRoot c s'.collectToken := by
    intro h' s' hs' hroot
    rcases hold h' s' hs' with ⟨s, hs, hsame⟩ | hno
    · rw [hsame.token_eq]
      exact hroot s hs
    · exact hno
  cases h with
  | @live h s hs hid hkind htoken hrest hsubs =>
    obtain ⟨s', hs', hsame⟩ := hkept h s hs htoken
    refine .live hs' (hsame.id_eq.trans hid) (hsame.kind_eq.trans hkind) (hsame.token_eq.trans htoken)
      (fun h' s'' hne hs'' => hothers h' s'' hs'' fun s₀ hs₀ => hrest h' s₀ hne hs₀) fun cmd hcmd => ?_
    rw [hsubmitted] at hcmd
    rcases List.mem_append.1 hcmd with hcmd | hcmd
    · exact hsubs cmd hcmd
    · exact hnew cmd hcmd
  | @dropped before after raw heq hid hkind hrest hsubs =>
    have heq' : v'.submitted = before ++ ⟨.span raw, Span.rootToken parent c⟩ :: (after ++ new) := by
      rw [hsubmitted, heq, List.append_assoc, List.cons_append]
    refine .dropped heq' hid hkind
      (fun h' s' hs' => hothers h' s' hs' fun s₀ hs₀ => hrest h' s₀ hs₀) fun cmd hcmd => ?_
    rw [← List.append_assoc] at hcmd
    rcases List.mem_append.1 hcmd with hcmd | hcmd
    · exact hsubs cmd hcmd
    · exact hnew cmd hcmd

private theorem noRoot_submission {spans : SpanSet} {token : CollectToken} (h : NoRoot c token) :
    ∀ cmd ∈ submission spans token, NoRoot c cmd.collectToken := by
  intro cmd hcmd
  rw [mem_submission hcmd]
  exact h.retain

private theorem retainSampled_rootToken (hsampled : parent.sampled = true) :
    retainSampled (Span.rootToken parent c) = Span.rootToken parent c := by
  simp [retainSampled, Span.rootToken, hsampled]

private theorem mem_rootToken (hsampled : parent.sampled = true) :
    ⟨parent.traceId, parent.spanId, c, true, parent.sampled⟩ ∈ retainSampled (Span.rootToken parent c) := by
  rw [retainSampled_rootToken hsampled]
  exact List.mem_singleton.2 rfl

private theorem rootToken_not_noRoot (hsampled : parent.sampled = true) : ¬NoRoot c (Span.rootToken parent c) :=
  fun h => by cases h _ (mem_rootToken hsampled) rfl

/-- A live span is that of the root, or has no item of it. -/
private theorem OwnRoot.root_or_noRoot (h : OwnRoot c id parent v) {h' : Var} {s : SpanInner}
    (hs : v.inner h' = some s) : NoRoot c s.collectToken ∨
      s.rawSpan.id = id ∧ s.rawSpan.rawKind = .span ∧ s.collectToken = Span.rootToken parent c ∧
        (∀ h'' s'', h'' ≠ h' → v.inner h'' = some s'' → NoRoot c s''.collectToken) ∧
        ∀ cmd ∈ v.submitted, NoRoot c cmd.collectToken := by
  cases h with
  | @live h₀ s₀ hs₀ hid hkind htoken hrest hsubs =>
    by_cases heq : h' = h₀
    · subst heq
      rw [hs₀] at hs
      cases hs
      exact Or.inr ⟨hid, hkind, htoken, hrest, hsubs⟩
    · exact Or.inl (hrest h' s heq hs)
  | dropped heq hid hkind hrest hsubs => exact Or.inl (hrest h' s hs)

/-- The span of the root stays the only one with its item, and is submitted when it is dropped. -/
theorem OwnRoot.step [DecidableEq T] (h : OwnRoot c id parent v) (hsampled : parent.sampled = true)
    (hparented : Parented v) (heffect : Effect v a v')
    (hborn : ∀ h' s, v.inner h' = none → v'.inner h' = some s → NoRoot c s.collectToken) :
    OwnRoot c id parent v' := by
  have hkept : ∀ h' s, v.inner h' = some s → s.collectToken = Span.rootToken parent c →
      ∃ s', v.inner h' = some s' ∧ s.Same s' := fun h' s hs _ => ⟨s, hs, rfl, rfl, rfl⟩
  have hold : ∀ h' s', v.inner h' = some s' →
      (∃ s, v.inner h' = some s ∧ s.Same s') ∨ NoRoot c s'.collectToken :=
    fun h' s' hs' => Or.inl ⟨s', hs', rfl, rfl, rfl⟩
  have hnone : ∀ cmd ∈ ([] : List SubmitSpans), NoRoot c cmd.collectToken := fun cmd hcmd => by cases hcmd
  cases heffect with
  | quiet => exact h
  | @born h' s hfree hid hkind hfrom =>
    refine ownRoot_later h (fun h'' s'' hs'' _ => ⟨s'', ?_, rfl, rfl, rfl⟩) (fun h'' s'' hs'' => ?_)
      (List.append_nil _).symm hnone
    · exact (Function.update_of_ne (fun heq => by rw [heq, hfree] at hs''; cases hs'') ..).trans hs''
    · by_cases heq : h'' = h'
      · subst heq
        exact Or.inr (hborn h'' s'' hfree hs'')
      · exact Or.inl ⟨s'', (Function.update_of_ne heq ..).symm.trans hs'', rfl, rfl, rfl⟩
  | @amended h' s s' hs hsame =>
    refine ownRoot_later h (fun h'' s₀ hs₀ _ => ?_) (fun h'' s₀ hs₀ => Or.inl ?_) (List.append_nil _).symm hnone
    · by_cases heq : h'' = h'
      · subst heq
        rw [hs] at hs₀
        cases hs₀
        exact ⟨s', Function.update_self .., hsame⟩
      · exact ⟨s₀, (Function.update_of_ne heq ..).trans hs₀, rfl, rfl, rfl⟩
    · change Function.update v.inner h' (some s') h'' = some s₀ at hs₀
      by_cases heq : h'' = h'
      · subst heq
        rw [Function.update_self] at hs₀
        cases hs₀
        exact ⟨s, hs, hsame⟩
      · exact ⟨s₀, (Function.update_of_ne heq ..).symm.trans hs₀, rfl, rfl, rfl⟩
  | @dropped h' s s' hs hsame =>
    have hothers : ∀ h'' s'', Function.update v.inner h' none h'' = some s'' → h'' ≠ h' ∧ v.inner h'' = some s'' := by
      intro h'' s'' hs''
      by_cases heq : h'' = h'
      · rw [heq, Function.update_self] at hs''
        cases hs''
      · exact ⟨heq, (Function.update_of_ne heq ..).symm.trans hs''⟩
    rcases h.root_or_noRoot hs with hno | ⟨hid, hkind, htoken, hrest, hsubs⟩
    · refine ownRoot_later h (fun h'' s'' hs'' htoken => ⟨s'', ?_, rfl, rfl, rfl⟩)
        (fun h'' s'' hs'' => hold h'' s'' (hothers h'' s'' hs'').2) rfl (noRoot_submission hno)
      refine (Function.update_of_ne (fun heq => ?_) ..).trans hs''
      rw [heq, hs] at hs''
      cases hs''
      rw [htoken] at hno
      exact rootToken_not_noRoot hsampled hno
    · have hsubmission : submission (.span s'.rawSpan) s.collectToken =
          [⟨.span s'.rawSpan, Span.rootToken parent c⟩] := by
        rw [htoken, submission_of_mem (mem_rootToken hsampled), retainSampled_rootToken hsampled]
      refine .dropped (by rw [hsubmission]) (hsame.id_eq.trans hid) (hsame.kind_eq.trans hkind)
        (fun h'' s'' hs'' => hrest h'' s'' (hothers h'' s'' hs'').1 (hothers h'' s'' hs'').2) fun cmd hcmd => ?_
      rw [List.append_nil] at hcmd
      exact hsubs cmd hcmd
  | @attached h' s raw hs hid hkind =>
    exact ownRoot_later h hkept hold rfl (noRoot_submission ((hparented.issues hs).noRoot c))
  | @pushed h' l s localSpans hop hs hl =>
    exact ownRoot_later h hkept hold rfl (noRoot_submission ((hparented.issues hs).noRoot c))
  | @closed now line token stack hlines htoken =>
    obtain ⟨-, hissues⟩ := hparented.line a.1 line (by rw [hlines]; exact List.mem_cons_self ..)
    exact ownRoot_later h hkept hold rfl (noRoot_submission ((hissues token htoken).noRoot c))
  | _ => exact ownRoot_later h hkept hold (List.append_nil _).symm hnone

end Own

/-! ### Runs -/

section Run

variable [DecidableEq T] {w w' : World T} {c : CollectId} {id : SpanId} {parent : SpanContext}

omit [DecidableEq T] in
theorem Parented.init : Parented (World.init : World T).view where
  span h s hs := by cases hs
  line t line hline := by cases hline
  collected l localSpans hl := by cases hl
  submitted cmd hcmd := by cases hcmd

private theorem parented_of_run {as : List (T × Op)} (hlifo : Lifo (fun _ => []) as)
    (hrun : Steps.run World.step World.init as = some w) :
    Parented w.view ∧ w.Scoped (scopesRun (fun _ => []) as) :=
  scoped_induction (P := fun w => Parented (World.view w))
    (fun _ _ _ h hw hcollects => h.step (step_effect hw) hcollects) hlifo scoped_init Parented.init hrun

/-- A call makes no second item of the root of `c`. -/
private theorem noRoot_of_born {a : T × Op} (hparented : Parented w.view) (hc : c < w.nextCollectId)
    (hw : w.step a = some w') {h : Var} {s : SpanInner} (hnone : w.view.inner h = none)
    (hs : w'.view.inner h = some s) : NoRoot c s.collectToken := by
  have hother : a.2.isRoot = false → NoRoot c s.collectToken := by
    intro hop
    have heffect := step_effect hw
    generalize w'.view = v' at heffect hs
    cases heffect with
    | @born h' s' hfree hid hkind hfrom =>
      change Function.update w.view.inner h' (some s') h = some s at hs
      have heq : h = h' := by
        by_contra hne
        rw [Function.update_of_ne hne, hnone] at hs
        cases hs
      subst heq
      rw [Function.update_self] at hs
      cases hs
      rcases hparented.from hfrom with hissues | ⟨hroot, -⟩
      · exact hissues.noRoot c
      · rw [hop] at hroot
        cases hroot
    | @amended h' s₁ s₂ hs₁ hsame =>
      change Function.update w.view.inner h' (some s₂) h = some s at hs
      by_cases heq : h = h'
      · rw [heq, hs₁] at hnone
        cases hnone
      · rw [Function.update_of_ne heq, hnone] at hs
        cases hs
    | @dropped h' s₁ s₂ hs₁ hsame =>
      change Function.update w.view.inner h' none h = some s at hs
      by_cases heq : h = h'
      · rw [heq, hs₁] at hnone
        cases hnone
      · rw [Function.update_of_ne heq, hnone] at hs
        cases hs
    | _ => cases hs.symm.trans hnone
  obtain ⟨t, op⟩ := a
  cases op with
  | root h' name parent' id' now =>
    rcases root_step hw with ⟨-, hview⟩ | ⟨-, -, s', -, -, htoken, hview⟩
    · rw [hview, hnone] at hs
      cases hs
    · rw [hview] at hs
      change Function.update w.view.inner h' (some s') h = some s at hs
      have heq : h = h' := by
        by_contra hne
        rw [Function.update_of_ne hne, hnone] at hs
        cases hs
      subst heq
      rw [Function.update_self] at hs
      cases hs
      rw [htoken]
      intro item hitem hitemc
      obtain ⟨hmem, hsampled⟩ := List.mem_filter.1 hitem
      cases List.mem_singleton.1 hmem
      change World.rootCollectId w parent' = c at hitemc
      rw [World.rootCollectId, if_pos hsampled] at hitemc
      rw [hitemc] at hc
      exact absurd hc (Nat.lt_irrefl _)
  | _ => exact hother rfl

/-- The call of the root brings in the first item of its trace. -/
private theorem ownRoot_begin {before : List (T × Op)} (hrun : Steps.run World.step World.init before = some w)
    (hready : w.reporterReady = true) (hsampled : parent.sampled = true) {t : T} {h : Var} {name : String}
    {now : Instant} (hw : w.step (t, .root h name parent id now) = some w') :
    OwnRoot w.nextCollectId id parent w'.view := by
  have hrooted := rooted_of_run hrun
  have hnew : ∀ item, FromRoot before item → item.isSampled = true → item.collectId ≠ w.nextCollectId := by
    rintro item ⟨parent', id', hcall, -, hsame⟩ hitem heq
    have hlt := hcall.lt (hsame.symm.trans hitem) hrun
    rw [heq] at hlt
    exact Nat.lt_irrefl _ hlt
  rcases root_step hw with ⟨hnotReady, -⟩ | ⟨-, -, s, hid, hkind, htoken, hview⟩
  · rw [hready] at hnotReady
    cases hnotReady
  · rw [hview]
    rw [World.rootCollectId, if_pos hsampled] at htoken
    refine .live (h := h) (Function.update_self ..) hid hkind htoken (fun h' s' hne hs' => ?_) fun cmd hcmd => ?_
    · have hs₀ : w.view.inner h' = some s' := (Function.update_of_ne hne ..).symm.trans hs'
      intro item hitem hc
      obtain ⟨hmem, hitemSampled⟩ := List.mem_filter.1 hitem
      exact absurd hc (hnew item (hrooted.span h' s' hs₀ item hmem) hitemSampled)
    · intro item hitem hc
      obtain ⟨hmem, hitemSampled⟩ := List.mem_filter.1 hitem
      exact absurd hc (hnew item (hrooted.submitted cmd hcmd item hmem).1 hitemSampled)

/-- The root of a call keeps its item to itself. -/
theorem ownRoot_of_run {as : List (T × Op)} (hlifo : Lifo (fun _ => []) as)
    (hrun : Steps.run World.step World.init as = some w) (hroot : RootCall as parent id c)
    (hsampled : parent.sampled = true) : OwnRoot c id parent w.view := by
  obtain ⟨before, after, t, h, name, now, w₀, rfl, hbefore, hready, rfl⟩ := hroot
  rw [World.rootCollectId, if_pos hsampled]
  obtain ⟨hlifoBefore, hlifoRoot⟩ := lifo_append.1 hlifo
  obtain ⟨hparented, hscoped⟩ := parented_of_run hlifoBefore hbefore
  rw [Steps.run_append, hbefore, Option.bind_some] at hrun
  obtain ⟨w₁, hw₁, hafter⟩ := Option.bind_eq_some_iff.1 hrun
  obtain ⟨hscoped₁, hcollects⟩ := hscoped.step (t := t) hlifoRoot.1 hw₁
  have hlt : w₀.nextCollectId < w₁.nextCollectId := by
    rw [nextCollectId_root hw₁, if_pos ⟨hready, hsampled⟩]
    exact Nat.lt_succ_self _
  have hstep : ∀ (w : World T) (a : T × Op) (w' : World T),
      (Parented w.view ∧ w₀.nextCollectId < w.nextCollectId ∧ OwnRoot w₀.nextCollectId id parent w.view) →
      w.step a = some w' → Collects w.view a.1 w'.view →
      Parented w'.view ∧ w₀.nextCollectId < w'.nextCollectId ∧ OwnRoot w₀.nextCollectId id parent w'.view := by
    rintro w a w' ⟨hp, hc, hown⟩ hw hcol
    exact ⟨hp.step (step_effect hw) hcol, Nat.lt_of_lt_of_le hc (nextCollectId_le hw),
      hown.step hsampled hp (step_effect hw) fun h' s hnone hs => noRoot_of_born hp hc hw hnone hs⟩
  exact (scoped_induction hstep hlifoRoot.2 hscoped₁ ⟨hparented.step (step_effect hw₁) hcollects, hlt,
    ownRoot_begin hbefore hready hsampled hw₁⟩ hafter).1.2.2

/-- The keys of the submissions for `c`. -/
def keysFor (c : CollectId) (cmds : List SubmitSpans) : List RecordKey :=
  cmds.flatMap fun cmd => (cmd.collectToken.filter (·.collectId = c)).flatMap fun item => (itemOf cmd.spans item).keys

omit [DecidableEq T] in
theorem keysFor_itemsFor (c : CollectId) (cmds : List CollectCommand) :
    (itemsFor c cmds).flatMap Item.keys = keysFor c (submitSpans cmds) := by
  rw [itemsFor_eq, keysFor, List.flatMap_assoc]
  congr 1
  funext cmd
  rw [List.flatMap_map]

omit [DecidableEq T] in
theorem keysFor_append (c : CollectId) (cmds cmds' : List SubmitSpans) :
    keysFor c (cmds ++ cmds') = keysFor c cmds ++ keysFor c cmds' := List.flatMap_append

omit [DecidableEq T] in
theorem mem_keysFor {cmds : List SubmitSpans} {k : RecordKey} : k ∈ keysFor c cmds ↔
    ∃ cmd ∈ cmds, ∃ item ∈ cmd.collectToken, item.collectId = c ∧ k ∈ (itemOf cmd.spans item).keys := by
  simp only [keysFor, List.mem_flatMap, List.mem_filter, decide_eq_true_eq, and_assoc]

omit [DecidableEq T] in
/-- A promise that has been kept. -/
private theorem Promised.kept {v : View T} {p : SpanId} (h : Promised c p v) (hspans : ∀ h, v.inner h = none)
    (hlines : ∀ t, ∀ line ∈ (v.spanStack t).spanLines, line.collectToken = none) :
    ∃ k ∈ keysFor c v.submitted, k.spanId = p := by
  cases h with
  | @submitted cmd item raw hcmd hitem hc hraw hkind hid =>
    refine ⟨⟨item.traceId, raw.id, (itemOf cmd.spans item).parentOf raw⟩,
      mem_keysFor.2 ⟨cmd, hcmd, item, hitem, hc, List.mem_map.2 ⟨raw, List.mem_filter.2 ⟨hraw, ?_⟩, rfl⟩⟩, hid⟩
    rw [hkind]
    rfl
  | @live h s item hs hitem hc hkind hid => rw [hspans h] at hs; cases hs
  | @recorded t line token item raw hline htoken hitem hc hraw hkind hid =>
    rw [hlines t line hline] at htoken
    cases htoken

omit [DecidableEq T] in
/-- The parent of an entry is in the set itself or that of the item. -/
private theorem parent_of_linked {spans : SpanSet} (hset : LinkedSet spans) {item : CollectTokenItem} {k : RecordKey}
    (hk : k ∈ (itemOf spans item).keys) :
    k.parentId = item.parentId ∨ ∃ k' ∈ (itemOf spans item).keys, k'.spanId = k.parentId := by
  obtain ⟨raw, hraw, rfl⟩ := List.mem_map.1 hk
  have hlocal : ∀ localSpans : LocalSpansInner, SpanQueue.LinkedBack localSpans.spans → raw ∈ localSpans.spans →
      raw.parentId = default ∨ ∃ raw' ∈ localSpans.spans, raw'.rawKind = .span ∧ raw'.id = raw.parentId := by
    intro localSpans hback hmem
    obtain ⟨i, hi⟩ := List.mem_iff_getElem?.1 hmem
    rcases hback i raw hi with hd | ⟨j, -, raw', hj, hid, hkind⟩
    · exact Or.inl hd
    · exact Or.inr ⟨raw', List.mem_of_getElem? hj, hkind, hid⟩
  have hset' : ∀ localSpans : LocalSpansInner, spans.raws = localSpans.spans →
      SpanQueue.LinkedBack localSpans.spans →
      (itemOf spans item).parentOf raw = (if raw.parentId = default then item.parentId else raw.parentId) →
      (itemOf spans item).parentOf raw = item.parentId ∨
        ∃ k' ∈ (itemOf spans item).keys, k'.spanId = (itemOf spans item).parentOf raw := by
    intro localSpans hraws hback hparent
    have hmem : raw ∈ localSpans.spans := hraws ▸ List.mem_of_mem_filter hraw
    rcases hlocal localSpans hback hmem with hd | ⟨raw', hraw', hkind, hid⟩
    · left
      rw [hparent, if_pos hd]
    · by_cases hd : raw.parentId = default
      · left
        rw [hparent, if_pos hd]
      · right
        refine ⟨_, List.mem_map.2 ⟨raw', List.mem_filter.2 ⟨?_, by rw [hkind]; rfl⟩, rfl⟩, ?_⟩
        · exact (show raw' ∈ spans.raws from hraws ▸ hraw')
        · rw [hparent, if_neg hd]
          exact hid
  cases spans with
  | span rawSpan => exact Or.inl rfl
  | localSpansInner localSpans => exact hset' localSpans rfl hset rfl
  | sharedLocalSpans localSpans => exact hset' localSpans rfl hset rfl

omit [DecidableEq T] in
/-- When all guards are gone no line has a token. -/
theorem World.Scoped.no_tokens {scopes : T → List Scope} (h : w.Scoped scopes) (hguards : ∀ g, w.guards g = none)
    (t : T) : ∀ line ∈ (w.spanStack t).spanLines, line.collectToken = none := by
  have hframes : ∀ scopes frames, Matched w.handles scopes frames → ∀ frame ∈ frames, frame.2 = none := by
    intro scopes frames hmatched
    induction hmatched with
    | nil => exact fun frame hframe => by cases hframe
    | idle h hrest ih => exact ih
    | @line scope t handle token scopes frames h htoken hrest ih =>
      rw [List.forall_mem_cons]
      refine ⟨?_, ih⟩
      cases scope with
      | guard g => rw [World.handles, hguards g] at h; cases h
      | collector k => exact htoken k rfl
  intro line hline
  exact hframes _ _ (h.lines t) line.frame (List.mem_map_of_mem hline)

/-- With scopes closed in order, every span and every guard dropped and all commands received, in whatever rounds and
order: for every sampled root, the parent of its own record is that of the context, and the parent of every other
record reported for its trace is the span of a record reported for the trace. -/
theorem no_orphan_records {as : List (T × Op)} (hrun : Steps.run World.step World.init as = some w)
    (hlifo : Lifo (fun _ => []) as) (hspans : ∀ h, w.spans h = none) (hguards : ∀ g, w.guards g = none)
    {rounds : List Round} (hreceived : (received rounds).Perm w.commands) (hroot : RootCall as parent id c)
    (hsampled : parent.sampled = true) :
    ∃ before own after, (reportedFor false c rounds).flatten = before ++ own :: after ∧
      own.key = ⟨parent.traceId, id, parent.spanId⟩ ∧
      ∀ r ∈ before ++ after, ∃ r' ∈ (reportedFor false c rounds).flatten, r'.spanId = r.parentId := by
  obtain ⟨hparented, hscoped⟩ := parented_of_run hlifo hrun
  have hinner : ∀ h, w.view.inner h = none := fun h => by
    change (w.spans h).bind Span.inner = none
    rw [hspans h, Option.bind_none]
  -- the keys reported are those of the submissions
  have hkeys : ((reportedFor false c rounds).flatten.map SpanRecord.key).Perm (keysFor c w.submitted) := by
    rw [reportedFor_false_keys, keysFor_itemsFor]
    exact (hreceived.filterMap _).flatMap_right _
  have hreported : ∀ k ∈ keysFor c w.submitted, ∃ r ∈ (reportedFor false c rounds).flatten, r.key = k :=
    fun k hk => List.mem_map.1 (hkeys.mem_iff.2 hk)
  have hclosed : ∀ cmd ∈ w.submitted, NoRoot c cmd.collectToken → ∀ item ∈ cmd.collectToken, item.collectId = c →
      ∀ k ∈ (itemOf cmd.spans item).keys, ∃ k' ∈ keysFor c w.submitted, k'.spanId = k.parentId := by
    intro cmd hcmd hno item hitem hc k hk
    obtain ⟨hset, hitems⟩ := hparented.submitted cmd hcmd
    rcases parent_of_linked hset hk with hparent | ⟨k', hk', hid⟩
    · have hsampled' := ((rooted_of_run hrun).submitted cmd hcmd item hitem).2
      have hissued := hno item (List.mem_filter.2 ⟨hitem, hsampled'⟩) hc
      obtain ⟨k', hk', hid⟩ := (hc ▸ hitems item hitem hissued).kept hinner (hscoped.no_tokens hguards)
      exact ⟨k', hk', hid.trans hparent.symm⟩
    · exact ⟨k', mem_keysFor.2 ⟨cmd, hcmd, item, hitem, hc, hk'⟩, hid⟩
  cases ownRoot_of_run hlifo hrun hroot hsampled with
  | @live h s hs hid hkind htoken hothers hsubmitted => rw [hinner h] at hs; cases hs
  | @dropped before after raw heq hid hkind hothers hsubmitted =>
    have hsplit : keysFor c w.submitted =
        keysFor c before ++ ⟨parent.traceId, id, parent.spanId⟩ :: keysFor c after := by
      change keysFor c w.view.submitted = _
      rw [heq]
      simp [keysFor, Span.rootToken, Item.keys, itemOf, SpanSet.raws, Item.parentOf, hkind, hid]
    obtain ⟨own, hown, hownKey⟩ := hreported ⟨parent.traceId, id, parent.spanId⟩ (by
      rw [hsplit]
      exact List.mem_append_right _ (List.mem_cons_self ..))
    obtain ⟨l₁, l₂, hlist⟩ := List.append_of_mem hown
    refine ⟨l₁, own, l₂, hlist, hownKey, fun r hr => ?_⟩
    -- the other records have the keys of the other submissions
    have hrest : ((l₁ ++ l₂).map SpanRecord.key).Perm (keysFor c before ++ keysFor c after) := by
      rw [hlist, hsplit, List.map_append, List.map_cons, hownKey] at hkeys
      rw [List.map_append]
      exact (List.perm_middle.symm.trans (hkeys.trans List.perm_middle)).cons_inv
    have hkey : r.key ∈ keysFor c (before ++ after) := by
      have hmem := hrest.mem_iff.1 (List.mem_map_of_mem hr)
      rwa [← keysFor_append] at hmem
    obtain ⟨cmd, hcmd, item, hitem, hc, hk⟩ := mem_keysFor.1 hkey
    have hcmd' : cmd ∈ w.submitted := by
      change cmd ∈ w.view.submitted
      rw [heq]
      rcases List.mem_append.1 hcmd with h | h
      · exact List.mem_append_left _ h
      · exact List.mem_append_right _ (List.mem_cons_of_mem _ h)
    obtain ⟨k', hk', hid'⟩ := hclosed cmd hcmd' (hsubmitted cmd hcmd) item hitem hc r.key hk
    obtain ⟨r', hr', hrkey⟩ := hreported k' hk'
    exact ⟨r', hr', (congrArg RecordKey.spanId hrkey).trans hid'⟩

end Run

/-- The root is the local parent of the thread `0`, and a span made there under a local span is that of the thread
`1`.  The root and the local span are gone when the child ends. -/
def nestedProgram : List (Nat × Op) := [
  (0, .setReporter),
  (0, .root 0 "root" ⟨⟨1⟩, ⟨9⟩, true⟩ ⟨1⟩ ⟨10⟩),
  (0, .setLocalParent 1 0),
  (0, .enterLocal 2 "outer" ⟨2⟩ ⟨11⟩),
  (0, .enterWithLocalParent 3 "child" ⟨3⟩ ⟨12⟩),
  (1, .setLocalParent 4 3),
  (1, .enterLocal 5 "inner" ⟨4⟩ ⟨13⟩),
  (0, .dropLocal 2 ⟨14⟩),
  (0, .dropGuard 1 ⟨15⟩),
  (0, .dropSpan 0 ⟨16⟩),
  (1, .dropLocal 5 ⟨17⟩),
  (1, .dropGuard 4 ⟨18⟩),
  (1, .dropSpan 3 ⟨19⟩)]

def nestedWorld : World Nat := (Steps.run World.step World.init nestedProgram).getD World.init

def nestedRounds : List Round := [⟨nestedWorld.commands, fun i => i.ticks, .stored⟩]

theorem no_orphan_records_nested :
    (reportedFor false 0 nestedRounds).flatten.map SpanRecord.key =
        [⟨⟨1⟩, ⟨2⟩, ⟨1⟩⟩, ⟨⟨1⟩, ⟨1⟩, ⟨9⟩⟩, ⟨⟨1⟩, ⟨4⟩, ⟨3⟩⟩, ⟨⟨1⟩, ⟨3⟩, ⟨2⟩⟩] ∧
      ∃ before own after, (reportedFor false 0 nestedRounds).flatten = before ++ own :: after ∧
        own.key = ⟨⟨1⟩, ⟨1⟩, ⟨9⟩⟩ ∧
        ∀ r ∈ before ++ after, ∃ r' ∈ (reportedFor false 0 nestedRounds).flatten, r'.spanId = r.parentId := by
  have hgone : ∀ {α : Type} (a b : Option α) (x y h : Nat),
      Function.update (Function.update (Function.update (Function.update (fun _ => none) x a) y b) x none) y none h =
        none := by
    intro α a b x y h
    simp only [Function.update_apply]
    split_ifs <;> rfl
  have hroot : RootCall nestedProgram ⟨⟨1⟩, ⟨9⟩, true⟩ ⟨1⟩ 0 :=
    ⟨[(0, .setReporter)], _, 0, 0, "root", ⟨10⟩, _, rfl, rfl, rfl, rfl⟩
  exact ⟨by decide, no_orphan_records (w := nestedWorld) rfl (by decide) (hgone _ _ 0 3) (hgone _ _ 1 4)
    (by rw [nestedRounds, received, List.flatMap_singleton]) hroot rfl⟩

end Fastrace
