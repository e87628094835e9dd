import Fastrace.Ownership

/-!
# The roots that token items come from

Every token item goes back to a call of `Span::root`: it is copied from parent to child, into the lines of the local
parents and into the submissions, and keeps its trace, its collect id and whether it is sampled.
-/

namespace Fastrace

variable {T : Type} [DecidableEq T]

/-- The program calls `Span::root` with the context `parent`; the root span gets the id `id`, its item the collect id
`c`. -/
def RootCall (as : List (T × Op)) (parent : SpanContext) (id : SpanId) (c : CollectId) : Prop :=
  ∃ before after t h name now w, as = before ++ (t, .root h name parent id now) :: after ∧
    Steps.run World.step World.init before = some w ∧ w.reporterReady = true ∧ c = w.rootCollectId parent

theorem RootCall.append {as : List (T × Op)} {parent : SpanContext} {id : SpanId} {c : CollectId}
    (h : RootCall as parent id c) (bs : List (T × Op)) : RootCall (as ++ bs) parent id c := by
  obtain ⟨before, after, t, h', name, now, w, rfl, hw⟩ := h
  exact ⟨before, after ++ bs, t, h', name, now, w, by simp, hw⟩

/-- Only a root draws a collect id. -/
private theorem nextCollectId_of_step {w w' : World T} {a : T × Op} (hop : a.2.isRoot = false)
    (hw : w.step a = some w') :
    w'.nextCollectId = w.nextCollectId := by
  obtain ⟨t, op⟩ := a
  cases op <;>
    simp only [World.step, World.newSpan, World.setSpan, World.setStack, World.send, Option.map_eq_some_iff,
      Option.bind_eq_some_iff] at hw <;>
    grind [Op.isRoot]

theorem nextCollectId_root {w w' : World T} {t : T} {h : Var} {name : String} {parent : SpanContext} {id : SpanId}
    {now : Instant} (hw : w.step (t, .root h name parent id now) = some w') : w'.nextCollectId =
      if w.reporterReady ∧ parent.sampled then w.nextCollectId + 1 else w.nextCollectId := by
  obtain ⟨w₁, hw₁, rfl⟩ := Option.map_eq_some_iff.1 hw
  obtain ⟨-, rfl⟩ := newSpan_eq_some hw₁
  change (Span.root w.reporterReady w.nextCollectId name parent id now).2.1 = _
  unfold Span.root
  cases w.reporterReady <;> cases parent.sampled <;> rfl

theorem nextCollectId_le {w w' : World T} {a : T × Op} (hw : w.step a = some w') :
    w.nextCollectId ≤ w'.nextCollectId := by
  obtain ⟨t, op⟩ := a
  cases op with
  | root h name parent id now =>
    rw [nextCollectId_root hw]
    split
    · exact Nat.le_succ _
    · exact le_refl _
  | _ => exact le_of_eq (nextCollectId_of_step rfl hw).symm

/-- The collect id of a sampled root is drawn by its call. -/
theorem RootCall.lt {as : List (T × Op)} {parent : SpanContext} {id : SpanId} {c : CollectId}
    (h : RootCall as parent id c) (hsampled : parent.sampled = true) {w : World T}
    (hrun : Steps.run World.step World.init as = some w) : c < w.nextCollectId := by
  obtain ⟨before, after, t, h', name, now, w₀, rfl, hbefore, hready, rfl⟩ := h
  rw [Steps.run_append, hbefore, Option.bind_some] at hrun
  obtain ⟨w₁, hw₁, hafter⟩ := Option.bind_eq_some_iff.1 hrun
  have hlt : w₀.nextCollectId < w₁.nextCollectId := by
    rw [nextCollectId_root hw₁, if_pos ⟨hready, hsampled⟩]
    exact Nat.lt_succ_self _
  have hle : w₁.nextCollectId ≤ w.nextCollectId :=
    Steps.run_induction (P := fun w => w₁.nextCollectId ≤ World.nextCollectId w)
      (fun w a w' hle hw => Nat.le_trans hle (nextCollectId_le hw)) (Nat.le_refl _) hafter
  rw [World.rootCollectId, if_pos hsampled]
  exact Nat.lt_of_lt_of_le hlt hle

/-- The item goes back to a root of its trace. -/
def FromRoot (as : List (T × Op)) (item : CollectTokenItem) : Prop :=
  ∃ parent id, RootCall as parent id item.collectId ∧ item.traceId = parent.traceId ∧
    item.isSampled = parent.sampled

private theorem FromRoot.append {as : List (T × Op)} {item : CollectTokenItem} (h : FromRoot as item)
    (bs : List (T × Op)) :
    FromRoot (as ++ bs) item := by
  obtain ⟨parent, id, hcall, h⟩ := h
  exact ⟨parent, id, hcall.append bs, h⟩

def AllFromRoot (as : List (T × Op)) (token : CollectToken) : Prop := ∀ item ∈ token, FromRoot as item

private theorem AllFromRoot.append {as : List (T × Op)} {token : CollectToken} (h : AllFromRoot as token)
    (bs : List (T × Op)) : AllFromRoot (as ++ bs) token := fun item hitem => (h item hitem).append bs

private theorem AllFromRoot.issue {as : List (T × Op)} {token : CollectToken} (h : AllFromRoot as token) (id : SpanId) :
    AllFromRoot as (issueToken id token) := by
  intro item hitem
  obtain ⟨item', hitem', rfl⟩ := List.mem_map.1 hitem
  exact h item' hitem'

structure Rooted (as : List (T × Op)) (v : View T) : Prop where
  span : ∀ h s, v.inner h = some s → AllFromRoot as s.collectToken
  line : ∀ t, ∀ line ∈ (v.spanStack t).spanLines, ∀ token, line.collectToken = some token → AllFromRoot as token
  submitted : ∀ cmd ∈ v.submitted, ∀ item ∈ cmd.collectToken, FromRoot as item ∧ item.isSampled = true

/-! ### A step -/

omit [DecidableEq T] in
theorem mem_line_of_lost {stack stack' : LocalSpanStack} (h : Lost stack stack') {line : SpanLine}
    (hline : line ∈ stack'.spanLines) : line ∈ stack.spanLines := by
  rcases h with hl | ⟨top, hl⟩
  · exact hl ▸ hline
  · exact hl ▸ List.mem_cons_of_mem _ hline

section Step

variable {as : List (T × Op)} {v v' : View T} {a : T × Op}

private theorem rooted_submit (h : Rooted as v) {spans : SpanSet} {token : CollectToken}
    (htoken : AllFromRoot as token) : ∀ cmd ∈ v.submitted ++ submission spans token, ∀ item ∈ cmd.collectToken,
      FromRoot as item ∧ item.isSampled = true := by
  intro cmd hcmd item hitem
  rcases List.mem_append.1 hcmd with hold | hnew
  · exact h.submitted cmd hold item hitem
  · rw [mem_submission hnew] at hitem
    obtain ⟨hmem, hsampled⟩ := List.mem_filter.1 hitem
    exact ⟨htoken item hmem, hsampled⟩

/-- The token of a span that is not a root is made of items of its parents or of the line. -/
private theorem rooted_token (h : Rooted as v) (hop : a.2.isRoot = false) {token : CollectToken}
    (hfrom : TokenFrom v a token) : AllFromRoot as token := by
  cases hfrom with
  | root hroot => rw [hop] at hroot; cases hroot
  | parents =>
    intro item hitem
    obtain ⟨s, hs, hitem⟩ := List.mem_flatMap.1 hitem
    obtain ⟨h', -, hs⟩ := List.mem_filterMap.1 hs
    exact (h.span h' s hs).issue s.rawSpan.id item hitem
  | @line line lines token huses hlines htoken =>
    obtain ⟨token', htoken', rfl⟩ := Option.map_eq_some_iff.1 htoken
    intro item hitem
    obtain ⟨item', hitem', rfl⟩ := List.mem_map.1 hitem
    exact h.line a.1 line (by rw [hlines]; exact List.mem_cons_self ..) token' htoken' item' hitem'

private theorem Rooted.step (h : Rooted as v) (hop : a.2.isRoot = false) (heffect : Effect v a v') :
    Rooted as v' := by
  have hspan : ∀ (h' : Var) (s : Option SpanInner), (∀ s', s = some s' → AllFromRoot as s'.collectToken) →
      ∀ h'' s', Function.update v.inner h' s h'' = some s' → AllFromRoot as s'.collectToken :=
    fun h' _ hs => update_forall (P := fun s : Option SpanInner => ∀ s', s = some s' → AllFromRoot as s'.collectToken)
      h.span h' hs
  have hline : ∀ stack : LocalSpanStack,
      (∀ line ∈ stack.spanLines, ∀ token, line.collectToken = some token → AllFromRoot as token) →
      ∀ t, ∀ line ∈ (Function.update v.spanStack a.1 stack t).spanLines, ∀ token,
        line.collectToken = some token → AllFromRoot as token :=
    fun _ hs => update_forall (P := fun stack : LocalSpanStack => ∀ line ∈ stack.spanLines, ∀ token,
      line.collectToken = some token → AllFromRoot as token) h.line a.1 hs
  have hlost : ∀ stack, Lost (v.spanStack a.1) stack → ∀ line ∈ stack.spanLines, ∀ token,
      line.collectToken = some token → AllFromRoot as token :=
    fun stack hl line hmem => h.line a.1 line (mem_line_of_lost hl hmem)
  cases heffect with
  | quiet => exact h
  | @born h' s hfree hid hkind hfrom =>
    refine ⟨hspan h' _ fun s' hs' => ?_, h.line, h.submitted⟩
    cases hs'
    exact rooted_token h hop hfrom
  | @amended h' s s' hs hsame =>
    refine ⟨hspan h' _ fun s'' hs'' => ?_, h.line, h.submitted⟩
    cases hs''
    rw [hsame.token_eq]
    exact h.span h' s hs
  | @dropped h' s s' hs hsame =>
    exact ⟨hspan h' none (fun s'' hs'' => by cases hs''), h.line, rooted_submit h (h.span h' s hs)⟩
  | @attached h' s raw hs hid hkind =>
    exact ⟨h.span, h.line, rooted_submit h ((h.span h' s hs).issue s.rawSpan.id)⟩
  | @pushed h' l s localSpans hop' hs hl =>
    exact ⟨h.span, h.line, rooted_submit h ((h.span h' s hs).issue s.rawSpan.id)⟩
  | @recorded label stack htop hlabel =>
    refine ⟨h.span, hline stack fun line hmem token htoken => ?_, h.submitted⟩
    obtain ⟨top, lines, top', hlines, hchange, rfl⟩ := htop
    rcases List.mem_cons.1 hmem with rfl | hmem
    · exact h.line a.1 top (by rw [hlines]; exact List.mem_cons_self ..) token (hchange.collectToken ▸ htoken)
    · exact h.line a.1 line (by rw [hlines]; exact List.mem_cons_of_mem _ hmem) token htoken
  | @registered capacity epoch token stack hlines htoken =>
    refine ⟨h.span, hline stack fun line hmem token' htoken' => ?_, h.submitted⟩
    rw [hlines] at hmem
    rcases List.mem_cons.1 hmem with rfl | hmem
    · obtain ⟨h', s, hs, rfl⟩ := htoken token' htoken'
      exact (h.span h' s hs).issue s.rawSpan.id
    · exact h.line a.1 line hmem token' htoken'
  | lost hl => exact ⟨h.span, hline _ (hlost _ hl), h.submitted⟩
  | collectedNone hl hfree => exact ⟨h.span, hline _ (hlost _ hl), h.submitted⟩
  | collected hlines hfree => exact ⟨h.span, hline _ (hlost _ (Or.inr ⟨_, hlines⟩)), h.submitted⟩
  | @closed now line token stack hlines htoken =>
    exact ⟨h.span, hline _ (hlost _ (Or.inr ⟨_, hlines⟩)),
      rooted_submit h (h.line a.1 line (by rw [hlines]; exact List.mem_cons_self ..) token htoken)⟩

end Step

private theorem Rooted.append {as : List (T × Op)} {v : View T} (h : Rooted as v) (bs : List (T × Op)) :
    Rooted (as ++ bs) v where
  span h' s hs := (h.span h' s hs).append bs
  line t line hline token htoken := (h.line t line hline token htoken).append bs
  submitted cmd hcmd item hitem := by
    obtain ⟨hroot, hsampled⟩ := h.submitted cmd hcmd item hitem
    exact ⟨hroot.append bs, hsampled⟩

/-- A root brings in the item of its own call. -/
private theorem rooted_root {as : List (T × Op)} {w w' : World T} (hrun : Steps.run World.step World.init as = some w)
    {t : T} {h : Var} {name : String} {parent : SpanContext} {id : SpanId} {now : Instant}
    (hw : w.step (t, .root h name parent id now) = some w') (hr : Rooted as w.view) :
    Rooted (as ++ [(t, .root h name parent id now)]) w'.view := by
  have hlater := hr.append [(t, .root h name parent id now)]
  rcases root_step hw with ⟨-, hview⟩ | ⟨hready, -, s, -, -, htoken, hview⟩
  · rw [hview]
    exact hlater
  · rw [hview]
    refine ⟨fun h' s' hs' => ?_, hlater.line, hlater.submitted⟩
    change Function.update w.view.inner h (some s) h' = some s' at hs'
    by_cases hh : h' = h
    · subst hh
      rw [Function.update_self] at hs'
      cases hs'
      rw [htoken]
      intro item hitem
      rw [List.mem_singleton.1 hitem]
      exact ⟨parent, id, ⟨as, [], t, h', name, now, w, rfl, hrun, hready, rfl⟩, rfl, rfl⟩
    · rw [Function.update_of_ne hh] at hs'
      exact hlater.span h' s' hs'

/-- Every item in a run goes back to a root, and only sampled ones are submitted. -/
theorem rooted_of_run {as : List (T × Op)} {w : World T} (hrun : Steps.run World.step World.init as = some w) :
    Rooted as w.view := by
  have hinit : Rooted [] (World.init : World T).view :=
    ⟨fun h s hs => (by cases hs), fun t line hline => (by cases hline), fun cmd hcmd => (by cases hcmd)⟩
  refine Steps.history_induction (P := fun as w => Rooted as (World.view w)) hinit ?_ hrun
  rintro as w ⟨t, op⟩ w' hrun hr hw
  cases op with
  | root h name parent id now => exact rooted_root hrun hw hr
  | _ => exact (hr.step rfl (step_effect hw)).append _

end Fastrace
