import Fastrace.Effects

/-!
# Entering a local span

The documentation of the crate says that without a local context `LocalSpan::enter_with_local_parent` "will do
nothing".  `enter_with_stack` expects the span to be recorded: where there is no line, where no item of the top line
is sampled and where the queue of the top line is full it panics (`enter_does_nothing_iff`).  States are those between
calls: from inside a property closure, while the stack is borrowed, nothing is said.
-/

namespace Fastrace

/-- A local span that no later call of it can make use of. -/
def LocalSpan.Inert (span : LocalSpan) : Prop :=
  ∀ stack : LocalSpanStack, (∀ properties, span.withProperties stack properties = some stack) ∧
    ∀ now, span.drop stack now = some stack

/-- The token of a line, if there is one, has a sampled item. -/
def SpanLine.TokenSampled (line : SpanLine) : Prop :=
  ∀ token, line.collectToken = some token → ∃ item ∈ token, item.isSampled = true

/-- There is a line on top that is sampled, and its queue has room for one more raw span. -/
def LocalSpanStack.CanRecord (stack : LocalSpanStack) : Prop :=
  ∃ line lines, stack.spanLines = line :: lines ∧ line.TokenSampled ∧
    line.spanQueue.spanQueue.length < line.spanQueue.capacity

/-- Entering a local span returns, and does nothing where the span cannot be recorded. -/
structure LocalSpanStack.EntersOrDoesNothing (stack : LocalSpanStack) : Prop where
  returns : ∀ name id now, ∃ out, LocalSpan.enterWithStack name stack id now = some out
  nothing : ¬stack.CanRecord → ∀ name id now span stack',
    LocalSpan.enterWithStack name stack id now = some (span, stack') → span.Inert ∧ stack' = stack

/-! ### Lines and their tokens -/

/-- A line is sampled as its token says. -/
def SpanLine.Faithful (line : SpanLine) : Prop := line.isSampled = true ↔ line.TokenSampled

private theorem faithful_new (capacity epoch : Nat) (token : Option CollectToken) :
    (SpanLine.new capacity epoch token).Faithful := by
  unfold SpanLine.Faithful SpanLine.TokenSampled SpanLine.new
  cases token with
  | none => simp
  | some token => simp

private theorem SpanLine.Change.isSampled {line line' : SpanLine} {label : Option (SpanId × RawKind)}
    (h : line.Change label line') : line'.isSampled = line.isSampled := by
  cases h <;> rfl

private theorem SpanLine.Change.faithful {line line' : SpanLine} {label : Option (SpanId × RawKind)}
    (h : line.Change label line') (hf : line.Faithful) : line'.Faithful := by
  unfold SpanLine.Faithful SpanLine.TokenSampled at hf ⊢
  rw [h.isSampled, h.collectToken, hf]

section Step

variable {T : Type} [DecidableEq T]

private def FaithfulStack (stack : LocalSpanStack) : Prop := ∀ line ∈ stack.spanLines, line.Faithful

private theorem faithful_lost {stack stack' : LocalSpanStack} (h : FaithfulStack stack)
    (hlost : Lost stack stack') : FaithfulStack stack' := by
  intro line hline
  rcases hlost with hl | ⟨top, hl⟩
  · exact h line (hl ▸ hline)
  · exact h line (hl ▸ List.mem_cons_of_mem _ hline)

private theorem faithful_step {v v' : View T} {a : T × Op} (heffect : Effect v a v')
    (h : ∀ t, FaithfulStack (v.spanStack t)) : ∀ t, FaithfulStack (v'.spanStack t) := by
  have hstack : ∀ stack, FaithfulStack stack → ∀ t, FaithfulStack (Function.update v.spanStack a.1 stack t) :=
    fun _ hs => update_forall h a.1 hs
  cases heffect with
  | @recorded label stack htop hlabel =>
    obtain ⟨line, lines, line', hlines, hchange, rfl⟩ := htop
    have hall := h a.1
    rw [FaithfulStack, hlines, List.forall_mem_cons] at hall
    exact hstack _ (List.forall_mem_cons.2 ⟨hchange.faithful hall.1, hall.2⟩)
  | @registered capacity epoch token stack hlines htoken =>
    refine hstack _ fun line hl => ?_
    rw [hlines] at hl
    rcases List.mem_cons.1 hl with rfl | hl
    · exact faithful_new capacity epoch token
    · exact h a.1 line hl
  | lost hlost => exact hstack _ (faithful_lost (h a.1) hlost)
  | collectedNone hlost hfree => exact hstack _ (faithful_lost (h a.1) hlost)
  | collected hlines hfree => exact hstack _ (faithful_lost (h a.1) (Or.inr ⟨_, hlines⟩))
  | closed hlines htoken => exact hstack _ (faithful_lost (h a.1) (Or.inr ⟨_, hlines⟩))
  | _ => exact h

/-- In every run the lines are sampled as their tokens say. -/
private theorem faithful_of_run {as : List (T × Op)} {w : World T} (hrun : Steps.run World.step World.init as = some w)
    (t : T) : ∀ line ∈ (w.spanStack t).spanLines, line.Faithful := by
  have hinit : ∀ t, FaithfulStack ((World.init : World T).view.spanStack t) := fun t line hline => by cases hline
  exact Steps.run_induction (P := fun w : World T => ∀ t, FaithfulStack (w.view.spanStack t))
    (fun w a w' h hw => faithful_step (step_effect hw) h) hinit hrun t

end Step

/-! ### When entering returns -/

/-- A local span is entered only in a sampled top line with room. -/
private theorem enterWithStack_isSome {name : String} {stack : LocalSpanStack} {id : SpanId} {now : Instant} :
    (LocalSpan.enterWithStack name stack id now).isSome ↔ ∃ line lines, stack.spanLines = line :: lines ∧
      line.isSampled = true ∧ line.spanQueue.spanQueue.length < line.spanQueue.capacity := by
  unfold LocalSpan.enterWithStack LocalSpanStack.enterSpan
  rw [Option.isSome_map]
  cases hlines : stack.spanLines with
  | nil => simp
  | cons line lines =>
    simp only [Option.isSome_map, List.cons.injEq, exists_eq_left', exists_and_left, and_assoc]
    unfold SpanLine.startSpan
    cases line.isSampled with
    | false => simp
    | true =>
      by_cases hroom : line.spanQueue.spanQueue.length < line.spanQueue.capacity
      · simp [hroom, SpanQueue.startSpan, Nat.not_le.2 hroom]
      · simp [hroom, SpanQueue.startSpan, Nat.not_lt.1 hroom]

/-- In every state of every run and on every thread: entering a local span returns, doing nothing where the span
cannot be recorded, if and only if the span can be recorded. -/
theorem enter_does_nothing_iff {T : Type} [DecidableEq T] (as : List (T × Op)) (w : World T)
    (hrun : Steps.run World.step World.init as = some w) (t : T) :
    (w.spanStack t).EntersOrDoesNothing ↔ (w.spanStack t).CanRecord := by
  have hfaithful := faithful_of_run hrun t
  have hiff : (w.spanStack t).CanRecord ↔ ∃ line lines, (w.spanStack t).spanLines = line :: lines ∧
      line.isSampled = true ∧ line.spanQueue.spanQueue.length < line.spanQueue.capacity := by
    unfold LocalSpanStack.CanRecord
    refine exists_congr fun line => exists_congr fun lines => and_congr_right fun hlines => ?_
    have hline := hfaithful line (by rw [hlines]; exact List.mem_cons_self ..)
    exact and_congr_left fun _ => hline.symm
  rw [hiff]
  constructor
  · intro h
    obtain ⟨out, hout⟩ := h.returns "" default default
    exact enterWithStack_isSome.1 (Option.isSome_iff_exists.2 ⟨out, hout⟩)
  · intro h
    refine ⟨fun name id now => Option.isSome_iff_exists.1 (enterWithStack_isSome.2 h), fun hnot => ?_⟩
    exact absurd (hiff.2 h) hnot

/-! ### Local spans under two roots -/

/-- A root becomes the local parent. -/
def attachedProgram (sampled : Bool) : List (Unit × Op) := [
  ((), .setReporter),
  ((), .root 0 "root" ⟨⟨1⟩, ⟨9⟩, sampled⟩ ⟨1⟩ ⟨10⟩),
  ((), .setLocalParent 0 0)]

/-- The stack of the thread after the program. -/
def attachedStack (sampled : Bool) : LocalSpanStack :=
  (((Steps.run World.step World.init (attachedProgram sampled)).getD World.init).spanStack ())

theorem enter_returns_under_sampled : (attachedStack true).EntersOrDoesNothing :=
  (enter_does_nothing_iff (attachedProgram true) _ rfl ()).2
    ⟨_, _, rfl, fun token htoken => by cases htoken; exact ⟨_, List.mem_cons_self .., rfl⟩, by decide⟩

/-- Without a local parent, and under a root that is not sampled, entering a local span panics. -/
theorem enter_panics :
    LocalSpan.enterWithStack "span" ((World.init : World Unit).spanStack ()) ⟨2⟩ ⟨11⟩ = none ∧
      (Steps.run World.step World.init (attachedProgram false)).isSome ∧
      LocalSpan.enterWithStack "span" (attachedStack false) ⟨2⟩ ⟨11⟩ = none ∧
      ¬((World.init : World Unit).spanStack ()).EntersOrDoesNothing ∧ ¬(attachedStack false).EntersOrDoesNothing := by
  have hpanic : ∀ stack, LocalSpan.enterWithStack "span" stack ⟨2⟩ ⟨11⟩ = none → ¬stack.EntersOrDoesNothing := by
    intro stack hnone h
    obtain ⟨out, hout⟩ := h.returns "span" ⟨2⟩ ⟨11⟩
    rw [hnone] at hout
    cases hout
  exact ⟨rfl, rfl, rfl, hpanic _ rfl, hpanic _ rfl⟩

end Fastrace
