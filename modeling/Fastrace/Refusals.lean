import Fastrace.Span
import Fastrace.Steps
import Mathlib.Algebra.GroupWithZero.Nat

/-!
# A full span stack

When the stack of a thread holds `capacity` lines, `register_span_line` refuses the next one, and the guard or the
local collector that asked for it is empty.  `LocalScope` is what the thread does from then on until it drops that
guard or collector: it opens and closes scopes last in, first out, all of which are refused as well, since nothing
below is closed.

The stack does not know that a line is missing.  What is recorded goes to the line on top, which belongs to somebody
else, and the drop of an empty guard fails its debug assertion.  `full_stack_contained_iff` says exactly when nothing
of this happens.
-/

namespace Fastrace

/-! ### The debug assertions of the drops -/

/-- `debug_assert_eq!(self.current_span_line().unwrap().span_line_epoch(), ..)`. -/
def LocalSpanStack.unregisterAsserts (s : LocalSpanStack) (handle : SpanLineHandle) : Bool :=
  s.spanLines.head?.any fun line => line.epoch == handle.spanLineEpoch

def LocalCollector.dropAsserts (collector : LocalCollector) (stack : LocalSpanStack) : Bool :=
  collector.inner.all fun spanLineHandle => stack.unregisterAsserts spanLineHandle

/-- With `debug_assert!(token.is_some())`. -/
def LocalParentGuard.dropAsserts (guard : LocalParentGuard) (stack : LocalSpanStack) (now : Instant) : Bool :=
  guard.inner.all fun collector =>
    collector.dropAsserts stack && (collector.collectSpansAndToken stack now).1.2.isSome

/-! ### Scopes -/

/-- What asks for a span line. -/
inductive Registrant where
  | parentGuard (guard : LocalParentGuard)
  | localCollector (collector : LocalCollector)
deriving DecidableEq, Repr

namespace Registrant

/-- The commands sent, and the stack. -/
def drop (stack : LocalSpanStack) (now : Instant) : Registrant → List CollectCommand × LocalSpanStack
  | .parentGuard guard => guard.drop stack now
  | .localCollector collector => ([], collector.drop stack)

def dropAsserts (stack : LocalSpanStack) (now : Instant) : Registrant → Bool
  | .parentGuard guard => guard.dropAsserts stack now
  | .localCollector collector => collector.dropAsserts stack

/-- No line has been registered. -/
def Empty : Registrant → Prop
  | .parentGuard guard => ∀ collector, guard.inner = some collector → collector.inner = none
  | .localCollector collector => collector.inner = none

end Registrant

inductive Opening where
  | setLocalParent (span : Span)
  | startCollector

namespace Opening

def run (stack : LocalSpanStack) : Opening → Registrant × LocalSpanStack
  | .setLocalParent span => (.parentGuard (span.attachIntoStack stack).1, (span.attachIntoStack stack).2)
  | .startCollector => (.localCollector (LocalCollector.start stack).1, (LocalCollector.start stack).2)

/-- A no-op span does not ask for a line. -/
def Registers : Opening → Prop
  | .setLocalParent span => span.inner.isSome = true
  | .startCollector => True

end Opening

inductive ScopeEntry where
  | registrant (x : Registrant)
  | localSpan (span : LocalSpan)
deriving DecidableEq, Repr

structure LocalScope where
  stack : LocalSpanStack
  /-- What has been opened in the scope and not yet closed, innermost first. -/
  opened : List ScopeEntry
  /-- The spans created with `Span::enter_with_local_parent`. -/
  children : List Span

namespace LocalScope

inductive Call where
  | opening (o : Opening)
  | enterLocal (name : String) (id : SpanId) (now : Instant)
  /-- The innermost guard, collector or local span is dropped. -/
  | close (now : Instant)
  | enterWithLocalParent (name : String) (id : SpanId) (now : Instant)
  | addEvent (event : Event) (id : SpanId) (now : Instant)
  | addProperties (properties : Properties) (id : SpanId)
  /-- On a local span of the scope. -/
  | withProperties (i : Nat) (properties : Properties)

def start (stack : LocalSpanStack) : LocalScope where
  stack := stack
  opened := []
  children := []

/-- A local span that panics with "span exhausted" is caught or ends the scope: it opens nothing. -/
def step (s : LocalScope) : Call → Option LocalScope
  | .opening o =>
    let out := o.run s.stack
    some { s with stack := out.2, opened := .registrant out.1 :: s.opened }
  | .enterLocal name id now =>
    match LocalSpan.enterWithStack name s.stack id now with
    | some (span, stack) => some { s with stack := stack, opened := .localSpan span :: s.opened }
    | none => some s
  | .close now =>
    match s.opened with
    | .registrant x :: rest => some { s with stack := (x.drop s.stack now).2, opened := rest }
    | .localSpan span :: rest => (span.drop s.stack now).map fun stack => { s with stack := stack, opened := rest }
    | [] => none
  | .enterWithLocalParent name id now =>
    some { s with children := s.children ++ [Span.enterWithStack name s.stack id now] }
  | .addEvent event id now => some { s with stack := s.stack.addEvent id now event }
  | .addProperties properties id => some { s with stack := s.stack.addProperties id properties }
  | .withProperties i properties =>
    match s.opened[i]? with
    | some (.localSpan span) => (span.withProperties s.stack properties).map fun stack => { s with stack := stack }
    | _ => none

end LocalScope

/-! ### What a full stack does -/

namespace LocalSpanStack

/-- The number of entries in all lines. -/
def entries (s : LocalSpanStack) : Nat := (s.spanLines.map fun line => line.spanQueue.spanQueue.length).sum

/-- There is a top line, and it records what is asked of it. -/
def Accepts (s : LocalSpanStack) : Prop :=
  ∃ line lines, s.spanLines = line :: lines ∧ line.isSampled = true ∧
    line.spanQueue.spanQueue.length < line.spanQueue.capacity

/-- The token of the top line has an item, which a child span gets. -/
def Parents (s : LocalSpanStack) : Prop := ∃ token, s.currentCollectToken = some token ∧ token ≠ []

variable {s s' : LocalSpanStack}

private theorem TopChange.entries_eq {label : Option (SpanId × RawKind)} (h : s.TopChange label s') :
    s'.entries = s.entries + label.toList.length := by
  obtain ⟨line, lines, line', hlines, hline, rfl⟩ := h
  unfold entries
  rw [hlines]
  cases hline with
  | push hraw hnext =>
    simp only [List.map_cons, List.sum_cons, List.length_append, List.length_singleton, Option.toList_some]
    omega
  | set hraw hsame hnext => simp

theorem TopChange.full {label : Option (SpanId × RawKind)} (h : s.TopChange label s') :
    s'.spanLines.length = s.spanLines.length ∧ s'.capacity = s.capacity := by
  obtain ⟨line, lines, line', hlines, -, rfl⟩ := h
  rw [hlines]
  exact ⟨rfl, rfl⟩

private theorem enterSpan_eq_none_iff (id : SpanId) (now : Instant) (name : String) :
    s.enterSpan id now name = none ↔ ¬ s.Accepts := by
  unfold enterSpan Accepts
  cases hlines : s.spanLines with
  | nil => simp
  | cons line lines =>
    simp only [Option.map_eq_none_iff, SpanLine.startSpan, SpanQueue.startSpan, List.cons.injEq]
    cases hsampled : line.isSampled with
    | false => simp [hsampled]
    | true =>
      by_cases hroom : line.spanQueue.spanQueue.length < line.spanQueue.capacity
      · simp [Nat.not_le.2 hroom, hsampled, hroom]
      · simp [Nat.not_lt.1 hroom, hsampled, hroom]

private theorem not_accepts {line : SpanLine} {lines : List SpanLine} (hlines : s.spanLines = line :: lines)
    (h : ¬ s.Accepts) (hsampled : line.isSampled = true) :
    line.spanQueue.spanQueue.length ≥ line.spanQueue.capacity := by
  by_contra hroom
  exact h ⟨line, lines, hlines, hsampled, by omega⟩

private theorem addEvent_of_accepts (h : s.Accepts) (id : SpanId) (now : Instant) (event : Event) :
    (s.addEvent id now event).entries = s.entries + 1 := by
  obtain ⟨line, lines, hlines, hsampled, hroom⟩ := h
  simp only [addEvent, hlines, SpanLine.addEvent, hsampled, SpanQueue.addEvent, entries]
  rw [if_neg (by simp), if_neg (by omega)]
  simp only [List.map_cons, List.sum_cons, List.length_append, List.length_singleton]
  omega

private theorem addEvent_of_not_accepts (h : ¬ s.Accepts) (id : SpanId) (now : Instant) (event : Event) :
    s.addEvent id now event = s := by
  unfold addEvent
  split
  · rfl
  · rename_i line lines hlines
    have hline : line.addEvent id now event = line := by
      unfold SpanLine.addEvent SpanQueue.addEvent
      split
      · rfl
      · rename_i hsampled
        rw [if_pos (not_accepts hlines h (by simpa using hsampled))]
    rw [hline, ← hlines]

private theorem addProperties_of_accepts (h : s.Accepts) (id : SpanId) (properties : Properties) :
    (s.addProperties id properties).entries = s.entries + 1 := by
  obtain ⟨line, lines, hlines, hsampled, hroom⟩ := h
  simp only [addProperties, hlines, SpanLine.addProperties, hsampled, SpanQueue.addProperties, entries]
  rw [if_neg (by simp), if_neg (by omega)]
  simp only [List.map_cons, List.sum_cons, List.length_append, List.length_singleton]
  omega

private theorem addProperties_of_not_accepts (h : ¬ s.Accepts) (id : SpanId) (properties : Properties) :
    s.addProperties id properties = s := by
  unfold addProperties
  split
  · rfl
  · rename_i line lines hlines
    have hline : line.addProperties id properties = line := by
      unfold SpanLine.addProperties SpanQueue.addProperties
      split
      · rfl
      · rename_i hsampled
        rw [if_pos (not_accepts hlines h (by simpa using hsampled))]
    rw [hline, ← hlines]

end LocalSpanStack

/-- A span that is reported for no trace. -/
def Span.Unattributed (span : Span) : Prop := ∀ inner, span.inner = some inner → inner.collectToken = []

private theorem enterWithStack_unattributed_iff (name : String) (stack : LocalSpanStack) (id : SpanId) (now : Instant) :
    (Span.enterWithStack name stack id now).Unattributed ↔ ¬ stack.Parents := by
  unfold Span.enterWithStack Span.Unattributed LocalSpanStack.Parents
  cases stack.currentCollectToken with
  | none => simp [Span.noop]
  | some token => simp [Span.new]

/-! ### Refused registrations -/

private theorem registerSpanLine_full {s : LocalSpanStack} (h : s.capacity ≤ s.spanLines.length)
    (collectToken : Option CollectToken) : s.registerSpanLine collectToken = none := if_pos h

private theorem LocalCollector.new_full {s : LocalSpanStack} (h : s.capacity ≤ s.spanLines.length)
    (collectToken : Option CollectToken) : LocalCollector.new collectToken s = (⟨none⟩, s) := by
  rw [LocalCollector.new, registerSpanLine_full h]

/-- The guard of a refused local parent holds an empty collector. -/
private theorem Span.attachIntoStack_full {s : LocalSpanStack} (h : s.capacity ≤ s.spanLines.length) (span : Span) :
    span.attachIntoStack s = (⟨span.inner.map fun _ => ⟨none⟩⟩, s) := by
  unfold Span.attachIntoStack
  cases span.inner with
  | none => rfl
  | some inner =>
    simp only [SpanInner.captureLocalSpans, LocalCollector.new_full h, Option.map_some]

private theorem Opening.run_full {s : LocalSpanStack} (h : s.capacity ≤ s.spanLines.length) (o : Opening) :
    (o.run s).1.Empty ∧ (o.run s).2 = s := by
  cases o with
  | setLocalParent span =>
    simp only [Opening.run, span.attachIntoStack_full h]
    refine ⟨fun collector hc => ?_, trivial⟩
    obtain ⟨inner, -, rfl⟩ := Option.map_eq_some_iff.1 hc
    rfl
  | startCollector =>
    unfold Opening.run LocalCollector.start
    rw [LocalCollector.new_full h]
    exact ⟨rfl, rfl⟩

theorem Registrant.Empty.drop {x : Registrant} (h : x.Empty) (stack : LocalSpanStack) (now : Instant) :
    x.drop stack now = ([], stack) := by
  cases x with
  | parentGuard guard =>
    change guard.drop stack now = ([], stack)
    unfold LocalParentGuard.drop
    split
    · rfl
    · rename_i collector hinner
      rw [LocalCollector.collectSpansAndToken, h collector hinner]
  | localCollector collector =>
    have hinner : collector.inner = none := h
    simp only [Registrant.drop, LocalCollector.drop, hinner]

/-- Only the drop of a guard asserts that there has been a line. -/
private theorem Opening.dropAsserts_full {s : LocalSpanStack} (h : s.capacity ≤ s.spanLines.length) {o : Opening}
    (ho : o.Registers) (stack : LocalSpanStack) (now : Instant) :
    (o.run s).1.dropAsserts stack now = true ↔ o = .startCollector := by
  cases o with
  | setLocalParent span =>
    obtain ⟨inner, hinner⟩ := Option.isSome_iff_exists.1 ho
    simp [Opening.run, span.attachIntoStack_full h, hinner, Registrant.dropAsserts, LocalParentGuard.dropAsserts,
      LocalCollector.collectSpansAndToken]
  | startCollector =>
    simp [Opening.run, LocalCollector.start, LocalCollector.new_full h, Registrant.dropAsserts,
      LocalCollector.dropAsserts]

namespace LocalScope

/-- The condition under which a call leaves the lines of others alone. -/
def Call.Idle (stack : LocalSpanStack) : Call → Prop
  | .enterLocal .. => ¬ stack.Accepts
  | .addEvent .. => ¬ stack.Accepts
  | .addProperties .. => ¬ stack.Accepts
  | .enterWithLocalParent .. => ¬ stack.Parents
  | _ => True

/-- The scope lies on a full stack, so nothing opened in it has a line. -/
structure Stuck (s : LocalScope) : Prop where
  full : s.stack.capacity ≤ s.stack.spanLines.length
  empty : ∀ x, ScopeEntry.registrant x ∈ s.opened → x.Empty

/-- Nothing has been recorded so far. -/
structure Silent (stack : LocalSpanStack) (s : LocalScope) : Prop where
  stack_eq : s.stack = stack
  opened : ∀ span, ScopeEntry.localSpan span ∉ s.opened
  children : ∀ span ∈ s.children, span.Unattributed

section

variable {s s' : LocalScope} {c : Call}

private theorem stuck_start {stack : LocalSpanStack} (h : stack.capacity ≤ stack.spanLines.length) :
    (start stack).Stuck where
  full := h
  empty x hx := by cases hx

private theorem silent_start (stack : LocalSpanStack) : (start stack).Silent stack where
  stack_eq := rfl
  opened span h := by cases h
  children span h := by cases h

private theorem Stuck.topChange (h : s.Stuck) {stack : LocalSpanStack} {label : Option (SpanId × RawKind)}
    (opened : List ScopeEntry) (hempty : ∀ x, ScopeEntry.registrant x ∈ opened → x.Empty)
    (hc : stack = s.stack ∨ s.stack.TopChange label stack) :
    Stuck { s with stack := stack, opened := opened } ∧ s.stack.entries ≤ stack.entries := by
  rcases hc with rfl | hc
  · exact ⟨⟨h.full, hempty⟩, le_refl _⟩
  · refine ⟨⟨?_, hempty⟩, ?_⟩
    · have hfull := h.full
      rwa [← hc.full.1, ← hc.full.2] at hfull
    · rw [hc.entries_eq]
      exact Nat.le_add_right _ _

/-- Lines and children are only added to. -/
private theorem Stuck.step (h : s.Stuck) (hs : s.step c = some s') :
    s'.Stuck ∧ s.stack.entries ≤ s'.stack.entries ∧ s.children <+: s'.children := by
  cases c with
  | opening o =>
    cases hs
    obtain ⟨hempty, hstack⟩ := o.run_full h.full
    simp only [hstack]
    refine ⟨⟨h.full, fun x hx => ?_⟩, le_refl _, List.prefix_rfl⟩
    rcases List.mem_cons.1 hx with heq | hx
    · cases heq
      exact hempty
    · exact h.empty x hx
  | enterLocal name id now =>
    simp only [LocalScope.step] at hs
    split at hs
    · rename_i span stack hspan
      cases hs
      obtain ⟨⟨handle, stack'⟩, henter, heq⟩ := Option.map_eq_some_iff.1 hspan
      cases heq
      obtain ⟨hstuck, hle⟩ := h.topChange (.localSpan ⟨some handle⟩ :: s.opened) (fun x hx => by
        rcases List.mem_cons.1 hx with heq | hx
        · cases heq
        · exact h.empty x hx) (Or.inr (LocalSpanStack.enterSpan_cases henter))
      exact ⟨hstuck, hle, List.prefix_rfl⟩
    · cases hs
      exact ⟨h, le_refl _, List.prefix_rfl⟩
  | close now =>
    simp only [LocalScope.step] at hs
    split at hs
    · rename_i x rest hopened
      cases hs
      have hx : x.Empty := h.empty x (by rw [hopened]; exact List.mem_cons_self ..)
      simp only [hx.drop]
      exact ⟨⟨h.full, fun y hy => h.empty y (by rw [hopened]; exact List.mem_cons_of_mem _ hy)⟩, le_refl _,
        List.prefix_rfl⟩
    · rename_i span rest hopened
      obtain ⟨stack, hdrop, rfl⟩ := Option.map_eq_some_iff.1 hs
      obtain ⟨hstuck, hle⟩ := h.topChange rest
        (fun y hy => h.empty y (by rw [hopened]; exact List.mem_cons_of_mem _ hy)) (LocalSpan.drop_cases hdrop)
      exact ⟨hstuck, hle, List.prefix_rfl⟩
    · cases hs
  | enterWithLocalParent name id now =>
    cases hs
    exact ⟨⟨h.full, h.empty⟩, le_refl _, List.prefix_append ..⟩
  | addEvent event id now =>
    cases hs
    obtain ⟨hstuck, hle⟩ := h.topChange s.opened h.empty (s.stack.addEvent_cases id now event)
    exact ⟨hstuck, hle, List.prefix_rfl⟩
  | addProperties properties id =>
    cases hs
    obtain ⟨hstuck, hle⟩ := h.topChange s.opened h.empty (s.stack.addProperties_cases id properties)
    exact ⟨hstuck, hle, List.prefix_rfl⟩
  | withProperties i properties =>
    simp only [LocalScope.step] at hs
    split at hs
    · rename_i span hspan
      obtain ⟨stack, hwith, rfl⟩ := Option.map_eq_some_iff.1 hs
      obtain ⟨hstuck, hle⟩ := h.topChange s.opened h.empty (LocalSpan.withProperties_cases hwith)
      exact ⟨hstuck, hle, List.prefix_rfl⟩
    · cases hs

private theorem Stuck.run {cs : List Call} (h : s.Stuck) (hs : Steps.run LocalScope.step s cs = some s') :
    s.stack.entries ≤ s'.stack.entries ∧ s.children <+: s'.children := by
  induction cs generalizing s with
  | nil => cases hs; exact ⟨le_refl _, List.prefix_rfl⟩
  | cons c cs ih =>
    obtain ⟨s₁, h₁, h₂⟩ := Option.bind_eq_some_iff.1 hs
    obtain ⟨hstuck, hle, hpre⟩ := h.step h₁
    obtain ⟨hle', hpre'⟩ := ih hstuck h₂
    exact ⟨le_trans hle hle', hpre.trans hpre'⟩

/-- An idle call records nothing. -/
private theorem Silent.idle {stack : LocalSpanStack} (h : s.Silent stack) (hstuck : s.Stuck) (hc : c.Idle stack)
    (hs : s.step c = some s') : s'.Silent stack := by
  obtain ⟨rfl, hopened, hchildren⟩ := h
  cases c with
  | opening o =>
    cases hs
    refine ⟨(o.run_full hstuck.full).2, fun span hspan => ?_, hchildren⟩
    rcases List.mem_cons.1 hspan with heq | hspan
    · cases heq
    · exact hopened span hspan
  | enterLocal name id now =>
    have hnone : LocalSpan.enterWithStack name s.stack id now = none := by
      rw [LocalSpan.enterWithStack, LocalSpanStack.enterSpan_eq_none_iff id now name |>.2 hc]
      rfl
    simp only [LocalScope.step, hnone] at hs
    cases hs
    exact ⟨rfl, hopened, hchildren⟩
  | close now =>
    simp only [LocalScope.step] at hs
    split at hs
    · rename_i x rest hlist
      cases hs
      have hx : x.Empty := hstuck.empty x (by rw [hlist]; exact List.mem_cons_self ..)
      refine ⟨by simp only [hx.drop], fun span hspan => hopened span ?_, hchildren⟩
      rw [hlist]
      exact List.mem_cons_of_mem _ hspan
    · rename_i span rest hlist
      exact absurd (by rw [hlist]; exact List.mem_cons_self ..) (hopened span)
    · cases hs
  | enterWithLocalParent name id now =>
    cases hs
    refine ⟨rfl, hopened, fun span hspan => ?_⟩
    rcases List.mem_append.1 hspan with hspan | hspan
    · exact hchildren span hspan
    · rw [List.mem_singleton.1 hspan, enterWithStack_unattributed_iff]
      exact hc
  | addEvent event id now =>
    cases hs
    exact ⟨LocalSpanStack.addEvent_of_not_accepts hc id now event, hopened, hchildren⟩
  | addProperties properties id =>
    cases hs
    exact ⟨LocalSpanStack.addProperties_of_not_accepts hc id properties, hopened, hchildren⟩
  | withProperties i properties =>
    simp only [LocalScope.step] at hs
    split at hs
    · rename_i span hspan
      exact absurd (List.mem_of_getElem? hspan) (hopened span)
    · cases hs

/-- Any other call records an entry, or creates a span that is reported. -/
private theorem Silent.not_idle {stack : LocalSpanStack} (h : s.Silent stack) (hc : ¬ c.Idle stack)
    (hs : s.step c = some s') :
    stack.entries < s'.stack.entries ∨ ∃ span ∈ s'.children, ¬ span.Unattributed := by
  obtain ⟨rfl, -, -⟩ := h
  cases c with
  | enterLocal name id now =>
    left
    simp only [LocalScope.step] at hs
    split at hs
    · rename_i span stack hspan
      cases hs
      obtain ⟨⟨handle, stack'⟩, henter, heq⟩ := Option.map_eq_some_iff.1 hspan
      cases heq
      rw [(LocalSpanStack.enterSpan_cases henter).entries_eq]
      exact Nat.lt_succ_self _
    · rename_i hnone
      exact absurd ((LocalSpanStack.enterSpan_eq_none_iff id now name).1 (Option.map_eq_none_iff.1 hnone)) hc
  | enterWithLocalParent name id now =>
    right
    cases hs
    refine ⟨_, List.mem_append_right _ (List.mem_singleton_self _), ?_⟩
    rw [enterWithStack_unattributed_iff]
    exact hc
  | addEvent event id now =>
    left
    cases hs
    rw [LocalSpanStack.addEvent_of_accepts (not_not.1 hc)]
    exact Nat.lt_succ_self _
  | addProperties properties id =>
    left
    cases hs
    rw [LocalSpanStack.addProperties_of_accepts (not_not.1 hc)]
    exact Nat.lt_succ_self _
  | opening | close | withProperties => exact absurd trivial hc

private theorem run_silent {stack : LocalSpanStack} {cs : List Call} (h : s.Silent stack) (hstuck : s.Stuck)
    (hidle : ∀ c ∈ cs, c.Idle stack) (hs : Steps.run LocalScope.step s cs = some s') : s'.Silent stack := by
  induction cs generalizing s with
  | nil => cases hs; exact h
  | cons c cs ih =>
    obtain ⟨s₁, h₁, h₂⟩ := Option.bind_eq_some_iff.1 hs
    rw [List.forall_mem_cons] at hidle
    exact ih (h.idle hstuck hidle.1 h₁) (hstuck.step h₁).1 hidle.2 h₂

/-- A run on a full stack records nothing in the lines that are there, if and only if all its calls are idle. -/
private theorem run_silent_iff {stack : LocalSpanStack} {cs : List Call} (h : s.Silent stack) (hstuck : s.Stuck)
    (hs : Steps.run LocalScope.step s cs = some s') :
    (s'.stack.entries = stack.entries ∧ ∀ span ∈ s'.children, span.Unattributed) ↔ ∀ c ∈ cs, c.Idle stack := by
  induction cs generalizing s with
  | nil =>
    cases hs
    simpa [h.stack_eq] using h.children
  | cons c cs ih =>
    obtain ⟨s₁, h₁, h₂⟩ := Option.bind_eq_some_iff.1 hs
    have hstuck₁ := (hstuck.step h₁).1
    rw [List.forall_mem_cons]
    by_cases hc : c.Idle stack
    · rw [ih (h.idle hstuck hc h₁) hstuck₁ h₂]
      simp [hc]
    · -- what the call has recorded stays
      obtain ⟨hle, hpre⟩ := hstuck₁.run h₂
      refine ⟨fun hsilent => ?_, fun hidle => absurd hidle.1 hc⟩
      exfalso
      rcases h.not_idle hc h₁ with hlt | ⟨span, hspan, hnot⟩
      · exact Nat.lt_irrefl _ (hsilent.1 ▸ Nat.lt_of_lt_of_le hlt hle)
      · exact hnot (hsilent.2 span (hpre.subset hspan))

end

end LocalScope

/-! ### Containment -/

/-- `x` has been opened on `stack`, and `s` is where the scope that it opens has come to when it is dropped. -/
structure Contained (stack : LocalSpanStack) (x : Registrant) (s : LocalScope) (now : Instant) : Prop where
  submits : (x.drop s.stack now).1 = []
  leaves : (x.drop s.stack now).2 = s.stack
  asserts : x.dropAsserts s.stack now = true
  /-- Nothing has been recorded in the lines of the stack. -/
  recorded : s.stack.spanLines.map (fun line => line.spanQueue.spanQueue) =
    stack.spanLines.map fun line => line.spanQueue.spanQueue
  children : ∀ span ∈ s.children, span.Unattributed

open LocalScope in
/-- On a full stack: a guard is never contained, and a local collector is if and only if nothing is recorded in its
scope. -/
theorem full_stack_contained_iff {stack : LocalSpanStack} (hfull : stack.capacity ≤ stack.spanLines.length)
    {o : Opening} (ho : o.Registers) {body : List LocalScope.Call} {s : LocalScope}
    (hbody : Steps.run LocalScope.step (LocalScope.start (o.run stack).2) body = some s) (now : Instant) :
    Contained stack (o.run stack).1 s now ↔ o = .startCollector ∧ ∀ c ∈ body, c.Idle stack := by
  obtain ⟨hempty, hsame⟩ := o.run_full hfull
  rw [hsame] at hbody
  have hsilent := run_silent_iff (silent_start stack) (stuck_start hfull) hbody
  constructor
  · intro h
    refine ⟨(o.dropAsserts_full hfull ho s.stack now).1 h.asserts, hsilent.1 ⟨?_, h.children⟩⟩
    have hlengths := congrArg (List.map List.length) h.recorded
    simp only [List.map_map, Function.comp_def] at hlengths
    rw [LocalSpanStack.entries, LocalSpanStack.entries, hlengths]
  · rintro ⟨hcollector, hidle⟩
    have hs := run_silent (silent_start stack) (stuck_start hfull) hidle hbody
    exact ⟨by rw [hempty.drop], by rw [hempty.drop], (o.dropAsserts_full hfull ho s.stack now).2 hcollector,
      by rw [hs.stack_eq], hs.children⟩

/-! ### A refused local parent -/

/-- The root span of the trace `n`. -/
def rootOf (n : Nat) : Span := (Span.root true n "root" ⟨⟨n⟩, ⟨0⟩, true⟩ ⟨n⟩ ⟨1⟩).1

/-- The stack of a thread that has made a span of the trace 1 its local parent `n` times. -/
def nestedParents : Nat → LocalSpanStack
  | 0 => LocalSpanStack.withCapacity defaultSpanStackSize
  | n + 1 => ((Opening.setLocalParent (rootOf 1)).run (nestedParents n)).2

/-- A line of the trace 1. -/
private def lineOne (epoch : Nat) : SpanLine :=
  SpanLine.new defaultSpanQueueSize epoch (some (issueToken ⟨1⟩ (Span.rootToken ⟨⟨1⟩, ⟨0⟩, true⟩ 1)))

private theorem nestedParents_spec {n : Nat} (h : n ≤ 1024) :
    (nestedParents n).capacity = 1024 ∧ (nestedParents n).spanLines.length = n ∧
      ∀ line ∈ (nestedParents n).spanLines, ∃ epoch, line = lineOne epoch := by
  induction n with
  | zero => exact ⟨rfl, rfl, fun line hline => by cases hline⟩
  | succ n ih =>
    obtain ⟨hcapacity, hlength, hlines⟩ := ih (by omega)
    have hregister : ∀ token, (nestedParents n).registerSpanLine token = _ := fun token =>
      if_neg (by rw [hcapacity, hlength]; omega)
    simp only [nestedParents, Opening.run, Span.attachIntoStack, rootOf, Span.root, SpanInner.captureLocalSpans,
      LocalCollector.new, hregister, Span.new, Bool.not_true, Bool.false_eq_true, if_false, if_true]
    refine ⟨hcapacity, by rw [List.length_cons, hlength], fun line hline => ?_⟩
    rcases List.mem_cons.1 hline with rfl | hline
    · exact ⟨_, rfl⟩
    · exact hlines line hline

private theorem nestedParents_full : (nestedParents 1024).capacity ≤ (nestedParents 1024).spanLines.length := by
  obtain ⟨hcapacity, hlength, -⟩ := nestedParents_spec (le_refl 1024)
  omega

def eventInRefused : List LocalScope.Call := [.addEvent (Event.new "event") ⟨3⟩ ⟨2⟩]

private theorem refused_records {stack : LocalSpanStack} (hfull : stack.capacity ≤ stack.spanLines.length)
    (hlines : ∀ line ∈ stack.spanLines, ∃ epoch, line = lineOne epoch) (hne : stack.spanLines ≠ []) : ∃ s,
    Steps.run LocalScope.step (LocalScope.start ((Opening.setLocalParent (rootOf 2)).run stack).2) eventInRefused =
      some s ∧
    s.stack.spanLines.head?.map (fun line => (line.spanQueue.spanQueue.map RawSpan.name,
      line.collectToken.map fun token => token.map CollectTokenItem.traceId)) = some (["event"], some [⟨1⟩]) ∧
    ((Opening.setLocalParent (rootOf 2)).run stack).1.dropAsserts s.stack ⟨3⟩ = false ∧
    ¬ Contained stack ((Opening.setLocalParent (rootOf 2)).run stack).1 s ⟨3⟩ := by
  have hasserts : ∀ stack' now, ((Opening.setLocalParent (rootOf 2)).run stack).1.dropAsserts stack' now = false :=
    fun stack' now => by
      rw [Bool.eq_false_iff]
      exact fun h => nomatch (Opening.dropAsserts_full hfull (by rfl) stack' now).1 h
  refine ⟨_, rfl, ?_, hasserts _ _, fun h => absurd h.asserts (by rw [hasserts]; exact Bool.false_ne_true)⟩
  rw [((Opening.setLocalParent (rootOf 2)).run_full hfull).2]
  cases htop : stack.spanLines with
  | nil => exact absurd htop hne
  | cons line lines =>
    obtain ⟨epoch, rfl⟩ := hlines line (by rw [htop]; exact List.mem_cons_self ..)
    simp only [LocalScope.start, LocalSpanStack.addEvent, htop]
    rfl

/-- The local parent is a span of the trace 2, and the event is recorded for the trace 1. -/
theorem refused_parent_records : ∃ s,
    Steps.run LocalScope.step (LocalScope.start ((Opening.setLocalParent (rootOf 2)).run (nestedParents 1024)).2)
      eventInRefused = some s ∧
    s.stack.spanLines.head?.map (fun line => (line.spanQueue.spanQueue.map RawSpan.name,
      line.collectToken.map fun token => token.map CollectTokenItem.traceId)) = some (["event"], some [⟨1⟩]) ∧
    ((Opening.setLocalParent (rootOf 2)).run (nestedParents 1024)).1.dropAsserts s.stack ⟨3⟩ = false ∧
    ¬ Contained (nestedParents 1024) ((Opening.setLocalParent (rootOf 2)).run (nestedParents 1024)).1 s ⟨3⟩ := by
  obtain ⟨-, hlength, hlines⟩ := nestedParents_spec (le_refl 1024)
  exact refused_records nestedParents_full hlines fun hnil => by simp [hnil] at hlength

theorem full_stack_contained_collector :
    Contained (nestedParents 1024) (Opening.startCollector.run (nestedParents 1024)).1
      (LocalScope.start (Opening.startCollector.run (nestedParents 1024)).2) ⟨3⟩ := by
  have hregisters : Opening.startCollector.Registers := trivial
  have hrun : Steps.run LocalScope.step (LocalScope.start (Opening.startCollector.run (nestedParents 1024)).2) [] =
    some _ := rfl
  exact (full_stack_contained_iff nestedParents_full hregisters hrun ⟨3⟩).2 ⟨rfl, fun c hc => by cases hc⟩

end Fastrace
