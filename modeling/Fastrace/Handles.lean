import Fastrace.LocalSpanStack
import Fastrace.Steps

/-!
# The handles of a span stack

A stack issues a `SpanLineHandle` for every line it registers and a `LocalSpanHandle` for every local span.  The
program keeps them for as long as it likes and uses them in any order, so a handle may come back when its line is
covered by others or gone.  `Ledger` is a stack with what it has issued; the registrations are numbered, and `lines`
tells which registration each line on the stack comes from.  The code knows a line by its epoch only, which is the
number modulo `2 ^ 64`.

A `LocalSpanHandle` touches only its own span (`handle_touches_own_span`): `exit_span` and `with_properties` compare
the epoch first.  A `SpanLineHandle` does not: `unregister_and_collect` pops the top line before it compares, so
whatever line is there is lost (`unregister_contained_iff`).
-/

namespace Fastrace

/-- A `LocalSpanHandle` that has been issued: the number of its line, and the id drawn for the span. -/
structure IssuedSpan where
  line : Nat
  handle : LocalSpanHandle
  id : SpanId
deriving DecidableEq, Repr

structure Ledger where
  stack : LocalSpanStack
  /-- The handle of each registration. -/
  issued : List SpanLineHandle
  /-- The numbers of the lines on the stack, top first. -/
  lines : List Nat
  spans : List IssuedSpan
  /-- The lines that left the stack otherwise than to the owner of their own handle. -/
  discarded : List Nat
deriving DecidableEq, Repr

namespace Ledger

def init (capacity : Nat) : Ledger where
  stack := LocalSpanStack.withCapacity capacity
  issued := []
  lines := []
  spans := []
  discarded := []

inductive Call where
  | registerSpanLine (collectToken : Option CollectToken)
  /-- With the handle of the `n`-th registration. -/
  | unregisterAndCollect (n : Nat)
  | enterSpan (id : SpanId) (now : Instant) (name : String)
  /-- With the handle of the `i`-th local span. -/
  | exitSpan (i : Nat) (now : Instant)
  | addEvent (id : SpanId) (now : Instant) (event : Event)
  | addProperties (id : SpanId) (properties : Properties)
  | withProperties (i : Nat) (properties : Properties)
deriving DecidableEq, Repr

/-- The top line, unless it is returned for its own handle. -/
def discards (s : Ledger) (n : Nat) (out : Option (List RawSpan × Option CollectToken)) : List Nat :=
  (s.lines.head?.filter fun m => !(m == n && out.isSome)).toList

/-- A call that panics is no step. -/
def step (s : Ledger) : Call → Option Ledger
  | .registerSpanLine collectToken =>
    match s.stack.registerSpanLine collectToken with
    | some (handle, stack) =>
      some { s with stack := stack, issued := s.issued ++ [handle], lines := s.issued.length :: s.lines }
    | none => some s
  | .unregisterAndCollect n => s.issued[n]?.map fun handle =>
      let out := s.stack.unregisterAndCollect handle
      { s with stack := out.2, lines := s.lines.tail, discarded := s.discarded ++ s.discards n out.1 }
  | .enterSpan id now name =>
    match s.stack.enterSpan id now name with
    | some (handle, stack) =>
      some { s with stack := stack, spans := s.spans ++ (s.lines.head?.map fun n => ⟨n, handle, id⟩).toList }
    | none => some s
  | .exitSpan i now => s.spans[i]?.bind fun x =>
      (s.stack.exitSpan x.handle now).map fun stack => { s with stack := stack }
  | .addEvent id now event => some { s with stack := s.stack.addEvent id now event }
  | .addProperties id properties => some { s with stack := s.stack.addProperties id properties }
  | .withProperties i properties => s.spans[i]?.bind fun x =>
      (s.stack.withProperties x.handle properties).map fun stack => { s with stack := stack }

/-! ### What a ledger keeps -/

/-- The epoch of the `n`-th registration. -/
def epoch (n : Nat) : Nat := n % UInt64.size

/-- The line records spans, and its entry at the index of the handle is the span created with it. -/
def Owns (x : IssuedSpan) (line : SpanLine) : Prop :=
  line.isSampled = true ∧
    ∃ raw, line.spanQueue.spanQueue[x.handle.spanHandle.index]? = some raw ∧ raw.id = x.id ∧ raw.rawKind = .span

/-- Queues only grow, and entries keep their place. -/
private theorem Owns.change {x : IssuedSpan} {line line' : SpanLine} {label : Option (SpanId × RawKind)}
    (h : Owns x line)
    (hc : line.Change label line') : Owns x line' := by
  obtain ⟨hsampled, raw, hraw, hid, hkind⟩ := h
  cases hc with
  | push hpush hnext =>
    refine ⟨hsampled, raw, ?_, hid, hkind⟩
    rw [List.getElem?_append_left (List.getElem?_eq_some_iff.1 hraw).1, hraw]
  | @set i old new next hold hsame hnext =>
    by_cases hi : i = x.handle.spanHandle.index
    · subst hi
      rw [hold] at hraw
      cases hraw
      exact ⟨hsampled, new, List.getElem?_set_self (List.getElem?_eq_some_iff.1 hold).1, hsame.id_eq.trans hid,
        hsame.kind_eq.trans hkind⟩
    · exact ⟨hsampled, raw, by rw [List.getElem?_set_ne hi, hraw], hid, hkind⟩

structure Inv (s : Ledger) : Prop where
  next : s.stack.nextSpanLineEpoch = epoch s.issued.length
  issued : ∀ n handle, s.issued[n]? = some handle → handle.spanLineEpoch = epoch n
  epochs : s.stack.spanLines.map SpanLine.epoch = s.lines.map epoch
  /-- No two lines of the history share a number. -/
  sorted : s.lines.Pairwise (· > ·)
  known : ∀ n ∈ s.lines, n < s.issued.length
  spanLine : ∀ x ∈ s.spans, x.line < s.issued.length ∧ x.handle.spanLineEpoch = epoch x.line
  owns : ∀ x ∈ s.spans, ∀ line, (x.line, line) ∈ s.lines.zip s.stack.spanLines → Owns x line

private theorem inv_init (capacity : Nat) : Inv (init capacity) where
  next := rfl
  issued n handle h := by simp [init] at h
  epochs := rfl
  sorted := List.Pairwise.nil
  known n h := by cases h
  spanLine x h := by cases h
  owns x h := by cases h

private theorem Inv.top {s : Ledger} (h : s.Inv) {line : SpanLine} {rest : List SpanLine}
    (hlines : s.stack.spanLines = line :: rest) : ∃ n ns, s.lines = n :: ns ∧ line.epoch = epoch n := by
  have hepochs := h.epochs
  cases hn : s.lines with
  | nil => rw [hlines, hn] at hepochs; cases hepochs
  | cons n ns =>
    rw [hlines, hn] at hepochs
    exact ⟨n, ns, rfl, (List.cons.inj hepochs).1⟩

private theorem Inv.topChange {s : Ledger} (h : s.Inv) {label : Option (SpanId × RawKind)} {stack : LocalSpanStack}
    (hc : s.stack.TopChange label stack) : Inv { s with stack := stack } := by
  obtain ⟨line, rest, line', hlines, hline, rfl⟩ := hc
  obtain ⟨n, ns, hn, -⟩ := h.top hlines
  refine { h with
    next := h.next
    epochs := by rw [← h.epochs, hlines, List.map_cons, List.map_cons, hline.epoch_eq]
    owns := fun x hx line₁ hzip => ?_ }
  have howns := h.owns x hx
  simp only [hn, hlines, List.zip_cons_cons, List.mem_cons, Prod.mk.injEq] at howns hzip
  rcases hzip with ⟨hn, rfl⟩ | hzip
  · exact (howns line (Or.inl ⟨hn, rfl⟩)).change hline
  · exact howns line₁ (Or.inr hzip)

private theorem Inv.register {s : Ledger} (h : s.Inv) {collectToken : Option CollectToken} {handle : SpanLineHandle}
    {stack : LocalSpanStack} (hr : s.stack.registerSpanLine collectToken = some (handle, stack)) :
    Inv { s with stack := stack, issued := s.issued ++ [handle], lines := s.issued.length :: s.lines } := by
  unfold LocalSpanStack.registerSpanLine at hr
  split at hr
  · cases hr
  · cases hr
    refine ⟨?_, ?_, ?_, ?_, ?_, ?_, ?_⟩
    · simp [LocalSpanStack.wrappingSucc, h.next, epoch]
    · intro n handle hn
      rcases List.getElem?_eq_some_iff.1 hn with ⟨hlt, -⟩
      simp only [List.length_append, List.length_singleton] at hlt
      rcases Nat.lt_or_ge n s.issued.length with hlt' | hge
      · rw [List.getElem?_append_left hlt'] at hn
        exact h.issued n handle hn
      · obtain rfl : n = s.issued.length := by omega
        simp only [List.getElem?_concat_length, Option.some.injEq] at hn
        rw [← hn]
        exact h.next
    · simp [SpanLine.new, h.epochs, h.next]
    · exact List.pairwise_cons.2 ⟨h.known, h.sorted⟩
    · intro n hn
      simp only [List.length_append, List.length_singleton]
      rcases List.mem_cons.1 hn with rfl | hn
      · omega
      · have := h.known n hn
        omega
    · intro x hx
      obtain ⟨hlt, he⟩ := h.spanLine x hx
      exact ⟨by simp only [List.length_append, List.length_singleton]; omega, he⟩
    · intro x hx line hzip
      simp only [List.zip_cons_cons, List.mem_cons, Prod.mk.injEq] at hzip
      rcases hzip with ⟨heq, -⟩ | hzip
      · -- the line of `x` was registered before
        have := (h.spanLine x hx).1
        omega
      · exact h.owns x hx line hzip

private theorem Inv.pop {s : Ledger} (h : s.Inv) {handle : SpanLineHandle}
    {out : Option (List RawSpan × Option CollectToken)} {stack : LocalSpanStack}
    (hu : s.stack.unregisterAndCollect handle = (out, stack)) (discarded : List Nat) :
    Inv { s with stack := stack, lines := s.lines.tail, discarded := discarded } := by
  rcases LocalSpanStack.unregisterAndCollect_cases hu with ⟨hnil, -, rfl⟩ | ⟨line, rest, hlines, rfl, -⟩
  · have hl : s.lines = [] := by
      have hepochs := h.epochs
      rw [hnil] at hepochs
      exact List.map_eq_nil_iff.1 hepochs.symm
    have htail : s.lines.tail = s.lines := by rw [hl]; rfl
    rw [htail]
    exact { h with next := h.next }
  · obtain ⟨n, ns, hn, -⟩ := h.top hlines
    have hepochs := h.epochs
    have hsorted := h.sorted
    have hknown := h.known
    have howns := h.owns
    simp only [hn, hlines, List.zip_cons_cons, List.map_cons] at hepochs hsorted hknown howns
    rw [hn, List.tail_cons]
    exact {
      next := h.next
      issued := h.issued
      epochs := (List.cons.inj hepochs).2
      sorted := (List.pairwise_cons.1 hsorted).2
      known := fun m hm => hknown m (List.mem_cons_of_mem _ hm)
      spanLine := h.spanLine
      owns := fun x hx line hzip => howns x hx line (List.mem_cons_of_mem _ hzip) }

private theorem Inv.enter {s : Ledger} (h : s.Inv) {id : SpanId} {now : Instant} {name : String}
    {handle : LocalSpanHandle} {stack : LocalSpanStack}
    (he : s.stack.enterSpan id now name = some (handle, stack)) :
    Inv { s with stack := stack, spans := s.spans ++ (s.lines.head?.map fun n => ⟨n, handle, id⟩).toList } := by
  have htop := h.topChange (LocalSpanStack.enterSpan_cases he)
  obtain ⟨line, rest, raw, hlines, hsampled, hhandle, hraw, rfl⟩ := LocalSpanStack.enterSpan_eq_some he
  obtain ⟨n, ns, hn, hepoch⟩ := h.top hlines
  refine { htop with
    next := htop.next
    spanLine := fun x hx => ?_
    owns := fun x hx line₁ hzip => ?_ }
  · simp only [hn, List.head?_cons, Option.map_some, Option.toList_some, List.mem_append, List.mem_singleton] at hx
    rcases hx with hx | rfl
    · exact h.spanLine x hx
    · exact ⟨h.known n (by rw [hn]; exact List.mem_cons_self ..), by rw [hhandle]; exact hepoch⟩
  · simp only [hn, List.head?_cons, Option.map_some, Option.toList_some, List.mem_append, List.mem_singleton] at hx
    rcases hx with hx | rfl
    · exact htop.owns x hx line₁ hzip
    · -- the number of the top line is that of no other
      simp only [hn, List.zip_cons_cons, List.mem_cons] at hzip
      rcases hzip with heq | hzip
      · cases heq
        refine ⟨hsampled, raw, ?_, hraw.id_eq, hraw.kind_eq⟩
        rw [hhandle]
        exact List.getElem?_concat_length
      · have hmem : n ∈ ns := (List.of_mem_zip hzip).1
        have hsorted := h.sorted
        rw [hn] at hsorted
        have := (List.pairwise_cons.1 hsorted).1 n hmem
        omega

private theorem Inv.step {s s' : Ledger} {c : Call} (h : s.Inv) (hs : s.step c = some s') : s'.Inv := by
  have hself : Inv { s with stack := s.stack } := h
  cases c with
  | registerSpanLine collectToken =>
    simp only [Ledger.step] at hs
    split at hs
    · cases hs
      exact h.register ‹_›
    · cases hs
      exact h
  | unregisterAndCollect n =>
    obtain ⟨handle, -, rfl⟩ := Option.map_eq_some_iff.1 hs
    exact h.pop rfl _
  | enterSpan id now name =>
    simp only [Ledger.step] at hs
    split at hs
    · cases hs
      exact h.enter ‹_›
    · cases hs
      exact h
  | exitSpan i now =>
    obtain ⟨x, -, hs⟩ := Option.bind_eq_some_iff.1 hs
    obtain ⟨stack, hstack, rfl⟩ := Option.map_eq_some_iff.1 hs
    rcases LocalSpanStack.exitSpan_cases hstack with rfl | hc
    · exact h
    · exact h.topChange hc
  | addEvent id now event =>
    cases hs
    rcases LocalSpanStack.addEvent_cases s.stack id now event with he | hc
    · rw [he]; exact h
    · exact h.topChange hc
  | addProperties id properties =>
    cases hs
    rcases LocalSpanStack.addProperties_cases s.stack id properties with he | hc
    · rw [he]; exact h
    · exact h.topChange hc
  | withProperties i properties =>
    obtain ⟨x, -, hs⟩ := Option.bind_eq_some_iff.1 hs
    obtain ⟨stack, hstack, rfl⟩ := Option.map_eq_some_iff.1 hs
    rcases LocalSpanStack.withProperties_cases hstack with rfl | hc
    · exact h
    · exact h.topChange hc

private theorem inv_of_run {capacity : Nat} {cs : List Call} {s : Ledger}
    (h : Steps.run step (init capacity) cs = some s) :
    s.Inv :=
  Steps.run_induction (fun _ _ _ hi hs => hi.step hs) (inv_init capacity) h

/-! ### Local span handles -/

/-- `stack` is the stack of `s`, where `f` has changed the span of `x` and the register of its line is `next`; it is
that stack itself if the line of `x` is not on top. -/
def Touches (s : Ledger) (x : IssuedSpan) (f : RawSpan → RawSpan) (next : SpanQueue → RawSpan → Option SpanId)
    (stack : LocalSpanStack) : Prop :=
  (s.lines.head? ≠ some x.line ∧ stack = s.stack) ∨
    (s.lines.head? = some x.line ∧ ∃ line rest raw, s.stack.spanLines = line :: rest ∧
      line.spanQueue.spanQueue[x.handle.spanHandle.index]? = some raw ∧ raw.id = x.id ∧ raw.rawKind = .span ∧
      stack = { s.stack with spanLines := { line with spanQueue := { line.spanQueue with
        spanQueue := line.spanQueue.spanQueue.set x.handle.spanHandle.index (f raw)
        nextParentId := next line.spanQueue raw } } :: rest })

/-- Below `2 ^ 64` registrations the epoch of a handle is that of the top line just when its line is on top. -/
private theorem Inv.epoch_iff {s : Ledger} (h : s.Inv) (hreg : s.issued.length < UInt64.size) {x : IssuedSpan}
    (hx : x ∈ s.spans) {line : SpanLine} {rest : List SpanLine} (hlines : s.stack.spanLines = line :: rest) :
    line.epoch = x.handle.spanLineEpoch ↔ s.lines.head? = some x.line := by
  obtain ⟨n, ns, hn, hepoch⟩ := h.top hlines
  obtain ⟨hlt, hxepoch⟩ := h.spanLine x hx
  have hnlt := h.known n (by rw [hn]; exact List.mem_cons_self ..)
  rw [hepoch, hxepoch, hn, epoch, epoch, Nat.mod_eq_of_lt (Nat.lt_trans hnlt hreg),
    Nat.mod_eq_of_lt (Nat.lt_trans hlt hreg), List.head?_cons, Option.some.injEq]

private theorem Inv.top_owns {s : Ledger} (h : s.Inv) {x : IssuedSpan} (hx : x ∈ s.spans) {line : SpanLine}
    {rest : List SpanLine} (hlines : s.stack.spanLines = line :: rest) (hhead : s.lines.head? = some x.line) :
    Owns x line := by
  obtain ⟨n, ns, hn, -⟩ := h.top hlines
  obtain rfl : n = x.line := by simpa [hn] using hhead
  exact h.owns x hx line (by rw [hn, hlines, List.zip_cons_cons]; exact List.mem_cons_self ..)

private theorem Inv.head_ne {s : Ledger} (h : s.Inv) (hlines : s.stack.spanLines = []) (n : Nat) :
    s.lines.head? ≠ some n := by
  have hepochs := h.epochs
  rw [hlines] at hepochs
  rw [List.map_eq_nil_iff.1 hepochs.symm]
  simp

/-- For fewer than `2 ^ 64` registrations, `exit_span` with any handle issued changes at most the end of the span
created with it and the register of its line, and `with_properties` only the properties of that span; if the line is
not on top the stack is unchanged, and neither panics. -/
theorem handle_touches_own_span {capacity : Nat} {cs : List Call} {s : Ledger}
    (h : Steps.run step (init capacity) cs = some s) (hreg : s.issued.length < UInt64.size) {x : IssuedSpan}
    (hx : x ∈ s.spans) :
    (∀ now, ∃ stack, s.stack.exitSpan x.handle now = some stack ∧
      s.Touches x (fun raw => raw.endWith now)
        (fun _ raw => (some raw.parentId).filter fun id => id ≠ default) stack) ∧
    ∀ properties, ∃ stack, s.stack.withProperties x.handle properties = some stack ∧
      s.Touches x (fun raw => raw.extendProperties properties) (fun q _ => q.nextParentId) stack := by
  have hinv := inv_of_run h
  cases hlines : s.stack.spanLines with
  | nil =>
    have hne := hinv.head_ne hlines x.line
    exact ⟨fun now => ⟨s.stack, by simp only [LocalSpanStack.exitSpan, hlines], Or.inl ⟨hne, rfl⟩⟩,
      fun properties => ⟨s.stack, by simp only [LocalSpanStack.withProperties, hlines], Or.inl ⟨hne, rfl⟩⟩⟩
  | cons line rest =>
    have hepoch := hinv.epoch_iff hreg hx hlines
    by_cases hhead : s.lines.head? = some x.line
    · obtain ⟨hsampled, raw, hraw, hid, hkind⟩ := hinv.top_owns hx hlines hhead
      constructor
      · intro now
        refine ⟨_, ?_, Or.inr ⟨hhead, line, rest, raw, hlines, hraw, hid, hkind, rfl⟩⟩
        simp only [LocalSpanStack.exitSpan, hlines, SpanLine.finishSpan, if_pos (hepoch.2 hhead),
          SpanQueue.finishSpan, hraw]
        rfl
      · intro properties
        refine ⟨_, ?_, Or.inr ⟨hhead, line, rest, raw, hlines, hraw, hid, hkind, rfl⟩⟩
        simp only [LocalSpanStack.withProperties, hlines, SpanLine.withProperties, hsampled, Bool.not_true,
          Bool.false_eq_true, if_false, if_pos (hepoch.2 hhead), SpanQueue.withProperties, hraw]
        rfl
    · have hne : ¬ line.epoch = x.handle.spanLineEpoch := fun he => hhead (hepoch.1 he)
      constructor
      · intro now
        refine ⟨s.stack, ?_, Or.inl ⟨hhead, rfl⟩⟩
        simp only [LocalSpanStack.exitSpan, hlines, SpanLine.finishSpan, if_neg hne, Option.map_some]
        rw [← hlines]
      · intro properties
        refine ⟨s.stack, ?_, Or.inl ⟨hhead, rfl⟩⟩
        simp only [LocalSpanStack.withProperties, hlines, SpanLine.withProperties, if_neg hne, ite_self,
          Option.map_some]
        rw [← hlines]

/-- Two lines with a span each; the inner line is collected while its span is still open. -/
def earlyCollect : List Call :=
  [.registerSpanLine none, .enterSpan ⟨1⟩ ⟨1⟩ "outer", .registerSpanLine none, .enterSpan ⟨2⟩ ⟨2⟩ "inner",
    .unregisterAndCollect 1]

def outerSpan : IssuedSpan := ⟨0, ⟨0, ⟨0⟩⟩, ⟨1⟩⟩

def innerSpan : IssuedSpan := ⟨1, ⟨1, ⟨0⟩⟩, ⟨2⟩⟩

theorem handle_touches_own_span_early : ∃ s, Steps.run step (init 4) earlyCollect = some s ∧ s.lines = [0] ∧
    s.stack.exitSpan innerSpan.handle ⟨3⟩ = some s.stack ∧
    ∃ stack, s.stack.exitSpan outerSpan.handle ⟨3⟩ = some stack ∧
      s.Touches outerSpan (fun raw => raw.endWith ⟨3⟩)
        (fun _ raw => (some raw.parentId).filter fun id => id ≠ default) stack := by
  obtain ⟨s, hs, hspans, hlines, hissued⟩ : ∃ s, Steps.run step (init 4) earlyCollect = some s ∧
      s.spans = [outerSpan, innerSpan] ∧ s.lines = [0] ∧ s.issued.length = 2 := ⟨_, rfl, rfl, rfl, rfl⟩
  have hreg : s.issued.length < UInt64.size := by rw [hissued]; decide
  refine ⟨s, hs, hlines, ?_, (handle_touches_own_span hs hreg (x := outerSpan) (by rw [hspans]; decide)).1 ⟨3⟩⟩
  obtain ⟨stack, hexit, htouch⟩ := (handle_touches_own_span hs hreg (x := innerSpan) (by rw [hspans]; decide)).1 ⟨3⟩
  rcases htouch with ⟨-, rfl⟩ | ⟨hhead, -⟩
  · exact hexit
  · rw [hlines] at hhead
    cases hhead

/-! ### Span line handles -/

/-- `unregister_and_collect` with the handle of the `n`-th registration pops that line and returns what it has
recorded if the line is on top; otherwise it returns `None` and leaves the stack as it is. -/
def Contained (s : Ledger) (n : Nat) (handle : SpanLineHandle) : Prop :=
  (s.lines.head? = some n → ∃ line rest, s.stack.spanLines = line :: rest ∧ s.stack.unregisterAndCollect handle =
    (some (line.spanQueue.spanQueue, line.collectToken), { s.stack with spanLines := rest })) ∧
  (s.lines.head? ≠ some n → s.stack.unregisterAndCollect handle = (none, s.stack))

/-- The line of the handle is on top, or there is none. -/
def InTurn (s : Ledger) : Call → Prop
  | .unregisterAndCollect n => s.lines.head? = some n ∨ s.stack.spanLines = []
  | _ => True

instance (s : Ledger) (c : Call) : Decidable (s.InTurn c) :=
  match c with
  | .unregisterAndCollect n => inferInstanceAs (Decidable (s.lines.head? = some n ∨ s.stack.spanLines = []))
  | .registerSpanLine _ => isTrue trivial
  | .enterSpan .. => isTrue trivial
  | .exitSpan .. => isTrue trivial
  | .addEvent .. => isTrue trivial
  | .addProperties .. => isTrue trivial
  | .withProperties .. => isTrue trivial

private theorem Inv.contained_iff {s : Ledger} (h : s.Inv) {n : Nat} {handle : SpanLineHandle}
    (hn : s.issued[n]? = some handle) : s.Contained n handle ↔ s.InTurn (.unregisterAndCollect n) := by
  cases hlines : s.stack.spanLines with
  | nil =>
    have hu : s.stack.unregisterAndCollect handle = (none, s.stack) := by
      simp only [LocalSpanStack.unregisterAndCollect, hlines]
    exact ⟨fun _ => Or.inr hlines, fun _ => ⟨fun hhead => absurd hhead (h.head_ne hlines n), fun _ => hu⟩⟩
  | cons line rest =>
    obtain ⟨m, ms, hm, hepoch⟩ := h.top hlines
    constructor
    · rintro ⟨-, hnone⟩
      left
      by_contra hne
      -- the line on top has gone
      have hu := congrArg (fun out => out.2.spanLines) (hnone hne)
      simp only [LocalSpanStack.unregisterAndCollect, hlines] at hu
      exact absurd hu (List.cons_ne_self line rest).symm
    · rintro (hhead | hnil)
      · obtain rfl : m = n := by simpa [hm] using hhead
        refine ⟨fun _ => ⟨line, rest, hlines, ?_⟩, fun hne => absurd hhead hne⟩
        simp only [LocalSpanStack.unregisterAndCollect, hlines, SpanLine.collect, SpanQueue.takeQueue,
          if_pos (hepoch.trans (h.issued m handle hn).symm)]
      · rw [hlines] at hnil
        cases hnil

/-- A call discards a line just when it is made out of turn. -/
private theorem Inv.discards_iff {s : Ledger} (h : s.Inv) {n : Nat} {handle : SpanLineHandle}
    (hn : s.issued[n]? = some handle) :
    s.discards n (s.stack.unregisterAndCollect handle).1 = [] ↔ s.InTurn (.unregisterAndCollect n) := by
  cases hlines : s.stack.spanLines with
  | nil =>
    have hhead : s.lines.head? = none := by
      cases hh : s.lines.head? with
      | none => rfl
      | some m => exact absurd hh (h.head_ne hlines m)
    simp [discards, InTurn, hhead, hlines]
  | cons line rest =>
    obtain ⟨m, ms, hm, hepoch⟩ := h.top hlines
    by_cases hmn : m = n
    · subst hmn
      have hsome : (s.stack.unregisterAndCollect handle).1.isSome = true := by
        simp only [LocalSpanStack.unregisterAndCollect, hlines, SpanLine.collect,
          if_pos (hepoch.trans (h.issued m handle hn).symm), Option.isSome_some]
      simp [discards, InTurn, hm, hsome]
    · simp [discards, InTurn, hm, hmn, hlines]

private theorem discarded_step {s s' : Ledger} {c : Call} (h : s.Inv) (hs : s.step c = some s') :
    s'.discarded = [] ↔ s.discarded = [] ∧ s.InTurn c := by
  cases c with
  | unregisterAndCollect n =>
    obtain ⟨handle, hn, rfl⟩ := Option.map_eq_some_iff.1 hs
    simp only [List.append_eq_nil_iff, h.discards_iff hn]
  | registerSpanLine collectToken =>
    simp only [step] at hs
    split at hs <;> cases hs <;> exact (and_iff_left trivial).symm
  | enterSpan id now name =>
    simp only [step] at hs
    split at hs <;> cases hs <;> exact (and_iff_left trivial).symm
  | exitSpan i now =>
    obtain ⟨x, -, hs⟩ := Option.bind_eq_some_iff.1 hs
    obtain ⟨stack, -, rfl⟩ := Option.map_eq_some_iff.1 hs
    exact (and_iff_left trivial).symm
  | addEvent id now event => cases hs; exact (and_iff_left trivial).symm
  | addProperties id properties => cases hs; exact (and_iff_left trivial).symm
  | withProperties i properties =>
    obtain ⟨x, -, hs⟩ := Option.bind_eq_some_iff.1 hs
    obtain ⟨stack, -, rfl⟩ := Option.map_eq_some_iff.1 hs
    exact (and_iff_left trivial).symm

private theorem discarded_run {s s' : Ledger} {cs : List Call} (h : s.Inv) (hs : Steps.run step s cs = some s') :
    s'.discarded = [] ↔ s.discarded = [] ∧ Steps.Meet step InTurn s cs := by
  induction cs generalizing s with
  | nil => cases hs; exact (and_iff_left trivial).symm
  | cons c cs ih =>
    obtain ⟨s₁, h₁, h₂⟩ := Option.bind_eq_some_iff.1 hs
    rw [ih (h.step h₁) h₂, discarded_step h h₁, and_assoc]
    refine and_congr_right fun _ => and_congr_right fun _ => ⟨fun hmeet s₂ hs₂ => ?_, fun hmeet => hmeet s₁ h₁⟩
    rw [h₁] at hs₂
    cases hs₂
    exact hmeet

/-- A call of `unregister_and_collect` does what it should just when the line of its handle is on top or the stack is
empty, and a run discards no line just when all its calls are so. -/
theorem unregister_contained_iff {capacity : Nat} {cs : List Call} {s : Ledger}
    (h : Steps.run step (init capacity) cs = some s) :
    (∀ n handle, s.issued[n]? = some handle →
      (s.Contained n handle ↔ s.lines.head? = some n ∨ s.stack.spanLines = [])) ∧
    (s.discarded = [] ↔ Steps.Meet step InTurn (init capacity) cs) := by
  refine ⟨fun n handle hn => (inv_of_run h).contained_iff hn, ?_⟩
  rw [discarded_run (inv_init capacity) h]
  exact and_iff_right rfl

/-- The guard of the outer line is dropped first: the inner line is lost, with the span recorded in it. -/
theorem unregister_pops_other : ∃ s : Ledger, Steps.run step (init 4)
      [.registerSpanLine none, .registerSpanLine none, .enterSpan ⟨1⟩ ⟨1⟩ "inner"] = some s ∧
    s.issued[0]? = some ⟨0⟩ ∧ s.lines = [1, 0] ∧ (s.stack.unregisterAndCollect ⟨0⟩).1 = none ∧
    (s.stack.unregisterAndCollect ⟨0⟩).2 ≠ s.stack ∧ ¬ s.Contained 0 ⟨0⟩ := by
  refine ⟨_, rfl, rfl, rfl, rfl, by decide, fun hc => ?_⟩
  exact absurd (hc.2 (by decide)) (by decide)

/-- Three lines whose guards are dropped in turn. -/
theorem unregister_contained_three : ∃ s, Steps.run step (init 4) [.registerSpanLine none, .registerSpanLine none,
      .unregisterAndCollect 1, .registerSpanLine none, .unregisterAndCollect 2, .unregisterAndCollect 0] = some s ∧
    s.discarded = [] := by
  obtain ⟨s, hs⟩ : ∃ s, Steps.run step (init 4) [.registerSpanLine none, .registerSpanLine none,
      .unregisterAndCollect 1, .registerSpanLine none, .unregisterAndCollect 2, .unregisterAndCollect 0] = some s :=
    ⟨_, rfl⟩
  exact ⟨s, hs, (unregister_contained_iff hs).2.2 (by decide)⟩

end Ledger

end Fastrace
