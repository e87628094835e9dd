import Mathlib.Data.List.Basic

/-!
# The sending side of a channel (`util/spsc.rs`)

The ring of a channel is the crate `rtrb`, a bounded FIFO queue.  A `Sender` adds to it the list of pending messages:
`send` and `force_send` first push the pending messages, last one first, then the new one; when the ring is full,
`send` gives up and discards the new message, `force_send` makes it pending.  The receiver may take messages between
any two pushes, so a call is not one step here but one step for each access to the ring (`Sender.step`); `full` is
what the access finds.
-/

namespace Fastrace

/-- Where a sender stands in `send` (`force = false`), `force_send` (`force = true`) or `drop`. -/
inductive SenderState (M : Type) where
  | idle
  /-- In the loop that pushes the pending messages. -/
  | flush (value : M) (force : Bool)
  /-- Before the push of the new message. -/
  | push (value : M) (force : Bool)
  /-- In the loop of `drop`. -/
  | drop
  | dropped
deriving DecidableEq, Repr

structure Sender (M : Type) where
  pendingMessages : List M := []
  state : SenderState M := .idle
deriving DecidableEq, Repr

/-- A sender after a step, with the message the step has pushed on the ring and the one it has discarded. -/
structure SenderStep (M : Type) where
  sender : Sender M
  pushed : Option M := none
  discarded : Option M := none

namespace Sender

variable {M : Type}

/-- The beginning of a call. -/
def call (s : Sender M) (value : M) (force : Bool) : Option (Sender M) :=
  match s.state with
  | .idle => some { s with state := .flush value force }
  | _ => none

/-- The beginning of `drop`. -/
def beginDrop (s : Sender M) : Option (Sender M) :=
  match s.state with
  | .idle => some { s with state := .drop }
  | _ => none

def step (s : Sender M) (full : Bool) : Option (SenderStep M) :=
  match s.state with
  | .idle => none
  | .flush value force =>
    match s.pendingMessages.getLast? with
    | none => some { sender := { s with state := .push value force } }
    | some last =>
      if full then
        -- the popped message is pending again; `send` returns `ChannelFull`, `force_send` leaves the loop
        if force then some { sender := { s with state := .push value force } }
        else some { sender := { s with state := .idle }, discarded := some value }
      else some { sender := { s with pendingMessages := s.pendingMessages.dropLast }, pushed := some last }
  | .push value force =>
    if full then
      if force then some { sender := { pendingMessages := s.pendingMessages ++ [value], state := .idle } }
      else some { sender := { s with state := .idle }, discarded := some value }
    else some { sender := { s with state := .idle }, pushed := some value }
  | .drop =>
    match s.pendingMessages with
    | [] => some { sender := { s with state := .dropped } }
    | command :: rest =>
      if full then some { sender := { s with pendingMessages := rest }, discarded := some command }
      else some { sender := { s with pendingMessages := rest }, pushed := some command }
  | .dropped => none

/-- The message of the running call, and whether it is a `force_send`. -/
def calling (s : Sender M) : Option (M × Bool) :=
  match s.state with
  | .flush value force => some (value, force)
  | .push value force => some (value, force)
  | _ => none

/-- The value pushed next, if the ring has room, is the oldest of the sender's. -/
def PushesOldest (s : Sender M) : Prop :=
  match s.state with
  | .flush _ _ => s.pendingMessages.length ≤ 1
  | .push _ _ => s.pendingMessages = []
  | _ => True

instance [DecidableEq M] (s : Sender M) : Decidable s.PushesOldest :=
  match h : s.state with
  | .flush _ _ => decidable_of_iff (s.pendingMessages.length ≤ 1) (by rw [PushesOldest, h])
  | .push _ _ => decidable_of_iff (s.pendingMessages = []) (by rw [PushesOldest, h])
  | .idle => isTrue (by rw [PushesOldest, h]; trivial)
  | .drop => isTrue (by rw [PushesOldest, h]; trivial)
  | .dropped => isTrue (by rw [PushesOldest, h]; trivial)

theorem call_cases {s s' : Sender M} {value : M} {force : Bool} (h : s.call value force = some s') :
    s.state = .idle ∧ s' = ⟨s.pendingMessages, .flush value force⟩ := by
  unfold call at h
  split at h
  · cases h
    exact ⟨‹_›, rfl⟩
  · cases h

theorem beginDrop_cases {s s' : Sender M} (h : s.beginDrop = some s') :
    s.state = .idle ∧ s' = ⟨s.pendingMessages, .drop⟩ := by
  unfold beginDrop at h
  split at h
  · cases h
    exact ⟨‹_›, rfl⟩
  · cases h

theorem call_eq_some {s s' : Sender M} {value : M} {force : Bool} (h : s.call value force = some s') :
    s.calling = none ∧ s'.calling = some (value, force) ∧ s'.pendingMessages = s.pendingMessages := by
  obtain ⟨hidle, rfl⟩ := call_cases h
  exact ⟨by rw [calling, hidle], rfl, rfl⟩

theorem beginDrop_eq_some {s s' : Sender M} (h : s.beginDrop = some s') :
    s.calling = none ∧ s'.calling = none ∧ s'.pendingMessages = s.pendingMessages := by
  obtain ⟨hidle, rfl⟩ := beginDrop_cases h
  exact ⟨by rw [calling, hidle], rfl, rfl⟩

/-- What the accesses to the ring do: the cases of `step`. -/
inductive Moves : Bool → Sender M → SenderStep M → Prop
  | flushed {full : Bool} {value : M} {force : Bool} :
      Moves full ⟨[], .flush value force⟩ { sender := ⟨[], .push value force⟩ }
  | pushPending {pending : List M} {last value : M} {force : Bool} :
      Moves false ⟨pending ++ [last], .flush value force⟩
        { sender := ⟨pending, .flush value force⟩, pushed := some last }
  | refuse {pending : List M} {last value : M} :
      Moves true ⟨pending ++ [last], .flush value false⟩
        { sender := ⟨pending ++ [last], .idle⟩, discarded := some value }
  | leave {pending : List M} {last value : M} :
      Moves true ⟨pending ++ [last], .flush value true⟩ { sender := ⟨pending ++ [last], .push value true⟩ }
  | pushNew {pending : List M} {value : M} {force : Bool} :
      Moves false ⟨pending, .push value force⟩ { sender := ⟨pending, .idle⟩, pushed := some value }
  | reject {pending : List M} {value : M} :
      Moves true ⟨pending, .push value false⟩ { sender := ⟨pending, .idle⟩, discarded := some value }
  | keep {pending : List M} {value : M} :
      Moves true ⟨pending, .push value true⟩ { sender := ⟨pending ++ [value], .idle⟩ }
  | dropPush {pending : List M} {command : M} :
      Moves false ⟨command :: pending, .drop⟩ { sender := ⟨pending, .drop⟩, pushed := some command }
  | dropDiscard {pending : List M} {command : M} :
      Moves true ⟨command :: pending, .drop⟩ { sender := ⟨pending, .drop⟩, discarded := some command }
  | dropped {full : Bool} : Moves full ⟨[], .drop⟩ { sender := ⟨[], .dropped⟩ }

theorem moves_of_step {s : Sender M} {full : Bool} {e : SenderStep M} (h : s.step full = some e) :
    Moves full s e := by
  obtain ⟨pending, state⟩ := s
  cases state with
  | idle => cases h
  | dropped => cases h
  | flush value force =>
    rcases List.eq_nil_or_concat pending with rfl | ⟨pending, last, rfl⟩
    · cases h
      exact .flushed
    · simp only [step, List.concat_eq_append, List.getLast?_concat, List.dropLast_concat] at h ⊢
      cases full <;> cases force <;> cases h
      · exact .pushPending
      · exact .pushPending
      · exact .refuse
      · exact .leave
  | push value force =>
    cases full <;> cases force <;> cases h
    · exact .pushNew
    · exact .pushNew
    · exact .reject
    · exact .keep
  | drop =>
    cases pending with
    | nil => cases h; exact .dropped
    | cons command pending =>
      cases full <;> cases h
      · exact .dropPush
      · exact .dropDiscard

/-- A step goes on with the running call or ends it; what becomes pending is the message of a `force_send` that ends,
and a pushed message was pending or is that of the call that ends. -/
theorem step_spec {s : Sender M} {full : Bool} {e : SenderStep M} (h : s.step full = some e) :
    (e.sender.calling = s.calling ∨ e.sender.calling = none) ∧
      (∀ m ∈ e.sender.pendingMessages,
        m ∈ s.pendingMessages ∨ s.calling = some (m, true) ∧ e.sender.calling = none) ∧
      ∀ m, e.pushed = some m →
        m ∈ s.pendingMessages ∨ (∃ force, s.calling = some (m, force)) ∧ e.sender.calling = none := by
  cases moves_of_step h with
  | flushed => exact ⟨Or.inl rfl, fun m hm => Or.inl hm, fun m hm => by cases hm⟩
  | pushPending =>
    exact ⟨Or.inl rfl, fun m hm => Or.inl (List.mem_append_left _ hm),
      fun m hm => by cases hm; exact Or.inl (List.mem_append_right _ (List.mem_singleton_self _))⟩
  | refuse => exact ⟨Or.inr rfl, fun m hm => Or.inl hm, fun m hm => by cases hm⟩
  | leave => exact ⟨Or.inl rfl, fun m hm => Or.inl hm, fun m hm => by cases hm⟩
  | pushNew => exact ⟨Or.inr rfl, fun m hm => Or.inl hm, fun m hm => by cases hm; exact Or.inr ⟨⟨_, rfl⟩, rfl⟩⟩
  | reject => exact ⟨Or.inr rfl, fun m hm => Or.inl hm, fun m hm => by cases hm⟩
  | keep =>
    refine ⟨Or.inr rfl, fun m hm => ?_, fun m hm => by cases hm⟩
    rcases List.mem_append.1 hm with hm | hm
    · exact Or.inl hm
    · exact Or.inr ⟨by rw [List.mem_singleton.1 hm]; rfl, rfl⟩
  | dropPush =>
    exact ⟨Or.inl rfl, fun m hm => Or.inl (List.mem_cons_of_mem _ hm),
      fun m hm => by cases hm; exact Or.inl (List.mem_cons_self ..)⟩
  | dropDiscard => exact ⟨Or.inl rfl, fun m hm => Or.inl (List.mem_cons_of_mem _ hm), fun m hm => by cases hm⟩
  | dropped => exact ⟨Or.inl rfl, fun m hm => Or.inl hm, fun m hm => by cases hm⟩

end Sender

end Fastrace
