import Fastrace.SenderReceiver

/-!
# The end of a thread (`util/spsc.rs`)

When a thread ends, its sender is dropped: `drop` pushes each pending message once and discards those for which the
ring has no room.  So the values of `force_send` are all received if and only if every push of `drop` finds room
(`forced_received_iff`), which is so if they fit when `drop` begins (`room_iff_fits`).

`try_recv` looks at the channel twice: it pops, and where the ring was empty it asks if the ring is abandoned.  Here
these are two steps (`Receiving`).  Between them the sender may push its last messages and go; then the channel counts
as closed, and the receiver is given up, with these messages in the ring.  If the sender does not go just then with
messages in the ring, a closed channel is empty (`closed_of_meet`).
-/

namespace Fastrace

namespace SenderReceiver

variable {M : Type} {c c' : SenderReceiver M}

/-! ### What `drop` discards -/

/-- Where `drop` pushes, the ring has room. -/
def RoomForDrop (c : SenderReceiver M) (a : Action M) : Prop :=
  a = .push → c.sender.state = .drop → c.sender.pendingMessages ≠ [] → c.full = false

instance [DecidableEq M] (c : SenderReceiver M) (a : Action M) : Decidable (c.RoomForDrop a) :=
  inferInstanceAs (Decidable (a = .push → _))

/-- A step discards nothing exactly if it is not a push of `drop` on a full ring. -/
private theorem dropLost_eq_nil_iff {e : SenderStep (Numbered M)} (he : Sender.Moves c.full c.sender e) :
    dropLost c.sender e = [] ↔ c.RoomForDrop .push := by
  unfold RoomForDrop
  generalize c.full = full at he ⊢
  generalize c.sender = sender at he ⊢
  cases he with
  | dropDiscard => simp [dropLost, Sender.calling]
  | dropPush => simp [dropLost, Sender.calling]
  | _ => simp [dropLost, Sender.calling]

private theorem lost_step {a : Action M} (h : c.step a = some c') : c'.lost = [] ↔ c.lost = [] ∧ c.RoomForDrop a := by
  by_cases ha : a = .push
  · subst ha
    obtain ⟨e, he, rfl⟩ := Option.map_eq_some_iff.1 h
    rw [← dropLost_eq_nil_iff (Sender.moves_of_step he)]
    exact List.append_eq_nil_iff
  · have hroom : c.RoomForDrop a := fun h => absurd h ha
    have hlost : c'.lost = c.lost := by
      rcases step_cases h with ⟨value, force, hc⟩ | ⟨-, rfl⟩ | ⟨rfl, -⟩ | rfl | ⟨value, ring, -, rfl⟩
      · obtain ⟨-, rfl⟩ := call_eq_some hc
        rfl
      · rfl
      · exact absurd rfl ha
      · rfl
      · rfl
    rw [hlost]
    simp [hroom]

private theorem lost_eq_nil_iff {as : List (Action M)} (h : Steps.run step c as = some c') :
    c'.lost = [] ↔ c.lost = [] ∧ Steps.Meet step RoomForDrop c as := by
  induction as generalizing c with
  | nil =>
    cases h
    simp [Steps.Meet]
  | cons a as ih =>
    obtain ⟨c₁, h₁, h₂⟩ := Option.bind_eq_some_iff.1 h
    rw [ih h₂, lost_step h₁, and_assoc]
    simp [Steps.Meet, h₁]

/-! ### The values of `force_send` -/

/-- What is pending, or discarded by `drop`, are values of `force_send`. -/
def Forced (c : SenderReceiver M) : Prop := ∀ x ∈ c.sender.pendingMessages ++ c.lost, x ∈ c.returned .forced

private theorem returned_afterPush {e : SenderStep (Numbered M)} {o : SendOutcome} {x : Numbered M}
    (h : x ∈ c.returned o) : x ∈ (c.afterPush e).returned o := by
  unfold returned at h ⊢
  simp only [afterPush, List.filter_append, List.map_append]
  exact List.mem_append_left _ h

private theorem Forced.push {e : SenderStep (Numbered M)} (h : c.Forced) (he : Sender.Moves c.full c.sender e) :
    (c.afterPush e).Forced := by
  have hcases : ∀ x ∈ e.sender.pendingMessages ++ dropLost c.sender e,
      x ∈ c.sender.pendingMessages ∨ outcome c.sender e = some (x, .forced) := by
    generalize c.full = full at he
    generalize c.sender = sender at he ⊢
    intro x hx
    cases he with
    | @keep pending value =>
      have hx : x ∈ pending ∨ x = value := by simpa [dropLost, Sender.calling] using hx
      rcases hx with hx | rfl
      · exact .inl hx
      · exact .inr rfl
    | dropDiscard =>
      left
      simp only [dropLost, Sender.calling, List.mem_append] at hx
      rcases hx with hx | hx
      · exact List.mem_cons_of_mem _ hx
      · simp_all
    | pushPending =>
      left
      simp_all [dropLost, Sender.calling]
    | _ => simp_all [dropLost, Sender.calling]
  intro x hx
  have hx : x ∈ c.lost ∨ x ∈ e.sender.pendingMessages ++ dropLost c.sender e := by
    simp only [afterPush, List.mem_append] at hx ⊢
    tauto
  rcases hx with hx | hx
  · exact returned_afterPush (h x (List.mem_append_right _ hx))
  · rcases hcases x hx with hx | hx
    · exact returned_afterPush (h x (List.mem_append_left _ hx))
    · simp [returned, afterPush, hx]

private theorem forced_of_run {capacity : Nat} {as : List (Action M)}
    (h : Steps.run step (bounded capacity) as = some c) : c.Forced := by
  refine Steps.run_induction (P := Forced) ?_ (by simp [Forced, bounded]) h
  intro c a c' ih hs
  rcases step_cases hs with ⟨value, force, hc⟩ | ⟨-, rfl⟩ | ⟨-, e, he, rfl⟩ | rfl | ⟨value, ring, -, rfl⟩
  · obtain ⟨-, rfl⟩ := call_eq_some hc
    exact ih
  · exact ih
  · exact ih.push he
  · exact ih
  · exact ih

/-- A dropped sender keeps nothing back. -/
private theorem pending_of_dropped {capacity : Nat} {as : List (Action M)}
    (h : Steps.run step (bounded capacity) as = some c) (hdropped : c.sender.state = .dropped) :
    c.sender.pendingMessages = [] := by
  suffices hempty : c.sender.state = .dropped → c.sender.pendingMessages = [] from hempty hdropped
  refine Steps.run_induction (P := fun c => c.sender.state = .dropped → c.sender.pendingMessages = []) ?_ ?_ h
  · intro c a c' ih hs
    rcases step_cases hs with ⟨value, force, hc⟩ | ⟨-, rfl⟩ | ⟨-, e, he, rfl⟩ | rfl | ⟨value, ring, -, rfl⟩
    · obtain ⟨-, rfl⟩ := call_eq_some hc
      intro hstate
      cases hstate
    · intro hstate
      cases hstate
    · simp only [afterPush]
      generalize c.full = full at he
      generalize c.sender = sender at he
      cases he <;> simp
    · exact ih
    · exact ih
  · intro hstate
    cases hstate

/-- The receiver of a dropped sender finds the channel closed once it has received what is in the ring. -/
private theorem run_until_closed (hdropped : c.sender.state = .dropped) :
    ∃ c', Steps.run step c (List.replicate c.ring.length .tryRecv) = some c' ∧ c'.tryRecv.1 = .error ⟨⟩ ∧
      c'.received = c.received ++ c.ring := by
  obtain ⟨sender, ring, capacity, sent, returns, received, lost⟩ := c
  induction ring generalizing received with
  | nil =>
    refine ⟨_, rfl, ?_, by simp⟩
    have hstate : sender.state = .dropped := hdropped
    simp only [tryRecv, hstate]
  | cons value ring ih =>
    obtain ⟨c', hrun, hclosed, hreceived⟩ := ih (received ++ [value]) hdropped
    refine ⟨c', ?_, hclosed, ?_⟩
    · exact hrun
    · rw [hreceived, List.append_assoc]
      rfl

/-- The receiver that goes on with calls of `try_recv` that begin after the sender is dropped, until the channel is
closed, has received every value of `force_send` if and only if all pushes of `drop` have found room. -/
theorem forced_received_iff {capacity : Nat} {as : List (Action M)}
    (h : Steps.run step (bounded capacity) as = some c) (hdropped : c.sender.state = .dropped) :
    ∃ c', Steps.run step c (List.replicate c.ring.length .tryRecv) = some c' ∧ c'.tryRecv.1 = .error ⟨⟩ ∧
      ((∀ x ∈ c.returned .forced, x ∈ c'.received) ↔ Steps.Meet step RoomForDrop (bounded capacity) as) := by
  obtain ⟨c', hrun, hclosed, hreceived⟩ := run_until_closed hdropped
  refine ⟨c', hrun, hclosed, ?_⟩
  have hwf := wf_of_run h
  have hlost : c.lost = [] ↔ Steps.Meet step RoomForDrop (bounded capacity) as := by
    rw [lost_eq_nil_iff h]
    simp [bounded]
  have hconserved := hwf.conserved
  rw [pending_of_dropped h hdropped, List.append_nil, ← hreceived] at hconserved
  rw [← hlost]
  constructor
  · intro hall
    -- a lost value would be received as well, and it is accepted only once
    rw [List.eq_nil_iff_forall_not_mem]
    intro x hx
    have hnodup : (c'.received ++ c.lost).Nodup :=
      hconserved.nodup_iff.mpr (hwf.nodup_returns.sublist (List.filter_sublist.map _))
    have hforced : x ∈ c.returned .forced := forced_of_run h x (List.mem_append_right _ hx)
    exact List.disjoint_of_nodup_append hnodup (hall x hforced) hx
  · intro hnone x hx
    rw [hnone, List.append_nil] at hconserved
    have haccepted : x ∈ accepted c.returns :=
      (accepted_perm c).mem_iff.mpr (List.mem_append_left _ hx)
    exact hconserved.mem_iff.mpr haccepted

private theorem ring_le_capacity {capacity : Nat} {as : List (Action M)}
    (h : Steps.run step (bounded capacity) as = some c) : c.ring.length ≤ c.capacity := by
  refine Steps.run_induction (P := fun c => c.ring.length ≤ c.capacity) ?_ (Nat.zero_le _) h
  intro c a c' ih hs
  rcases step_cases hs with ⟨value, force, hc⟩ | ⟨-, rfl⟩ | ⟨-, e, he, rfl⟩ | rfl | ⟨value, ring, hring, rfl⟩
  · obtain ⟨-, rfl⟩ := call_eq_some hc
    exact ih
  · exact ih
  · have hpushed : e.pushed = none ∨ c.full = false := by
      generalize c.full = full at he ⊢
      generalize c.sender = sender at he
      cases he <;> simp
    rcases hpushed with hpushed | hfull
    · simpa [afterPush, hpushed] using ih
    · have hroom : c.ring.length < c.capacity := by simpa [full] using hfull
      have hone : e.pushed.toList.length ≤ 1 := by cases e.pushed <;> simp
      simp only [afterPush, List.length_append]
      omega
  · exact ih
  · rw [hring, List.length_cons] at ih
    show ring.length ≤ c.capacity
    omega

private theorem room_of_dropping {pending : List (Numbered M)} (hsender : c.sender = ⟨pending, .drop⟩)
    (hring : c.ring.length ≤ c.capacity) :
    Steps.Meet step RoomForDrop c (List.replicate pending.length .push) ↔
      c.ring.length + pending.length ≤ c.capacity := by
  induction pending generalizing c with
  | nil => simpa [Steps.Meet] using hring
  | cons command pending ih =>
    rw [List.length_cons, List.replicate_succ, Steps.Meet]
    have hroom : c.RoomForDrop .push ↔ c.ring.length < c.capacity := by
      simp [RoomForDrop, hsender, full]
    rw [hroom]
    by_cases hlt : c.ring.length < c.capacity
    · have hfull : c.full = false := by simpa [full] using hlt
      have hpush : c.step .push =
          some (c.afterPush { sender := ⟨pending, .drop⟩, pushed := some command }) := by
        simp [step, hsender, hfull, Sender.step]
      have hring' : (c.ring ++ [command]).length ≤ c.capacity := by
        rw [List.length_append, List.length_singleton]
        omega
      have hnext := ih (c := c.afterPush { sender := ⟨pending, .drop⟩, pushed := some command }) rfl hring'
      simp only [hpush, Option.some.injEq, forall_eq', hlt, true_and, hnext]
      simp only [afterPush, Option.toList_some, List.length_append, List.length_singleton]
      omega
    · simp only [hlt, false_and, false_iff]
      omega

/-- When the receiver does not run meanwhile, `drop` finds room if and only if the pending messages fit into the ring
when it begins. -/
theorem room_iff_fits {capacity : Nat} {as : List (Action M)} (h : Steps.run step (bounded capacity) as = some c)
    (hidle : c.sender.state = .idle) :
    Steps.Meet step RoomForDrop c (.dropSender :: List.replicate c.sender.pendingMessages.length .push) ↔
      c.ring.length + c.sender.pendingMessages.length ≤ capacity := by
  have hbegin : c.step .dropSender = some { c with sender := ⟨c.sender.pendingMessages, .drop⟩ } := by
    simp [step, Sender.beginDrop, hidle]
  have hfirst : c.RoomForDrop .dropSender := by
    intro hpush
    cases hpush
  have hring := ring_le_capacity h
  rw [Steps.Meet, hbegin, ← capacity_of_run h]
  simp only [hfirst, true_and, Option.some.injEq, forall_eq']
  exact room_of_dropping (c := { c with sender := ⟨c.sender.pendingMessages, .drop⟩ }) rfl hring

/-- On a ring with one place: the second value waits until the first is received. -/
def receivedBeforeExit : List (Action Nat) :=
  [.forceSend 1, .push, .push, .forceSend 2, .push, .push, .tryRecv, .dropSender, .push, .push]

theorem forced_received_two : ∃ c c' : SenderReceiver Nat,
    Steps.run step (bounded 1) receivedBeforeExit = some c ∧
      Steps.run step c [.tryRecv] = some c' ∧ ∀ x ∈ c.returned .forced, x ∈ c'.received := by
  obtain ⟨c, hc, hdropped, hring⟩ : ∃ c : SenderReceiver Nat,
      Steps.run step (bounded 1) receivedBeforeExit = some c ∧ c.sender.state = .dropped ∧ c.ring.length = 1 :=
    ⟨_, rfl, rfl, rfl⟩
  obtain ⟨c', hrun, -, hiff⟩ := forced_received_iff hc hdropped
  rw [hring] at hrun
  exact ⟨c, c', hc, hrun, hiff.mpr (by decide)⟩

/-- As before, but nothing is received before the thread ends. -/
def lostAtExit : List (Action Nat) :=
  [.forceSend 1, .push, .push, .forceSend 2, .push, .push, .dropSender, .push, .push, .tryRecv]

theorem forced_lost : ∃ c : SenderReceiver Nat, Steps.run step (bounded 1) lostAtExit = some c ∧
    c.tryRecv.1 = .error ⟨⟩ ∧ c.returned .forced = [⟨0, 1⟩, ⟨1, 2⟩] ∧ c.received = [⟨0, 1⟩] :=
  ⟨_, rfl, rfl, rfl, rfl⟩

end SenderReceiver

/-! ### The two observations of `try_recv` -/

/-- A channel with the receiver as `handle_commands` uses it. -/
structure Receiving (M : Type) where
  channel : SenderReceiver M
  /-- Inside `try_recv`, after a pop that has found the ring empty. -/
  popped : Bool
  /-- The receiver is in `SPSC_RXS`. -/
  registered : Bool
deriving DecidableEq, Repr

namespace Receiving

variable {M : Type} {s s' : Receiving M}

def init (capacity : Nat) : Receiving M where
  channel := .bounded capacity
  popped := false
  registered := true

/-- The steps of the sender, and the two observations of the receiver. -/
inductive Action (M : Type) where
  | send (value : M)
  | forceSend (value : M)
  | dropSender
  | push
  | pop
  | check
deriving DecidableEq, Repr

def isAbandoned (c : SenderReceiver M) : Bool :=
  match c.sender.state with
  | .dropped => true
  | _ => false

/-- The first observation of `try_recv`; where it finds a message, `try_recv` returns it. -/
def pop (s : Receiving M) : Option (Receiving M) :=
  if s.registered && !s.popped then
    match s.channel.ring with
    | value :: ring =>
      some { s with channel := { s.channel with ring := ring, received := s.channel.received ++ [value] } }
    | [] => some { s with popped := true }
  else
    none

/-- The second observation, with what `try_recv` returns; a receiver that finds the channel closed is not retained. -/
def check (s : Receiving M) : Option (Except ChannelClosed (Option (Numbered M)) × Receiving M) :=
  if s.popped then
    if isAbandoned s.channel then
      some (.error ⟨⟩, { s with popped := false, registered := false })
    else
      some (.ok none, { s with popped := false })
  else
    none

def step (s : Receiving M) : Action M → Option (Receiving M)
  | .send value => (s.channel.step (.send value)).map fun channel => { s with channel := channel }
  | .forceSend value => (s.channel.step (.forceSend value)).map fun channel => { s with channel := channel }
  | .dropSender => (s.channel.step .dropSender).map fun channel => { s with channel := channel }
  | .push => (s.channel.step .push).map fun channel => { s with channel := channel }
  | .pop => s.pop
  | .check => s.check.map Prod.snd

/-- The cases of `step`. -/
inductive Moves (s : Receiving M) : Action M → Receiving M → Prop
  | call {a : Action M} {channel : SenderReceiver M} (hlive : s.channel.sender.state = .idle)
      (hstate : channel.sender.state ≠ .dropped) {a' : SenderReceiver.Action M}
      (hstep : s.channel.step a' = some channel) : Moves s a { s with channel := channel }
  | push {e : SenderStep (Numbered M)} (he : Sender.Moves s.channel.full s.channel.sender e)
      (hstep : s.channel.step .push = some (s.channel.afterPush e)) :
      Moves s .push { s with channel := s.channel.afterPush e }
  | received {value : Numbered M} {ring : List (Numbered M)} (hregistered : s.registered = true)
      (hpopped : s.popped = false) (hring : s.channel.ring = value :: ring) :
      Moves s .pop
        { s with channel := { s.channel with ring := ring, received := s.channel.received ++ [value] } }
  | empty (hregistered : s.registered = true) (hpopped : s.popped = false) (hring : s.channel.ring = []) :
      Moves s .pop { s with popped := true }
  | closed (hpopped : s.popped = true) (habandoned : s.channel.sender.state = .dropped) :
      Moves s .check { s with popped := false, registered := false }
  | retained (hpopped : s.popped = true) (hlive : s.channel.sender.state ≠ .dropped) :
      Moves s .check { s with popped := false }

private theorem isAbandoned_iff {c : SenderReceiver M} : isAbandoned c = true ↔ c.sender.state = .dropped := by
  unfold isAbandoned
  cases c.sender.state <;> simp

private theorem moves_of_call {c : SenderReceiver M} {value : M} {force : Bool} {a : Action M}
    {a' : SenderReceiver.Action M} (hc : s.channel.call value force = some c)
    (hstep : s.channel.step a' = some c) : s.Moves a { s with channel := c } := by
  obtain ⟨hidle, rfl⟩ := SenderReceiver.call_eq_some hc
  exact .call hidle (by simp) hstep

private theorem moves_of_step {a : Action M} (h : s.step a = some s') : s.Moves a s' := by
  cases a with
  | send value =>
    obtain ⟨c, hc, rfl⟩ := Option.map_eq_some_iff.1 h
    have hcall : s.channel.call value false = some c := hc
    exact moves_of_call hcall hc
  | forceSend value =>
    obtain ⟨c, hc, rfl⟩ := Option.map_eq_some_iff.1 h
    have hcall : s.channel.call value true = some c := hc
    exact moves_of_call hcall hc
  | dropSender =>
    obtain ⟨c, hc, rfl⟩ := Option.map_eq_some_iff.1 h
    obtain ⟨sender, hsender, rfl⟩ := Option.map_eq_some_iff.1 hc
    obtain ⟨hidle, rfl⟩ := Sender.beginDrop_cases hsender
    exact .call hidle (by simp) hc
  | push =>
    obtain ⟨c, hc, rfl⟩ := Option.map_eq_some_iff.1 h
    obtain ⟨e, he, rfl⟩ := Option.map_eq_some_iff.1 hc
    exact .push (Sender.moves_of_step he) hc
  | pop =>
    simp only [step, pop] at h
    split at h
    · next hready =>
      obtain ⟨hregistered, hpopped⟩ : s.registered = true ∧ s.popped = false := by simpa using hready
      split at h
      · next value ring hring =>
        cases h
        exact .received hregistered hpopped hring
      · next hring =>
        cases h
        exact .empty hregistered hpopped hring
    · cases h
  | check =>
    simp only [step, check] at h
    split at h
    · next hpopped =>
      split at h
      · next habandoned =>
        cases h
        exact .closed hpopped (isAbandoned_iff.mp habandoned)
      · next hlive =>
        cases h
        exact .retained hpopped (fun hdropped => hlive (isAbandoned_iff.mpr hdropped))
    · cases h

/-- The channel of a run is that of a run in which `try_recv` is one step. -/
private theorem channel_of_run {capacity : Nat} {as : List (Action M)}
    (h : Steps.run step (init capacity) as = some s) :
    ∃ as', Steps.run SenderReceiver.step (.bounded capacity) as' = some s.channel := by
  refine Steps.run_induction
    (P := fun s => ∃ as', Steps.run SenderReceiver.step (.bounded capacity) as' = some s.channel) ?_ ⟨[], rfl⟩ h
  intro s a s' ih hs
  obtain ⟨as', has'⟩ := ih
  cases moves_of_step hs with
  | call hlive hstate hstep => exact ⟨_, Steps.run_step has' hstep⟩
  | push he hstep => exact ⟨_, Steps.run_step has' hstep⟩
  | received hregistered hpopped hring =>
    refine ⟨_, Steps.run_step has' (a := .tryRecv) ?_⟩
    simp only [SenderReceiver.step, SenderReceiver.tryRecv, hring]
  | empty hregistered hpopped hring => exact ⟨as', has'⟩
  | closed hpopped habandoned => exact ⟨as', has'⟩
  | retained hpopped hlive => exact ⟨as', has'⟩

/-- Between the two observations the sender does not go with messages in the ring. -/
def LeavesNothing (s : Receiving M) (a : Action M) : Prop :=
  a = .push → s.channel.sender.state = .drop → s.channel.sender.pendingMessages = [] → s.popped = true →
    s.channel.ring = []

instance [DecidableEq M] (s : Receiving M) (a : Action M) : Decidable (s.LeavesNothing a) :=
  inferInstanceAs (Decidable (a = .push → _))

structure ClosedEmpty (s : Receiving M) : Prop where
  popped : s.popped = true → s.channel.sender.state = .dropped → s.channel.ring = []
  unregistered : s.registered = false → s.channel.sender.state = .dropped ∧ s.channel.ring = []

/-- The only step that abandons the ring. -/
private theorem abandons {full : Bool} {sender : Sender (Numbered M)} {e : SenderStep (Numbered M)}
    (he : Sender.Moves full sender e) (hdropped : e.sender.state = .dropped) :
    sender.state = .drop ∧ sender.pendingMessages = [] ∧ e.pushed = none := by
  cases he <;> simp_all

theorem ClosedEmpty.step {a : Action M} (h : s.ClosedEmpty) (ha : s.LeavesNothing a) (hs : s.step a = some s') :
    s'.ClosedEmpty := by
  cases moves_of_step hs with
  | @call a channel hlive hstate a' hstep =>
    constructor
    · intro _ hdropped
      exact absurd hdropped hstate
    · intro hunregistered
      rw [(h.unregistered hunregistered).1] at hlive
      cases hlive
  | @push e he hstep =>
    have hring : e.sender.state = .dropped → s.popped = true → s.channel.ring ++ e.pushed.toList = [] := by
      intro hdropped hpopped
      obtain ⟨hdrop, hpending, hpushed⟩ := abandons he hdropped
      rw [ha rfl hdrop hpending hpopped, hpushed]
      rfl
    constructor
    · intro hpopped hdropped
      exact hring hdropped hpopped
    · intro hunregistered
      -- a dropped sender makes no step
      have hdropped := (h.unregistered hunregistered).1
      revert hdropped
      generalize s.channel.full = full at he
      generalize s.channel.sender = sender at he
      cases he <;> simp
  | received hregistered hpopped hring =>
    constructor
    · intro hp
      exact absurd hp (by simp [hpopped])
    · intro hunregistered
      exact absurd hunregistered (by simp [hregistered])
  | empty hregistered hpopped hring =>
    constructor
    · intro _ _
      exact hring
    · intro hunregistered
      exact absurd hunregistered (by simp [hregistered])
  | closed hpopped habandoned =>
    constructor
    · intro hp
      cases hp
    · intro _
      exact ⟨habandoned, h.popped hpopped habandoned⟩
  | retained hpopped hlive =>
    constructor
    · intro hp
      cases hp
    · exact h.unregistered

private theorem check_eq_closed {r : Receiving M} (h : s.check = some (.error ⟨⟩, r)) :
    s.popped = true ∧ s.channel.sender.state = .dropped := by
  unfold check at h
  split at h
  · next hpopped =>
    split at h
    · next habandoned => exact ⟨hpopped, isAbandoned_iff.mp habandoned⟩
    · cases h
  · cases h

/-- In a run in which the sender does not go between the two observations of `try_recv` with messages in the ring,
`try_recv` finds the channel closed only when the ring is empty, and a receiver that is given up has received all that
has been pushed. -/
theorem closed_of_meet {capacity : Nat} {as : List (Action M)}
    (hmeet : Steps.Meet step LeavesNothing (init capacity) as) (h : Steps.run step (init capacity) as = some s) :
    (∀ r, s.check = some (.error ⟨⟩, r) → s.channel.ring = []) ∧
      (s.registered = false → s.channel.ring = [] ∧
        (s.channel.received ++ s.channel.lost).Perm (SenderReceiver.accepted s.channel.returns)) := by
  have hinit : ClosedEmpty (init (M := M) capacity) := by
    constructor
    · intro hp
      cases hp
    · intro hunregistered
      cases hunregistered
  have hclosed : s.ClosedEmpty := Steps.meet_induction (fun _ _ _ => ClosedEmpty.step) hinit hmeet h
  constructor
  · intro r hr
    obtain ⟨hpopped, hdropped⟩ := check_eq_closed hr
    exact hclosed.popped hpopped hdropped
  · intro hunregistered
    obtain ⟨hdropped, hring⟩ := hclosed.unregistered hunregistered
    obtain ⟨as', has'⟩ := channel_of_run h
    have hconserved := (SenderReceiver.wf_of_run has').conserved
    rw [hring, SenderReceiver.pending_of_dropped has' hdropped, List.append_nil, List.append_nil] at hconserved
    exact ⟨hring, hconserved⟩

/-- If the sender does go so, what is in the ring then is given up with it by the next observation. -/
theorem closed_of_not_leavesNothing {a : Action M} (ha : ¬ s.LeavesNothing a) (hs : s.step a = some s') :
    ∃ r, s'.check = some (.error ⟨⟩, r) ∧ r.registered = false ∧ r.channel.ring = s.channel.ring ∧
      s.channel.ring ≠ [] := by
  simp only [LeavesNothing, Classical.not_imp] at ha
  obtain ⟨rfl, hdrop, hpending, hpopped, hring⟩ := ha
  have hstep : s.step .push = some { s with channel := s.channel.afterPush { sender := ⟨[], .dropped⟩ } } := by
    simp [step, SenderReceiver.step, Sender.step, hdrop, hpending]
  rw [hstep] at hs
  obtain rfl := Option.some.inj hs
  refine ⟨{ s with channel := s.channel.afterPush { sender := ⟨[], .dropped⟩ }, popped := false, registered := false },
    ?_, rfl, ?_, hring⟩
  · simp [check, hpopped, isAbandoned, SenderReceiver.afterPush]
  · simp [SenderReceiver.afterPush]

/-- The receiver finds the ring empty before the message, and abandoned after it. -/
def betweenObservations : List (Action Nat) := [.pop, .forceSend 1, .push, .push, .dropSender, .push, .check]

theorem closed_with_message : ∃ s : Receiving Nat, Steps.run step (init 1) betweenObservations = some s ∧
    s.registered = false ∧ s.channel.ring = [⟨0, 1⟩] ∧ s.channel.returned .forced = [⟨0, 1⟩] :=
  ⟨_, rfl, rfl, rfl, rfl⟩

/-- The first `try_recv` ends before the message is sent, and the second finds it. -/
def afterwards : List (Action Nat) :=
  [.pop, .check, .forceSend 1, .push, .push, .dropSender, .push, .pop, .pop, .check]

theorem closed_empty : ∃ s : Receiving Nat, Steps.run step (init 1) afterwards = some s ∧ s.registered = false ∧
    s.channel.ring = [] ∧ (s.channel.received ++ s.channel.lost).Perm (SenderReceiver.accepted s.channel.returns) := by
  obtain ⟨s, hs, hunregistered⟩ : ∃ s : Receiving Nat,
      Steps.run step (init 1) afterwards = some s ∧ s.registered = false := ⟨_, rfl, rfl⟩
  have hmeet : Steps.Meet step LeavesNothing (init (M := Nat) 1) afterwards := by decide
  exact ⟨s, hs, hunregistered, (closed_of_meet hmeet hs).2 hunregistered⟩

end Receiving

end Fastrace
