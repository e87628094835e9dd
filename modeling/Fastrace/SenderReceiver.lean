import Fastrace.Spsc
import Fastrace.Steps
import Mathlib.Data.List.Nodup

/-!
# One sender and its receiver (`util/spsc.rs`)

`spsc::bounded` makes a sender and a receiver on one ring.  The steps of the pair are the beginnings of the calls, the
accesses of the sender to the ring, and `try_recv`, which may run between any two of them.

Between two calls nothing is lost or duplicated (`nothing_lost`).  The order is another matter.  Messages are received
in the order of the pushes, and `send` and `force_send` do not push in the order of sending: of several pending
messages they push the newest first, and `force_send` may push its own message past the pending ones when the receiver
has made room meanwhile.  If neither happens, what is received is in order (`received_in_order`), and if either does,
the receiver can come to see it (`exists_reordered`).
-/

namespace Fastrace

/-- A value passed to a sender, and the number of values passed before it; nothing in the channel reads the number. -/
structure Numbered (M : Type) where
  number : Nat
  value : M
deriving DecidableEq, Repr

/-- How a call of the sender ends: `force_send` returns nothing, `send` a result. -/
inductive SendOutcome where
  | forced
  | ok
  | channelFull
deriving DecidableEq, Repr

structure ChannelClosed where
deriving DecidableEq, Repr

structure SenderReceiver (M : Type) where
  sender : Sender (Numbered M)
  /-- The ring of `rtrb`, oldest message first. -/
  ring : List (Numbered M)
  capacity : Nat
  /-- The values passed to `send` and `force_send`. -/
  sent : List (Numbered M)
  /-- The calls that have returned. -/
  returns : List (Numbered M × SendOutcome)
  received : List (Numbered M)
  /-- The messages that a full ring made `drop` discard. -/
  lost : List (Numbered M)
deriving DecidableEq, Repr

namespace SenderReceiver

variable {M : Type}

def bounded (capacity : Nat) : SenderReceiver M where
  sender := {}
  ring := []
  capacity := capacity
  sent := []
  returns := []
  received := []
  lost := []

inductive Action (M : Type) where
  | send (value : M)
  | forceSend (value : M)
  | dropSender
  /-- The next access of the sender to the ring. -/
  | push
  | tryRecv
deriving DecidableEq, Repr

def call (c : SenderReceiver M) (value : M) (force : Bool) : Option (SenderReceiver M) :=
  (c.sender.call ⟨c.sent.length, value⟩ force).map fun sender =>
    { c with sender := sender, sent := c.sent ++ [⟨c.sent.length, value⟩] }

/-- `try_recv`, which finds the ring abandoned when the sender has been dropped. -/
def tryRecv (c : SenderReceiver M) : Except ChannelClosed (Option (Numbered M)) × SenderReceiver M :=
  match c.ring with
  | value :: ring => (.ok (some value), { c with ring := ring, received := c.received ++ [value] })
  | [] =>
    match c.sender.state with
    | .dropped => (.error ⟨⟩, c)
    | _ => (.ok none, c)

def full (c : SenderReceiver M) : Bool := decide (c.capacity ≤ c.ring.length)

/-- The outcome of the call that ends with a step of the sender. -/
def outcome (before : Sender (Numbered M)) (e : SenderStep (Numbered M)) : Option (Numbered M × SendOutcome) :=
  match before.calling, e.sender.calling with
  | some (value, force), none =>
    some (value, if force then .forced else if e.discarded.isSome then .channelFull else .ok)
  | _, _ => none

/-- The messages that `drop` discards in a step. -/
def dropLost (before : Sender (Numbered M)) (e : SenderStep (Numbered M)) : List (Numbered M) :=
  if before.calling.isSome then [] else e.discarded.toList

def afterPush (c : SenderReceiver M) (e : SenderStep (Numbered M)) : SenderReceiver M :=
  { c with
    sender := e.sender
    ring := c.ring ++ e.pushed.toList
    returns := c.returns ++ (outcome c.sender e).toList
    lost := c.lost ++ dropLost c.sender e }

def step (c : SenderReceiver M) : Action M → Option (SenderReceiver M)
  | .send value => c.call value false
  | .forceSend value => c.call value true
  | .dropSender => c.sender.beginDrop.map fun sender => { c with sender := sender }
  | .push => (c.sender.step c.full).map c.afterPush
  | .tryRecv => some c.tryRecv.2

/-- The values of the calls with the outcome `o`. -/
def returned (c : SenderReceiver M) (o : SendOutcome) : List (Numbered M) :=
  (c.returns.filter fun r => r.2 = o).map Prod.fst

/-! ### What a step does -/

theorem call_eq_some {c c' : SenderReceiver M} {value : M} {force : Bool} (h : c.call value force = some c') :
    c.sender.state = .idle ∧ c' = { c with
      sender := ⟨c.sender.pendingMessages, .flush ⟨c.sent.length, value⟩ force⟩
      sent := c.sent ++ [⟨c.sent.length, value⟩] } := by
  obtain ⟨sender, hsender, rfl⟩ := Option.map_eq_some_iff.1 h
  obtain ⟨hidle, rfl⟩ := Sender.call_cases hsender
  exact ⟨hidle, rfl⟩

/-- A step begins a call or the drop of the sender, is an access of the sender to the ring, or receives. -/
theorem step_cases {c c' : SenderReceiver M} {a : Action M} (h : c.step a = some c') :
    (∃ value force, c.call value force = some c') ∨
      (c.sender.state = .idle ∧ c' = { c with sender := ⟨c.sender.pendingMessages, .drop⟩ }) ∨
      (a = .push ∧ ∃ e, Sender.Moves c.full c.sender e ∧ c' = c.afterPush e) ∨
      c' = c ∨
      ∃ value ring, c.ring = value :: ring ∧ c' = { c with ring := ring, received := c.received ++ [value] } := by
  cases a with
  | send value => exact Or.inl ⟨value, false, h⟩
  | forceSend value => exact Or.inl ⟨value, true, h⟩
  | dropSender =>
    obtain ⟨sender, hsender, rfl⟩ := Option.map_eq_some_iff.1 h
    obtain ⟨hidle, rfl⟩ := Sender.beginDrop_cases hsender
    exact Or.inr (Or.inl ⟨hidle, rfl⟩)
  | push =>
    obtain ⟨e, he, rfl⟩ := Option.map_eq_some_iff.1 h
    exact Or.inr (Or.inr (Or.inl ⟨rfl, e, Sender.moves_of_step he, rfl⟩))
  | tryRecv =>
    refine Or.inr (Or.inr (Or.inr ?_))
    cases h
    unfold tryRecv
    split
    · rename_i value ring hring
      exact Or.inr ⟨value, ring, hring, rfl⟩
    · left
      split <;> rfl

/-! ### Nothing is lost or duplicated -/

/-- The values that the channel has taken: all but those of a `send` that returned `ChannelFull`. -/
def accepted (returns : List (Numbered M × SendOutcome)) : List (Numbered M) :=
  (returns.filter fun r => r.2 ≠ .channelFull).map Prod.fst

private theorem accepted_append (returns returns' : List (Numbered M × SendOutcome)) :
    accepted (returns ++ returns') = accepted returns ++ accepted returns' := by
  simp [accepted]

/-- What is accepted is forced or the value of a `send` that returned `Ok`. -/
theorem accepted_perm (c : SenderReceiver M) : (accepted c.returns).Perm (c.returned .forced ++ c.returned .ok) := by
  unfold returned
  induction c.returns with
  | nil => exact List.Perm.refl _
  | cons r returns ih =>
    obtain ⟨value, o⟩ := r
    cases o with
    | forced => simpa [accepted] using ih
    | ok => simpa [accepted] using (ih.cons value).trans List.perm_middle.symm
    | channelFull => simpa [accepted] using ih

/-- An access to the ring pushes, keeps or, in `drop`, discards the pending messages and the value of the call. -/
private theorem moves_balance {full : Bool} {s : Sender (Numbered M)} {e : SenderStep (Numbered M)}
    (h : Sender.Moves full s e) : (e.pushed.toList ++ e.sender.pendingMessages ++ dropLost s e).Perm
      (s.pendingMessages ++ accepted (outcome s e).toList) := by
  cases h with
  | @pushPending pending last value force =>
    simpa [outcome, dropLost, accepted, Sender.calling] using (List.perm_append_singleton last pending).symm
  | @pushNew pending value force =>
    cases force <;>
      simpa [outcome, dropLost, accepted, Sender.calling] using (List.perm_append_singleton value pending).symm
  | @dropDiscard pending command => simp [outcome, dropLost, accepted, Sender.calling]
  | _ => simp [outcome, dropLost, accepted, Sender.calling]

structure Wf (c : SenderReceiver M) : Prop where
  numbers : c.sent.map Numbered.number = List.range c.sent.length
  /-- The calls return in the order they are made. -/
  calls : c.returns.map Prod.fst ++ (c.sender.calling.map Prod.fst).toList = c.sent
  conserved : (c.received ++ c.ring ++ c.sender.pendingMessages ++ c.lost).Perm (accepted c.returns)
  live : c.sender.state ≠ .drop → c.sender.state ≠ .dropped → c.lost = []

private theorem wf_bounded (capacity : Nat) : Wf (bounded (M := M) capacity) where
  numbers := rfl
  calls := rfl
  conserved := List.Perm.refl _
  live _ _ := rfl

private theorem Wf.call {c c' : SenderReceiver M} {value : M} {force : Bool} (h : c.Wf)
    (hc : c.call value force = some c') : c'.Wf := by
  obtain ⟨hidle, rfl⟩ := call_eq_some hc
  exact {
    numbers := by simp [h.numbers, List.range_succ]
    calls := by
      have hcalls := h.calls
      rw [Sender.calling, hidle] at hcalls
      simpa [Sender.calling] using hcalls
    conserved := h.conserved
    live := fun _ _ => h.live (by simp [hidle]) (by simp [hidle]) }

private theorem Wf.push {c : SenderReceiver M} {e : SenderStep (Numbered M)} (h : c.Wf)
    (he : Sender.Moves c.full c.sender e) : (c.afterPush e).Wf where
  numbers := h.numbers
  calls := by
    have hcalls := h.calls
    simp only [afterPush, List.map_append]
    generalize c.full = full at he
    generalize c.sender = sender at he hcalls ⊢
    cases he <;> simpa [outcome, Sender.calling] using hcalls
  conserved := by
    classical
    rw [List.perm_iff_count]
    intro x
    have hconserved := (List.perm_iff_count.1 h.conserved) x
    have hbalance := (List.perm_iff_count.1 (moves_balance he)) x
    simp only [afterPush, accepted_append, List.count_append] at hconserved hbalance ⊢
    omega
  live := by
    have hlive := h.live
    simp only [afterPush]
    generalize c.full = full at he
    generalize c.sender = sender at he hlive ⊢
    cases he <;> simp_all [dropLost, Sender.calling]

private theorem Wf.step {c c' : SenderReceiver M} {a : Action M} (h : c.Wf) (hs : c.step a = some c') : c'.Wf := by
  rcases step_cases hs with ⟨value, force, hc⟩ | ⟨hidle, rfl⟩ | ⟨-, e, he, rfl⟩ | rfl | ⟨value, ring, hring, rfl⟩
  · exact h.call hc
  · have hcalls := h.calls
    rw [Sender.calling, hidle] at hcalls
    exact ⟨h.numbers, hcalls, h.conserved, fun hd => absurd rfl hd⟩
  · exact h.push he
  · exact h
  · refine ⟨h.numbers, h.calls, ?_, h.live⟩
    have hconserved := h.conserved
    rw [hring] at hconserved
    simpa using hconserved

theorem wf_of_run {capacity : Nat} {as : List (Action M)} {c : SenderReceiver M}
    (h : Steps.run step (bounded capacity) as = some c) : c.Wf :=
  Steps.run_induction (fun _ _ _ => Wf.step) (wf_bounded capacity) h

theorem Wf.nodup_returns {c : SenderReceiver M} (h : c.Wf) : (c.returns.map Prod.fst).Nodup := by
  have hsent : c.sent.Nodup := List.Nodup.of_map Numbered.number (h.numbers ▸ List.nodup_range)
  rw [← h.calls] at hsent
  exact hsent.of_append_left

/-- Where the sender pushes, it has no value older than the one it pushes. -/
def OldestFirst (c : SenderReceiver M) (a : Action M) : Prop := a = .push → c.full = false → c.sender.PushesOldest

instance [DecidableEq M] (c : SenderReceiver M) (a : Action M) : Decidable (c.OldestFirst a) :=
  inferInstanceAs (Decidable (a = .push → c.full = false → c.sender.PushesOldest))

/-- Everything that has been received or can still be, in the order in which it is received if the oldest values are
pushed first. -/
def pipeline (c : SenderReceiver M) : List (Numbered M) :=
  c.received ++ c.ring ++ c.sender.pendingMessages ++ (c.sender.calling.map Prod.fst).toList

private theorem pipeline_push {c : SenderReceiver M} {e : SenderStep (Numbered M)}
    (he : Sender.Moves c.full c.sender e) (ho : c.OldestFirst .push) :
    (c.afterPush e).pipeline.Sublist c.pipeline := by
  obtain ⟨sender, ring, capacity, sent, returns, received, lost⟩ := c
  replace ho := ho rfl
  generalize full _ = full at he ho
  cases he with
  | @pushPending pending last value force =>
    obtain rfl : pending = [] := by simpa [Sender.PushesOldest] using ho rfl
    simp [afterPush, pipeline, Sender.calling]
  | @pushNew pending value force =>
    obtain rfl : pending = [] := by simpa [Sender.PushesOldest] using ho rfl
    simp [afterPush, pipeline, Sender.calling]
  | _ => simp [afterPush, pipeline, Sender.calling]

private theorem pipeline_step {c c' : SenderReceiver M} {a : Action M} (h : c.pipeline.Sublist c.sent)
    (ho : c.OldestFirst a) (hs : c.step a = some c') : c'.pipeline.Sublist c'.sent := by
  rcases step_cases hs with ⟨value, force, hc⟩ | ⟨hidle, rfl⟩ | ⟨rfl, e, he, rfl⟩ | rfl | ⟨value, ring, hring, rfl⟩
  · obtain ⟨hidle, rfl⟩ := call_eq_some hc
    have hp : c.received ++ c.ring ++ c.sender.pendingMessages = c.pipeline := by
      simp [pipeline, Sender.calling, hidle]
    simp only [pipeline, Sender.calling, Option.map_some, Option.toList_some]
    rw [hp]
    exact h.append (List.Sublist.refl _)
  · simpa [pipeline, Sender.calling, hidle] using h
  · exact (pipeline_push he ho).trans h
  · exact h
  · simpa [pipeline, hring] using h

/-- In a run in which no value is pushed while an older one is pending, the values are received in the order sent. -/
theorem received_in_order {capacity : Nat} {as : List (Action M)} {c : SenderReceiver M}
    (ho : Steps.Meet step OldestFirst (bounded capacity) as) (h : Steps.run step (bounded capacity) as = some c) :
    c.received.Sublist c.sent := by
  have hp : c.pipeline.Sublist c.sent :=
    Steps.meet_induction (fun _ _ _ => pipeline_step) (List.Sublist.refl _) ho h
  refine List.Sublist.trans ?_ hp
  simp only [pipeline, List.append_assoc]
  exact List.sublist_append_left ..

/-- On a ring with one place: the second value stays pending until the ring has been emptied. -/
def inTurn : List (Action Nat) :=
  [.forceSend 1, .push, .push, .forceSend 2, .push, .push, .tryRecv, .forceSend 3, .push, .push, .push, .tryRecv]

theorem received_in_order_two : ∃ c : SenderReceiver Nat, Steps.run step (bounded 1) inTurn = some c ∧
    c.received.map Numbered.value = [1, 2] ∧ c.received.Sublist c.sent := by
  have hrun : ∃ c : SenderReceiver Nat, Steps.run step (bounded 1) inTurn = some c ∧
      c.received.map Numbered.value = [1, 2] := ⟨_, rfl, rfl⟩
  obtain ⟨c, hc, hr⟩ := hrun
  exact ⟨c, hc, hr, received_in_order (by decide) hc⟩

/-- Two values wait when the third is sent: the newer of them is pushed first. -/
def newestFirst : List (Action Nat) :=
  [.forceSend 1, .push, .push, .forceSend 2, .push, .push, .forceSend 3, .push, .push, .tryRecv,
    .forceSend 4, .push, .tryRecv, .push, .tryRecv]

theorem reordered : ∃ c : SenderReceiver Nat, Steps.run step (bounded 1) newestFirst = some c ∧
    c.received.map Numbered.value = [1, 3, 2] ∧ c.sent.map Numbered.value = [1, 2, 3, 4] ∧
    ¬ (c.received.map Numbered.value).Sublist (c.sent.map Numbered.value) :=
  ⟨_, rfl, rfl, rfl, by decide⟩

/-! ### A push past an older value is seen -/

private theorem run_receive_all (c : SenderReceiver M) :
    ∃ as, Steps.run step c as = some { c with ring := [], received := c.received ++ c.ring } := by
  obtain ⟨sender, ring, capacity, sent, returns, received, lost⟩ := c
  induction ring generalizing received with
  | nil => exact ⟨[], by simp [Steps.run]⟩
  | cons value ring ih =>
    obtain ⟨as, has⟩ := ih (received ++ [value])
    rw [List.append_assoc] at has
    exact ⟨.tryRecv :: as, has⟩

private theorem run_push_receive {c : SenderReceiver M} (hcap : 0 < c.capacity) (hring : c.ring = [])
    {e : SenderStep (Numbered M)} {value : Numbered M} (he : c.sender.step false = some e)
    (hpushed : e.pushed = some value) :
    ∃ c', Steps.run step c [.push, .tryRecv] = some c' ∧ c'.sender = e.sender ∧ c'.ring = [] ∧
      c'.capacity = c.capacity ∧ c'.received = c.received ++ [value] := by
  have hfull : c.full = false := by simp [full, hring, Nat.pos_iff_ne_zero.1 hcap]
  have hpush : c.step .push = some (c.afterPush e) := by simp [step, hfull, he]
  have hrecv : (c.afterPush e).step .tryRecv =
      some { c.afterPush e with ring := [], received := c.received ++ [value] } := by
    simp [step, tryRecv, afterPush, hring, hpushed]
  refine ⟨{ c.afterPush e with ring := [], received := c.received ++ [value] }, ?_, rfl, rfl, rfl, rfl⟩
  rw [Steps.run, hpush, Option.bind_some, Steps.run, hrecv]
  rfl

/-- With an empty ring a call in its loop pushes all pending values, and they are received. -/
private theorem run_flush {c : SenderReceiver M} (hcap : 0 < c.capacity) (hring : c.ring = []) {value : Numbered M}
    {force : Bool} {pending : List (Numbered M)} (hsender : c.sender = ⟨pending, .flush value force⟩)
    {y : Numbered M} (hy : y ∈ pending) :
    ∃ as c', Steps.run step c as = some c' ∧ y ∈ c'.received ∧ c.received <+: c'.received := by
  induction pending using List.reverseRecOn generalizing c with
  | nil => cases hy
  | append_singleton pending last ih =>
    -- the newest value is pushed and received
    have he : c.sender.step false = some { sender := ⟨pending, .flush value force⟩, pushed := some last } := by
      rw [hsender]
      simp [Sender.step]
    obtain ⟨c₁, hrun, hsender₁, hring₁, hcap₁, hreceived⟩ := run_push_receive hcap hring he rfl
    rcases List.mem_append.1 hy with hy | hy
    · obtain ⟨as, c', has, hmem, hpre⟩ := ih (hcap₁ ▸ hcap) hring₁ hsender₁ hy
      exact ⟨_, c', Steps.run_trans hrun has, hmem, (hreceived ▸ List.prefix_append ..).trans hpre⟩
    · refine ⟨_, c₁, hrun, ?_, hreceived ▸ List.prefix_append ..⟩
      rw [hreceived]
      exact List.mem_append_right _ hy

private theorem run_idle {c : SenderReceiver M} (hcap : 0 < c.capacity) (hring : c.ring = [])
    (hstate : c.sender.state = .idle) (value : M) {y : Numbered M} (hy : y ∈ c.sender.pendingMessages) :
    ∃ as c', Steps.run step c as = some c' ∧ y ∈ c'.received ∧ c.received <+: c'.received := by
  obtain ⟨c₁, hc₁⟩ : ∃ c₁, c.call value true = some c₁ := by
    simp [SenderReceiver.call, Sender.call, hstate]
  obtain ⟨-, hc⟩ := call_eq_some hc₁
  obtain ⟨as, c', has, hmem, hpre⟩ := run_flush (c := c₁) (by rw [hc]; exact hcap) (by rw [hc]; exact hring)
    (by rw [hc]) hy
  exact ⟨.forceSend value :: as, c', by rw [Steps.run, step, hc₁]; exact has, hmem, by rw [hc] at hpre; exact hpre⟩

/-- Every pending value of a live sender can come to be received, and after all that has been pushed. -/
private theorem run_pending {c : SenderReceiver M} (hcap : 0 < c.capacity) (hdrop : c.sender.state ≠ .drop)
    (hdropped : c.sender.state ≠ .dropped) (value : M) {y : Numbered M} (hy : y ∈ c.sender.pendingMessages) :
    ∃ as c', Steps.run step c as = some c' ∧ y ∈ c'.received ∧ c.received ++ c.ring <+: c'.received := by
  obtain ⟨as, has⟩ := run_receive_all c
  suffices ∃ as' c', Steps.run step { c with ring := [], received := c.received ++ c.ring } as' = some c' ∧
      y ∈ c'.received ∧ c.received ++ c.ring <+: c'.received by
    obtain ⟨as', c', has', h⟩ := this
    exact ⟨_, c', Steps.run_trans has has', h⟩
  generalize hc₁ : ({ c with ring := [], received := c.received ++ c.ring } : SenderReceiver M) = c₁
  have hcap₁ : 0 < c₁.capacity := by rw [← hc₁]; exact hcap
  have hring₁ : c₁.ring = [] := by rw [← hc₁]
  have hsender : c₁.sender = c.sender := by rw [← hc₁]
  have hreceived : c₁.received = c.received ++ c.ring := by rw [← hc₁]
  rw [← hreceived]
  rw [← hsender] at hdrop hdropped hy
  cases hstate : c₁.sender.state with
  | idle => exact run_idle hcap₁ hring₁ hstate value hy
  | flush new force => exact run_flush hcap₁ hring₁ (by rw [← hstate]) hy
  | push new force =>
    -- the new value is pushed and received, and the call ends
    have he : c₁.sender.step false =
        some { sender := { c₁.sender with state := .idle }, pushed := some new } := by
      simp [Sender.step, hstate]
    obtain ⟨c₂, hrun, hsender₂, hring₂, hcap₂, hreceived₂⟩ := run_push_receive hcap₁ hring₁ he rfl
    obtain ⟨as', c', has', hmem, hpre⟩ := run_idle (hcap₂ ▸ hcap₁) hring₂ (by rw [hsender₂]) value
      (by rw [hsender₂]; exact hy)
    exact ⟨_, c', Steps.run_trans hrun has', hmem, (hreceived₂ ▸ List.prefix_append ..).trans hpre⟩
  | drop => exact absurd hstate hdrop
  | dropped => exact absurd hstate hdropped

/-- What waits in the sender is in the order sent. -/
private theorem waiting_in_order {capacity : Nat} {as : List (Action M)} {c : SenderReceiver M}
    (h : Steps.run step (bounded capacity) as = some c) :
    (c.sender.pendingMessages ++ (c.sender.calling.map Prod.fst).toList).Sublist c.sent := by
  refine Steps.run_induction (P := fun c => (c.sender.pendingMessages ++
    (c.sender.calling.map Prod.fst).toList).Sublist c.sent) (fun c a c' ih hs => ?_) (List.Sublist.refl _) h
  rcases step_cases hs with ⟨value, force, hc⟩ | ⟨hidle, rfl⟩ | ⟨rfl, e, he, rfl⟩ | rfl | ⟨value, ring, hring, rfl⟩
  · obtain ⟨hidle, rfl⟩ := call_eq_some hc
    exact List.Sublist.append ((List.sublist_append_left ..).trans ih) (List.Sublist.refl _)
  · simpa [Sender.calling, hidle] using ih
  · refine List.Sublist.trans ?_ ih
    simp only [afterPush]
    generalize c.full = full at he
    generalize c.sender = sender at he ⊢
    cases he <;> simp [Sender.calling]
  · exact ih
  · exact ih

/-- A push out of order leaves an older value pending. -/
private theorem exists_overtaken {full : Bool} {s : Sender (Numbered M)} {e : SenderStep (Numbered M)}
    (h : Sender.Moves full s e) (hfull : full = false) (ho : ¬ s.PushesOldest) :
    ∃ x y, e.pushed = some x ∧ y ∈ e.sender.pendingMessages ∧ e.sender.state ≠ .drop ∧ e.sender.state ≠ .dropped ∧
      [y, x].Sublist (s.pendingMessages ++ (s.calling.map Prod.fst).toList) := by
  cases h with
  | @pushPending pending last value force =>
    obtain ⟨y, rest, rfl⟩ : ∃ y rest, pending = y :: rest := by
      cases pending with
      | nil => simp [Sender.PushesOldest] at ho
      | cons y rest => exact ⟨y, rest, rfl⟩
    refine ⟨last, y, rfl, List.mem_cons_self .., by simp, by simp, ?_⟩
    exact ((List.sublist_append_right rest [last]).cons_cons y).trans (List.sublist_append_left ..)
  | @pushNew pending value force =>
    obtain ⟨y, rest, rfl⟩ : ∃ y rest, pending = y :: rest := by
      cases pending with
      | nil => simp [Sender.PushesOldest] at ho
      | cons y rest => exact ⟨y, rest, rfl⟩
    refine ⟨value, y, rfl, List.mem_cons_self .., by simp, by simp, ?_⟩
    exact (List.sublist_append_right rest [value]).cons_cons y
  | flushed => exact absurd (Nat.zero_le 1) ho
  | dropPush => exact absurd trivial ho
  | dropped => exact absurd trivial ho
  | _ => cases hfull

theorem capacity_of_run {capacity : Nat} {as : List (Action M)} {c : SenderReceiver M}
    (h : Steps.run step (bounded capacity) as = some c) : c.capacity = capacity := by
  refine Steps.run_induction (P := fun c => c.capacity = capacity) (fun c a c' ih hs => ?_) rfl h
  rcases step_cases hs with ⟨value, force, hc⟩ | ⟨-, rfl⟩ | ⟨-, e, -, rfl⟩ | rfl | ⟨value, ring, -, rfl⟩
  · obtain ⟨-, rfl⟩ := call_eq_some hc
    exact ih
  all_goals exact ih

/-- Whenever a value is pushed while an older one is pending, the run can go on so that the values are not received in
the order sent. -/
theorem exists_reordered {capacity : Nat} (hcap : 0 < capacity) {as : List (Action M)} {c c' : SenderReceiver M}
    (h : Steps.run step (bounded capacity) as = some c) (ho : ¬ c.OldestFirst .push) (hs : c.step .push = some c') :
    ∃ as' c'', Steps.run step c' as' = some c'' ∧ ¬ c''.received.Sublist c''.sent := by
  have hrun := Steps.run_step h hs
  obtain ⟨e, he, rfl⟩ := Option.map_eq_some_iff.1 hs
  obtain ⟨hfull, ho⟩ : c.full = false ∧ ¬ c.sender.PushesOldest := by simpa [OldestFirst] using ho
  obtain ⟨x, y, hx, hy, hdrop, hdropped, hyx⟩ := exists_overtaken (Sender.moves_of_step he) hfull ho
  obtain ⟨as', c'', hrun', hmem, rest, hreceived⟩ :=
    run_pending (by rw [capacity_of_run hrun]; exact hcap) hdrop hdropped x.value hy
  refine ⟨as', c'', hrun', fun hsub => ?_⟩
  have hsorted : ∀ {c : SenderReceiver M}, c.Wf → c.sent.Pairwise fun a b => a.number < b.number := by
    intro c hwf
    rw [← List.pairwise_map, hwf.numbers]
    exact List.pairwise_lt_range
  -- `y` was sent before `x`
  have hlt : y.number < x.number := by
    have hpair := (hsorted (wf_of_run h)).sublist (hyx.trans (waiting_in_order h))
    exact (List.pairwise_cons.1 hpair).1 x (List.mem_singleton_self _)
  -- and is received after it
  have hxmem : x ∈ (c.afterPush e).received ++ (c.afterPush e).ring := by
    simp [afterPush, hx]
  have hpair := (hsorted (wf_of_run (Steps.run_trans hrun hrun'))).sublist hsub
  rw [← hreceived] at hpair hmem
  rcases List.mem_append.1 hmem with hmem | hmem
  · have hwf := wf_of_run hrun
    have hacc : (accepted (c.afterPush e).returns).Nodup := hwf.nodup_returns.sublist (List.filter_sublist.map _)
    have hnodup : ((c.afterPush e).received ++ (c.afterPush e).ring ++ e.sender.pendingMessages).Nodup :=
      (hwf.conserved.nodup_iff.2 hacc).of_append_left
    exact List.disjoint_of_nodup_append hnodup hmem hy
  · exact absurd ((List.pairwise_append.1 hpair).2.2 x hxmem y hmem) (by omega)

end SenderReceiver

end Fastrace
