import Fastrace.Tally
import Mathlib.Data.List.Induction

/-!
# Channels drained one after another

Many senders, each with a FIFO channel of its own, and one receiver that works in rounds: it goes through the
registered channels in their order, takes messages from a channel until it finds it empty, and hands what it has
taken to its owner as a batch.  Messages may be sent at any moment, also to a channel the round has already left.  A
channel is registered only between two rounds.

A channel is closed when its sender has gone.  The receiver looks at a channel twice: it finds it empty, and then it
asks whether it is closed, and removes a closed channel.  Between the two the sender may send its last messages and
go; these are lost with the channel.

Every message carries a stamp, the number of messages sent before it; nothing in the system reads the stamps.
`Wf.conserved` says that no message is duplicated, and none lost but with its channel.  A round is no snapshot: it may
leave one channel, then `a` is sent there, then `b` on a channel it has still to visit, and `b` is received one round
before `a` (`Torn`).  This is the only way in which the batches can reorder two messages: sent otherwise they are
`InOrder` (`inOrder_push`), they stay so (`inOrder_moves`), and then `a` is received no later than `b` or lost
(`InOrder.received`).
-/

/-- A message, the channel it was sent on and the number of messages sent before it. -/
structure Message (T M : Type) where
  stamp : Nat
  channel : T
  body : M
deriving DecidableEq, Repr

structure Channels (T M : Type) where
  registered : List T
  queue : T → List (Message T M)
  /-- The channels the running round has not yet found empty, the current one first. -/
  remaining : Option (List T)
  /-- The channel just found empty, when the round has still to ask whether it is closed. -/
  leaving : Option T
  closed : List T
  /-- What the running round has taken. -/
  batch : List (Message T M)
  batches : List (List (Message T M))
  /-- What was in the channels that have been removed. -/
  lost : List (Message T M)
  sent : List (Message T M)

namespace Channels

variable {T M : Type}

def init : Channels T M where
  registered := []
  queue := fun _ => []
  remaining := none
  leaving := none
  closed := []
  batch := []
  batches := []
  lost := []
  sent := []

/-- A registration, or a step of the receiver. -/
inductive Label (T : Type) where
  | register (t : T)
  | begin
  | recv
  /-- The current channel is found empty. -/
  | next
  /-- The channel just found empty is found closed. -/
  | remove
  | finish
deriving DecidableEq, Repr

/-- The message `m` as it is sent on `t`. -/
def message (s : Channels T M) (t : T) (m : M) : Message T M := ⟨s.sent.length, t, m⟩

variable [DecidableEq T]

def push (s : Channels T M) (t : T) (m : M) : Channels T M :=
  { s with
    queue := Function.update s.queue t (s.queue t ++ [s.message t m])
    sent := s.sent ++ [s.message t m] }

/-- Sending on a registered channel. -/
def send (s : Channels T M) (t : T) (m : M) : Option (Channels T M) :=
  if t ∈ s.registered then some (s.push t m) else none

/-- The sender of `t` goes. -/
def close (s : Channels T M) (t : T) : Channels T M := { s with closed := t :: s.closed }

def remove (s : Channels T M) (t : T) : Channels T M :=
  { s with
    registered := s.registered.erase t
    queue := Function.update s.queue t []
    leaving := none
    lost := s.lost ++ s.queue t }

/-- To take the next message, or to end the round, is to have found the channel just left not closed. -/
def step (s : Channels T M) : Label T → Option (Channels T M)
  | .register t =>
    if s.remaining.isNone ∧ t ∉ s.registered then some { s with registered := s.registered ++ [t] } else none
  | .begin => if s.remaining.isNone then some { s with remaining := some s.registered } else none
  | .recv =>
    match s.remaining with
    | some (t :: _) =>
      match s.queue t with
      | x :: q => some { s with queue := Function.update s.queue t q, leaving := none, batch := s.batch ++ [x] }
      | [] => none
    | _ => none
  | .next =>
    match s.remaining with
    | some (t :: rest) =>
      if (s.queue t).isEmpty then
        -- nothing can be sent between the two observations of a channel that is closed already
        if t ∈ s.closed then some ({ s with remaining := some rest }.remove t)
        else some { s with remaining := some rest, leaving := some t }
      else none
    | _ => none
  | .remove =>
    match s.leaving with
    | some t => if t ∈ s.closed then some (s.remove t) else none
    | none => none
  | .finish =>
    match s.remaining with
    | some [] => some { s with remaining := none, leaving := none, batch := [], batches := s.batches ++ [s.batch] }
    | _ => none

/-! ### What a step does -/

private theorem step_register {s s' : Channels T M} {t : T} (h : s.step (.register t) = some s') :
    s.remaining = none ∧ t ∉ s.registered ∧ s' = { s with registered := s.registered ++ [t] } := by
  simp only [step] at h
  split at h
  · rename_i hc
    cases h
    exact ⟨Option.isNone_iff_eq_none.1 hc.1, hc.2, rfl⟩
  · cases h

theorem send_eq_some {s s' : Channels T M} {t : T} {m : M} (h : s.send t m = some s') :
    t ∈ s.registered ∧ s' = s.push t m := by
  simp only [send] at h
  split at h
  · rename_i hc
    cases h
    exact ⟨hc, rfl⟩
  · cases h

private theorem step_begin {s s' : Channels T M} (h : s.step .begin = some s') :
    s.remaining = none ∧ s' = { s with remaining := some s.registered } := by
  simp only [step] at h
  split at h
  · rename_i hc
    cases h
    exact ⟨Option.isNone_iff_eq_none.1 hc, rfl⟩
  · cases h

private theorem step_recv {s s' : Channels T M} (h : s.step .recv = some s') :
    ∃ t rest x q, s.remaining = some (t :: rest) ∧ s.queue t = x :: q ∧
      s' = { s with queue := Function.update s.queue t q, leaving := none, batch := s.batch ++ [x] } := by
  simp only [step] at h
  split at h
  · rename_i t rest hr
    split at h
    · rename_i x q hq
      cases h
      exact ⟨t, rest, x, q, hr, hq, rfl⟩
    · cases h
  · cases h

private theorem step_next {s s' : Channels T M} (h : s.step .next = some s') :
    ∃ t rest, s.remaining = some (t :: rest) ∧ s.queue t = [] ∧
      (s' = { s with remaining := some rest, leaving := some t } ∨
        t ∈ s.closed ∧ s' = { s with remaining := some rest, leaving := some t }.remove t) := by
  simp only [step] at h
  split at h
  · rename_i t rest hr
    split at h
    · rename_i hq
      refine ⟨t, rest, hr, List.isEmpty_iff.1 hq, ?_⟩
      split at h
      · cases h
        exact Or.inr ⟨‹_›, rfl⟩
      · cases h
        exact Or.inl rfl
    · cases h
  · cases h

private theorem step_remove {s s' : Channels T M} (h : s.step .remove = some s') :
    ∃ t, s.leaving = some t ∧ t ∈ s.closed ∧ s' = s.remove t := by
  simp only [step] at h
  split at h
  · rename_i t ht
    split at h
    · cases h
      exact ⟨t, ht, ‹_›, rfl⟩
    · cases h
  · cases h

private theorem step_finish {s s' : Channels T M} (h : s.step .finish = some s') :
    s.remaining = some [] ∧
      s' = { s with remaining := none, leaving := none, batch := [], batches := s.batches ++ [s.batch] } := by
  simp only [step] at h
  split at h
  · rename_i hr
    cases h
    exact ⟨hr, rfl⟩
  · cases h

theorem step_frame {s s' : Channels T M} {l : Label T} (h : s.step l = some s') :
    s'.sent = s.sent ∧ s'.closed = s.closed := by
  cases l with
  | register t => obtain ⟨-, -, rfl⟩ := step_register h; exact ⟨rfl, rfl⟩
  | begin => obtain ⟨-, rfl⟩ := step_begin h; exact ⟨rfl, rfl⟩
  | recv => obtain ⟨_, _, _, _, -, -, rfl⟩ := step_recv h; exact ⟨rfl, rfl⟩
  | next =>
    obtain ⟨_, _, -, -, rfl | ⟨-, rfl⟩⟩ := step_next h
    · exact ⟨rfl, rfl⟩
    · exact ⟨rfl, rfl⟩
  | remove => obtain ⟨_, -, -, rfl⟩ := step_remove h; exact ⟨rfl, rfl⟩
  | finish => obtain ⟨-, rfl⟩ := step_finish h; exact ⟨rfl, rfl⟩

theorem step_sent {s s' : Channels T M} {l : Label T} (h : s.step l = some s') : s'.sent = s.sent := (step_frame h).1

/-- A message is lost when its channel is found closed after it has been found empty. -/
theorem step_lost {s s' : Channels T M} {l : Label T} (h : s.step l = some s') {x : Message T M} (hx : x ∈ s'.lost) :
    x ∈ s.lost ∨ l = .remove ∧ ∃ t, s.leaving = some t ∧ t ∈ s.closed ∧ x ∈ s.queue t := by
  cases l with
  | register t => obtain ⟨-, -, rfl⟩ := step_register h; exact Or.inl hx
  | begin => obtain ⟨-, rfl⟩ := step_begin h; exact Or.inl hx
  | recv => obtain ⟨_, _, _, _, -, -, rfl⟩ := step_recv h; exact Or.inl hx
  | next =>
    obtain ⟨t, rest, -, hempty, rfl | ⟨-, rfl⟩⟩ := step_next h
    · exact Or.inl hx
    · rcases List.mem_append.1 hx with hx | hx
      · exact Or.inl hx
      · exact absurd hx (by simp [hempty])
  | remove =>
    obtain ⟨t, ht, hclosed, rfl⟩ := step_remove h
    rcases List.mem_append.1 hx with hx | hx
    · exact Or.inl hx
    · exact Or.inr ⟨rfl, t, ht, hclosed, hx⟩
  | finish => obtain ⟨-, rfl⟩ := step_finish h; exact Or.inl hx

/-- What may happen to the channels in one step of a system built on them. -/
inductive Moves (s : Channels T M) : Channels T M → Prop
  | stay : Moves s s
  | step {l : Label T} {s' : Channels T M} (h : s.step l = some s') : Moves s s'
  | push {t : T} (ht : t ∈ s.registered) (m : M) : Moves s (s.push t m)
  | close (t : T) : Moves s (s.close t)

/-! ### Conservation -/

/-- The invariant of a run. -/
structure Wf (s : Channels T M) : Prop where
  nodup : s.registered.Nodup
  home : ∀ t, ∀ x ∈ s.queue t, x.channel = t ∧ t ∈ s.registered
  remaining : ∀ ts, s.remaining = some ts → ts.Nodup ∧ ∀ t ∈ ts, t ∈ s.registered
  leaving : ∀ t, s.leaving = some t → t ∈ s.registered ∧ ∃ ts, s.remaining = some ts ∧ t ∉ ts
  idle : s.remaining = none → s.batch = []
  unlost : s.closed = [] → s.lost = []
  stamps : s.sent.map Message.stamp = List.range s.sent.length
  conserved : (s.registered.flatMap s.queue ++ s.batch ++ s.batches.flatten ++ s.lost).Perm s.sent

omit [DecidableEq T] in
theorem wf_init : Wf (init : Channels T M) where
  nodup := List.nodup_nil
  home _ x hx := absurd hx List.not_mem_nil
  remaining _ h := by cases h
  leaving _ h := by cases h
  idle _ := rfl
  unlost _ := rfl
  stamps := rfl
  conserved := List.Perm.refl _

omit [DecidableEq T] in
private theorem Wf.register {s : Channels T M} (h : Wf s) {t : T} (hidle : s.remaining = none)
    (ht : t ∉ s.registered) : Wf { s with registered := s.registered ++ [t] } where
  nodup := by
    rw [List.nodup_append]
    refine ⟨h.nodup, List.nodup_singleton t, ?_⟩
    rintro a ha b hb rfl
    rw [List.mem_singleton] at hb
    exact ht (hb ▸ ha)
  home t' x hx := ⟨(h.home t' x hx).1, List.mem_append_left _ (h.home t' x hx).2⟩
  remaining ts hts := by
    have hts' : s.remaining = some ts := hts
    rw [hidle] at hts'; cases hts'
  leaving t' ht' := by
    obtain ⟨-, ts, hts, -⟩ := h.leaving t' ht'
    rw [hidle] at hts; cases hts
  idle := h.idle
  unlost := h.unlost
  stamps := h.stamps
  conserved := by
    have hempty : s.queue t = [] := by
      rw [List.eq_nil_iff_forall_not_mem]
      exact fun x hx => ht (h.home t x hx).2
    have hsame : (s.registered ++ [t]).flatMap s.queue = s.registered.flatMap s.queue := by
      simp [hempty]
    rw [hsame]
    exact h.conserved

private theorem Wf.push {s : Channels T M} (h : Wf s) {t : T} (ht : t ∈ s.registered) (m : M) :
    Wf (s.push t m) where
  nodup := h.nodup
  home t' x hx := by
    by_cases he : t' = t
    · subst he
      have hx' : x ∈ s.queue t' ++ [s.message t' m] := by simpa [Channels.push] using hx
      rcases List.mem_append.1 hx' with hx' | hx'
      · exact h.home t' x hx'
      · rw [List.mem_singleton] at hx'
        subst hx'
        exact ⟨rfl, ht⟩
    · have hx' : x ∈ s.queue t' := by simpa [Channels.push, Function.update_of_ne he] using hx
      exact h.home t' x hx'
  remaining := h.remaining
  leaving := h.leaving
  idle := h.idle
  unlost := h.unlost
  stamps := by
    have hs : (s.sent ++ [s.message t m]).map Message.stamp = List.range s.sent.length ++ [s.sent.length] := by
      rw [List.map_append, h.stamps]; rfl
    show (s.sent ++ [s.message t m]).map Message.stamp = List.range (s.sent ++ [s.message t m]).length
    rw [hs, List.length_append, List.length_singleton, List.range_succ]
  conserved := by
    obtain ⟨rest, h₁, h₂⟩ := flatMap_update_perm h.nodup ht s.queue (s.queue t ++ [s.message t m])
    have hq : (s.registered.flatMap (Function.update s.queue t (s.queue t ++ [s.message t m]))).Perm
        (s.registered.flatMap s.queue ++ [s.message t m]) := by
      refine h₂.trans (List.Perm.trans ?_ (h₁.symm.append_right _))
      rw [List.append_assoc, List.append_assoc]
      exact List.perm_append_comm.append_left _
    show (s.registered.flatMap (Function.update s.queue t (s.queue t ++ [s.message t m])) ++ s.batch ++
      s.batches.flatten ++ s.lost).Perm (s.sent ++ [s.message t m])
    have hc := h.conserved.append_right [s.message t m]
    refine List.Perm.trans ?_ hc
    simp only [List.append_assoc]
    refine (hq.append_right _).trans ?_
    have hend : s.batch ++ (s.batches.flatten ++ (s.lost ++ [s.message t m])) =
        (s.batch ++ (s.batches.flatten ++ s.lost)) ++ [s.message t m] := by simp
    rw [List.append_assoc, hend]
    exact List.perm_append_comm.append_left _

private theorem Wf.recv {s : Channels T M} (h : Wf s) {t : T} {rest : List T} {x : Message T M}
    {q : List (Message T M)} (hr : s.remaining = some (t :: rest)) (hq : s.queue t = x :: q) :
    Wf { s with queue := Function.update s.queue t q, leaving := none, batch := s.batch ++ [x] } where
  nodup := h.nodup
  home t' y hy := by
    by_cases he : t' = t
    · subst he
      have hy' : y ∈ q := by simpa using hy
      exact h.home t' y (hq ▸ List.mem_cons_of_mem x hy')
    · have hy' : y ∈ s.queue t' := by simpa [Function.update_of_ne he] using hy
      exact h.home t' y hy'
  remaining := h.remaining
  leaving _ hl := by cases hl
  idle hidle := by
    have hidle' : s.remaining = none := hidle
    rw [hidle'] at hr; cases hr
  unlost := h.unlost
  stamps := h.stamps
  conserved := by
    have ht : t ∈ s.registered := (h.remaining _ hr).2 t (List.mem_cons_self ..)
    obtain ⟨others, h₁, h₂⟩ := flatMap_update_perm h.nodup ht s.queue q
    rw [hq] at h₁
    show (s.registered.flatMap (Function.update s.queue t q) ++ (s.batch ++ [x]) ++ s.batches.flatten ++ s.lost).Perm
      s.sent
    refine List.Perm.trans ?_ h.conserved
    refine List.Perm.append_right _ (List.Perm.append_right _ ?_)
    refine (h₂.append_right _).trans (List.Perm.trans ?_ (h₁.symm.append_right _))
    rw [← List.append_assoc, List.cons_append, List.cons_append]
    exact List.perm_append_singleton x _

omit [DecidableEq T] in
private theorem Wf.next {s : Channels T M} (h : Wf s) {t : T} {rest : List T}
    (hr : s.remaining = some (t :: rest)) : Wf { s with remaining := some rest, leaving := some t } where
  nodup := h.nodup
  home := h.home
  remaining ts hts := by
    cases hts
    have hrest := h.remaining _ hr
    exact ⟨(List.nodup_cons.1 hrest.1).2, fun t' ht' => hrest.2 t' (List.mem_cons_of_mem t ht')⟩
  leaving t' ht' := by
    cases ht'
    have hrest := h.remaining _ hr
    exact ⟨hrest.2 t (List.mem_cons_self ..), rest, rfl, (List.nodup_cons.1 hrest.1).1⟩
  idle hidle := by cases hidle
  unlost := h.unlost
  stamps := h.stamps
  conserved := h.conserved

private theorem Wf.remove {s : Channels T M} (h : Wf s) {t : T} (hl : s.leaving = some t) (hclosed : t ∈ s.closed) :
    Wf (s.remove t) where
  nodup := h.nodup.erase t
  home t' x hx := by
    have hne : t' ≠ t := by
      rintro rfl
      exact absurd hx (by simp [Channels.remove])
    have hx' : x ∈ s.queue t' := by simpa [Channels.remove, Function.update_of_ne hne] using hx
    exact ⟨(h.home t' x hx').1, h.nodup.mem_erase_iff.2 ⟨hne, (h.home t' x hx').2⟩⟩
  remaining ts hts := by
    obtain ⟨-, ts', hts', hleft⟩ := h.leaving t hl
    have heq : ts' = ts := Option.some.inj (hts'.symm.trans hts)
    subst heq
    have hrest := h.remaining _ hts
    exact ⟨hrest.1, fun t' ht' => h.nodup.mem_erase_iff.2 ⟨fun he => hleft (he ▸ ht'), hrest.2 t' ht'⟩⟩
  leaving _ hl' := by cases hl'
  idle := h.idle
  unlost hnone := by
    have hnone' : s.closed = [] := hnone
    rw [hnone'] at hclosed
    cases hclosed
  stamps := h.stamps
  conserved := by
    have ht := (h.leaving t hl).1
    have hothers : (s.registered.erase t).flatMap (Function.update s.queue t []) =
        (s.registered.erase t).flatMap s.queue := by
      refine List.flatMap_congr fun t' ht' => ?_
      rw [Function.update_of_ne (h.nodup.mem_erase_iff.1 ht').1]
    have hsplit : (s.registered.flatMap s.queue).Perm (s.queue t ++ (s.registered.erase t).flatMap s.queue) :=
      (List.perm_cons_erase ht).flatMap_right s.queue
    show ((s.registered.erase t).flatMap (Function.update s.queue t []) ++ s.batch ++ s.batches.flatten ++
      (s.lost ++ s.queue t)).Perm s.sent
    refine List.Perm.trans ?_ h.conserved
    rw [hothers, ← List.append_assoc]
    refine List.perm_append_comm.trans ?_
    simp only [← List.append_assoc]
    exact ((hsplit.symm.append_right _).append_right _).append_right _

omit [DecidableEq T] in
private theorem Wf.finish {s : Channels T M} (h : Wf s) :
    Wf { s with remaining := none, leaving := none, batch := [], batches := s.batches ++ [s.batch] } where
  nodup := h.nodup
  home := h.home
  remaining _ hts := by cases hts
  leaving _ hl := by cases hl
  idle _ := rfl
  unlost := h.unlost
  stamps := h.stamps
  conserved := by
    show (s.registered.flatMap s.queue ++ [] ++ (s.batches ++ [s.batch]).flatten ++ s.lost).Perm s.sent
    refine List.Perm.trans (List.Perm.append_right _ ?_) h.conserved
    rw [List.append_nil, List.flatten_append, List.append_assoc]
    refine List.Perm.append_left _ ?_
    have hone : [s.batch].flatten = s.batch := by simp
    rw [hone]
    exact List.perm_append_comm

omit [DecidableEq T] in
private theorem Wf.begin {s : Channels T M} (h : Wf s) (hidle : s.remaining = none) :
    Wf { s with remaining := some s.registered } where
  nodup := h.nodup
  home := h.home
  remaining ts hts := by
    cases hts
    exact ⟨h.nodup, fun t ht => ht⟩
  leaving t ht := by
    obtain ⟨-, ts, hts, -⟩ := h.leaving t ht
    rw [hidle] at hts; cases hts
  idle hbegun := by cases hbegun
  unlost := h.unlost
  stamps := h.stamps
  conserved := h.conserved

private theorem wf_step {s s' : Channels T M} {l : Label T} (h : Wf s) (hs : s.step l = some s') : Wf s' := by
  cases l with
  | register t =>
    obtain ⟨hidle, ht, rfl⟩ := step_register hs
    exact h.register hidle ht
  | begin =>
    obtain ⟨hidle, rfl⟩ := step_begin hs
    exact h.begin hidle
  | recv =>
    obtain ⟨t, rest, x, q, hr, hq, rfl⟩ := step_recv hs
    exact h.recv hr hq
  | next =>
    obtain ⟨t, rest, hr, -, rfl | ⟨hclosed, rfl⟩⟩ := step_next hs
    · exact h.next hr
    · exact (h.next hr).remove rfl hclosed
  | remove =>
    obtain ⟨t, ht, hclosed, rfl⟩ := step_remove hs
    exact h.remove ht hclosed
  | finish =>
    obtain ⟨-, rfl⟩ := step_finish hs
    exact h.finish

theorem wf_moves {s s' : Channels T M} (h : Wf s) (hs : Moves s s') : Wf s' := by
  cases hs with
  | stay => exact h
  | step hl => exact wf_step h hl
  | push ht m => exact h.push ht m
  | close t =>
    have hunlost : (s.close t).closed = [] → (s.close t).lost = [] := fun hnone => absurd hnone (List.cons_ne_nil _ _)
    exact ⟨h.nodup, h.home, h.remaining, h.leaving, h.idle, hunlost, h.stamps, h.conserved⟩

/-! ### Order -/

/-- Message `x` is in the batch of round `i`; the running round is the last one. -/
def Received (s : Channels T M) (i : Nat) (x : Message T M) : Prop :=
  ∃ b, (s.batches ++ [s.batch])[i]? = some b ∧ x ∈ b

/-- A message sent on `t` now would overtake `a`: the running round has left the channel of `a`, where `a` is still
waiting, and has still to visit `t`. -/
def Torn (s : Channels T M) (a : Message T M) (t : T) : Prop :=
  a ∈ s.queue a.channel ∧ ∃ ts, s.remaining = some ts ∧ a.channel ∉ ts ∧ t ∈ ts

instance [DecidableEq M] (s : Channels T M) (a : Message T M) (t : T) : Decidable (s.Torn a t) :=
  have : Decidable (∃ ts, s.remaining = some ts ∧ a.channel ∉ ts ∧ t ∈ ts) :=
    match s.remaining with
    | none => isFalse fun h => by obtain ⟨ts, hts, -⟩ := h; cases hts
    | some ts => decidable_of_iff (a.channel ∉ ts ∧ t ∈ ts)
        ⟨fun h => ⟨ts, rfl, h⟩, fun h => by obtain ⟨ts', hts, h⟩ := h; cases hts; exact h⟩
  inferInstanceAs (Decidable (_ ∧ _))

/-- `a` is received no later than `b`, unless it is lost: it has been received in no later round than `b`, or it still
waits, and then `b` can overtake it at most within the running round. -/
def InOrder (a b : Message T M) (s : Channels T M) : Prop :=
  a ∈ s.lost ∨ (∃ i, s.Received i a ∧ ∀ j, s.Received j b → i ≤ j) ∨
    (a ∈ s.queue a.channel ∧
      (∀ j, s.Received j b → j = s.batches.length ∧ ∃ ts, s.remaining = some ts ∧ a.channel ∈ ts) ∧
      ∀ ts, s.remaining = some ts → a.channel ∉ ts → b.channel ∉ ts)

omit [DecidableEq T] in
private theorem received_iff {s : Channels T M} {i : Nat} {x : Message T M} :
    s.Received i x ↔ (∃ b, s.batches[i]? = some b ∧ x ∈ b) ∨ i = s.batches.length ∧ x ∈ s.batch := by
  unfold Received
  rcases Nat.lt_or_ge i s.batches.length with hlt | hge
  · have hne : i ≠ s.batches.length := by omega
    rw [List.getElem?_append_left hlt]
    simp [hne]
  · have hnone : s.batches[i]? = none := List.getElem?_eq_none hge
    rw [List.getElem?_append_right hge, hnone]
    rcases Nat.eq_or_lt_of_le hge with heq | hgt
    · simp [← heq]
    · have hne : i ≠ s.batches.length := by omega
      have hsub : i - s.batches.length ≠ 0 := by omega
      simp [hne, hsub]

omit [DecidableEq T] in
private theorem received_current {s : Channels T M} {x : Message T M} :
    s.Received s.batches.length x ↔ x ∈ s.batch := by
  rw [received_iff, List.getElem?_eq_none (Nat.le_refl _)]
  simp

omit [DecidableEq T] in
private theorem received_le {s : Channels T M} {i : Nat} {x : Message T M} (h : s.Received i x) :
    i ≤ s.batches.length := by
  rcases received_iff.1 h with ⟨b, hb, -⟩ | ⟨rfl, -⟩
  · exact Nat.le_of_lt (List.getElem?_eq_some_iff.1 hb).1
  · exact Nat.le_refl _

omit [DecidableEq T] in
/-- Taking a message puts it in the batch of the running round. -/
private theorem received_recv {s : Channels T M} {queue : T → List (Message T M)} {x y : Message T M} {i : Nat} :
    ({ s with queue := queue, leaving := none, batch := s.batch ++ [x] } : Channels T M).Received i y ↔
      s.Received i y ∨ i = s.batches.length ∧ y = x := by
  rw [received_iff, received_iff, List.mem_append, List.mem_singleton, or_assoc, ← and_or_left]

omit [DecidableEq T] in
/-- Closing a round moves its batch to the batches. -/
private theorem received_finish {s : Channels T M} {x : Message T M} {i : Nat} :
    ({ s with remaining := none, leaving := none, batch := [], batches := s.batches ++ [s.batch] } :
      Channels T M).Received i x ↔ s.Received i x := by
  rw [received_iff]
  constructor
  · rintro (h | ⟨-, h⟩)
    · exact h
    · exact absurd h List.not_mem_nil
  · exact Or.inl

/-- What waits goes on waiting when something is sent. -/
private theorem mem_queue_push {s : Channels T M} {a : Message T M} (ha : a ∈ s.queue a.channel) {t : T} {m : M} :
    a ∈ (s.push t m).queue a.channel := by
  show a ∈ Function.update s.queue t (s.queue t ++ [s.message t m]) a.channel
  by_cases hat : a.channel = t
  · rw [hat, Function.update_self]
    exact List.mem_append_left _ (hat ▸ ha)
  · rwa [Function.update_of_ne hat]

private theorem inOrder_recv {a b : Message T M} {s : Channels T M} (hwf : Wf s) (h : InOrder a b s) {t : T}
    {rest : List T} {x : Message T M} {q : List (Message T M)} (hr : s.remaining = some (t :: rest))
    (hq : s.queue t = x :: q) :
    InOrder a b { s with queue := Function.update s.queue t q, leaving := none, batch := s.batch ++ [x] } := by
  have hx := hwf.home t x (hq ▸ List.mem_cons_self ..)
  rcases h with hlost | ⟨i, hi, hj⟩ | ⟨ha, hrec, hvisit⟩
  · exact Or.inl hlost
  · refine Or.inr (Or.inl ⟨i, received_recv.2 (Or.inl hi), fun j hb => ?_⟩)
    rcases received_recv.1 hb with hb | ⟨rfl, -⟩
    · exact hj j hb
    · exact received_le hi
  · by_cases hxa : a = x
    · -- the waiting message is taken: it is in the running round, and `b` is at best in the same
      refine Or.inr (Or.inl ⟨s.batches.length, received_recv.2 (Or.inr ⟨rfl, hxa⟩), fun j hb => ?_⟩)
      rcases received_recv.1 hb with hb | ⟨rfl, -⟩
      · exact Nat.le_of_eq (hrec j hb).1.symm
      · exact Nat.le_refl _
    · refine Or.inr (Or.inr ⟨?_, fun j hb => ?_, hvisit⟩)
      · show a ∈ Function.update s.queue t q a.channel
        by_cases hat : a.channel = t
        · rw [hat, Function.update_self]
          rw [hat, hq, List.mem_cons] at ha
          exact ha.resolve_left hxa
        · rwa [Function.update_of_ne hat]
      · rcases received_recv.1 hb with hb | ⟨rfl, hbx⟩
        · exact hrec j hb
        · refine ⟨rfl, t :: rest, hr, ?_⟩
          by_contra ha'
          refine hvisit _ hr ha' ?_
          rw [hbx, hx.1]
          exact List.mem_cons_self ..

/-- What waits in a channel goes on waiting when another one is removed, and is lost when that one is. -/
private theorem inOrder_remove {a b : Message T M} {s : Channels T M} (h : InOrder a b s) (t : T) :
    InOrder a b (s.remove t) := by
  rcases h with hlost | hrec | ⟨ha, hrec⟩
  · exact Or.inl (List.mem_append_left _ hlost)
  · exact Or.inr (Or.inl hrec)
  · by_cases he : a.channel = t
    · exact Or.inl (List.mem_append_right _ (he ▸ ha))
    · refine Or.inr (Or.inr ⟨?_, hrec⟩)
      show a ∈ Function.update s.queue t [] a.channel
      rwa [Function.update_of_ne he]

omit [DecidableEq T] in
private theorem inOrder_next {a b : Message T M} {s : Channels T M} (h : InOrder a b s) {t : T} {rest : List T}
    (hr : s.remaining = some (t :: rest)) (hempty : s.queue t = []) :
    InOrder a b { s with remaining := some rest, leaving := some t } := by
  refine h.imp id (Or.imp id fun ⟨ha, hrec, hvisit⟩ => ?_)
  have hne : a.channel ≠ t := by
    rintro he
    rw [he, hempty] at ha
    exact List.not_mem_nil ha
  refine ⟨ha, fun j hb => ?_, fun ts hts hat => ?_⟩
  · obtain ⟨hj, ts, hts, hat⟩ := hrec j hb
    rw [hr] at hts; cases hts
    exact ⟨hj, rest, rfl, (List.mem_cons.1 hat).resolve_left hne⟩
  · cases hts
    have hat' : a.channel ∉ t :: rest := fun hm => hat ((List.mem_cons.1 hm).resolve_left hne)
    exact fun hb => hvisit _ hr hat' (List.mem_cons_of_mem t hb)

private theorem inOrder_step {a b : Message T M} {s s' : Channels T M} {l : Label T} (hwf : Wf s)
    (h : InOrder a b s) (hs : s.step l = some s') : InOrder a b s' := by
  cases l with
  | register t =>
    obtain ⟨-, -, rfl⟩ := step_register hs
    exact h
  | begin =>
    obtain ⟨hidle, rfl⟩ := step_begin hs
    refine h.imp id (Or.imp id fun ⟨ha, hrec, hvisit⟩ => ⟨ha, fun j hb => ?_, fun ts hts hat => ?_⟩)
    · obtain ⟨-, ts, hts, -⟩ := hrec j hb
      rw [hidle] at hts; cases hts
    · cases hts
      exact absurd (hwf.home _ a ha).2 hat
  | recv =>
    obtain ⟨t, rest, x, q, hr, hq, rfl⟩ := step_recv hs
    exact inOrder_recv hwf h hr hq
  | next =>
    obtain ⟨t, rest, hr, hempty, rfl | ⟨-, rfl⟩⟩ := step_next hs
    · exact inOrder_next h hr hempty
    · exact inOrder_remove (inOrder_next h hr hempty) t
  | remove =>
    obtain ⟨t, -, -, rfl⟩ := step_remove hs
    exact inOrder_remove h t
  | finish =>
    obtain ⟨hr, rfl⟩ := step_finish hs
    rcases h with hlost | ⟨i, hi, hj⟩ | ⟨ha, hrec, -⟩
    · exact Or.inl hlost
    · exact Or.inr (Or.inl ⟨i, received_finish.2 hi, fun j hb => hj j (received_finish.1 hb)⟩)
    · refine Or.inr (Or.inr ⟨ha, fun j hb => ?_, fun ts hts => ?_⟩)
      · obtain ⟨-, ts, hts, hat⟩ := hrec j (received_finish.1 hb)
        rw [hr] at hts; cases hts
        exact absurd hat List.not_mem_nil
      · cases hts

/-- Messages in order stay in order. -/
theorem inOrder_moves {a b : Message T M} {s s' : Channels T M} (hwf : Wf s) (h : InOrder a b s)
    (hs : Moves s s') : InOrder a b s' := by
  cases hs with
  | stay => exact h
  | step hl => exact inOrder_step hwf h hl
  | push ht m => exact h.imp id (Or.imp id fun ⟨ha, hrec, hvisit⟩ => ⟨mem_queue_push ha, hrec, hvisit⟩)
  | close t => exact h

/-- What has been sent stays sent. -/
theorem mem_sent_moves {x : Message T M} {s s' : Channels T M} (hx : x ∈ s.sent) (hs : Moves s s') : x ∈ s'.sent := by
  cases hs with
  | stay => exact hx
  | step hl => exact (step_sent hl).symm ▸ hx
  | push ht m => exact List.mem_append_left _ hx
  | close t => exact hx

omit [DecidableEq T] in
/-- The stamp of a message is its place among the messages sent. -/
theorem Wf.getElem?_sent {s : Channels T M} (h : Wf s) {x : Message T M} (hx : x ∈ s.sent) :
    s.sent[x.stamp]? = some x := by
  obtain ⟨i, hi⟩ := List.mem_iff_getElem?.1 hx
  have hlt : i < s.sent.length := (List.getElem?_eq_some_iff.1 hi).1
  have hstamp : (s.sent.map Message.stamp)[i]? = some x.stamp := by
    rw [List.getElem?_map, hi]; rfl
  rw [h.stamps, List.getElem?_range hlt] at hstamp
  cases hstamp
  exact hi

omit [DecidableEq T] in
/-- What has been received has been sent. -/
theorem Wf.sent_of_received {s : Channels T M} (h : Wf s) {i : Nat} {x : Message T M} (hx : s.Received i x) :
    x ∈ s.sent := by
  refine h.conserved.subset (List.mem_append_left _ ?_)
  rcases received_iff.1 hx with ⟨b, hb, hxb⟩ | ⟨-, hxb⟩
  · exact List.mem_append_right _ (List.mem_flatten.2 ⟨b, List.mem_of_getElem? hb, hxb⟩)
  · exact List.mem_append_left _ (List.mem_append_right _ hxb)

omit [DecidableEq T] in
/-- What has been sent waits in its channel, has been received, or is lost. -/
theorem Wf.received_or_waiting {s : Channels T M} (h : Wf s) {x : Message T M} (hx : x ∈ s.sent) :
    x ∈ s.queue x.channel ∨ (∃ i, s.Received i x) ∨ x ∈ s.lost := by
  have hplaces := h.conserved.mem_iff.2 hx
  simp only [List.mem_append] at hplaces
  rcases hplaces with ((hx | hx) | hx) | hx
  · obtain ⟨t, -, hxt⟩ := List.mem_flatMap.1 hx
    have ht := (h.home t x hxt).1
    exact Or.inl (ht ▸ hxt)
  · exact Or.inr (Or.inl ⟨_, received_current.2 hx⟩)
  · obtain ⟨b, hb, hxb⟩ := List.mem_flatten.1 hx
    obtain ⟨i, hi⟩ := List.mem_iff_getElem?.1 hb
    exact Or.inr (Or.inl ⟨i, received_iff.2 (Or.inl ⟨b, hi, hxb⟩)⟩)
  · exact Or.inr (Or.inr hx)

omit [DecidableEq T] in
/-- What is lost has not been received. -/
theorem Wf.not_lost {s : Channels T M} (h : Wf s) {i : Nat} {x : Message T M} (hx : s.Received i x) :
    x ∉ s.lost := by
  have hsent : s.sent.Nodup := by
    have hstamps : (s.sent.map Message.stamp).Nodup := h.stamps ▸ List.nodup_range
    exact hstamps.of_map _
  have hplaces := h.conserved.nodup_iff.2 hsent
  have hbatch : x ∈ s.batch ++ s.batches.flatten := by
    rcases received_iff.1 hx with ⟨b, hb, hxb⟩ | ⟨-, hxb⟩
    · exact List.mem_append_right _ (List.mem_flatten.2 ⟨b, List.mem_of_getElem? hb, hxb⟩)
    · exact List.mem_append_left _ hxb
  rw [List.append_assoc, List.append_assoc, ← List.append_assoc s.batch] at hplaces
  exact fun hlost => (List.nodup_append.1 (List.nodup_append.1 hplaces).2.1).2.2 x hbatch x hlost rfl

omit [DecidableEq T] in
/-- When nothing waits and no round runs, every message sent is in a batch or lost. -/
theorem Wf.received_of_drained {s : Channels T M} (h : Wf s) (hidle : s.remaining = none)
    (hempty : ∀ t ∈ s.registered, s.queue t = []) {x : Message T M} (hx : x ∈ s.sent) (hlost : x ∉ s.lost) :
    ∃ k < s.batches.length, s.Received k x := by
  rcases h.received_or_waiting hx with hq | ⟨k, hk⟩ | hx'
  · rw [hempty _ (h.home _ x hq).2] at hq
    exact absurd hq List.not_mem_nil
  · refine ⟨k, Nat.lt_of_le_of_ne (received_le hk) ?_, hk⟩
    rintro rfl
    have hb := received_current.1 hk
    rw [h.idle hidle] at hb
    exact absurd hb List.not_mem_nil
  · exact absurd hx' hlost

/-- A message just sent is in order with every message sent before it that it does not overtake. -/
theorem inOrder_push {a : Message T M} {s : Channels T M} {t : T} {m : M} (hwf : Wf s)
    (ha : a ∈ s.sent) (hcut : ¬s.Torn a t) : InOrder a (s.message t m) (s.push t m) := by
  have hfresh : ∀ j, ¬(s.push t m).Received j (s.message t m) := by
    intro j hj
    have hsent := hwf.getElem?_sent (hwf.sent_of_received (i := j) hj)
    have hlt := (List.getElem?_eq_some_iff.1 hsent).1
    exact Nat.lt_irrefl _ hlt
  rcases hwf.received_or_waiting ha with hq | ⟨i, hi⟩ | hlost
  · exact Or.inr (Or.inr ⟨mem_queue_push hq, fun j hj => absurd hj (hfresh j),
      fun ts hts hat ht => hcut ⟨hq, ts, hts, hat, ht⟩⟩)
  · exact Or.inr (Or.inl ⟨i, hi, fun j hj => absurd hj (hfresh j)⟩)
  · exact Or.inl hlost

omit [DecidableEq T] in
/-- Of two messages in order the first, unless it is lost, is received no later than the second. -/
theorem InOrder.received {a b : Message T M} {s : Channels T M} (h : InOrder a b s) (hlost : a ∉ s.lost) {j : Nat}
    (hj : j < s.batches.length) (hb : s.Received j b) : ∃ i ≤ j, s.Received i a := by
  rcases h with ha | ⟨i, hi, hle⟩ | ⟨-, hlate, -⟩
  · exact absurd ha hlost
  · exact ⟨i, hle j hb, hi⟩
  · have := (hlate j hb).1
    omega

/-- Of two messages that `R` relates, the first is in order with the second. -/
def Ordered (R : M → M → Prop) (s : Channels T M) : Prop :=
  ∀ a ∈ s.sent, ∀ b ∈ s.sent, R a.body b.body → s.InOrder a b

theorem ordered_step {R : M → M → Prop} {s s' : Channels T M} {l : Label T} (hwf : Wf s) (h : Ordered R s)
    (hs : s.step l = some s') : Ordered R s' := by
  intro a ha b hb hab
  rw [step_sent hs] at ha hb
  exact inOrder_moves hwf (h a ha b hb hab) (.step hs)

/-- A message may be sent when it overtakes none that has to come before it, and none sent before has to come after
it. -/
theorem ordered_push {R : M → M → Prop} {s : Channels T M} {t : T} {m : M} (hwf : Wf s) (h : Ordered R s)
    (ht : t ∈ s.registered) (hcut : ∀ a ∈ s.sent, R a.body m → ¬s.Torn a t) (hlast : ∀ b ∈ s.sent, ¬R m b.body)
    (hself : ¬R m m) : Ordered R (s.push t m) := by
  intro a ha b hb hab
  rcases List.mem_append.1 ha with ha | ha <;> rcases List.mem_append.1 hb with hb | hb
  · exact inOrder_moves hwf (h a ha b hb hab) (.push ht m)
  · rw [List.mem_singleton] at hb
    subst hb
    exact inOrder_push hwf ha (hcut a ha hab)
  · rw [List.mem_singleton] at ha
    subst ha
    exact absurd hab (hlast b hb)
  · rw [List.mem_singleton] at ha hb
    subst ha hb
    exact absurd hab hself

end Channels
