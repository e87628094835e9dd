import Fastrace.Cancelling
import Fastrace.LexicalReports

/-!
# From the calls to the reports

The whole way of a record: a call of the library changes the world and leaves commands in the outbox of its thread,
`GlobalCollect` passes these one after another to the sender of the thread (`send_command`, `force_send_command`), the
sender pushes them on its bounded ring, and the collector drains the rings one after another, while all threads go on
(`Pipeline.step`).

No command is handled twice, and none is lost on the way but those that the senders discard because a ring is full and
those that are on the ring of an exited thread when the collector removes its channel (`Balanced`, `Channels.Wf`).  So
once nothing is on its way, what is reported of a collection, together with what the discarded and the removed
submissions ask for, is what the calls mean (`reported_or_refused`).

What is not here: calls of a thread whose sender has been dropped.
-/

namespace Interleavings

variable {T A : Type} [DecidableEq T] {as bs : List (T × A)}

private theorem count_actionsOf [DecidableEq A] (t : T) (a : A) (as : List (T × A)) :
    (actionsOf t as).count a = as.count (t, a) := by
  induction as with
  | nil => rfl
  | cons b as ih =>
    obtain ⟨u, b⟩ := b
    rw [List.count_cons, ← ih, actionsOf_cons]
    by_cases hu : u = t
    · subst hu
      rw [if_pos rfl, List.count_cons]
      simp
    · simp [hu]

/-- Actions are the same up to their order if they are so thread by thread. -/
private theorem perm_of_actionsOf (h : ∀ t, (actionsOf t as).Perm (actionsOf t bs)) : as.Perm bs := by
  classical
  rw [List.perm_iff_count]
  rintro ⟨t, a⟩
  rw [← count_actionsOf, ← count_actionsOf, (h t).count_eq]

private theorem subperm_of_actionsOf (h : ∀ t, (actionsOf t as).Subperm (actionsOf t bs)) : as.Subperm bs := by
  classical
  rw [List.subperm_ext_iff]
  rintro ⟨t, a⟩ -
  rw [← count_actionsOf, ← count_actionsOf]
  exact (h t).count_le a

end Interleavings

namespace Fastrace

/-- The messages that a sender has taken and not yet pushed. -/
def Sender.held {M : Type} (s : Sender M) : List M := s.pendingMessages ++ (s.calling.map Prod.fst).toList

/-- An access to the ring pushes, discards or keeps what the sender holds. -/
private theorem Sender.Moves.balance {M : Type} {full : Bool} {s : Sender M} {e : SenderStep M}
    (h : Sender.Moves full s e) :
    (e.pushed.toList ++ e.discarded.toList ++ e.sender.held).Perm s.held := by
  cases h with
  | @pushPending pending last value force =>
    simpa [held, calling] using (List.perm_append_singleton last pending).symm.append_right [value]
  | @refuse pending last value =>
    simpa [held, calling] using (List.perm_append_singleton value (pending ++ [last])).symm
  | @pushNew pending value force => simpa [held, calling] using (List.perm_append_singleton value pending).symm
  | @reject pending value => simpa [held, calling] using (List.perm_append_singleton value pending).symm
  | _ => simp [held, calling]

/-- The commands of `GlobalCollect::commit_collect` and `drop_collect` are sent with `force_send_command`. -/
def CollectCommand.forced : CollectCommand → Bool
  | .commitCollect _ => true
  | .dropCollect _ => true
  | _ => false

structure Pipeline (T : Type) where
  world : World T
  /-- The commands of the last call of a thread that are still to be sent. -/
  outbox : T → List CollectCommand
  senders : T → Sender CollectCommand
  /-- The queues are the rings. -/
  channels : Channels T CollectCommand
  /-- The commands that senders have discarded. -/
  refused : List (T × CollectCommand)

namespace Pipeline

variable {T : Type} [DecidableEq T]

def init : Pipeline T where
  world := World.init
  outbox _ := []
  senders _ := {}
  channels := Channels.init
  refused := []

inductive Action (T : Type) where
  | call (t : T) (op : Op)
  /-- The thread passes the next command to its sender. -/
  | send (t : T)
  /-- The next access of the sender of `t` to its ring. -/
  | push (t : T)
  | exit (t : T)
  | channels (l : Channels.Label T)

def step (capacity : Nat) (s : Pipeline T) : Action T → Option (Pipeline T)
  | .call t op =>
    -- a call begins when the one before it has returned
    if s.outbox t = [] ∧ (s.senders t).state = .idle then
      (s.world.step (t, op)).map fun world =>
        { s with
          world := world
          outbox := Function.update s.outbox t ((world.sent.drop s.world.sent.length).map Prod.snd) }
    else none
  | .send t =>
    match s.outbox t with
    | cmd :: rest =>
      if t ∈ s.channels.registered then
        ((s.senders t).call cmd cmd.forced).map fun sender =>
          { s with
            outbox := Function.update s.outbox t rest
            senders := Function.update s.senders t sender }
      else none
    | [] => none
  | .push t =>
    ((s.senders t).step (decide (capacity ≤ (s.channels.queue t).length))).bind fun e =>
      (s.channels.access t e).map fun channels =>
        { s with
          channels := channels
          senders := Function.update s.senders t e.sender
          refused := s.refused ++ e.discarded.toList.map fun cmd => (t, cmd) }
  | .exit t =>
    if s.outbox t = [] then
      (s.senders t).beginDrop.map fun sender => { s with senders := Function.update s.senders t sender }
    else none
  | .channels l => (s.channels.step l).map fun channels => { s with channels := channels }

/-- The calls of the library. -/
def calls (as : List (Action T)) : List (T × Op) :=
  as.filterMap fun
    | .call t op => some (t, op)
    | _ => none

/-- Nothing is on its way. -/
structure Idle (s : Pipeline T) : Prop where
  outbox : ∀ t, s.outbox t = []
  senders : ∀ t, (s.senders t).held = []
  channels : s.channels.remaining = none ∧ ∀ t ∈ s.channels.registered, s.channels.queue t = []

/-! ### What a step does -/

variable {capacity : Nat} {s s' : Pipeline T} {t : T}

private theorem step_call {op : Op} (h : s.step capacity (.call t op) = some s') : s.outbox t = [] ∧
    ∃ (world : World T) (cmds : List CollectCommand), s.world.step (t, op) = some world ∧
      world.sent = s.world.sent ++ cmds.map (fun cmd => (t, cmd)) ∧
      s' = { s with world := world, outbox := Function.update s.outbox t cmds } := by
  simp only [step] at h
  split at h
  · rename_i hidle
    obtain ⟨world, hw, rfl⟩ := Option.map_eq_some_iff.1 h
    obtain ⟨cmds, hsent⟩ := (step_frames hw).sent
    refine ⟨hidle.1, world, cmds, hw, hsent, ?_⟩
    rw [hsent, List.drop_left, List.map_map, show Prod.snd ∘ (fun cmd => (t, cmd)) = id from rfl, List.map_id]
  · cases h

private theorem step_send (h : s.step capacity (.send t) = some s') :
    ∃ (cmd : CollectCommand) (rest : List CollectCommand) (sender : Sender CollectCommand), s.outbox t = cmd :: rest ∧
      (s.senders t).call cmd cmd.forced = some sender ∧
      s' = { s with
        outbox := Function.update s.outbox t rest
        senders := Function.update s.senders t sender } := by
  simp only [step] at h
  split at h
  · rename_i cmd rest hout
    split at h
    · obtain ⟨sender, hsender, rfl⟩ := Option.map_eq_some_iff.1 h
      exact ⟨cmd, rest, sender, hout, hsender, rfl⟩
    · cases h
  · cases h

private theorem step_push (h : s.step capacity (.push t) = some s') : ∃ (full : Bool) (e : SenderStep CollectCommand)
    (channels : Channels T CollectCommand), Sender.Moves full (s.senders t) e ∧
      (e.pushed = none ∧ (channels = s.channels ∨ e.sender.state = .dropped ∧ channels = s.channels.close t) ∨
        ∃ cmd, e.pushed = some cmd ∧ t ∈ s.channels.registered ∧ channels = s.channels.push t cmd) ∧
      s' = { s with
        channels := channels
        senders := Function.update s.senders t e.sender
        refused := s.refused ++ e.discarded.toList.map fun cmd => (t, cmd) } := by
  obtain ⟨e, he, h⟩ := Option.bind_eq_some_iff.1 h
  obtain ⟨channels, hchannels, rfl⟩ := Option.map_eq_some_iff.1 h
  exact ⟨_, e, channels, Sender.moves_of_step he, Channels.access_cases (Sender.moves_of_step he) hchannels, rfl⟩

private theorem step_exit (h : s.step capacity (.exit t) = some s') : ∃ sender, (s.senders t).beginDrop = some sender ∧
    s' = { s with senders := Function.update s.senders t sender } := by
  simp only [step] at h
  split at h
  · obtain ⟨sender, hsender, rfl⟩ := Option.map_eq_some_iff.1 h
    exact ⟨sender, hsender, rfl⟩
  · cases h

/-! ### Nothing is lost on the way -/

/-- What has been pushed on the rings. -/
def pushed (s : Pipeline T) : List (T × CollectCommand) := s.channels.sent.map fun x => (x.channel, x.body)

open Interleavings in
/-- Every command of a thread is on its ring, refused, held by its sender, or in its outbox. -/
structure Balanced (s : Pipeline T) : Prop where
  wf : s.channels.Wf
  commands : ∀ t, (actionsOf t s.pushed ++ actionsOf t s.refused ++ (s.senders t).held ++ s.outbox t).Perm
    (actionsOf t s.world.sent)

private theorem balanced_init : Balanced (init : Pipeline T) where
  wf := Channels.wf_init
  commands _ := List.Perm.refl _

private theorem pushed_push (s : Pipeline T) (t : T) (cmd : CollectCommand) :
    { s with channels := s.channels.push t cmd }.pushed = s.pushed ++ [(t, cmd)] := by
  simp [pushed, Channels.push, Channels.message]

open Interleavings in
theorem Balanced.step {a : Action T} (h : Balanced s) (hs : s.step capacity a = some s') : Balanced s' := by
  cases a with
  | call t op =>
    obtain ⟨hout, world, cmds, -, hsent, rfl⟩ := step_call hs
    refine ⟨h.wf, fun u => ?_⟩
    have hu := h.commands u
    simp only [hsent, actionsOf_append]
    by_cases heq : u = t
    · subst heq
      rw [hout, List.append_nil] at hu
      rw [Function.update_self, actionsOf_map_self]
      exact hu.append_right cmds
    · rw [Function.update_of_ne heq, actionsOf_map_ne (Ne.symm heq), List.append_nil]
      exact hu
  | send t =>
    obtain ⟨cmd, rest, sender, hout, hsender, rfl⟩ := step_send hs
    obtain ⟨hidle, hcalling, hpending⟩ := Sender.call_eq_some hsender
    refine ⟨h.wf, fun u => ?_⟩
    have hu := h.commands u
    by_cases heq : u = t
    · subst heq
      have hheld : sender.held = (s.senders u).held ++ [cmd] := by
        simp [Sender.held, hidle, hcalling, hpending]
      simp only [Function.update_self, hheld]
      rw [hout] at hu
      simpa [pushed] using hu
    · simp only [Function.update_of_ne heq]
      exact hu
  | push t =>
    obtain ⟨full, e, channels, hmoves, hchannels, rfl⟩ := step_push hs
    have hwf : channels.Wf := by
      rcases hchannels with ⟨-, rfl | ⟨-, rfl⟩⟩ | ⟨cmd, -, ht, rfl⟩
      · exact h.wf
      · exact Channels.wf_moves h.wf (.close t)
      · exact Channels.wf_moves h.wf (.push ht cmd)
    have hpushed : { s with channels := channels }.pushed = s.pushed ++ e.pushed.toList.map fun cmd => (t, cmd) := by
      rcases hchannels with ⟨hnone, rfl | ⟨-, rfl⟩⟩ | ⟨cmd, hsome, -, rfl⟩
      · rw [hnone, Option.toList_none, List.map_nil, List.append_nil]
      · rw [hnone, Option.toList_none, List.map_nil, List.append_nil]
        rfl
      · rw [hsome]
        exact pushed_push s t cmd
    refine ⟨hwf, fun u => ?_⟩
    have hu := h.commands u
    change (actionsOf u { s with channels := channels }.pushed ++ _ ++ _ ++ _).Perm _
    simp only [hpushed, actionsOf_append]
    by_cases heq : u = t
    · subst heq
      simp only [Function.update_self, actionsOf_map_self]
      refine List.Perm.trans (List.Perm.append_right _ ?_) hu
      -- the access moves what the sender holds
      classical
      rw [List.perm_iff_count]
      intro cmd
      have hcount := hmoves.balance.count_eq cmd
      simp only [List.count_append] at hcount ⊢
      omega
    · simp only [Function.update_of_ne heq, actionsOf_map_ne (Ne.symm heq), List.append_nil]
      exact hu
  | exit t =>
    obtain ⟨sender, hsender, rfl⟩ := step_exit hs
    obtain ⟨hidle, hcalling, hpending⟩ := Sender.beginDrop_eq_some hsender
    refine ⟨h.wf, fun u => ?_⟩
    have hu := h.commands u
    by_cases heq : u = t
    · subst heq
      have hheld : sender.held = (s.senders u).held := by simp [Sender.held, hidle, hcalling, hpending]
      simp only [Function.update_self, hheld]
      exact hu
    · simp only [Function.update_of_ne heq]
      exact hu
  | channels l =>
    obtain ⟨channels, hl, rfl⟩ := Option.map_eq_some_iff.1 hs
    refine ⟨Channels.wf_moves h.wf (.step hl), fun u => ?_⟩
    simp only [pushed, Channels.step_sent hl]
    exact h.commands u

private theorem balanced_of_run {as : List (Action T)} (hrun : Steps.run (step capacity) init as = some s) :
    Balanced s :=
  Steps.run_induction (fun _ _ _ h hs => h.step hs) balanced_init hrun

/-! ### The world of a run -/

omit [DecidableEq T] in
private theorem calls_append (as bs : List (Action T)) :
    calls (as ++ bs) = calls as ++ calls bs := List.filterMap_append

/-- The world is that of the calls. -/
private theorem world_of_run {as : List (Action T)} (hrun : Steps.run (step capacity) init as = some s) :
    Steps.run World.step World.init (calls as) = some s.world := by
  refine Steps.history_induction (P := fun as s => Steps.run World.step World.init (calls as) = some s.world) rfl
    (fun as s a s' _ h hs => ?_) hrun
  rw [calls_append]
  cases a with
  | call t op =>
    obtain ⟨-, world, cmds, hw, -, rfl⟩ := step_call hs
    exact Steps.run_step h hw
  | send t =>
    obtain ⟨cmd, rest, sender, -, -, rfl⟩ := step_send hs
    exact (List.append_nil (calls as)).symm ▸ h
  | push t =>
    obtain ⟨full, e, channels, -, -, rfl⟩ := step_push hs
    exact (List.append_nil (calls as)).symm ▸ h
  | exit t =>
    obtain ⟨sender, -, rfl⟩ := step_exit hs
    exact (List.append_nil (calls as)).symm ▸ h
  | channels l =>
    obtain ⟨channels, -, rfl⟩ := Option.map_eq_some_iff.1 hs
    exact (List.append_nil (calls as)).symm ▸ h

/-- What has been pushed or refused has been sent. -/
private theorem Balanced.subperm (h : Balanced s) : (s.pushed ++ s.refused).Subperm s.world.sent := by
  refine Interleavings.subperm_of_actionsOf fun t => ?_
  rw [Interleavings.actionsOf_append, ← (h.commands t).subperm_left, List.append_assoc]
  exact (List.sublist_append_left ..).subperm

/-- Once nothing is on its way, every command has been pushed or refused. -/
private theorem Balanced.perm (h : Balanced s) (hidle : s.Idle) : (s.pushed ++ s.refused).Perm s.world.sent := by
  refine Interleavings.perm_of_actionsOf fun t => ?_
  have ht := h.commands t
  rw [hidle.senders t, hidle.outbox t, List.append_nil, List.append_nil] at ht
  rwa [Interleavings.actionsOf_append]

/-! ### What is refused -/

/-- The sender is not being dropped, and forces just the commits and the cancels. -/
def Serving (sender : Sender CollectCommand) : Prop :=
  match sender.state with
  | .idle => True
  | .flush cmd force => force = cmd.forced
  | .push cmd force => force = cmd.forced
  | .drop => False
  | .dropped => False

/-- A sender discards only what it need not force. -/
private theorem Serving.moves {full : Bool} {sender : Sender CollectCommand} {e : SenderStep CollectCommand}
    (h : Serving sender) (hmoves : Sender.Moves full sender e) :
    Serving e.sender ∧ ∀ cmd, e.discarded = some cmd → cmd.forced = false := by
  cases hmoves with
  | flushed => exact ⟨h, fun cmd hcmd => by cases hcmd⟩
  | pushPending => exact ⟨h, fun cmd hcmd => by cases hcmd⟩
  | refuse => exact ⟨trivial, fun cmd hcmd => by cases hcmd; exact h.symm⟩
  | leave => exact ⟨h, fun cmd hcmd => by cases hcmd⟩
  | pushNew => exact ⟨trivial, fun cmd hcmd => by cases hcmd⟩
  | reject => exact ⟨trivial, fun cmd hcmd => by cases hcmd; exact h.symm⟩
  | keep => exact ⟨trivial, fun cmd hcmd => by cases hcmd⟩
  | dropPush => exact h.elim
  | dropDiscard => exact h.elim
  | dropped => exact h.elim

/-- Unless a thread exits, no commit and no cancel is refused, and no channel closed. -/
private theorem refused_of_run {as : List (Action T)} (hrun : Steps.run (step capacity) init as = some s)
    (hexit : ∀ t, .exit t ∉ as) : (∀ p ∈ s.refused, p.2.forced = false) ∧ s.channels.closed = [] := by
  have hserving : (∀ t, Serving (s.senders t)) ∧ (∀ p ∈ s.refused, p.2.forced = false) ∧ s.channels.closed = [] := by
    have hmeet : Steps.Meet (step capacity) (fun _ a => True ∧ ∀ t, a ≠ .exit t) init as :=
      (Steps.meet_true init as).and_mem fun a ha t heq => hexit t (heq ▸ ha)
    have hinit : (∀ t, Serving ((init : Pipeline T).senders t)) ∧
        (∀ p ∈ (init : Pipeline T).refused, p.2.forced = false) ∧ (init : Pipeline T).channels.closed = [] :=
      ⟨fun t => trivial, ⟨fun p hp => (List.not_mem_nil hp).elim, rfl⟩⟩
    refine Steps.meet_induction
      (P := fun s : Pipeline T => (∀ t, Serving (s.senders t)) ∧ (∀ p ∈ s.refused, p.2.forced = false) ∧
        s.channels.closed = [])
      (fun s a s' h hno hs => ?_) hinit hmeet hrun
    obtain ⟨hserving, hrefused, hclosed⟩ := h
    cases a with
    | call t op =>
      obtain ⟨-, world, cmds, -, -, rfl⟩ := step_call hs
      exact ⟨hserving, hrefused, hclosed⟩
    | send t =>
      obtain ⟨cmd, rest, sender, -, hsender, rfl⟩ := step_send hs
      obtain ⟨-, rfl⟩ := Sender.call_cases hsender
      exact ⟨update_forall hserving t rfl, hrefused, hclosed⟩
    | push t =>
      obtain ⟨full, e, channels, hmoves, hchannels, rfl⟩ := step_push hs
      obtain ⟨hafter, hdiscarded⟩ := (hserving t).moves hmoves
      refine ⟨update_forall hserving t hafter, fun p hp => ?_, ?_⟩
      · rcases List.mem_append.1 hp with hp | hp
        · exact hrefused p hp
        · obtain ⟨cmd, hcmd, rfl⟩ := List.mem_map.1 hp
          exact hdiscarded cmd (Option.mem_toList.1 hcmd)
      · rcases hchannels with ⟨-, rfl | ⟨hdropped, -⟩⟩ | ⟨cmd, -, -, rfl⟩
        · exact hclosed
        · rw [Serving, hdropped] at hafter
          exact hafter.elim
        · exact hclosed
    | exit t => exact absurd rfl (hno.2 t)
    | channels l =>
      obtain ⟨channels, hl, rfl⟩ := Option.map_eq_some_iff.1 hs
      exact ⟨hserving, hrefused, (Channels.step_frame hl).2.trans hclosed⟩
  exact hserving.2

/-! ### Reports -/

omit [DecidableEq T] in
/-- Drained channels have handed over what was pushed and not lost. -/
private theorem received_of_idle {channels : Channels T CollectCommand} {rounds : List Round}
    (hrounds : RoundsOf rounds channels) (hwf : channels.Wf) (hremaining : channels.remaining = none)
    (hempty : ∀ t ∈ channels.registered, channels.queue t = []) :
    (received rounds ++ channels.lost.map Message.body).Perm (channels.sent.map Message.body) := by
  have hrec : received rounds = channels.batches.flatten.map Message.body := by
    rw [received, List.flatMap_def, hrounds, List.map_flatten]
  have hconserved := hwf.conserved
  rw [List.flatMap_eq_nil_iff.2 hempty, hwf.idle hremaining, List.nil_append, List.nil_append] at hconserved
  rw [hrec, ← List.map_append]
  exact hconserved.map _

/-- For every program whose threads drop in order what they make, whatever happens between its calls, the accesses to
the rings and the drains: at any time what has been reported of a collection is part of what the calls mean, and once
nothing is on its way, what has been reported and what the refused submissions, and those lost with removed channels,
ask for are together what they mean.  Unless threads exit, only starts and submissions are refused and nothing is lost
with a channel. -/
theorem reported_or_refused {as : List (Action T)} (hrun : Steps.run (step capacity) init as = some s)
    (hids : default ∉ drawnIds (calls as)) (hnested : Nested (calls as)) {rounds : List Round}
    (hrounds : RoundsOf rounds s.channels) (c : CollectId) :
    ((reportedFor false c rounds).flatten.map SpanRecord.key).Subperm
        (ownedBy c (Lexical.run (calls as)).submitted) ∧
      (s.Idle → ((reportedFor false c rounds).flatten.map SpanRecord.key ++
          keysFor c (submitSpans (s.refused.map Prod.snd ++ s.channels.lost.map Message.body))).Perm
        (ownedBy c (Lexical.run (calls as)).submitted)) ∧
      ((∀ t, .exit t ∉ as) → (∀ p ∈ s.refused, p.2.forced = false) ∧ s.channels.lost = []) := by
  have hbalanced := balanced_of_run hrun
  have hworld := world_of_run hrun
  have hagrees : Agrees s.world (Lexical.run (calls as)) :=
    Agrees.init.run (ordered_of_nested hworld hids hnested) hids hworld
  rw [← hagrees.submitted, ownedBy_asked, reportedFor_false_keys, keysFor_itemsFor]
  have hpushed : s.pushed.map Prod.snd = s.channels.sent.map Message.body := by
    simp [pushed, Function.comp_def]
  refine ⟨?_, fun hidle => ?_, fun hexit => (refused_of_run hrun hexit).imp_right hbalanced.wf.unlost⟩
  · have hsub : (received rounds).Subperm s.world.commands := by
      have hall := subperm_map hbalanced.subperm Prod.snd
      rw [List.map_append, hpushed] at hall
      exact (hrounds.subperm hbalanced.wf).trans ((List.sublist_append_left ..).subperm.trans hall)
    exact subperm_flatMap (subperm_submitSpans hsub) _
  · have hall : (received rounds ++ (s.refused.map Prod.snd ++ s.channels.lost.map Message.body)).Perm
        s.world.commands := by
      have hperm := (hbalanced.perm hidle).map Prod.snd
      rw [List.map_append, hpushed] at hperm
      have hreceived := received_of_idle hrounds hbalanced.wf hidle.channels.1 hidle.channels.2
      refine (List.Perm.append_left _ List.perm_append_comm).trans ?_
      rw [← List.append_assoc]
      exact (hreceived.append_right _).trans hperm
    rw [← keysFor_append, submitSpans, submitSpans, ← List.filterMap_append]
    exact (hall.filterMap _).flatMap_right _

/-- With rings of one slot: the submission of the child finds the ring full, that of the other child is lost with the
channel of its thread, and the root is received. -/
def crampedRun : List (Action Nat) := [
  .channels (.register 1), .channels (.register 0),
  .call 0 .setReporter,
  .call 0 (.root 0 "root" ⟨⟨1⟩, ⟨9⟩, true⟩ ⟨1⟩ ⟨10⟩),
  .send 0, .push 0, .push 0,
  .call 0 (.enterWithParent 1 "child" 0 ⟨2⟩ ⟨11⟩),
  .call 1 (.enterWithParent 2 "other child" 0 ⟨3⟩ ⟨11⟩),
  .call 0 (.dropSpan 1 ⟨12⟩),
  .send 0, .push 0, .push 0,
  .channels .begin, .channels .next,
  .call 1 (.dropSpan 2 ⟨12⟩),
  .send 1, .push 1, .push 1, .exit 1, .push 1,
  .channels .remove, .channels .recv,
  .call 0 (.dropSpan 0 ⟨13⟩),
  .send 0, .push 0, .push 0, .channels .recv,
  .send 0, .push 0, .push 0, .channels .recv,
  .channels .next, .channels .finish]

def cramped : Pipeline Nat := (Steps.run (step 1) init crampedRun).getD init

def crampedRounds : List Round :=
  cramped.channels.batches.map fun batch => ⟨batch.map Message.body, fun i => i.ticks, .stored⟩

theorem reported_or_refused_cramped :
    ((reportedFor false 0 crampedRounds).flatten.map SpanRecord.key = [⟨⟨1⟩, ⟨1⟩, ⟨9⟩⟩] ∧
      keysFor 0 (submitSpans (cramped.refused.map Prod.snd)) = [⟨⟨1⟩, ⟨2⟩, ⟨1⟩⟩] ∧
      keysFor 0 (submitSpans (cramped.channels.lost.map Message.body)) = [⟨⟨1⟩, ⟨3⟩, ⟨1⟩⟩]) ∧
      ((reportedFor false 0 crampedRounds).flatten.map SpanRecord.key ++
          keysFor 0 (submitSpans (cramped.refused.map Prod.snd ++ cramped.channels.lost.map Message.body))).Perm
        (ownedBy 0 (Lexical.run (calls crampedRun)).submitted) := by
  have hrounds : RoundsOf crampedRounds cramped.channels := by
    simp [RoundsOf, crampedRounds, Function.comp_def]
  have hidle : cramped.Idle := by
    refine ⟨fun t => ?_, fun t => ?_, rfl, by decide⟩
    · rcases t with _ | _ | t <;> rfl
    · rcases t with _ | _ | t <;> rfl
  have hrun : Steps.run (step 1) init crampedRun = some cramped := rfl
  have hreported := reported_or_refused hrun (by decide) (by decide) hrounds 0
  exact ⟨⟨by decide, by decide, by decide⟩, hreported.2.1 hidle⟩

end Pipeline

end Fastrace
