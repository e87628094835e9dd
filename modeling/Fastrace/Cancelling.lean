import Fastrace.Spsc
import Fastrace.Tearing

/-!
# Cancelling a trace

Threads that send through bounded rings.  `Span::cancel` sends a `DropCollect` with `force_send`; a collector with
`cancelable` then reports nothing for the trace, provided that the `DropCollect` is handled in no earlier call than
the start and in no later call than the commit.  Three things can break this.  The drain may tear the cancel from the
start or the commit from the cancel; while its ring is full the `DropCollect` is only pending, and the commit may
overtake it, on another thread or, since pending messages are sent last one first, on the same one; and the channel of
a thread that exits may be removed with the `DropCollect` in it.  Otherwise the cancel is effective
(`cancel_effective`).
-/

/-- The channels after an access of the sender of `t` to its ring; a sender that is gone has abandoned its ring. -/
def Channels.access {T M : Type} [DecidableEq T] (s : Channels T M) (t : T) (e : Fastrace.SenderStep M) :
    Option (Channels T M) :=
  (match e.pushed with
    | some m => s.send t m
    | none => some s).map fun (after : Channels T M) =>
      match e.sender.state with
      | .dropped => after.close t
      | _ => after

/-- An access pushes on the ring, or leaves the channels as they are but for closing that of the sender. -/
theorem Channels.access_cases {T M : Type} [DecidableEq T] {s s' : Channels T M} {t : T} {full : Bool}
    {sender : Fastrace.Sender M} {e : Fastrace.SenderStep M} (he : sender.Moves full e)
    (h : s.access t e = some s') : e.pushed = none ∧ (s' = s ∨ e.sender.state = .dropped ∧ s' = s.close t) ∨
      ∃ m, e.pushed = some m ∧ t ∈ s.registered ∧ s' = s.push t m := by
  obtain ⟨s₁, hs₁, rfl⟩ := Option.map_eq_some_iff.1 h
  cases he with
  | pushPending => obtain ⟨ht, rfl⟩ := Channels.send_eq_some hs₁; exact Or.inr ⟨_, rfl, ht, rfl⟩
  | pushNew => obtain ⟨ht, rfl⟩ := Channels.send_eq_some hs₁; exact Or.inr ⟨_, rfl, ht, rfl⟩
  | dropPush => obtain ⟨ht, rfl⟩ := Channels.send_eq_some hs₁; exact Or.inr ⟨_, rfl, ht, rfl⟩
  | dropped => cases hs₁; exact Or.inl ⟨rfl, Or.inr ⟨rfl, rfl⟩⟩
  | _ => cases hs₁; exact Or.inl ⟨rfl, Or.inl rfl⟩

namespace Fastrace

structure Threads (T : Type) where
  channels : Channels T CollectCommand
  senders : T → Sender CollectCommand
  nextCollectId : CollectId
  /-- The sampled roots whose `start_collect` has returned and that have not been dropped yet. -/
  roots : List CollectId

namespace Threads

variable {T : Type}

def init : Threads T where
  channels := Channels.init
  senders := fun _ => {}
  nextCollectId := 0
  roots := []

inductive Action (T : Type) where
  | startCollect (t : T)
  | submitSpans (t : T) (spans : SpanSet) (collectToken : CollectToken)
  | dropCollect (t : T) (collectId : CollectId)
  | commitCollect (t : T) (collectId : CollectId)
  | exit (t : T)
  /-- The next access of the sender of `t` to its ring. -/
  | send (t : T)
  | channels (l : Channels.Label T)
deriving DecidableEq, Repr

variable [DecidableEq T]

def call (s : Threads T) (t : T) (cmd : CollectCommand) (force : Bool) : Option (Threads T) :=
  if t ∈ s.channels.registered then
    ((s.senders t).call cmd force).map fun sender => { s with senders := Function.update s.senders t sender }
  else none

/-- The next step of the sender of `t`, on a ring of the given capacity. -/
def senderStep (capacity : Nat) (s : Threads T) (t : T) : Option (SenderStep CollectCommand) :=
  (s.senders t).step (decide (capacity ≤ (s.channels.queue t).length))

/-- The root whose `start_collect` returns with a step of its sender. -/
def startedRoot (before after : Sender CollectCommand) : List CollectId :=
  match before.calling, after.calling with
  | some (.startCollect collectId, _), none => [collectId]
  | _, _ => []

def step (capacity : Nat) (s : Threads T) : Action T → Option (Threads T)
  | .startCollect t =>
    (s.call t (.startCollect s.nextCollectId) false).map fun s' => { s' with nextCollectId := s.nextCollectId + 1 }
  | .submitSpans t spans collectToken =>
    if (retainSampled collectToken).isEmpty then some s
    else s.call t (.submitSpans ⟨spans, retainSampled collectToken⟩) false
  | .dropCollect t collectId => if collectId ∈ s.roots then s.call t (.dropCollect collectId) true else none
  | .commitCollect t collectId =>
    if collectId ∈ s.roots then
      (s.call t (.commitCollect collectId) true).map fun s' => { s' with roots := s.roots.erase collectId }
    else none
  | .exit t => (s.senders t).beginDrop.map fun sender => { s with senders := Function.update s.senders t sender }
  | .send t =>
    (s.senderStep capacity t).bind fun e =>
      (s.channels.access t e).map fun channels =>
        { s with
          channels := channels
          senders := Function.update s.senders t e.sender
          roots := s.roots ++ startedRoot (s.senders t) e.sender }
  | .channels l => (s.channels.step l).map fun channels => { s with channels := channels }

/-- The command that the next step of the sender of `t` pushes on its ring. -/
def pushes (capacity : Nat) (s : Threads T) (t : T) : Option CollectCommand :=
  (s.senderStep capacity t).bind SenderStep.pushed

/-! ### What a step does -/

private theorem call_eq_some {s s' : Threads T} {t : T} {cmd : CollectCommand} {force : Bool}
    (h : s.call t cmd force = some s') : ∃ sender, (s.senders t).call cmd force = some sender ∧
      s' = { s with senders := Function.update s.senders t sender } := by
  unfold call at h
  split at h
  · obtain ⟨sender, hs, rfl⟩ := Option.map_eq_some_iff.1 h
    exact ⟨sender, hs, rfl⟩
  · cases h

private theorem step_startCollect {capacity : Nat} {s s' : Threads T} {t : T}
    (h : s.step capacity (.startCollect t) = some s') : ∃ sender,
      (s.senders t).call (.startCollect s.nextCollectId) false = some sender ∧
        s' = { s with
          senders := Function.update s.senders t sender
          nextCollectId := s.nextCollectId + 1 } := by
  obtain ⟨s₁, h₁, rfl⟩ := Option.map_eq_some_iff.1 h
  obtain ⟨sender, hs, rfl⟩ := call_eq_some h₁
  exact ⟨sender, hs, rfl⟩

private theorem step_submitSpans {capacity : Nat} {s s' : Threads T} {t : T} {spans : SpanSet}
    {collectToken : CollectToken}
    (h : s.step capacity (.submitSpans t spans collectToken) = some s') : s' = s ∨ ∃ sender,
      (s.senders t).call (.submitSpans ⟨spans, retainSampled collectToken⟩) false = some sender ∧
        s' = { s with senders := Function.update s.senders t sender } := by
  simp only [step] at h
  split at h
  · cases h; exact Or.inl rfl
  · exact Or.inr (call_eq_some h)

private theorem step_dropCollect {capacity : Nat} {s s' : Threads T} {t : T} {c : CollectId}
    (h : s.step capacity (.dropCollect t c) = some s') : c ∈ s.roots ∧ ∃ sender,
      (s.senders t).call (.dropCollect c) true = some sender ∧
        s' = { s with senders := Function.update s.senders t sender } := by
  simp only [step] at h
  split at h
  · exact ⟨‹_›, call_eq_some h⟩
  · cases h

private theorem step_commitCollect {capacity : Nat} {s s' : Threads T} {t : T} {c : CollectId}
    (h : s.step capacity (.commitCollect t c) = some s') : c ∈ s.roots ∧ ∃ sender,
      (s.senders t).call (.commitCollect c) true = some sender ∧
        s' = { s with senders := Function.update s.senders t sender, roots := s.roots.erase c } := by
  simp only [step] at h
  split at h
  · obtain ⟨s₁, h₁, rfl⟩ := Option.map_eq_some_iff.1 h
    obtain ⟨sender, hs, rfl⟩ := call_eq_some h₁
    exact ⟨‹_›, sender, hs, rfl⟩
  · cases h

private theorem step_exit {capacity : Nat} {s s' : Threads T} {t : T} (h : s.step capacity (.exit t) = some s') :
    ∃ sender, (s.senders t).beginDrop = some sender ∧
      s' = { s with senders := Function.update s.senders t sender } := by
  obtain ⟨sender, hs, rfl⟩ := Option.map_eq_some_iff.1 h
  exact ⟨sender, hs, rfl⟩

private theorem step_send {capacity : Nat} {s s' : Threads T} {t : T} (h : s.step capacity (.send t) = some s') :
    ∃ e, s.senderStep capacity t = some e ∧
      s'.senders = Function.update s.senders t e.sender ∧ s'.nextCollectId = s.nextCollectId ∧
      s'.roots = s.roots ++ startedRoot (s.senders t) e.sender ∧
      (e.pushed = none ∧ (s'.channels = s.channels ∨ s'.channels = s.channels.close t) ∨
        ∃ cmd, e.pushed = some cmd ∧ t ∈ s.channels.registered ∧ s'.channels = s.channels.push t cmd) := by
  obtain ⟨e, he, h₁⟩ := Option.bind_eq_some_iff.1 h
  obtain ⟨channels, hc, rfl⟩ := Option.map_eq_some_iff.1 h₁
  refine ⟨e, he, rfl, rfl, rfl, (Channels.access_cases (Sender.moves_of_step he) hc).imp (And.imp_right ?_) id⟩
  exact Or.imp id And.right

/-! ### The invariant -/

def commands (s : Threads T) : List CollectCommand := s.channels.sent.map Message.body

/-- The message is pending or that of the running call. -/
def Holds (sender : Sender CollectCommand) (cmd : CollectCommand) : Prop :=
  cmd ∈ sender.pendingMessages ∨ ∃ force, sender.calling = some (cmd, force)

/-- The start of `c` is over, or a cancel of `c` has begun. -/
def Known (s : Threads T) (c : CollectId) : Prop :=
  c ∈ s.roots ∨ .startCollect c ∈ s.commands ∨ .dropCollect c ∈ s.commands ∨ ∃ t, Holds (s.senders t) (.dropCollect c)

/-- The sender of `t` is in the `start_collect` of `c`. -/
def Starting (s : Threads T) (t : T) (c : CollectId) : Prop := (s.senders t).calling = some (.startCollect c, false)

/-- A start is sent once, by one thread, and a cancel can only follow it. -/
structure Inv (s : Threads T) : Prop where
  wf : s.channels.Wf
  notPending : ∀ t c, .startCollect c ∉ (s.senders t).pendingMessages
  notForced : ∀ t c, (s.senders t).calling ≠ some (.startCollect c, true)
  known : ∀ c, s.Known c → c < s.nextCollectId
  starting : ∀ t c, s.Starting t c → c < s.nextCollectId ∧ ¬s.Known c ∧ ∀ t', s.Starting t' c → t' = t
  startOnce : ∀ c, s.commands.count (.startCollect c) ≤ 1

omit [DecidableEq T] in
private theorem inv_init : Inv (init : Threads T) where
  wf := Channels.wf_init
  notPending _ _ h := by cases h
  notForced _ _ h := by cases h
  known c h := by
    rcases h with h | h | h | ⟨t, h | ⟨force, h⟩⟩ <;> cases h
  starting _ _ h := by cases h
  startOnce _ := Nat.zero_le _

/-- A step of one sender keeps the invariant when it begins no start, and makes known at most the root whose start it
ends. -/
private theorem Inv.update {s s' : Threads T} {t : T} {sender : Sender CollectCommand} (h : Inv s)
    (hwf : s'.channels.Wf) (hsenders : s'.senders = Function.update s.senders t sender)
    (hnext : s'.nextCollectId = s.nextCollectId)
    (hpending : ∀ c, .startCollect c ∉ sender.pendingMessages)
    (hcalling : ∀ c force, sender.calling = some (.startCollect c, force) →
      (s.senders t).calling = some (.startCollect c, force))
    (hknown : ∀ c, s'.Known c → s.Known c ∨ s.Starting t c ∧ sender.calling = none)
    (honce : ∀ c, s'.commands.count (.startCollect c) ≤ 1) : Inv s' := by
  have hback : ∀ t' c force, (s'.senders t').calling = some (.startCollect c, force) →
      (s.senders t').calling = some (.startCollect c, force) := by
    intro t' c force hc
    by_cases he : t' = t
    · subst he
      rw [hsenders, Function.update_self] at hc
      exact hcalling c force hc
    · rwa [hsenders, Function.update_of_ne he] at hc
  refine ⟨hwf, fun t' c hc => ?_, fun t' c hc => ?_, fun c hc => ?_, fun t' c hc => ?_, honce⟩
  · by_cases he : t' = t
    · subst he
      rw [hsenders, Function.update_self] at hc
      exact hpending c hc
    · rw [hsenders, Function.update_of_ne he] at hc
      exact h.notPending t' c hc
  · exact h.notForced t' c (hback t' c true hc)
  · rw [hnext]
    rcases hknown c hc with hold | ⟨hstart, -⟩
    · exact h.known c hold
    · exact (h.starting t c hstart).1
  · obtain ⟨hlt, hnot, huniq⟩ := h.starting t' c (hback t' c false hc)
    refine ⟨hnext ▸ hlt, fun hk => ?_, fun t'' ht'' => huniq t'' (hback t'' c false ht'')⟩
    rcases hknown c hk with hold | ⟨hstart, hended⟩
    · exact hnot hold
    · -- the thread whose start has ended is not the one that is still starting
      have he := huniq t hstart
      subst he
      rw [Starting, hsenders, Function.update_self, hended] at hc
      cases hc

omit [DecidableEq T] in
private theorem holds_update {s : Threads T} {senders : T → Sender CollectCommand} {t : T}
    {sender : Sender CollectCommand} {cmd : CollectCommand} [DecidableEq T]
    (hsenders : senders = Function.update s.senders t sender) (h : ∃ t', Holds (senders t') cmd) :
    (∃ t', Holds (s.senders t') cmd) ∨ Holds sender cmd := by
  obtain ⟨t', ht'⟩ := h
  rw [hsenders] at ht'
  by_cases he : t' = t
  · subst he
    rw [Function.update_self] at ht'
    exact Or.inr ht'
  · rw [Function.update_of_ne he] at ht'
    exact Or.inl ⟨t', ht'⟩

/-- A step of a sender that pushes nothing makes a root known only by beginning a cancel of it. -/
private theorem known_of_update {s s' : Threads T} {t : T} {sender : Sender CollectCommand} {c : CollectId}
    (hc : s'.Known c) (hsenders : s'.senders = Function.update s.senders t sender)
    (hchannels : s'.channels = s.channels) (hroots : c ∈ s'.roots → c ∈ s.roots)
    (hpending : sender.pendingMessages = (s.senders t).pendingMessages)
    (hcalling : ∀ force, sender.calling = some (.dropCollect c, force) → s.Known c) : s.Known c := by
  have hcommands : s'.commands = s.commands := by
    rw [commands, hchannels]
    rfl
  rcases hc with hc | hc | hc | hc
  · exact Or.inl (hroots hc)
  · exact Or.inr (Or.inl (hcommands ▸ hc))
  · exact Or.inr (Or.inr (Or.inl (hcommands ▸ hc)))
  · rcases holds_update hsenders hc with hold | hnew | ⟨force, hnew⟩
    · exact Or.inr (Or.inr (Or.inr hold))
    · exact Or.inr (Or.inr (Or.inr ⟨t, Or.inl (hpending ▸ hnew)⟩))
    · exact hcalling force hnew

/-- A call that is no start keeps the invariant; a cancel is called for a known root only. -/
private theorem Inv.call {s : Threads T} (h : Inv s) {t : T} {sender : Sender CollectCommand} {cmd : CollectCommand}
    {force : Bool} (hcall : (s.senders t).call cmd force = some sender) (hstart : ∀ c, cmd ≠ .startCollect c)
    (hdrop : ∀ c, cmd = .dropCollect c → c ∈ s.roots) {roots : List CollectId} (hroots : ∀ c ∈ roots, c ∈ s.roots) :
    Inv { s with senders := Function.update s.senders t sender, roots := roots } := by
  obtain ⟨-, hcalling, hpending⟩ := Sender.call_eq_some hcall
  refine h.update h.wf rfl rfl ?_ ?_ ?_ h.startOnce
  · exact fun c => hpending ▸ h.notPending t c
  · intro c f hc
    rw [hcalling] at hc
    cases hc
    exact absurd rfl (hstart c)
  · intro c hc
    refine Or.inl (known_of_update hc rfl rfl (hroots c) hpending fun f hnew => ?_)
    rw [hcalling] at hnew
    cases hnew
    exact Or.inl (hdrop c rfl)

private theorem Inv.start {s : Threads T} (h : Inv s) {t : T} {sender : Sender CollectCommand}
    (hcall : (s.senders t).call (.startCollect s.nextCollectId) false = some sender) :
    Inv { s with senders := Function.update s.senders t sender, nextCollectId := s.nextCollectId + 1 } := by
  obtain ⟨-, hcalling, hpending⟩ := Sender.call_eq_some hcall
  set s' : Threads T :=
    { s with senders := Function.update s.senders t sender, nextCollectId := s.nextCollectId + 1 } with hs'
  have hself : s'.senders t = sender := Function.update_self ..
  have hother : ∀ t', t' ≠ t → s'.senders t' = s.senders t' := fun t' he => Function.update_of_ne he ..
  have hknown : ∀ c, s'.Known c → s.Known c := by
    intro c hc
    refine known_of_update hc rfl rfl id hpending fun f hnew => ?_
    rw [hcalling] at hnew
    cases hnew
  -- the thread that begins a start begins that of the fresh id
  have hstarting : ∀ t' c, s'.Starting t' c → t' = t ∧ c = s.nextCollectId ∨ t' ≠ t ∧ s.Starting t' c := by
    intro t' c hc
    by_cases he : t' = t
    · subst he
      rw [Starting, hself, hcalling] at hc
      cases hc
      exact Or.inl ⟨rfl, rfl⟩
    · rw [Starting, hother t' he] at hc
      exact Or.inr ⟨he, hc⟩
  refine ⟨h.wf, fun t' c hc => ?_, fun t' c hc => ?_, fun c hc => ?_, fun t' c hc => ?_, h.startOnce⟩
  · by_cases he : t' = t
    · subst he
      rw [hself, hpending] at hc
      exact h.notPending t' c hc
    · rw [hother t' he] at hc
      exact h.notPending t' c hc
  · by_cases he : t' = t
    · subst he
      rw [hself, hcalling] at hc
      cases hc
    · rw [hother t' he] at hc
      exact h.notForced t' c hc
  · exact Nat.lt_succ_of_lt (h.known c (hknown c hc))
  · rcases hstarting t' c hc with ⟨rfl, rfl⟩ | ⟨he, hold⟩
    · refine ⟨Nat.lt_succ_self _, fun hk => Nat.lt_irrefl _ (h.known _ (hknown _ hk)), fun t'' ht'' => ?_⟩
      rcases hstarting t'' _ ht'' with ⟨rfl, -⟩ | ⟨-, hold⟩
      · rfl
      · exact absurd (h.starting t'' _ hold).1 (Nat.lt_irrefl _)
    · obtain ⟨hlt, hnot, huniq⟩ := h.starting t' c hold
      refine ⟨Nat.lt_succ_of_lt hlt, fun hk => hnot (hknown c hk), fun t'' ht'' => ?_⟩
      rcases hstarting t'' _ ht'' with ⟨-, rfl⟩ | ⟨-, hold''⟩
      · exact absurd hlt (Nat.lt_irrefl _)
      · exact huniq t'' hold''

private theorem Inv.exit {s : Threads T} (h : Inv s) {t : T} {sender : Sender CollectCommand}
    (hdrop : (s.senders t).beginDrop = some sender) :
    Inv { s with senders := Function.update s.senders t sender } := by
  obtain ⟨-, hcalling, hpending⟩ := Sender.beginDrop_eq_some hdrop
  refine h.update h.wf rfl rfl (fun c => hpending ▸ h.notPending t c) (fun c f hc => ?_) (fun c hc => ?_) h.startOnce
  · rw [hcalling] at hc
    cases hc
  · refine Or.inl (known_of_update hc rfl rfl id hpending fun f hnew => ?_)
    rw [hcalling] at hnew
    cases hnew

private theorem Inv.channels {s : Threads T} (h : Inv s) {l : Channels.Label T}
    {channels : Channels T CollectCommand} (hl : s.channels.step l = some channels) :
    Inv { s with channels := channels } := by
  have hcommands : ({ s with channels := channels } : Threads T).commands = s.commands := by
    rw [commands, Channels.step_sent hl]; rfl
  have hknown : ∀ c, ({ s with channels := channels } : Threads T).Known c ↔ s.Known c := by
    intro c
    unfold Known
    rw [hcommands]
  refine ⟨Channels.wf_moves h.wf (.step hl), h.notPending, h.notForced, fun c hc => ?_, fun t c hc => ?_, fun c => ?_⟩
  · exact h.known c ((hknown c).1 hc)
  · obtain ⟨hlt, hnot, huniq⟩ := h.starting t c hc
    exact ⟨hlt, fun hk => hnot ((hknown c).1 hk), huniq⟩
  · rw [hcommands]
    exact h.startOnce c

private theorem mem_startedRoot {before after : Sender CollectCommand} {c : CollectId}
    (h : c ∈ startedRoot before after) :
    (∃ force, before.calling = some (.startCollect c, force)) ∧ after.calling = none := by
  unfold startedRoot at h
  split at h
  · rename_i id force hb ha
    rw [List.mem_singleton] at h
    subst h
    exact ⟨⟨force, hb⟩, ha⟩
  · cases h

private theorem Inv.send {capacity : Nat} {s s' : Threads T} (h : Inv s) {t : T}
    (hs : s.step capacity (.send t) = some s') : Inv s' := by
  obtain ⟨e, he, hsenders, hnext, hroots, hpush⟩ := step_send hs
  obtain ⟨hcalling, hpending, hpushed⟩ := Sender.step_spec he
  have hstarting : ∀ c force, (s.senders t).calling = some (.startCollect c, force) → s.Starting t c := by
    intro c force hc
    cases force with
    | false => exact hc
    | true => exact absurd hc (h.notForced t c)
  -- a start is pushed by the step that ends its call
  have hstart : ∀ c, e.pushed = some (.startCollect c) → s.Starting t c ∧ e.sender.calling = none := by
    intro c hc
    rcases hpushed _ hc with hp | ⟨⟨force, hf⟩, hend⟩
    · exact absurd hp (h.notPending t c)
    · exact ⟨hstarting c force hf, hend⟩
  have hsent : s'.commands = s.commands ++ e.pushed.toList := by
    rcases hpush with ⟨hp, hc | hc⟩ | ⟨cmd, hp, -, hc⟩
    · rw [commands, hc, hp]
      exact (List.append_nil _).symm
    · rw [commands, hc, hp]
      exact (List.append_nil _).symm
    · rw [commands, hc, hp]
      exact List.map_append
  have hcommands : ∀ cmd ∈ s'.commands, cmd ∈ s.commands ∨ e.pushed = some cmd := by
    intro cmd hcmd
    rwa [hsent, List.mem_append, Option.mem_toList] at hcmd
  refine h.update (Channels.wf_moves h.wf ?_) hsenders hnext (fun c hc => ?_) (fun c force hc => ?_) ?_ (fun c => ?_)
  · rcases hpush with ⟨-, hc | hc⟩ | ⟨cmd, -, ht, hc⟩
    · rw [hc]; exact .stay
    · rw [hc]; exact .close t
    · rw [hc]; exact .push ht cmd
  · rcases hpending _ hc with hp | ⟨hf, -⟩
    · exact h.notPending t c hp
    · exact h.notForced t c hf
  · rcases hcalling with hsame | hnone
    · rwa [hsame] at hc
    · rw [hnone] at hc; cases hc
  · rintro c (hc | hc | hc | hc)
    · rw [hroots] at hc
      rcases List.mem_append.1 hc with hc | hc
      · exact Or.inl (Or.inl hc)
      · obtain ⟨⟨force, hf⟩, hend⟩ := mem_startedRoot hc
        exact Or.inr ⟨hstarting c force hf, hend⟩
    · rcases hcommands _ hc with hc | hc
      · exact Or.inl (Or.inr (Or.inl hc))
      · exact Or.inr (hstart c hc)
    · rcases hcommands _ hc with hc | hc
      · exact Or.inl (Or.inr (Or.inr (Or.inl hc)))
      · refine Or.inl (Or.inr (Or.inr (Or.inr ⟨t, ?_⟩)))
        exact (hpushed _ hc).imp id fun hp => hp.1
    · refine Or.inl (Or.inr (Or.inr (Or.inr ?_)))
      rcases holds_update hsenders hc with hold | hnew | ⟨force, hnew⟩
      · exact hold
      · rcases hpending _ hnew with hp | ⟨hf, -⟩
        · exact ⟨t, Or.inl hp⟩
        · exact ⟨t, Or.inr ⟨true, hf⟩⟩
      · rcases hcalling with hsame | hnone
        · exact ⟨t, Or.inr ⟨force, hsame ▸ hnew⟩⟩
        · rw [hnone] at hnew; cases hnew
  · rw [hsent, List.count_append]
    by_cases heq : e.pushed = some (.startCollect c)
    · -- a start that is being sent has not been sent before
      have hnot : .startCollect c ∉ s.commands := fun hm =>
        (h.starting t c (hstart c heq).1).2.1 (Or.inr (Or.inl hm))
      rw [heq, Option.toList_some, List.count_eq_zero.2 hnot, List.count_singleton_self]
    · have hzero : e.pushed.toList.count (.startCollect c) = 0 := by
        rw [List.count_eq_zero, Option.mem_toList]
        exact heq
      rw [hzero]
      exact h.startOnce c

private theorem inv_step {capacity : Nat} {s s' : Threads T} {a : Action T} (h : Inv s)
    (hs : s.step capacity a = some s') : Inv s' := by
  cases a with
  | startCollect t =>
    obtain ⟨sender, hcall, rfl⟩ := step_startCollect hs
    exact h.start hcall
  | submitSpans t spans token =>
    rcases step_submitSpans hs with rfl | ⟨sender, hcall, rfl⟩
    · exact h
    · exact h.call hcall (by rintro c ⟨⟩) (by rintro c ⟨⟩) fun c hc => hc
  | dropCollect t c =>
    obtain ⟨hroot, sender, hcall, rfl⟩ := step_dropCollect hs
    exact h.call hcall (by rintro c ⟨⟩) (by rintro c' ⟨⟩; exact hroot) fun c hc => hc
  | commitCollect t c =>
    obtain ⟨-, sender, hcall, rfl⟩ := step_commitCollect hs
    exact h.call hcall (by rintro c ⟨⟩) (by rintro c ⟨⟩) fun c' hc => List.mem_of_mem_erase hc
  | exit t =>
    obtain ⟨sender, hdrop, rfl⟩ := step_exit hs
    exact h.exit hdrop
  | send t => exact h.send hs
  | channels l =>
    obtain ⟨channels, hl, rfl⟩ := Option.map_eq_some_iff.1 hs
    exact h.channels hl

/-! ### Cancelled traces -/

/-- The start of `c` comes before its cancel. -/
def StartThenDrop (c : CollectId) (a b : CollectCommand) : Prop := a = .startCollect c ∧ b = .dropCollect c

/-- A cancel of `c` is not pushed at a moment when the drain tears it from the start of `c`; when the commit of `c` is
pushed, a cancel of `c` has been pushed before, and the drain does not tear the commit from it; and no channel is
removed with a cancel of `c` in it. -/
def CancelInTime (capacity : Nat) (c : CollectId) (s : Threads T) : Action T → Prop
  | .send t =>
    (s.pushes capacity t = some (.dropCollect c) →
      ∀ x ∈ s.channels.sent, x.body = .startCollect c → ¬s.channels.Torn x t) ∧
    (s.pushes capacity t = some (.commitCollect c) →
      ∃ x ∈ s.channels.sent, x.body = .dropCollect c ∧ ¬s.channels.Torn x t)
  | .channels .remove => ∀ t ∈ s.channels.leaving, ∀ x ∈ s.channels.queue t, x.body ≠ .dropCollect c
  | _ => True

instance (capacity : Nat) (c : CollectId) (s : Threads T) : (a : Action T) → Decidable (CancelInTime capacity c s a)
  | .send _ => inferInstanceAs (Decidable ((_ → ∀ x ∈ s.channels.sent, _) ∧ (_ → ∃ x ∈ s.channels.sent, _)))
  | .startCollect _ => isTrue trivial
  | .submitSpans .. => isTrue trivial
  | .dropCollect .. => isTrue trivial
  | .commitCollect .. => isTrue trivial
  | .exit _ => isTrue trivial
  | .channels .remove => inferInstanceAs (Decidable (∀ t ∈ s.channels.leaving, _))
  | .channels (.register _) => isTrue trivial
  | .channels .begin => isTrue trivial
  | .channels .recv => isTrue trivial
  | .channels .next => isTrue trivial
  | .channels .finish => isTrue trivial

/-- Every commit of `c` has a cancel before it. -/
def CommitsCancelled (c : CollectId) (s : Channels T CollectCommand) : Prop :=
  ∀ y ∈ s.sent, y.body = .commitCollect c → ∃ x ∈ s.sent, x.body = .dropCollect c ∧ s.InOrder x y

/-- No cancel of `c` is lost with its channel. -/
def CancelsKept (c : CollectId) (s : Channels T CollectCommand) : Prop := ∀ x ∈ s.lost, x.body ≠ .dropCollect c

private theorem step_channels {capacity : Nat} {s s' : Threads T} {a : Action T} (h : s.step capacity a = some s') :
    (s'.channels = s.channels ∨ ∃ t, s'.channels = s.channels.close t) ∨
      (∃ l, a = .channels l ∧ s.channels.step l = some s'.channels) ∨
      ∃ t cmd, a = .send t ∧ s.pushes capacity t = some cmd ∧ t ∈ s.channels.registered ∧
        s'.channels = s.channels.push t cmd := by
  cases a with
  | startCollect t => obtain ⟨_, -, rfl⟩ := step_startCollect h; exact Or.inl (Or.inl rfl)
  | submitSpans t spans token =>
    rcases step_submitSpans h with rfl | ⟨_, -, rfl⟩
    · exact Or.inl (Or.inl rfl)
    · exact Or.inl (Or.inl rfl)
  | dropCollect t c => obtain ⟨-, _, -, rfl⟩ := step_dropCollect h; exact Or.inl (Or.inl rfl)
  | commitCollect t c => obtain ⟨-, _, -, rfl⟩ := step_commitCollect h; exact Or.inl (Or.inl rfl)
  | exit t => obtain ⟨_, -, rfl⟩ := step_exit h; exact Or.inl (Or.inl rfl)
  | send t =>
    obtain ⟨e, he, -, -, -, ⟨-, hc⟩ | ⟨cmd, hcmd, ht, hc⟩⟩ := step_send h
    · exact Or.inl (hc.imp id fun hclose => ⟨t, hclose⟩)
    · exact Or.inr (Or.inr ⟨t, cmd, rfl, by rw [pushes, he]; exact hcmd, ht, hc⟩)
  | channels l =>
    obtain ⟨channels, hl, rfl⟩ := Option.map_eq_some_iff.1 h
    exact Or.inr (Or.inl ⟨l, rfl, hl⟩)

omit [DecidableEq T] in
/-- A start is never pushed after a cancel of the same root. -/
private theorem Inv.pushes_start {capacity : Nat} {s : Threads T} (h : Inv s) {t : T} {c : CollectId}
    (hpush : s.pushes capacity t = some (.startCollect c)) : ¬s.Known c := by
  obtain ⟨e, he, hpushed⟩ := Option.bind_eq_some_iff.1 hpush
  rcases (Sender.step_spec he).2.2 _ hpushed with hp | ⟨⟨force, hf⟩, -⟩
  · exact absurd hp (h.notPending t c)
  · cases force with
    | false => exact (h.starting t c hf).2.1
    | true => exact absurd hf (h.notForced t c)

private theorem inTime_step {capacity : Nat} {c : CollectId} {s s' : Threads T} {a : Action T} (h : Inv s)
    (ho : s.channels.Ordered (StartThenDrop c)) (hcc : CommitsCancelled c s.channels)
    (hkept : CancelsKept c s.channels) (hc : CancelInTime capacity c s a) (hs : s.step capacity a = some s') :
    s'.channels.Ordered (StartThenDrop c) ∧ CommitsCancelled c s'.channels ∧ CancelsKept c s'.channels := by
  rcases step_channels hs with (hsame | ⟨t, hclose⟩) | ⟨l, rfl, hl⟩ | ⟨t, cmd, rfl, hpush, ht, hnew⟩
  · rw [hsame]
    exact ⟨ho, hcc, hkept⟩
  · rw [hclose]
    exact ⟨ho, hcc, hkept⟩
  · refine ⟨Channels.ordered_step h.wf ho hl, fun y hy hbody => ?_, fun x hx => ?_⟩
    · rw [Channels.step_sent hl] at hy
      obtain ⟨x, hx, hxbody, hxy⟩ := hcc y hy hbody
      exact ⟨x, (Channels.step_sent hl).symm ▸ hx, hxbody, Channels.inOrder_moves h.wf hxy (.step hl)⟩
    · rcases Channels.step_lost hl hx with hx | ⟨rfl, t, ht, -, hx⟩
      · exact hkept x hx
      · exact hc t ht x hx
  · rw [hnew]
    refine ⟨Channels.ordered_push h.wf ho ht ?_ ?_ ?_, fun y hy hbody => ?_, hkept⟩
    · rintro x hx ⟨hstart, rfl⟩
      exact hc.1 hpush x hx hstart
    · rintro y hy ⟨rfl, hdrop⟩
      exact h.pushes_start hpush (Or.inr (Or.inr (Or.inl (hdrop ▸ List.mem_map_of_mem hy))))
    · rintro ⟨rfl, hdrop⟩; cases hdrop
    · rcases List.mem_append.1 hy with hy | hy
      · obtain ⟨x, hx, hxbody, hxy⟩ := hcc y hy hbody
        exact ⟨x, List.mem_append_left _ hx, hxbody, Channels.inOrder_moves h.wf hxy (.push ht cmd)⟩
      · rw [List.mem_singleton] at hy
        subst hy
        have hcmd : cmd = .commitCollect c := hbody
        subst hcmd
        obtain ⟨x, hx, hxbody, hcut⟩ := hc.2 hpush
        exact ⟨x, List.mem_append_left _ hx, hxbody, Channels.inOrder_push h.wf hx hcut⟩

/-- With `cancelable`, for rings of any capacity: in a run in which the cancel of `c` is in time, nothing is reported
for `c`. -/
theorem cancel_effective (capacity : Nat) (c : CollectId) {s : Threads T} {as : List (Action T)}
    (hrun : Steps.run (step capacity) init as = some s)
    (hmeet : Steps.Meet (step capacity) (CancelInTime capacity c) init as) {rounds : List Round}
    (hrounds : RoundsOf rounds s.channels) : ∀ recs ∈ reportedFor true c rounds, recs = [] := by
  have hall : Inv s ∧ s.channels.Ordered (StartThenDrop c) ∧ CommitsCancelled c s.channels ∧
      CancelsKept c s.channels := by
    refine Steps.meet_induction
      (P := fun s => Inv s ∧ s.channels.Ordered (StartThenDrop c) ∧ CommitsCancelled c s.channels ∧
        CancelsKept c s.channels)
      (fun s a s' hp hc hs => ⟨inv_step hp.1 hs, inTime_step hp.1 hp.2.1 hp.2.2.1 hp.2.2.2 hc hs⟩)
      ⟨inv_init, ?_, ?_, ?_⟩ hmeet hrun
    · exact fun a ha => absurd ha List.not_mem_nil
    · exact fun y hy => absurd hy List.not_mem_nil
    · exact fun x hx => absurd hx List.not_mem_nil
  obtain ⟨hinv, hordered, hcancelled, hkept⟩ := hall
  intro recs hmem
  obtain ⟨k, hrecs⟩ := List.mem_iff_getElem?.1 hmem
  have hk := lt_of_reportedFor hrecs
  have hr : rounds[k]? = some rounds[k] := List.getElem?_eq_getElem hk
  by_cases hl : ∃ i, LiveFrom c rounds i k
  · obtain ⟨i, hl⟩ := hl
    rw [reportedFor_live true hr hl] at hrecs
    have hcommit : ¬rounds[k].commits c := by
      -- the commit has a cancel before it and the cancel the start, so the collector is dropped by round `k`
      intro hcommit
      obtain ⟨y, hy, hybody⟩ := (hrounds.mem_commands hr).1 hcommit
      obtain ⟨x, hx, hxbody, hxy⟩ := hcancelled y (hinv.wf.sent_of_received hy) hybody
      obtain ⟨j, hjk, hj⟩ := hxy.received (fun hlost => hkept x hlost hxbody) (hrounds.length_eq ▸ hk) hy
      obtain ⟨ri, hri, hstart⟩ := hl.start
      obtain ⟨a, ha, habody⟩ := (hrounds.mem_commands hri).1 hstart
      have hax := hordered a (hinv.wf.sent_of_received ha) x hx ⟨habody, hxbody⟩
      obtain ⟨i', hij, hi'⟩ := hax.received (hinv.wf.not_lost ha) (by have := hrounds.length_eq; omega) hj
      obtain ⟨ri', hri', hstart'⟩ := hrounds.exists_round (by have := hrounds.length_eq; omega) hi'
      rw [habody] at hstart'
      have hii := round_unique (Nat.le_trans (hrounds.count_le hinv.wf _) (hinv.startOnce c)) hri' hstart' hri hstart
      obtain ⟨rj, hrj, hdrop⟩ := hrounds.exists_round (by have := hrounds.length_eq; omega) hj
      rw [hxbody] at hdrop
      exact hl.noDrop j rj (by omega) hjk hrj hdrop
    simpa [hcommit] using hrecs.symm
  · rw [reportedFor_dead true hr fun i hi => hl ⟨i, hi⟩] at hrecs
    simpa using hrecs.symm

/-! ### Cancels that come too late -/

/-- The state after a run from the start. -/
def after (capacity : Nat) (as : List (Action Nat)) : Threads Nat := (Steps.run (step capacity) init as).getD init

/-- A call on a thread with no pending messages and room in its ring. -/
def sending (call : Action Nat) (t : Nat) : List (Action Nat) := [call, .send t, .send t]

def receive (n : Nat) : List (Action Nat) := List.replicate n (.channels .recv)

def childItem : CollectTokenItem := ⟨⟨1⟩, ⟨5⟩, 0, false, true⟩

def submitChild (t : Nat) : Action Nat := .submitSpans t (.span childSpan) [childItem]

/-- Thread `1` starts a root, cancels it and drops it with a child; then its channel is drained. -/
def cancelledRun : List (Action Nat) := .channels (.register 1) ::
  (sending (.startCollect 1) 1 ++ sending (.dropCollect 1 0) 1 ++ sending (submitChild 1) 1 ++
    sending (.commitCollect 1 0) 1 ++ .channels .begin :: receive 4 ++ [.channels .next, .channels .finish])

def cancelledCalls : List Round := [Tracing.roundOf [.startCollect 0, .dropCollect 0,
  .submitSpans ⟨.span childSpan, [childItem]⟩, .commitCollect 0]]

theorem cancel_effective_in_time : reportedFor true 0 cancelledCalls = [[]] := by
  have hrun : Steps.run (step 10240) init cancelledRun = some (after 10240 cancelledRun) := rfl
  exact List.eq_replicate_of_mem (cancel_effective 10240 0 hrun (by decide) rfl)

/-- Thread `2` starts a root.  The drain has left the channel of thread `1` when the root is cancelled there, and has
still to visit that of thread `2`. -/
def tornCancel : List (Action Nat) := [.channels (.register 1), .channels (.register 2)] ++
  sending (.startCollect 2) 2 ++ [.channels .begin, .channels .next] ++ sending (.dropCollect 1 0) 1

/-- Then thread `2` drops the root with a child. -/
def tornDrop : List (Action Nat) := sending (submitChild 2) 2 ++ sending (.commitCollect 2 0) 2 ++ receive 3 ++
  [.channels .next, .channels .finish]

def reportedCalls : List Round := [Tracing.roundOf [.startCollect 0, .submitSpans ⟨.span childSpan, [childItem]⟩,
  .commitCollect 0]]

/-- The cancel has returned before the root is dropped, and the trace is reported. -/
theorem cancel_torn : ∃ s₁ s, Steps.run (step 10240) init tornCancel = some s₁ ∧
    s₁.commands = [.startCollect 0, .dropCollect 0] ∧ (s₁.senders 1).calling = none ∧
    Steps.run (step 10240) s₁ tornDrop = some s ∧ RoundsOf reportedCalls s.channels ∧
    reportedFor true 0 reportedCalls = [[⟨⟨1⟩, ⟨7⟩, ⟨5⟩, 10, 20, "child", [], []⟩]] :=
  ⟨after 10240 tornCancel, after 10240 (tornCancel ++ tornDrop), rfl, rfl, rfl, rfl, rfl, by decide⟩

/-- The start fills the ring of thread `1`, so the cancel is pending there. -/
def pendingCancel : List (Action Nat) := [.channels (.register 1), .channels (.register 2)] ++
  sending (.startCollect 1) 1 ++ sending (submitChild 2) 2 ++ sending (.dropCollect 1 0) 1

/-- In the commit the pending cancel still finds the ring full; then the drain takes the start. -/
def pendingDrop : List (Action Nat) := [.commitCollect 1 0, .send 1, .channels .begin, .channels .recv, .send 1,
  .channels .recv, .channels .next, .channels .recv, .channels .next, .channels .finish]

/-- The commit overtakes a pending cancel on the same thread. -/
theorem cancel_overtaken : ∃ s₁ s, Steps.run (step 1) init pendingCancel = some s₁ ∧
    s₁.senders 1 = { pendingMessages := [.dropCollect 0] } ∧ Steps.run (step 1) s₁ pendingDrop = some s ∧
    s.channels.batches.map (·.map Message.body) =
      [[.startCollect 0, .commitCollect 0, .submitSpans ⟨.span childSpan, [childItem]⟩]] :=
  ⟨after 1 pendingCancel, after 1 (pendingCancel ++ pendingDrop), rfl, rfl, rfl, rfl⟩

/-- Thread `2` starts a root and the drain receives the start.  The channel of thread `1` has been found empty when the
root is cancelled there and the thread exits; then the channel is found closed. -/
def removedCancel : List (Action Nat) := [.channels (.register 2), .channels (.register 1)] ++
  sending (.startCollect 2) 2 ++ [.channels .begin, .channels .recv, .channels .next, .channels .next] ++
  sending (.dropCollect 1 0) 1 ++ [.exit 1, .send 1, .channels .remove, .channels .finish]

/-- Then thread `2` drops the root with a child, and its channel is drained. -/
def removedDrop : List (Action Nat) := sending (submitChild 2) 2 ++ sending (.commitCollect 2 0) 2 ++
  .channels .begin :: receive 2 ++ [.channels .next, .channels .finish]

def removedCalls : List Round := [Tracing.roundOf [.startCollect 0],
  Tracing.roundOf [.submitSpans ⟨.span childSpan, [childItem]⟩, .commitCollect 0]]

/-- The cancel is lost with the channel of its thread. -/
theorem cancel_removed : ∃ s₁ s, Steps.run (step 10240) init removedCancel = some s₁ ∧
    s₁.channels.lost.map Message.body = [.dropCollect 0] ∧ s₁.channels.registered = [2] ∧
    Steps.run (step 10240) s₁ removedDrop = some s ∧ RoundsOf removedCalls s.channels ∧
    reportedFor true 0 removedCalls = [[], [⟨⟨1⟩, ⟨7⟩, ⟨5⟩, 10, 20, "child", [], []⟩]] :=
  ⟨after 10240 removedCancel, after 10240 (removedCancel ++ removedDrop), rfl, rfl, rfl, rfl, rfl, by decide⟩

end Threads

end Fastrace
