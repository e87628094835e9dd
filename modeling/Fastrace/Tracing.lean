import Fastrace.Channels
import Fastrace.Steps
import Fastrace.Cancelable

/-!
# Threads that trace, and the collector

Every thread sends its commands on a channel of its own, and `handle_commands` drains the channels one after another
while the threads go on.  Here the channels are FIFO queues that are never full.  A `Tracing` action is a call of
`GlobalCollect` on some thread (`collector/global_collector.rs`), the registration of a thread's channel, or a step of
the draining collector; no thread exits, so no channel is removed.  `startCollect` draws a fresh collect id; a root can
be cancelled or committed by any thread, and committed only once, when it is dropped.

A drain is no snapshot, so of two commands sent one after the other the second may be received one call before the
first (`Channels.Torn`).
-/

namespace Fastrace

/-! ### The calls of a run -/

/-- The calls that handle the batches drained so far. -/
def RoundsOf {T : Type} (rounds : List Round) (s : Channels T CollectCommand) : Prop :=
  rounds.map Round.commands = s.batches.map fun b => b.map Message.body

section RoundsOf

variable {T : Type} {rounds : List Round} {s : Channels T CollectCommand}

theorem RoundsOf.length_eq (h : RoundsOf rounds s) : rounds.length = s.batches.length := by
  have := congrArg List.length h
  rwa [List.length_map, List.length_map] at this

theorem RoundsOf.mem_commands (h : RoundsOf rounds s) {k : Nat} {r : Round} (hr : rounds[k]? = some r)
    {cmd : CollectCommand} : cmd ∈ r.commands ↔ ∃ x, s.Received k x ∧ x.body = cmd := by
  have hlt : k < s.batches.length := h.length_eq ▸ (List.getElem?_eq_some_iff.1 hr).1
  have hb : (rounds.map Round.commands)[k]? = some r.commands := by rw [List.getElem?_map, hr]; rfl
  rw [h, List.getElem?_map, List.getElem?_eq_getElem hlt, Option.map_some, Option.some.injEq] at hb
  have hget : (s.batches ++ [s.batch])[k]? = some s.batches[k] := by
    rw [List.getElem?_append_left hlt, List.getElem?_eq_getElem hlt]
  rw [← hb, List.mem_map]
  constructor
  · rintro ⟨x, hx, hcmd⟩
    exact ⟨x, ⟨_, hget, hx⟩, hcmd⟩
  · rintro ⟨x, ⟨b, hb, hx⟩, hcmd⟩
    rw [hget] at hb; cases hb
    exact ⟨x, hx, hcmd⟩

/-- What the calls handle has been sent, each message at most once. -/
theorem RoundsOf.subperm (h : RoundsOf rounds s) (hwf : s.Wf) :
    (received rounds).Subperm (s.sent.map Message.body) := by
  have hrec : received rounds = s.batches.flatten.map Message.body := by
    rw [received, List.flatMap_def, h, List.map_flatten]
  have hsub := ((List.sublist_append_right (s.registered.flatMap s.queue ++ s.batch) s.batches.flatten).trans
    (List.sublist_append_left _ s.lost)).map Message.body
  rw [hrec]
  exact hsub.subperm.trans (hwf.conserved.map Message.body).subperm

theorem RoundsOf.count_le (h : RoundsOf rounds s) (hwf : s.Wf) (cmd : CollectCommand) :
    (received rounds).count cmd ≤ (s.sent.map Message.body).count cmd :=
  (h.subperm hwf).count_le cmd

theorem RoundsOf.exists_round (h : RoundsOf rounds s) {k : Nat} (hk : k < s.batches.length)
    {x : Message T CollectCommand} (hx : s.Received k x) : ∃ r, rounds[k]? = some r ∧ x.body ∈ r.commands := by
  have hlt : k < rounds.length := h.length_eq ▸ hk
  have hr : rounds[k]? = some rounds[k] := List.getElem?_eq_getElem hlt
  exact ⟨_, hr, (h.mem_commands hr).2 ⟨x, hx, rfl⟩⟩

end RoundsOf

/-- A command sent at most once is carried by one message. -/
theorem message_unique {T : Type} {l : List (Message T CollectCommand)} {cmd : CollectCommand}
    (honce : (l.map Message.body).count cmd ≤ 1) {x y : Message T CollectCommand} (hx : x ∈ l) (hy : y ∈ l)
    (hxc : x.body = cmd) (hyc : y.body = cmd) : x = y := by
  obtain ⟨before, after, rfl⟩ := List.append_of_mem hx
  rw [List.map_append, List.map_cons, List.count_append, hxc, List.count_cons_self] at honce
  have hnot : ∀ l' : List (Message T CollectCommand), (l'.map Message.body).count cmd = 0 → y ∉ l' :=
    fun l' hl' hy' => List.count_eq_zero.1 hl' (hyc ▸ List.mem_map_of_mem hy')
  rcases List.mem_append.1 hy with hy | hy
  · exact absurd hy (hnot before (by omega))
  · rcases List.mem_cons.1 hy with hy | hy
    · exact hy.symm
    · exact absurd hy (hnot after (by omega))

/-! ### The system -/

structure Tracing (T : Type) where
  channels : Channels T CollectCommand
  nextCollectId : CollectId
  /-- The sampled roots that have been started and not been dropped yet. -/
  roots : List CollectId

namespace Tracing

variable {T : Type}

def init : Tracing T where
  channels := Channels.init
  nextCollectId := 0
  roots := []

inductive Action (T : Type) where
  | startCollect (t : T)
  | submitSpans (t : T) (spans : SpanSet) (collectToken : CollectToken)
  | dropCollect (t : T) (collectId : CollectId)
  | commitCollect (t : T) (collectId : CollectId)
  | channels (l : Channels.Label T)
deriving DecidableEq, Repr

variable [DecidableEq T]

def send (s : Tracing T) (t : T) (cmd : CollectCommand) : Option (Tracing T) :=
  (s.channels.send t cmd).map fun channels => { s with channels := channels }

def step (s : Tracing T) : Action T → Option (Tracing T)
  | .startCollect t =>
    (s.send t (.startCollect s.nextCollectId)).map fun s' =>
      { s' with nextCollectId := s.nextCollectId + 1, roots := s.roots ++ [s.nextCollectId] }
  | .submitSpans t spans collectToken =>
    if (retainSampled collectToken).isEmpty then some s
    else s.send t (.submitSpans ⟨spans, retainSampled collectToken⟩)
  | .dropCollect t collectId => if collectId ∈ s.roots then s.send t (.dropCollect collectId) else none
  | .commitCollect t collectId =>
    if collectId ∈ s.roots then
      (s.send t (.commitCollect collectId)).map fun s' => { s' with roots := s.roots.erase collectId }
    else none
  | .channels l => (s.channels.step l).map fun channels => { s with channels := channels }

/-- The commands sent so far, in the order of sending. -/
def commands (s : Tracing T) : List CollectCommand := s.channels.sent.map Message.body

/-- No drain is running and every channel is empty. -/
def Drained (s : Tracing T) : Prop :=
  s.channels.remaining = none ∧ ∀ t ∈ s.channels.registered, s.channels.queue t = []

/-! ### What a step does -/

private theorem send_eq_some {s s' : Tracing T} {t : T} {cmd : CollectCommand} (h : s.send t cmd = some s') :
    t ∈ s.channels.registered ∧ s' = { s with channels := s.channels.push t cmd } := by
  obtain ⟨channels, hc, rfl⟩ := Option.map_eq_some_iff.1 h
  obtain ⟨ht, rfl⟩ := Channels.send_eq_some hc
  exact ⟨ht, rfl⟩

theorem step_startCollect {s s' : Tracing T} {t : T} (h : s.step (.startCollect t) = some s') :
    t ∈ s.channels.registered ∧ s' = {
      channels := s.channels.push t (.startCollect s.nextCollectId)
      nextCollectId := s.nextCollectId + 1
      roots := s.roots ++ [s.nextCollectId] } := by
  obtain ⟨s₁, h₁, rfl⟩ := Option.map_eq_some_iff.1 h
  obtain ⟨ht, rfl⟩ := send_eq_some h₁
  exact ⟨ht, rfl⟩

theorem step_submitSpans {s s' : Tracing T} {t : T} {spans : SpanSet} {collectToken : CollectToken}
    (h : s.step (.submitSpans t spans collectToken) = some s') : retainSampled collectToken = [] ∧ s' = s ∨
      t ∈ s.channels.registered ∧
        s' = { s with channels := s.channels.push t (.submitSpans ⟨spans, retainSampled collectToken⟩) } := by
  simp only [step] at h
  split at h
  · rename_i hempty
    cases h
    exact Or.inl ⟨List.isEmpty_iff.1 hempty, rfl⟩
  · exact Or.inr (send_eq_some h)

theorem step_dropCollect {s s' : Tracing T} {t : T} {c : CollectId} (h : s.step (.dropCollect t c) = some s') :
    c ∈ s.roots ∧ t ∈ s.channels.registered ∧ s' = { s with channels := s.channels.push t (.dropCollect c) } := by
  simp only [step] at h
  split at h
  · exact ⟨‹_›, send_eq_some h⟩
  · cases h

theorem step_commitCollect {s s' : Tracing T} {t : T} {c : CollectId} (h : s.step (.commitCollect t c) = some s') :
    c ∈ s.roots ∧ t ∈ s.channels.registered ∧
      s' = { s with channels := s.channels.push t (.commitCollect c), roots := s.roots.erase c } := by
  simp only [step] at h
  split at h
  · obtain ⟨s₁, h₁, rfl⟩ := Option.map_eq_some_iff.1 h
    obtain ⟨ht, rfl⟩ := send_eq_some h₁
    exact ⟨‹_›, ht, rfl⟩
  · cases h

theorem step_moves {s s' : Tracing T} {a : Action T} (h : s.step a = some s') :
    s.channels.Moves s'.channels := by
  cases a with
  | startCollect t => obtain ⟨ht, rfl⟩ := step_startCollect h; exact .push ht _
  | submitSpans t spans token =>
    rcases step_submitSpans h with ⟨-, rfl⟩ | ⟨ht, rfl⟩
    · exact .stay
    · exact .push ht _
  | dropCollect t c => obtain ⟨-, ht, rfl⟩ := step_dropCollect h; exact .push ht _
  | commitCollect t c => obtain ⟨-, ht, rfl⟩ := step_commitCollect h; exact .push ht _
  | channels l => obtain ⟨channels, hc, rfl⟩ := Option.map_eq_some_iff.1 h; exact .step hc

/-! ### The invariant -/

/-- A collect id is started once, by the root that owns it, and committed once, when that root is dropped. -/
structure Inv (s : Tracing T) : Prop where
  wf : s.channels.Wf
  unclosed : s.channels.closed = []
  fresh : ∀ c, s.nextCollectId ≤ c → s.commands.count (.startCollect c) = 0 ∧ s.commands.count (.commitCollect c) = 0
  startOnce : ∀ c, s.commands.count (.startCollect c) ≤ 1
  commitOnce : ∀ c, s.commands.count (.commitCollect c) ≤ 1
  rootsNodup : s.roots.Nodup
  rootsOpen : ∀ c ∈ s.roots, s.commands.count (.startCollect c) = 1 ∧ s.commands.count (.commitCollect c) = 0
  closed : ∀ c, s.commands.count (.startCollect c) = 1 → c ∈ s.roots ∨ s.commands.count (.commitCollect c) = 1

omit [DecidableEq T] in
theorem inv_init : Inv (init : Tracing T) where
  wf := Channels.wf_init
  unclosed := rfl
  fresh _ _ := ⟨rfl, rfl⟩
  startOnce _ := Nat.zero_le _
  commitOnce _ := Nat.zero_le _
  rootsNodup := List.nodup_nil
  rootsOpen _ hc := absurd hc List.not_mem_nil
  closed _ hc := by cases hc

omit [DecidableEq T] in
/-- The invariant speaks of starts and commits only. -/
private theorem Inv.neutral {s : Tracing T} (h : Inv s) {channels : Channels T CollectCommand} (hwf : channels.Wf)
    (hclosed : channels.closed = s.channels.closed)
    (hstart : ∀ c, ({ s with channels := channels } : Tracing T).commands.count (.startCollect c) =
      s.commands.count (.startCollect c))
    (hcommit : ∀ c, ({ s with channels := channels } : Tracing T).commands.count (.commitCollect c) =
      s.commands.count (.commitCollect c)) :
    Inv { s with channels := channels } where
  wf := hwf
  unclosed := hclosed.trans h.unclosed
  fresh c hc := (hstart c).symm ▸ (hcommit c).symm ▸ h.fresh c hc
  startOnce c := (hstart c).symm ▸ h.startOnce c
  commitOnce c := (hcommit c).symm ▸ h.commitOnce c
  rootsNodup := h.rootsNodup
  rootsOpen c hc := (hstart c).symm ▸ (hcommit c).symm ▸ h.rootsOpen c hc
  closed c hc := (hcommit c).symm ▸ h.closed c ((hstart c) ▸ hc)

private theorem count_push (s : Tracing T) (t : T) (cmd cmd' : CollectCommand) (n : CollectId)
    (roots : List CollectId) : (⟨s.channels.push t cmd, n, roots⟩ : Tracing T).commands.count cmd' =
      s.commands.count cmd' + if cmd = cmd' then 1 else 0 := by
  have hsent : (⟨s.channels.push t cmd, n, roots⟩ : Tracing T).commands = s.commands ++ [cmd] := List.map_append
  rw [hsent, List.count_append, List.count_singleton]
  by_cases h : cmd = cmd' <;> simp [h]

private theorem Inv.start {s : Tracing T} (h : Inv s) {t : T} (ht : t ∈ s.channels.registered) : Inv {
    channels := s.channels.push t (.startCollect s.nextCollectId)
    nextCollectId := s.nextCollectId + 1
    roots := s.roots ++ [s.nextCollectId] } where
  wf := Channels.wf_moves h.wf (.push ht _)
  unclosed := h.unclosed
  fresh c hc := by
    have hold := h.fresh c (Nat.le_of_succ_le hc)
    have hne : s.nextCollectId ≠ c := Nat.ne_of_lt hc
    simp [count_push, hold, hne]
  startOnce c := by
    have hold := h.startOnce c
    by_cases hc : s.nextCollectId = c
    · have hnone := h.fresh c (Nat.le_of_eq hc)
      simp [count_push, hc, hnone]
    · simpa [count_push, hc] using hold
  commitOnce c := by simpa [count_push] using h.commitOnce c
  rootsNodup := by
    have hnew : s.nextCollectId ∉ s.roots := fun hm => by
      have h1 := (h.rootsOpen _ hm).1
      have h0 := (h.fresh _ (Nat.le_refl _)).1
      omega
    simpa [List.nodup_append] using ⟨h.rootsNodup, fun a ha he => hnew (he ▸ ha)⟩
  rootsOpen c hc := by
    rcases List.mem_append.1 hc with hc | hc
    · have hold := h.rootsOpen c hc
      have hne : s.nextCollectId ≠ c := fun he => by
        have h0 := (h.fresh c (Nat.le_of_eq he)).1
        omega
      simp [count_push, hold, hne]
    · rw [List.mem_singleton] at hc
      subst hc
      have hnone := h.fresh s.nextCollectId (Nat.le_refl _)
      simp [count_push, hnone]
  closed c hc := by
    by_cases he : s.nextCollectId = c
    · exact Or.inl (List.mem_append_right _ (List.mem_singleton.2 he.symm))
    · have hold := h.closed c (by simpa [count_push, he] using hc)
      rcases hold with hr | hr
      · exact Or.inl (List.mem_append_left _ hr)
      · exact Or.inr (by simpa [count_push] using hr)

private theorem Inv.commit {s : Tracing T} (h : Inv s) {t : T} {c : CollectId} (hc : c ∈ s.roots)
    (ht : t ∈ s.channels.registered) :
    Inv { s with channels := s.channels.push t (.commitCollect c), roots := s.roots.erase c } where
  wf := Channels.wf_moves h.wf (.push ht _)
  unclosed := h.unclosed
  fresh c' hc' := by
    have hold := h.fresh c' hc'
    have hne : c ≠ c' := fun he => by
      have h1 := (h.rootsOpen c hc).1
      rw [he] at h1
      omega
    simp [count_push, hold, hne]
  startOnce c' := by simpa [count_push] using h.startOnce c'
  commitOnce c' := by
    by_cases he : c = c'
    · have hold := (h.rootsOpen c hc).2
      rw [he] at hold
      simp [count_push, he, hold]
    · simpa [count_push, he] using h.commitOnce c'
  rootsNodup := h.rootsNodup.erase c
  rootsOpen c' hc' := by
    obtain ⟨hne, hmem⟩ := h.rootsNodup.mem_erase_iff.1 hc'
    have hold := h.rootsOpen c' hmem
    simp [count_push, hold, Ne.symm hne]
  closed c' hc' := by
    have hold := h.closed c' (by simpa [count_push] using hc')
    by_cases he : c = c'
    · have hnone := (h.rootsOpen c hc).2
      rw [he] at hnone
      exact Or.inr (by simp [count_push, he, hnone])
    · rcases hold with hr | hr
      · exact Or.inl (h.rootsNodup.mem_erase_iff.2 ⟨fun h' => he h'.symm, hr⟩)
      · exact Or.inr (by simpa [count_push, he] using hr)

theorem inv_step {s s' : Tracing T} {a : Action T} (h : Inv s) (hs : s.step a = some s') : Inv s' := by
  have hwf : s'.channels.Wf := Channels.wf_moves h.wf (step_moves hs)
  cases a with
  | startCollect t =>
    obtain ⟨ht, rfl⟩ := step_startCollect hs
    exact h.start ht
  | submitSpans t spans token =>
    rcases step_submitSpans hs with ⟨-, rfl⟩ | ⟨ht, rfl⟩
    · exact h
    · exact h.neutral hwf rfl (by simp [count_push]) (by simp [count_push])
  | dropCollect t c =>
    obtain ⟨-, ht, rfl⟩ := step_dropCollect hs
    exact h.neutral hwf rfl (by simp [count_push]) (by simp [count_push])
  | commitCollect t c =>
    obtain ⟨hc, ht, rfl⟩ := step_commitCollect hs
    exact h.commit hc ht
  | channels l =>
    obtain ⟨channels, hl, rfl⟩ := Option.map_eq_some_iff.1 hs
    have hcommands : ({ s with channels := channels } : Tracing T).commands = s.commands := by
      rw [commands, Channels.step_sent hl]; rfl
    exact h.neutral hwf (Channels.step_frame hl).2 (fun c => by rw [hcommands]) (fun c => by rw [hcommands])

omit [DecidableEq T] in
theorem Inv.not_lost {s : Tracing T} (h : Inv s) (x : Message T CollectCommand) : x ∉ s.channels.lost := by
  rw [h.wf.unlost h.unclosed]
  exact List.not_mem_nil

theorem inv_run {s s' : Tracing T} {as : List (Action T)} (h : Inv s) (hrun : Steps.run step s as = some s') :
    Inv s' :=
  Steps.run_induction (fun _ _ _ => inv_step) h hrun

theorem mem_sent_run {x : Message T CollectCommand} {s s' : Tracing T} {as : List (Action T)}
    (hx : x ∈ s.channels.sent) (hrun : Steps.run step s as = some s') : x ∈ s'.channels.sent :=
  Steps.run_induction (P := fun s => x ∈ s.channels.sent)
    (fun _ _ _ hp hs => Channels.mem_sent_moves hp (step_moves hs)) hx hrun

/-- Messages in order stay in order in a run. -/
theorem inOrder_run {a b : Message T CollectCommand} {s s' : Tracing T} {as : List (Action T)} (h : Inv s)
    (hab : s.channels.InOrder a b) (hrun : Steps.run step s as = some s') : s'.channels.InOrder a b := by
  have hboth : Inv s' ∧ s'.channels.InOrder a b := by
    refine Steps.run_induction (P := fun s => Inv s ∧ s.channels.InOrder a b) (fun s act s' hp hs => ?_) ⟨h, hab⟩ hrun
    exact ⟨inv_step hp.1 hs, Channels.inOrder_moves hp.1.wf hp.2 (step_moves hs)⟩
  exact hboth.2

end Tracing

end Fastrace
