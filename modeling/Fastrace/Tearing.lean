import Fastrace.Tracing

/-!
# What a torn drain costs

When the drain tears the start of a trace from a submission, or a submission from the commit, a collector with
`cancelable` loses the span: it is handled before the start or after the commit.  Otherwise the span is reported with
its trace (`child_reported`).  When it tears the start from the commit, the commit finds no collector to remove and
the start then creates one that stays for ever.  Otherwise no collector is left when all roots have been dropped and
all channels drained (`no_leak`).
-/

namespace Fastrace

/-! ### What is reported at the commit -/

private theorem mem_between_of_le {rounds : List Round} {s k j : Nat} {r : Round} (hj : rounds[j]? = some r)
    (hs : s ≤ j) (hk : j < k) : r ∈ between rounds s k := by
  have hget : (between rounds s k)[j - s]? = some r := by
    rw [between, List.getElem?_drop, Nat.add_sub_of_le hs, List.getElem?_take_of_lt hk, hj]
  exact List.mem_of_getElem? hget

/-- The round that commits a live collector reports what has been submitted since its start. -/
private theorem record_at_commit {c : CollectId} {rounds : List Round} {s k j : Nat} {r r' : Round}
    (hr : rounds[k]? = some r) (hl : LiveFrom c rounds s k) (hc : r.commits c) (hj : rounds[j]? = some r')
    (hs : s ≤ j) (hjk : j ≤ k) {i : Item} (hi : i ∈ r'.items c) {raw : RawSpan} (hraw : raw ∈ i.spans.raws)
    (hkind : raw.rawKind = .span) : ∃ recs, (reportedFor true c rounds)[k]? = some recs ∧
      ∃ rec ∈ recs, rec.bare = (i.record r.anchor raw).bare := by
  refine ⟨_, reportedFor_live true hr hl, ?_⟩
  rw [if_pos (Or.inl hc), openState_cancelable, TraceState.receive, TraceState.pass]
  have hitem : i ∈ (between rounds s k).flatMap (·.items c) ++ r.items c := by
    rcases Nat.lt_or_eq_of_le hjk with hlt | rfl
    · exact List.mem_append_left _ (List.mem_flatMap.2 ⟨r', mem_between_of_le hj hs hlt, hi⟩)
    · rw [hr] at hj; cases hj
      exact List.mem_append_right _ hi
  have hhead : i.record r.anchor raw ∈
      heads (timed r.anchor ((between rounds s k).flatMap (·.items c) ++ r.items c)) := by
    refine List.mem_flatMap.2 ⟨(r.anchor, i), List.mem_map_of_mem hitem, ?_⟩
    exact List.mem_map_of_mem (List.mem_filter.2 ⟨hraw, by simpa using hkind⟩)
  have hbare := List.mem_map_of_mem (f := SpanRecord.bare) hhead
  rw [← recordsOf_bare (fun _ => [])] at hbare
  obtain ⟨rec, hrec, heq⟩ := List.mem_map.1 hbare
  exact ⟨rec, hrec, heq⟩

private theorem mem_items {r : Round} {cmd : SubmitSpans} (h : .submitSpans cmd ∈ r.commands) {item : CollectTokenItem}
    (hitem : item ∈ cmd.collectToken) : itemOf cmd.spans item ∈ r.items item.collectId := by
  have hsub : (cmd.spans, item) ∈ submissionsFor item.collectId r.commands := by
    refine List.mem_flatMap.2 ⟨cmd, List.mem_filterMap.2 ⟨_, h, rfl⟩, ?_⟩
    exact List.mem_map_of_mem (List.mem_filter.2 ⟨hitem, by simp⟩)
  exact List.mem_map_of_mem hsub

/-- What is reported for a trace is passed to the reporter. -/
private theorem reported_of_reportedFor {cancelable : Bool} {c : CollectId} {rounds : List Round} {k : Nat}
    {recs : List SpanRecord} (h : (reportedFor cancelable c rounds)[k]? = some recs) :
    ∃ all, ((GlobalCollector.start { cancelable := cancelable }).handleRounds rounds).reported[k]? = some all ∧
      ∀ rec ∈ recs, rec ∈ all := by
  rw [reportedFor, List.getElem?_map, Option.map_eq_some_iff] at h
  obtain ⟨owned, howned, rfl⟩ := h
  refine ⟨owned.map (·.2), ?_, fun rec hrec => ?_⟩
  · rw [handleRounds_reported, List.getElem?_map, howned]; rfl
  · obtain ⟨p, hp, rfl⟩ := List.mem_map.1 hrec
    exact List.mem_map_of_mem (List.mem_filter.1 hp).1

namespace Tracing

variable {T : Type} [DecidableEq T]

/-! ### Children are reported -/

omit [DecidableEq T] in
/-- A root `c` that has not been dropped has a start, sent before. -/
private theorem Inv.exists_start {s : Tracing T} (h : Inv s) {c : CollectId} (hc : c ∈ s.roots) :
    ∃ x ∈ s.channels.sent, x.body = .startCollect c := by
  have hmem : .startCollect c ∈ s.commands := List.count_pos_iff.1 (by have := (h.rootsOpen c hc).1; omega)
  exact List.mem_map.1 hmem

/-- With `cancelable`: the span that thread `t₂` submits for a root `c` still open, which thread `t₃` later commits
and nobody cancels, is reported by the call that commits `c`, unless the drain tears the submission from the start or
the commit from the submission. -/
theorem child_reported {s₁ s₂ s₃ s₄ s : Tracing T} {before between after : List (Action T)} {c : CollectId}
    {t₂ t₃ : T} {spans : SpanSet} {collectToken : CollectToken} {item : CollectTokenItem} {raw : RawSpan}
    (h₁ : Steps.run step init before = some s₁) (hroot : c ∈ s₁.roots)
    (h₂ : s₁.step (.submitSpans t₂ spans collectToken) = some s₂) (h₃ : Steps.run step s₂ between = some s₃)
    (h₄ : s₃.step (.commitCollect t₃ c) = some s₄) (h₅ : Steps.run step s₄ after = some s)
    (hcancel : .dropCollect c ∉ s.commands) (hitem : item ∈ collectToken) (hsampled : item.isSampled = true)
    (hid : item.collectId = c) (hraw : raw ∈ spans.raws) (hkind : raw.rawKind = .span)
    (hstart : ∀ x ∈ s₁.channels.sent, x.body = .startCollect c → ¬s₁.channels.Torn x t₂)
    (hsubmit : ¬s₃.channels.Torn (s₁.channels.message t₂ (.submitSpans ⟨spans, retainSampled collectToken⟩)) t₃)
    {rounds : List Round} (hrounds : RoundsOf rounds s.channels) :
    (s.Drained → .commitCollect c ∈ received rounds) ∧ (.commitCollect c ∈ received rounds →
      ∃ (k : Nat) (r : Round) (recs : List SpanRecord), rounds[k]? = some r ∧
        ((GlobalCollector.start { cancelable := true }).handleRounds rounds).reported[k]? = some recs ∧
        ∃ rec ∈ recs, rec.bare = ((itemOf spans item).record r.anchor raw).bare) := by
  subst hid
  have hinv₁ : Inv s₁ := inv_run inv_init h₁
  have hinv₂ : Inv s₂ := inv_step hinv₁ h₂
  have hinv₃ : Inv s₃ := inv_run hinv₂ h₃
  have hinv₄ : Inv s₄ := inv_step hinv₃ h₄
  have hinv : Inv s := inv_run hinv₄ h₅
  have hmem : item ∈ retainSampled collectToken := List.mem_filter.2 ⟨hitem, hsampled⟩
  obtain ⟨x₁, hx₁, hbody₁⟩ := hinv₁.exists_start hroot
  rcases step_submitSpans h₂ with ⟨hnone, -⟩ | ⟨-, rfl⟩
  · rw [hnone] at hmem
    exact absurd hmem List.not_mem_nil
  obtain ⟨-, -, rfl⟩ := step_commitCollect h₄
  -- the start, the submission and the commit stay in order from the moment they are sent
  set x₂ := s₁.channels.message t₂ (.submitSpans ⟨spans, retainSampled collectToken⟩) with hx₂
  set x₃ := s₃.channels.message t₃ (.commitCollect item.collectId) with hx₃
  have hsent₂ : x₂ ∈ s₃.channels.sent := mem_sent_run (List.mem_append_right _ (List.mem_singleton.2 rfl)) h₃
  have hsent₃ : x₃ ∈ s.channels.sent := mem_sent_run (List.mem_append_right _ (List.mem_singleton.2 rfl)) h₅
  have h₁₂ : s.channels.InOrder x₁ x₂ :=
    inOrder_run hinv₄ (Channels.inOrder_moves hinv₃.wf (inOrder_run hinv₂
      (Channels.inOrder_push hinv₁.wf hx₁ (hstart x₁ hx₁ hbody₁)) h₃) (step_moves h₄)) h₅
  have h₂₃ : s.channels.InOrder x₂ x₃ := inOrder_run hinv₄ (Channels.inOrder_push hinv₃.wf hsent₂ hsubmit) h₅
  refine ⟨fun hdrained => ?_, fun hcommit => ?_⟩
  · obtain ⟨k, hk, hrec⟩ := hinv.wf.received_of_drained hdrained.1 hdrained.2 hsent₃ (hinv.not_lost _)
    obtain ⟨r, hr, hcmd⟩ := hrounds.exists_round hk hrec
    exact mem_received.2 ⟨k, r, hr, hcmd⟩
  · obtain ⟨k, r, hr, hcmd⟩ := mem_received.1 hcommit
    obtain ⟨y, hy, hybody⟩ := (hrounds.mem_commands hr).1 hcmd
    have hyx : y = x₃ := message_unique (hinv.commitOnce _) (hinv.wf.sent_of_received hy) hsent₃ hybody rfl
    have hk : k < s.channels.batches.length := hrounds.length_eq ▸ (List.getElem?_eq_some_iff.1 hr).1
    obtain ⟨j, hjk, hj⟩ := h₂₃.received (hinv.not_lost _) hk (hyx ▸ hy)
    obtain ⟨i, hij, hi⟩ := h₁₂.received (hinv.not_lost _) (by omega) hj
    obtain ⟨ri, hri, hci⟩ := hrounds.exists_round (by omega) hi
    obtain ⟨rj, hrj, hcj⟩ := hrounds.exists_round (by omega) hj
    rw [hbody₁] at hci
    have hstartOnce := Nat.le_trans (hrounds.count_le hinv.wf _) (hinv.startOnce item.collectId)
    have hcommitOnce := Nat.le_trans (hrounds.count_le hinv.wf _) (hinv.commitOnce item.collectId)
    -- start, submission and commit are received in this order, so the collector is live at the commit
    have hlive : LiveFrom item.collectId rounds i k := by
      refine ⟨by omega, ⟨ri, hri, hci⟩, fun l r' h1 _ hl hs => ?_, fun l r' _ _ hl hd => ?_,
        fun l r' _ h2 hl hc => ?_⟩
      · have := round_unique hstartOnce hri hci hl hs
        omega
      · obtain ⟨z, hz, hzbody⟩ := (hrounds.mem_commands hl).1 hd
        exact hcancel (hzbody ▸ List.mem_map_of_mem (hinv.wf.sent_of_received hz))
      · have := round_unique hcommitOnce hl hc hr hcmd
        omega
    obtain ⟨recs, hrecs, rec, hrec, hbare⟩ :=
      record_at_commit hr hlive hcmd hrj hij hjk (mem_items hcj hmem) hraw hkind
    obtain ⟨all, hall, hsub⟩ := reported_of_reportedFor hrecs
    exact ⟨k, r, all, hr, hall, rec, hsub rec hrec, hbare⟩

/-! ### A child lost -/

/-- Thread `2` starts a root; its child is dropped on thread `1`. -/
def registerAndStart : List (Action Nat) := [.channels (.register 1), .channels (.register 2), .startCollect 2]

def childToken : CollectToken := [⟨⟨1⟩, ⟨5⟩, 0, false, true⟩]

def submitChild : Action Nat := .submitSpans 1 (.span childSpan) childToken

def rootSpan : RawSpan := { childSpan with id := ⟨5⟩, name := "root" }

def rootToken : CollectToken := [⟨⟨1⟩, ⟨9⟩, 0, true, true⟩]

/-- The drop of the root on thread `2`. -/
def dropRoot : List (Action Nat) := [.submitSpans 2 (.span rootSpan) rootToken, .commitCollect 2 0]

/-- A drain that takes `m` commands from the channel of thread `1` and `n` from that of thread `2`. -/
def drain (m n : Nat) : List (Action Nat) :=
  .channels .begin :: (List.replicate m (.channels .recv) ++ .channels .next ::
    (List.replicate n (.channels .recv) ++ [.channels .next, .channels .finish]))

def roundOf (cmds : List CollectCommand) : Round := ⟨cmds, fun i => i.ticks, .stored⟩

/-- The state after a run from the start. -/
def after (as : List (Action Nat)) : Tracing Nat := (Steps.run step init as).getD init

/-- The child, the drop of the root on thread `2`, then a drain. -/
def joinedRun : List (Action Nat) := registerAndStart ++ submitChild :: .commitCollect 2 0 :: drain 1 2

def joinedRounds : List Round :=
  [roundOf [.submitSpans ⟨.span childSpan, childToken⟩, .startCollect 0, .commitCollect 0]]

theorem child_reported_joined : ∃ (k : Nat) (r : Round) (recs : List SpanRecord), joinedRounds[k]? = some r ∧
    ((GlobalCollector.start { cancelable := true }).handleRounds joinedRounds).reported[k]? = some recs ∧
    ∃ rec ∈ recs,
      rec.bare = ((itemOf (.span childSpan) ⟨⟨1⟩, ⟨5⟩, 0, false, true⟩).record r.anchor childSpan).bare := by
  have h₁ : Steps.run step init registerAndStart = some (after registerAndStart) := rfl
  have h₂ : (after registerAndStart).step submitChild = some (after (registerAndStart ++ [submitChild])) := rfl
  have h₃ : Steps.run step (after (registerAndStart ++ [submitChild])) [] =
      some (after (registerAndStart ++ [submitChild])) := rfl
  have h₄ : (after (registerAndStart ++ [submitChild])).step (.commitCollect 2 0) =
      some (after (registerAndStart ++ [submitChild, .commitCollect 2 0])) := rfl
  have h₅ : Steps.run step (after (registerAndStart ++ [submitChild, .commitCollect 2 0])) (drain 1 2) =
      some (after joinedRun) := rfl
  have hrounds : RoundsOf joinedRounds (after joinedRun).channels := rfl
  exact (child_reported h₁ (by decide) h₂ h₃ h₄ h₅ (by decide) (List.mem_singleton.2 rfl) rfl rfl
    (List.mem_singleton.2 rfl) rfl (by decide) (by decide) hrounds).2 (by decide)

/-- The drain has left the channel of thread `1` when the child is dropped there; thread `1` is joined and thread `2`
drops the root while the drain has still to visit its channel. -/
def tornRun : List (Action Nat) := registerAndStart ++ [.channels .begin, .channels .next, submitChild] ++ dropRoot ++
  [.channels .recv, .channels .recv, .channels .recv, .channels .next, .channels .finish] ++ drain 1 0

def tornRounds : List Round := [roundOf [.startCollect 0, .submitSpans ⟨.span rootSpan, rootToken⟩, .commitCollect 0],
  roundOf [.submitSpans ⟨.span childSpan, childToken⟩]]

/-- The child is sent after the start and before the commit, nothing is cancelled, everything is drained, and only
the root is reported. -/
theorem child_lost : ∃ s, Steps.run step init tornRun = some s ∧
    s.commands = [.startCollect 0, .submitSpans ⟨.span childSpan, childToken⟩,
      .submitSpans ⟨.span rootSpan, rootToken⟩, .commitCollect 0] ∧
    s.Drained ∧ RoundsOf tornRounds s.channels ∧
    ((GlobalCollector.start { cancelable := true }).handleRounds tornRounds).reported =
      [[⟨⟨1⟩, ⟨5⟩, ⟨9⟩, 10, 20, "root", [], []⟩], []] :=
  ⟨after tornRun, rfl, rfl, ⟨rfl, by decide⟩, rfl, by decide⟩

/-! ### Collectors left over -/

/-- The start of a root comes before its commit. -/
def StartThenCommit (a b : CollectCommand) : Prop := ∃ c, a = .startCollect c ∧ b = .commitCollect c

/-- A commit is not sent at a moment when the drain tears it from the start of its root. -/
def CommitUntorn (s : Tracing T) : Action T → Prop
  | .commitCollect t c => ∀ x ∈ s.channels.sent, x.body = .startCollect c → ¬s.channels.Torn x t
  | _ => True

instance (s : Tracing T) : (a : Action T) → Decidable (CommitUntorn s a)
  | .commitCollect t c =>
    inferInstanceAs (Decidable (∀ x ∈ s.channels.sent, x.body = .startCollect c → ¬s.channels.Torn x t))
  | .startCollect _ => isTrue trivial
  | .submitSpans .. => isTrue trivial
  | .dropCollect .. => isTrue trivial
  | .channels _ => isTrue trivial

private theorem ordered_neutral {s : Tracing T} (h : Inv s) (ho : s.channels.Ordered StartThenCommit) {t : T}
    (ht : t ∈ s.channels.registered) {cmd : CollectCommand} (hstart : ∀ c, cmd ≠ .startCollect c)
    (hcommit : ∀ c, cmd ≠ .commitCollect c) : (s.channels.push t cmd).Ordered StartThenCommit := by
  refine Channels.ordered_push h.wf ho ht ?_ ?_ ?_
  · rintro x - ⟨c, -, hc⟩
    exact absurd hc (hcommit c)
  · rintro y - ⟨c, hs, -⟩
    exact absurd hs (hstart c)
  · rintro ⟨c, hs, -⟩
    exact absurd hs (hstart c)

private theorem ordered_step {s s' : Tracing T} {a : Action T} (h : Inv s)
    (ho : s.channels.Ordered StartThenCommit) (hc : CommitUntorn s a) (hs : s.step a = some s') :
    s'.channels.Ordered StartThenCommit := by
  cases a with
  | startCollect t =>
    obtain ⟨ht, rfl⟩ := step_startCollect hs
    refine Channels.ordered_push h.wf ho ht ?_ ?_ ?_
    · rintro x - ⟨c, -, hcommit⟩; cases hcommit
    · -- the id is fresh, so it has not been committed
      rintro y hy ⟨c, hstart, hcommit⟩
      cases hstart
      have hzero := (h.fresh s.nextCollectId (Nat.le_refl _)).2
      exact List.count_eq_zero.1 hzero (hcommit ▸ List.mem_map_of_mem hy)
    · rintro ⟨c, -, hcommit⟩; cases hcommit
  | submitSpans t spans token =>
    rcases step_submitSpans hs with ⟨-, rfl⟩ | ⟨ht, rfl⟩
    · exact ho
    · exact ordered_neutral h ho ht (by rintro c ⟨⟩) (by rintro c ⟨⟩)
  | dropCollect t c =>
    obtain ⟨-, ht, rfl⟩ := step_dropCollect hs
    exact ordered_neutral h ho ht (by rintro c ⟨⟩) (by rintro c ⟨⟩)
  | commitCollect t c =>
    obtain ⟨-, ht, rfl⟩ := step_commitCollect hs
    refine Channels.ordered_push h.wf ho ht ?_ ?_ ?_
    · rintro x hx ⟨c', hstart, hcommit⟩
      cases hcommit
      exact hc x hx hstart
    · rintro y - ⟨c', hstart, -⟩; cases hstart
    · rintro ⟨c', hstart, -⟩; cases hstart
  | channels l =>
    obtain ⟨channels, hl, rfl⟩ := Option.map_eq_some_iff.1 hs
    exact Channels.ordered_step h.wf ho hl

/-- In a run in which no commit is torn from its start: when all roots have been dropped and all channels drained, no
collector is left, in either mode. -/
theorem no_leak (config : Config) {s : Tracing T} {as : List (Action T)} (hrun : Steps.run step init as = some s)
    (hmeet : Steps.Meet step CommitUntorn init as) (hroots : s.roots = []) (hdrained : s.Drained)
    {rounds : List Round} (hrounds : RoundsOf rounds s.channels) :
    ((GlobalCollector.start config).handleRounds rounds).activeCollectors.keys = [] := by
  have hboth : Inv s ∧ s.channels.Ordered StartThenCommit := by
    refine Steps.meet_induction (P := fun s => Inv s ∧ s.channels.Ordered StartThenCommit)
      (fun s a s' hp hc hs => ⟨inv_step hp.1 hs, ordered_step hp.1 hp.2 hc hs⟩) ⟨inv_init, ?_⟩ hmeet hrun
    exact fun a ha => absurd ha List.not_mem_nil
  obtain ⟨hinv, hordered⟩ := hboth
  apply HashMap.keys_eq_nil
  intro c
  by_contra hsome
  obtain ⟨k, hopen⟩ := (activeCollectors_iff config rounds c).1 hsome
  obtain ⟨r, hr, hstart⟩ := hopen.start
  obtain ⟨x, hx, hbody⟩ := (hrounds.mem_commands hr).1 hstart
  have hxs := hinv.wf.sent_of_received hx
  -- the root has been dropped, so its commit has been sent and received
  have honce : s.commands.count (.startCollect c) = 1 := by
    have hpos : 0 < s.commands.count (.startCollect c) := List.count_pos_iff.2 (hbody ▸ List.mem_map_of_mem hxs)
    have := hinv.startOnce c
    omega
  have hcommitted : 0 < s.commands.count (.commitCollect c) := by
    rcases hinv.closed c honce with hroot | hcommit
    · rw [hroots] at hroot
      exact absurd hroot List.not_mem_nil
    · omega
  obtain ⟨y, hy, hybody⟩ := List.mem_map.1 (List.count_pos_iff.1 hcommitted)
  obtain ⟨j, hj, hyj⟩ := hinv.wf.received_of_drained hdrained.1 hdrained.2 hy (hinv.not_lost _)
  obtain ⟨rj, hrj, hcj⟩ := hrounds.exists_round hj hyj
  -- the start is received no later than the commit, so the commit finds the collector
  have hxy : s.channels.InOrder x y := hordered x hxs y hy ⟨c, hbody, hybody⟩
  obtain ⟨i, hij, hxi⟩ := hxy.received (hinv.not_lost _) hj hyj
  obtain ⟨ri, hri, hci⟩ := hrounds.exists_round (by omega) hxi
  rw [hbody] at hci
  have hik := round_unique (Nat.le_trans (hrounds.count_le hinv.wf _) (hinv.startOnce c)) hri hci hr hstart
  rw [hybody] at hcj
  exact hopen.noCommit j rj (by omega) (hrounds.length_eq ▸ hj) hrj hcj

/-- A root started on thread `1` is dropped on thread `2`, then the channels are drained. -/
def movedRun : List (Action Nat) :=
  [.channels (.register 1), .channels (.register 2), .startCollect 1] ++ .commitCollect 2 0 :: drain 1 1

def movedRounds : List Round := [roundOf [.startCollect 0, .commitCollect 0]]

theorem no_leak_moved :
    ((GlobalCollector.start { cancelable := false }).handleRounds movedRounds).activeCollectors.keys = [] := by
  have hrun : Steps.run step init movedRun = some (after movedRun) := rfl
  exact no_leak { cancelable := false } hrun (by decide) rfl ⟨rfl, by decide⟩ rfl

/-- The drain has left the channel of thread `1` when the root is started there, and has still to visit that of
thread `2` when the root is dropped there. -/
def leakRun : List (Action Nat) :=
  [.channels (.register 1), .channels (.register 2), .channels .begin, .channels .next, .startCollect 1,
    .commitCollect 2 0, .channels .recv, .channels .next, .channels .finish] ++ drain 1 0

def leakRounds : List Round := [roundOf [.commitCollect 0], roundOf [.startCollect 0]]

/-- All roots have been dropped, everything is drained, and a collector is left in either mode. -/
theorem collector_left : ∃ s, Steps.run step init leakRun = some s ∧ s.roots = [] ∧ s.Drained ∧
    RoundsOf leakRounds s.channels ∧
    ∀ cancelable,
      ((GlobalCollector.start { cancelable := cancelable }).handleRounds leakRounds).activeCollectors.keys = [0] :=
  ⟨after leakRun, rfl, rfl, ⟨rfl, by decide⟩, rfl, by decide⟩

end Tracing

end Fastrace
