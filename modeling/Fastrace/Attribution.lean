import Fastrace.Mounting

/-!
# For which trace a record is reported

The records of a call lie in one vector and do not say which collector they come from.  `attributed` computes the
same records with the collect id each was reported for (`attributed_records`: forgetting the ids gives back the
records of the code).  `reportedFor c` picks the records of one trace, call by call.

All collectors share the code of a call but no data: `traceStep c` is what a call does to the collector of `c` alone,
as a function of the commands and token items that mention `c`, and `reportedFor_eq` says that the records reported
for `c` in a run of the collector are those of the run of `traceStep c`.
-/

namespace Fastrace

/-! ### What a round says about one trace -/

/-- The submissions that have an item for `c`, with that item. -/
def submissionsFor (c : CollectId) (cmds : List CollectCommand) : List (SpanSet × CollectTokenItem) :=
  (submitSpans cmds).flatMap fun cmd =>
    (cmd.collectToken.filter (·.collectId = c)).map fun item => (cmd.spans, item)

def itemOf (spans : SpanSet) (item : CollectTokenItem) : Item := ⟨spans, item.traceId, item.parentId⟩

def itemsFor (c : CollectId) (cmds : List CollectCommand) : List Item :=
  (submissionsFor c cmds).map fun p => itemOf p.1 p.2

abbrev Round.items (round : Round) (c : CollectId) : List Item := itemsFor c round.commands

abbrev Round.starts (round : Round) (c : CollectId) : Prop := .startCollect c ∈ round.commands

abbrev Round.drops (round : Round) (c : CollectId) : Prop := .dropCollect c ∈ round.commands

abbrev Round.commits (round : Round) (c : CollectId) : Prop := .commitCollect c ∈ round.commands

/-! ### The collector of one trace -/

/-- The collector of one trace between two calls. -/
structure TraceState where
  items : List Item
  waiting : Waiting

def ActiveCollector.trace (activeCollector : ActiveCollector) : TraceState where
  items := activeCollector.spanCollections.map SpanCollection.item
  waiting := activeCollector.danglings.waiting

def TraceState.receive (t : TraceState) (items : List Item) : TraceState := { t with items := t.items ++ items }

def timed (anchor : Anchor) (items : List Item) : List TimedItem := items.map fun i => (anchor, i)

def TraceState.pass (t : TraceState) (anchor : Anchor) : List SpanRecord := recordsOf t.waiting (timed anchor t.items)

/-- The records of stale spans: each is post-processed alone, with no danglings. -/
def staleRecords (anchor : Anchor) (items : List Item) : List SpanRecord :=
  items.flatMap fun i => recordsOf (fun _ => []) [(anchor, i)]

/-- The collector of `c` once the starts, drops and submissions of the round have been processed. -/
def entered (c : CollectId) (st : Option TraceState) (round : Round) : Option TraceState :=
  if round.drops c then none
  else if round.starts c then some ⟨round.items c, fun _ => []⟩
  else st.map fun t => t.receive (round.items c)

/-- What one call does to the collector of `c`, and the records it reports for `c`. -/
def traceStep (cancelable : Bool) (c : CollectId) (st : Option TraceState) (round : Round) :
    Option TraceState × List SpanRecord :=
  match entered c st round with
  | none => (none, if cancelable then [] else staleRecords round.anchor (round.items c))
  | some t =>
    if round.commits c then (none, t.pass round.anchor)
    else if cancelable then (some t, [])
    else (some ⟨[], leftover t.waiting (timed round.anchor t.items)⟩, t.pass round.anchor)

def traceOut (cancelable : Bool) (c : CollectId) : Option TraceState → List Round → List (List SpanRecord)
  | _, [] => []
  | st, round :: rounds =>
    (traceStep cancelable c st round).2 :: traceOut cancelable c (traceStep cancelable c st round).1 rounds

def traceFinal (cancelable : Bool) (c : CollectId) (st : Option TraceState) (rounds : List Round) :
    Option TraceState :=
  rounds.foldl (fun st round => (traceStep cancelable c st round).1) st

/-! ### Records with their collect id -/

/-- The records of a pass over a collector, if there is one. -/
def passOf (anchor : Anchor) (st : Option TraceState) : List SpanRecord := (st.map (·.pass anchor)).getD []

/-- The records of a pass over the collector of `c`. -/
def ownedPass (anchor : Anchor) (active : ActiveCollectors) (c : CollectId) : List (CollectId × SpanRecord) :=
  (passOf anchor ((active.get? c).map ActiveCollector.trace)).map fun r => (c, r)

def commitOwned (anchor : Anchor) (active : ActiveCollectors) : List CollectId → List (CollectId × SpanRecord)
  | [] => []
  | c :: ids => ownedPass anchor active c ++ commitOwned anchor (active.remove c) ids

def staleFor (cancelable : Bool) (active : ActiveCollectors) (cmds : List SubmitSpans) :
    List (CollectId × Item) :=
  if cancelable then []
  else cmds.flatMap fun cmd =>
    (cmd.collectToken.filter fun item => (active.get? item.collectId).isNone).map fun item =>
      (item.collectId, itemOf cmd.spans item)

/-- The records of a call, each with the collect id it is reported for. -/
def attributed (cancelable : Bool) (active : ActiveCollectors) (round : Round) :
    List (CollectId × SpanRecord) :=
  let entered := dropLoop (startLoop active (startCollects round.commands)) (dropCollects round.commands)
  let submitted := (distribute cancelable active round.commands).1
  let committed := (commitLoop round.anchor (submitted, []) (commitCollects round.commands)).1
  commitOwned round.anchor submitted (commitCollects round.commands) ++
    (if !cancelable then (round.order.visit committed.keys).flatMap (ownedPass round.anchor committed) else []) ++
    (staleFor cancelable entered (submitSpans round.commands)).flatMap fun p =>
      (staleRecords round.anchor [p.2]).map fun r => (p.1, r)

def attributedRun (cancelable : Bool) (active : ActiveCollectors) :
    List Round → List (List (CollectId × SpanRecord))
  | [] => []
  | round :: rounds =>
    attributed cancelable active round :: attributedRun cancelable (collectRound cancelable active round).1 rounds

/-- The entries of `c`. -/
def ownedBy {α : Type} (c : CollectId) (l : List (CollectId × α)) : List α := (l.filter (·.1 = c)).map (·.2)

/-- The records reported for `c` by each call of a run that starts without collectors. -/
def reportedFor (cancelable : Bool) (c : CollectId) (rounds : List Round) : List (List SpanRecord) :=
  (attributedRun cancelable HashMap.empty rounds).map (ownedBy c)

theorem ownedBy_append {α : Type} (c : CollectId) (l l' : List (CollectId × α)) :
    ownedBy c (l ++ l') = ownedBy c l ++ ownedBy c l' := by
  simp [ownedBy]

theorem ownedBy_flatMap {α β : Type} (c : CollectId) (l : List β) (f : β → List (CollectId × α)) :
    ownedBy c (l.flatMap f) = l.flatMap fun b => ownedBy c (f b) := by
  simp [ownedBy, List.filter_flatMap, List.map_flatMap]

theorem ownedBy_map {α : Type} (c c' : CollectId) (l : List α) :
    ownedBy c (l.map fun a => (c', a)) = if c' = c then l else [] := by
  unfold ownedBy
  rw [List.filter_map]
  by_cases h : c' = c
  · simp [h, Function.comp_def]
  · simp [h, Function.comp_def]

/-- What the first half of a call can do to a collector: nothing reaches it but a start or its items. -/
theorem entered_eq_some {c : CollectId} {st : Option TraceState} {round : Round} {t : TraceState} :
    entered c st round = some t ↔ ¬round.drops c ∧
      (round.starts c ∧ t = ⟨round.items c, fun _ => []⟩ ∨
        ¬round.starts c ∧ ∃ t', st = some t' ∧ t = t'.receive (round.items c)) := by
  unfold entered
  by_cases hd : round.drops c
  · simp [hd]
  · by_cases hs : round.starts c
    · simp [hd, hs, eq_comm]
    · cases st <;> simp [hd, hs, eq_comm]

@[simp] theorem receive_nil (t : TraceState) : t.receive [] = t := by simp [TraceState.receive]

@[simp] theorem receive_receive (t : TraceState) (l l' : List Item) :
    (t.receive l).receive l' = t.receive (l ++ l') := by
  simp [TraceState.receive]

/-! ### The loops, collector by collector -/

private theorem startLoop_get? (active : ActiveCollectors) (ids : List CollectId) (c : CollectId) :
    (startLoop active ids).get? c = if c ∈ ids then some {} else active.get? c := by
  induction ids generalizing active with
  | nil => simp [startLoop]
  | cons id ids ih =>
    refine (ih (active.insert id {})).trans ?_
    rw [HashMap.get?_insert]
    by_cases h : c ∈ ids <;> by_cases h' : c = id <;> simp [h, h']

private theorem dropLoop_get? (active : ActiveCollectors) (ids : List CollectId) (c : CollectId) :
    (dropLoop active ids).get? c = if c ∈ ids then none else active.get? c := by
  induction ids generalizing active with
  | nil => simp [dropLoop]
  | cons id ids ih =>
    refine (ih (active.remove id)).trans ?_
    rw [HashMap.get?_remove]
    by_cases h : c ∈ ids <;> by_cases h' : c = id <;> simp [h, h']

/-- The items of a submission, each with its collect id. -/
def SubmitSpans.ownedItems (cmd : SubmitSpans) : List (CollectId × Item) :=
  cmd.collectToken.map fun item => (item.collectId, itemOf cmd.spans item)

/-- From `state` to `out` the items `l` have been distributed: a collector has received its own, and the items without
a collector are stale. -/
structure Distributes (cancelable : Bool) (l : List (CollectId × Item)) (state out : SubmitState) : Prop where
  received : ∀ c, (out.1.get? c).map ActiveCollector.trace =
    (state.1.get? c).map fun ac => ac.trace.receive (ownedBy c l)
  stale : out.2.map SpanCollection.item = state.2.map SpanCollection.item ++
    if cancelable then [] else (l.filter fun p => (state.1.get? p.1).isNone).map (·.2)

namespace Distributes

variable {cancelable : Bool} {l l' : List (CollectId × Item)} {state mid out : SubmitState}

private theorem nil (cancelable : Bool) (state : SubmitState) : Distributes cancelable [] state state where
  received c := by simp [ownedBy]
  stale := by simp

private theorem isNone_eq (h : Distributes cancelable l state out) (c : CollectId) :
    (out.1.get? c).isNone = (state.1.get? c).isNone := by
  have hsome := congrArg Option.isNone (h.received c)
  simpa using hsome

private theorem append (h : Distributes cancelable l state mid) (h' : Distributes cancelable l' mid out) :
    Distributes cancelable (l ++ l') state out where
  received c := by
    have hmid := h.received c
    rw [h'.received c]
    cases hg : state.1.get? c with
    | none =>
      rw [hg, Option.map_none, Option.map_eq_none_iff] at hmid
      rw [hmid]
      rfl
    | some ac =>
      rw [hg, Option.map_some, Option.map_eq_some_iff] at hmid
      obtain ⟨ac', hac', htrace⟩ := hmid
      rw [hac', Option.map_some, Option.map_some, htrace, receive_receive, ownedBy_append]
  stale := by
    rw [h'.stale, h.stale, List.append_assoc]
    simp only [h.isNone_eq]
    cases cancelable <;> simp

end Distributes

private theorem submitItem_distributes (cancelable : Bool) (state : SubmitState) (id : CollectId)
    (col : SpanCollection) :
    Distributes cancelable [(id, col.item)] state (submitItem cancelable state id col) := by
  unfold submitItem
  cases h : state.1.get? id with
  | some ac =>
    refine ⟨fun c => ?_, by simp [h]⟩
    rw [HashMap.get?_insert]
    by_cases hc : c = id
    · subst hc
      simp [h, ActiveCollector.trace, TraceState.receive, ownedBy]
    · simp [hc, Ne.symm hc, ownedBy]
  | none =>
    have hsame : (if !cancelable then (state.1, state.2 ++ [col]) else state).1 = state.1 := by
      split <;> rfl
    refine ⟨fun c => ?_, by cases cancelable <;> simp [h]⟩
    rw [hsame]
    by_cases hc : id = c
    · subst hc
      simp [h]
    · simp [hc, ownedBy]

private theorem submitItems_distributes (cancelable : Bool) (spans : SpanSet) (mk : CollectTokenItem → SpanCollection)
    (hmk : ∀ item, (mk item).item = itemOf spans item) (token : CollectToken) (state : SubmitState) :
    Distributes cancelable (SubmitSpans.ownedItems ⟨spans, token⟩) state
      (token.foldl (fun state item => submitItem cancelable state item.collectId (mk item)) state) := by
  induction token generalizing state with
  | nil => exact .nil cancelable state
  | cons item token ih =>
    have hfirst := submitItem_distributes cancelable state item.collectId (mk item)
    rw [hmk] at hfirst
    exact hfirst.append (ih _)

private theorem submitOne_distributes (cancelable : Bool) (state : SubmitState) (cmd : SubmitSpans) :
    Distributes cancelable cmd.ownedItems state (submitOne cancelable state cmd) := by
  obtain ⟨spans, token⟩ := cmd
  -- one token item is stored `Owned`, several are stored `Shared`
  rcases token with _ | ⟨item, _ | ⟨item', token⟩⟩
  · exact .nil cancelable state
  · exact submitItem_distributes cancelable state item.collectId (.owned spans item.traceId item.parentId)
  · exact submitItems_distributes cancelable spans (fun item => .shared spans item.traceId item.parentId)
      (fun _ => rfl) _ state

/-- After the submissions the collectors have received their items, and the items without a collector are stale. -/
private theorem submitLoop_distributes (cancelable : Bool) (state : SubmitState) (cmds : List SubmitSpans) :
    Distributes cancelable (cmds.flatMap SubmitSpans.ownedItems) state (submitLoop cancelable state cmds) := by
  induction cmds generalizing state with
  | nil => exact .nil cancelable state
  | cons cmd cmds ih => exact (submitOne_distributes cancelable state cmd).append (ih _)

private theorem ownedBy_ownedItems (c : CollectId) (cmds : List SubmitSpans) :
    ownedBy c (cmds.flatMap SubmitSpans.ownedItems) =
      cmds.flatMap fun cmd => (cmd.collectToken.filter (·.collectId = c)).map (itemOf cmd.spans) := by
  rw [ownedBy_flatMap]
  simp [ownedBy, SubmitSpans.ownedItems, List.filter_map, Function.comp_def]

private theorem staleFor_eq (cancelable : Bool) (active : ActiveCollectors) (cmds : List SubmitSpans) :
    staleFor cancelable active cmds = if cancelable then []
      else (cmds.flatMap SubmitSpans.ownedItems).filter fun p => (active.get? p.1).isNone := by
  simp [staleFor, SubmitSpans.ownedItems, List.filter_flatMap, List.filter_map, Function.comp_def]

private theorem mem_filterMap_of {f : CollectCommand → Option CollectId} {c : CollectId} {cmd₀ : CollectCommand}
    (hf : ∀ cmd, f cmd = some c ↔ cmd = cmd₀) (cmds : List CollectCommand) : c ∈ cmds.filterMap f ↔ cmd₀ ∈ cmds := by
  rw [List.mem_filterMap]
  constructor
  · rintro ⟨cmd, hcmd, h⟩
    exact (hf cmd).1 h ▸ hcmd
  · exact fun h => ⟨cmd₀, h, (hf cmd₀).2 rfl⟩

private theorem mem_startCollects {c : CollectId} {cmds : List CollectCommand} :
    c ∈ startCollects cmds ↔ .startCollect c ∈ cmds :=
  mem_filterMap_of (fun cmd => by cases cmd <;> simp) cmds

private theorem mem_dropCollects {c : CollectId} {cmds : List CollectCommand} :
    c ∈ dropCollects cmds ↔ .dropCollect c ∈ cmds :=
  mem_filterMap_of (fun cmd => by cases cmd <;> simp) cmds

private theorem mem_commitCollects {c : CollectId} {cmds : List CollectCommand} :
    c ∈ commitCollects cmds ↔ .commitCollect c ∈ cmds :=
  mem_filterMap_of (fun cmd => by cases cmd <;> simp) cmds

theorem itemsFor_eq (c : CollectId) (cmds : List CollectCommand) :
    itemsFor c cmds = (submitSpans cmds).flatMap fun cmd =>
      (cmd.collectToken.filter (·.collectId = c)).map (itemOf cmd.spans) := by
  simp [itemsFor, submissionsFor, List.map_flatMap, Function.comp_def]

/-- The collectors after the starts, drops and submissions of a round. -/
private theorem distribute_get? (cancelable : Bool) (active : ActiveCollectors) (round : Round) (c : CollectId) :
    ((distribute cancelable active round.commands).1.get? c).map ActiveCollector.trace =
      entered c ((active.get? c).map ActiveCollector.trace) round := by
  unfold distribute entered
  rw [(submitLoop_distributes _ _ _).received, ownedBy_ownedItems, dropLoop_get?, startLoop_get?, ← itemsFor_eq]
  simp only [mem_dropCollects, mem_startCollects]
  split
  · rfl
  · split
    · rfl
    · simp [Function.comp_def]

private theorem distribute_stale (cancelable : Bool) (active : ActiveCollectors) (cmds : List CollectCommand) :
    (distribute cancelable active cmds).2.map SpanCollection.item =
      (staleFor cancelable (dropLoop (startLoop active (startCollects cmds)) (dropCollects cmds))
        (submitSpans cmds)).map (·.2) := by
  have h := (submitLoop_distributes cancelable
    (dropLoop (startLoop active (startCollects cmds)) (dropCollects cmds), []) (submitSpans cmds)).stale
  rw [staleFor_eq, distribute, h]
  cases cancelable <;> simp

private theorem pass_eq (anchor : Anchor) (ac : ActiveCollector) (recs : List SpanRecord) :
    (postprocessSpanCollection ac.spanCollections anchor recs ac.danglings).1 =
      recs ++ ac.trace.pass anchor := by
  rw [postprocess_records]
  simp [TraceState.pass, timed, ActiveCollector.trace, Function.comp_def]

private theorem commitLoop_records (anchor : Anchor) (active : ActiveCollectors) (recs : List SpanRecord)
    (ids : List CollectId) :
    (commitLoop anchor (active, recs) ids).2 = recs ++ (commitOwned anchor active ids).map (·.2) := by
  induction ids generalizing active recs with
  | nil => simp [commitLoop, commitOwned]
  | cons id ids ih =>
    unfold commitLoop at ih ⊢
    rw [List.foldl_cons, commitOne, commitOwned, ownedPass]
    cases h : active.get? id with
    | some ac => simp only [ih, pass_eq]; simp [passOf, Function.comp_def]
    | none => simp only [ih, HashMap.remove_of_get?_eq_none h]; simp [passOf]

private theorem commitLoop_get? (anchor : Anchor) (state : CommitState) (ids : List CollectId) (c : CollectId) :
    (commitLoop anchor state ids).1.get? c = if c ∈ ids then none else state.1.get? c := by
  induction ids generalizing state with
  | nil => simp [commitLoop]
  | cons id ids ih =>
    unfold commitLoop at ih ⊢
    rw [List.foldl_cons, ih]
    unfold commitOne
    by_cases h : c ∈ ids
    · simp [h]
    · cases hg : state.1.get? id with
      | some ac =>
        simp only [HashMap.get?_remove]
        by_cases h' : c = id <;> simp [h, h']
      | none =>
        by_cases h' : c = id
        · subst h'; simp [hg]
        · simp [h, h']

/-- Only the first commit of `c` in a round reports something for `c`. -/
private theorem commitOwned_ownedBy (anchor : Anchor) (active : ActiveCollectors) (ids : List CollectId)
    (c : CollectId) :
    ownedBy c (commitOwned anchor active ids) =
      if c ∈ ids then passOf anchor ((active.get? c).map ActiveCollector.trace) else [] := by
  induction ids generalizing active with
  | nil => rfl
  | cons id ids ih =>
    rw [commitOwned, ownedBy_append, ih, ownedPass, ownedBy_map, HashMap.get?_remove]
    by_cases h : id = c
    · subst h; simp [passOf]
    · simp [h, Ne.symm h]

private theorem drainLoop_records (anchor : Anchor) (active : ActiveCollectors) (recs : List SpanRecord)
    {ids : List CollectId} (hids : ids.Nodup) :
    (drainLoop anchor (active, recs) ids).2 = recs ++ (ids.flatMap (ownedPass anchor active)).map (·.2) := by
  induction ids generalizing active recs with
  | nil => simp [drainLoop]
  | cons id ids ih =>
    rw [List.nodup_cons] at hids
    unfold drainLoop at ih ⊢
    rw [List.foldl_cons, drainOne, List.flatMap_cons]
    cases h : active.get? id with
    | none => simp only [ih _ _ hids.2]; simp [ownedPass, passOf, h]
    | some ac =>
      simp only [ih _ _ hids.2, pass_eq]
      -- the other collectors are still as they were
      have hsame : ids.flatMap (ownedPass anchor (active.insert id
          { danglings := (postprocessSpanCollection ac.spanCollections anchor recs ac.danglings).2 })) =
          ids.flatMap (ownedPass anchor active) := by
        unfold List.flatMap
        congr 1
        apply List.map_congr_left
        intro id' hid'
        have hne : id' ≠ id := fun he => hids.1 (he ▸ hid')
        rw [ownedPass, ownedPass, HashMap.get?_insert]
        simp [hne]
      rw [hsame]
      simp [ownedPass, passOf, h, Function.comp_def]

private theorem drainLoop_get? (anchor : Anchor) (state : CommitState) {ids : List CollectId} (hids : ids.Nodup)
    (c : CollectId) :
    ((drainLoop anchor state ids).1.get? c).map ActiveCollector.trace =
      if c ∈ ids then (state.1.get? c).map fun ac =>
        ⟨[], leftover ac.trace.waiting (timed anchor ac.trace.items)⟩
      else (state.1.get? c).map ActiveCollector.trace := by
  induction ids generalizing state with
  | nil => simp [drainLoop]
  | cons id ids ih =>
    rw [List.nodup_cons] at hids
    unfold drainLoop at ih ⊢
    rw [List.foldl_cons, ih _ hids.2, drainOne]
    cases h : state.1.get? id with
    | none =>
      by_cases hc : c = id
      · subst hc; simp [h]
      · simp [hc]
    | some ac =>
      simp only [HashMap.get?_insert]
      by_cases hc : c = id
      · subst hc
        simp [hids.1, h, ActiveCollector.trace, postprocess_danglings, timed, Function.comp_def]
      · simp [hc]

private theorem staleLoop_records (anchor : Anchor) (recs : List SpanRecord) (stale : List SpanCollection) :
    staleLoop anchor recs stale = recs ++ staleRecords anchor (stale.map SpanCollection.item) := by
  induction stale generalizing recs with
  | nil => simp [staleLoop, staleRecords]
  | cons col stale ih =>
    unfold staleLoop at ih ⊢
    rw [List.foldl_cons, ih, postprocess_records, List.append_assoc]
    rfl

/-! ### One call -/

/-- Forgetting the collect ids gives the records the call passes to the reporter. -/
theorem attributed_records (cancelable : Bool) (active : ActiveCollectors) (round : Round) :
    (attributed cancelable active round).map (·.2) = (collectRound cancelable active round).2 := by
  unfold attributed collectRound
  simp only
  rw [staleLoop_records, distribute_stale, List.map_append, List.map_append]
  have hstale : ∀ l : List (CollectId × Item),
      ((l.flatMap fun p => (staleRecords round.anchor [p.2]).map fun r => (p.1, r)).map (·.2)) =
        staleRecords round.anchor (l.map (·.2)) := by
    intro l
    simp [List.map_flatMap, Function.comp_def, staleRecords, List.flatMap_map]
  rw [hstale]
  congr 1
  have hcommit := commitLoop_records round.anchor (distribute cancelable active round.commands).1 []
    (commitCollects round.commands)
  generalize commitLoop round.anchor _ _ = committed at hcommit ⊢
  cases cancelable with
  | true => simpa using hcommit.symm
  | false =>
    simp only [Bool.not_false, ↓reduceIte]
    rw [drainLoop_records _ _ _ ((round.order.perm _).nodup_iff.2 (HashMap.keys_nodup _)), hcommit]
    simp

private theorem ownedBy_flatMap_map {α : Type} (c : CollectId) {ids : List CollectId} (hids : ids.Nodup)
    (f : CollectId → List α) :
    ownedBy c (ids.flatMap fun id => (f id).map fun a => (id, a)) = if c ∈ ids then f c else [] := by
  induction ids with
  | nil => rfl
  | cons id ids ih =>
    rw [List.nodup_cons] at hids
    rw [List.flatMap_cons, ownedBy_append, ownedBy_map, ih hids.2]
    by_cases h : id = c
    · subst h; simp [hids.1]
    · simp [h, Ne.symm h]

private theorem drained_ownedBy (round : Round) (active : ActiveCollectors) (c : CollectId) :
    ownedBy c ((round.order.visit active.keys).flatMap (ownedPass round.anchor active)) =
      passOf round.anchor ((active.get? c).map ActiveCollector.trace) := by
  have hperm := round.order.perm active.keys
  refine (ownedBy_flatMap_map c (hperm.nodup_iff.2 active.keys_nodup) fun id =>
    passOf round.anchor ((active.get? id).map ActiveCollector.trace)).trans ?_
  simp only [hperm.mem_iff, HashMap.mem_keys]
  cases h : active.get? c <;> simp [passOf]

private theorem ownedBy_filter {α : Type} (c : CollectId) (f : CollectId → Bool) (l : List (CollectId × α)) :
    ownedBy c (l.filter fun p => f p.1) = if f c then ownedBy c l else [] := by
  unfold ownedBy
  rw [List.filter_filter]
  have hkeep : ∀ p ∈ l, (decide (p.1 = c) && f p.1) = (f c && decide (p.1 = c)) := by
    intro p _
    by_cases hp : p.1 = c
    · simp [hp]
    · simp [hp]
  rw [List.filter_congr hkeep]
  cases f c <;> simp

private theorem staleFor_ownedBy (cancelable : Bool) (active : ActiveCollectors) (cmds : List SubmitSpans)
    (c : CollectId) :
    ownedBy c (staleFor cancelable active cmds) =
      if cancelable || (active.get? c).isSome then []
      else cmds.flatMap fun cmd => (cmd.collectToken.filter (·.collectId = c)).map (itemOf cmd.spans) := by
  rw [staleFor_eq]
  cases cancelable with
  | true => rfl
  | false =>
    rw [if_neg (by decide), ownedBy_filter c fun c => (active.get? c).isNone, ownedBy_ownedItems]
    cases active.get? c <;> simp

private theorem staleRecords_ownedBy (anchor : Anchor) (l : List (CollectId × Item)) (c : CollectId) :
    ownedBy c (l.flatMap fun p => (staleRecords anchor [p.2]).map fun r => (p.1, r)) =
      staleRecords anchor (ownedBy c l) := by
  rw [ownedBy_flatMap]
  induction l with
  | nil => rfl
  | cons p l ih =>
    rw [List.flatMap_cons, ih, ownedBy_map]
    by_cases h : p.1 = c <;> simp [ownedBy, staleRecords, h]

/-- What a call reports for `c` is what `traceStep` reports. -/
theorem attributed_ownedBy (cancelable : Bool) (active : ActiveCollectors) (round : Round) (c : CollectId) :
    ownedBy c (attributed cancelable active round) =
      (traceStep cancelable c ((active.get? c).map ActiveCollector.trace) round).2 := by
  have hent := distribute_get? cancelable active round c
  -- the submissions neither make nor remove a collector
  have hnone : ((dropLoop (startLoop active (startCollects round.commands)) (dropCollects round.commands)).get?
      c).isSome = (entered c ((active.get? c).map ActiveCollector.trace) round).isSome := by
    rw [← hent]
    unfold distribute
    rw [(submitLoop_distributes _ _ _).received]
    simp
  have hcom : ∀ recs, (((commitLoop round.anchor ((distribute cancelable active round.commands).1, recs)
      (commitCollects round.commands)).1.get? c).map ActiveCollector.trace) =
      if round.commits c then none else entered c ((active.get? c).map ActiveCollector.trace) round := by
    intro recs
    rw [commitLoop_get?, ← hent]
    simp only [mem_commitCollects]
    split <;> rfl
  unfold attributed traceStep
  simp only
  rw [ownedBy_append, ownedBy_append, commitOwned_ownedBy, hent, staleRecords_ownedBy, staleFor_ownedBy, hnone,
    ← itemsFor_eq]
  simp only [mem_commitCollects]
  -- a collector that has been committed makes no second pass
  have hdrain : ownedBy c (if (!cancelable) = true then (round.order.visit
      (commitLoop round.anchor ((distribute cancelable active round.commands).1, [])
        (commitCollects round.commands)).1.keys).flatMap (ownedPass round.anchor
      (commitLoop round.anchor ((distribute cancelable active round.commands).1, [])
        (commitCollects round.commands)).1) else []) =
      if cancelable || round.commits c then [] else
        passOf round.anchor (entered c ((active.get? c).map ActiveCollector.trace) round) := by
    cases cancelable with
    | true => rfl
    | false =>
      simp only [Bool.not_false, ↓reduceIte, Bool.false_or, decide_eq_true_eq]
      rw [drained_ownedBy, hcom]
      split <;> simp [passOf]
  rw [hdrain]
  cases entered c ((active.get? c).map ActiveCollector.trace) round with
  | none => cases cancelable <;> by_cases h : round.commits c <;> simp [passOf, h, staleRecords]
  | some t => cases cancelable <;> by_cases h : round.commits c <;> simp [passOf, h, staleRecords]

/-- A call does to the collector of `c` what `traceStep` does. -/
theorem collectRound_get? (cancelable : Bool) (active : ActiveCollectors) (round : Round) (c : CollectId) :
    ((collectRound cancelable active round).1.get? c).map ActiveCollector.trace =
      (traceStep cancelable c ((active.get? c).map ActiveCollector.trace) round).1 := by
  have hent := distribute_get? cancelable active round c
  unfold collectRound traceStep
  simp only
  have hcom := commitLoop_get? round.anchor ((distribute cancelable active round.commands).1, [])
    (commitCollects round.commands)
  generalize commitLoop round.anchor _ _ = committed at hcom ⊢
  have hc := hcom c
  simp only [mem_commitCollects] at hc
  cases cancelable with
  | true =>
    simp only [Bool.not_true, Bool.false_eq_true, ↓reduceIte]
    -- with `cancelable` only the commits touch the collectors after the submissions
    rw [hc, ← hent]
    by_cases h : round.commits c
    · cases (distribute true active round.commands).1.get? c <;> simp [h]
    · cases (distribute true active round.commands).1.get? c <;> simp [h]
  | false =>
    have hperm := round.order.perm committed.1.keys
    simp only [Bool.not_false, ↓reduceIte]
    rw [drainLoop_get? _ _ (hperm.nodup_iff.2 (HashMap.keys_nodup _))]
    simp only [hperm.mem_iff, HashMap.mem_keys, hc]
    rw [← hent]
    by_cases h : round.commits c
    · cases (distribute false active round.commands).1.get? c <;> simp [h]
    · cases (distribute false active round.commands).1.get? c <;> simp [h]

/-! ### Runs -/

private theorem attributedRun_ownedBy (cancelable : Bool) (active : ActiveCollectors) (rounds : List Round)
    (c : CollectId) :
    (attributedRun cancelable active rounds).map (ownedBy c) =
      traceOut cancelable c ((active.get? c).map ActiveCollector.trace) rounds := by
  induction rounds generalizing active with
  | nil => rfl
  | cons round rounds ih =>
    rw [attributedRun, traceOut, List.map_cons, ih, attributed_ownedBy, collectRound_get?]

private theorem attributedRun_length (cancelable : Bool) (active : ActiveCollectors) (rounds : List Round) :
    (attributedRun cancelable active rounds).length = rounds.length := by
  induction rounds generalizing active with
  | nil => rfl
  | cons round rounds ih => simp [attributedRun, ih]

theorem reportedFor_length (cancelable : Bool) (c : CollectId) (rounds : List Round) :
    (reportedFor cancelable c rounds).length = rounds.length := by
  rw [reportedFor, List.length_map, attributedRun_length]

theorem lt_of_reportedFor {cancelable : Bool} {c : CollectId} {rounds : List Round} {k : Nat}
    {recs : List SpanRecord} (h : (reportedFor cancelable c rounds)[k]? = some recs) : k < rounds.length := by
  rw [← reportedFor_length cancelable c rounds]
  exact (List.getElem?_eq_some_iff.1 h).1

/-- The records reported for `c` in a run are those of the run of the collector of `c` alone. -/
theorem reportedFor_eq (cancelable : Bool) (c : CollectId) (rounds : List Round) :
    reportedFor cancelable c rounds = traceOut cancelable c none rounds :=
  attributedRun_ownedBy cancelable HashMap.empty rounds c

private theorem handleRounds_spec (config : Config) (reporter : Reporter) (active : ActiveCollectors)
    (rounds : List Round) :
    let out := GlobalCollector.handleRounds ⟨config, some reporter, active⟩ rounds
    out.reported = reporter.reported ++
        (attributedRun config.cancelable active rounds).map (List.map (·.2)) ∧
      ∀ c, (out.activeCollectors.get? c).map ActiveCollector.trace =
        traceFinal config.cancelable c ((active.get? c).map ActiveCollector.trace) rounds := by
  induction rounds generalizing reporter active with
  | nil => simp [GlobalCollector.handleRounds, GlobalCollector.reported, attributedRun, traceFinal]
  | cons round rounds ih =>
    have h := ih (reporter.report (collectRound config.cancelable active round).2)
      (collectRound config.cancelable active round).1
    refine ⟨?_, fun c => ?_⟩
    · refine h.1.trans ?_
      rw [Reporter.report, attributedRun, List.map_cons, attributed_records, List.append_assoc]
      rfl
    · refine (h.2 c).trans ?_
      rw [collectRound_get?]
      rfl

/-- The reporter is given the attributed records, without the collect ids. -/
theorem handleRounds_reported (config : Config) (rounds : List Round) :
    ((GlobalCollector.start config).handleRounds rounds).reported =
      (attributedRun config.cancelable HashMap.empty rounds).map (List.map (·.2)) := by
  have h := (handleRounds_spec config {} HashMap.empty rounds).1
  simpa [GlobalCollector.start] using h

theorem handleRounds_get? (config : Config) (rounds : List Round) (c : CollectId) :
    (((GlobalCollector.start config).handleRounds rounds).activeCollectors.get? c).map ActiveCollector.trace =
      traceFinal config.cancelable c none rounds :=
  (handleRounds_spec config {} HashMap.empty rounds).2 c

end Fastrace
