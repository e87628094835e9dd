import Fastrace.Simulation

/-!
# Parentage

What is reported of a program of nested blocks is its meaning (`parentage`): the records are those of the meaning,
each as often as the meaning has it, and a record carries the events and properties that the meaning attaches to its
span in its trace.  So the parent of a local span, or of a span made under the local parent, is the innermost local
span open in the innermost block of a local parent, or else the span of that block.  This does not depend on how
`handle_commands` cuts the commands.
-/

namespace Fastrace

/-! ### The traces of the roots -/

section Roots

variable {T : Type}

private theorem rootTraces_append (as bs : List (T × Op)) : rootTraces (as ++ bs) = rootTraces as ++ rootTraces bs :=
  List.filterMap_append

private theorem rootTraces_plain (t : T) (c : PlainCall) : rootTraces [(t, c.op)] = rootTraces [((), c.op)] := by
  cases c <;> rfl

private theorem rootTraces_block (p : Block) (t : T) : rootTraces (p.calls t) = rootTraces (p.calls ()) := by
  induction p with
  | done => rfl
  | call c rest ih =>
    rw [Block.calls, Block.calls, ← List.singleton_append, rootTraces_append, rootTraces_plain, ih,
      ← rootTraces_append]
    rfl
  | setLocalParent g h body now rest ihbody ihrest =>
    have hsplit : ∀ {S : Type} (t : S), rootTraces ((Block.setLocalParent g h body now rest).calls t) =
        rootTraces (body.calls t) ++ rootTraces (rest.calls t) := fun t => rootTraces_append ..
    rw [hsplit, hsplit, ihbody, ihrest]
  | localSpan v name id now body later rest ihbody ihrest =>
    have hsplit : ∀ {S : Type} (t : S), rootTraces ((Block.localSpan v name id now body later rest).calls t) =
        rootTraces (body.calls t) ++ rootTraces (rest.calls t) := fun t => rootTraces_append ..
    rw [hsplit, hsplit, ihbody, ihrest]

private theorem rootTraces_drops (t : T) (roots : List (Var × Instant)) :
    rootTraces (roots.map fun root => (t, .dropSpan root.1 root.2)) = [] := by
  rw [rootTraces, List.filterMap_map]
  exact List.filterMap_eq_nil_iff.2 fun _ _ => rfl

private theorem rootTraces_calls (p : BlockProgram) (t : T) :
    rootTraces (p.calls t) = rootTraces (p.body.calls ()) := by
  change rootTraces (p.body.calls t ++ _) = _
  rw [rootTraces_append, rootTraces_drops, List.append_nil, rootTraces_block]

variable [DecidableEq T]

/-- A later root has another collect id and another trace. -/
private theorem RootCall.ne_later {before after : List (T × Op)} {parent parent' : SpanContext} {id id' : SpanId}
    {c : CollectId} {t : T} {h : Var} {name : String} {now : Instant} {w : World T}
    (hcall : RootCall before parent id c) (hsampled : parent.sampled = true)
    (hnodup : (rootTraces (before ++ (t, .root h name parent' id' now) :: after)).Nodup)
    (hrun : Steps.run World.step World.init before = some w) (hsampled' : parent'.sampled = true) :
    c ≠ w.rootCollectId parent' ∧ parent.traceId ≠ parent'.traceId := by
  constructor
  · intro heq
    have hlt := hcall.lt hsampled hrun
    rw [heq, World.rootCollectId, if_pos hsampled'] at hlt
    exact Nat.lt_irrefl _ hlt
  · intro heq
    rw [rootTraces_append, List.nodup_append] at hnodup
    refine hnodup.2.2 parent.traceId ?_ parent'.traceId (List.mem_cons_self ..) heq
    obtain ⟨b, a, t', h', name', now', w', rfl, -⟩ := hcall
    rw [rootTraces_append]
    exact List.mem_append_right _ (List.mem_cons_self ..)

/-- Where every root has a trace of its own, the collect ids of the sampled roots tell the traces apart. -/
private theorem RootCall.collectId_eq_iff {as : List (T × Op)} (hnodup : (rootTraces as).Nodup)
    {parent parent' : SpanContext}
    {id id' : SpanId} {c c' : CollectId} (h : RootCall as parent id c) (h' : RootCall as parent' id' c')
    (hsampled : parent.sampled = true) (hsampled' : parent'.sampled = true) :
    c = c' ↔ parent.traceId = parent'.traceId := by
  obtain ⟨before, after, t, v, name, now, w, rfl, hw, hready, rfl⟩ := h
  obtain ⟨before', after', t', v', name', now', w', heq, hw', hready', rfl⟩ := h'
  rcases List.append_eq_append_iff.1 heq with ⟨between, rfl, hbetween⟩ | ⟨between, rfl, hbetween⟩
  · cases between with
    | nil =>
      cases hbetween
      rw [List.append_nil, hw] at hw'
      cases hw'
      exact ⟨fun _ => rfl, fun _ => rfl⟩
    | cons a between =>
      cases hbetween
      have hcall : RootCall (before ++ (t, .root v name parent id now) :: between) parent id
          (w.rootCollectId parent) := ⟨before, between, t, v, name, now, w, rfl, hw, hready, rfl⟩
      rw [heq] at hnodup
      obtain ⟨hid, htrace⟩ := hcall.ne_later hsampled hnodup hw' hsampled'
      exact ⟨fun he => absurd he hid, fun he => absurd he htrace⟩
  · cases between with
    | nil =>
      cases hbetween
      rw [List.append_nil, hw'] at hw
      cases hw
      exact ⟨fun _ => rfl, fun _ => rfl⟩
    | cons a between =>
      cases hbetween
      have hcall : RootCall (before' ++ (t', .root v' name' parent' id' now') :: between) parent' id'
          (w'.rootCollectId parent') := ⟨before', between, t', v', name', now', w', rfl, hw', hready', rfl⟩
      obtain ⟨hid, htrace⟩ := hcall.ne_later hsampled' hnodup hw hsampled
      exact ⟨fun he => absurd he.symm hid, fun he => absurd he.symm htrace⟩

end Roots

/-! ### The whole run -/

section Run

variable {T : Type} [DecidableEq T] {t : T} {roots : List Var} {m : Meaning} {w w' : World T}

/-- The roots are dropped one after another. -/
private theorem Traced.dropRoots {drops : List (Var × Instant)} (h : Traced roots t m w)
    (hroots : ∀ root ∈ drops, root.1 ∈ roots)
    (hrun : Steps.run World.step w (drops.map fun root => (t, .dropSpan root.1 root.2)) = some w') :
    Traced roots t m w' ∧ w'.spanStack = w.spanStack := by
  induction drops generalizing w with
  | nil =>
    cases hrun
    exact ⟨h, rfl⟩
  | cons root drops ih =>
    rw [List.forall_mem_cons] at hroots
    obtain ⟨w₁, hw, hrun⟩ := Option.bind_eq_some_iff.1 hrun
    obtain ⟨span, hspan, rfl⟩ := Option.map_eq_some_iff.1 hw
    obtain ⟨s, rfl, hinner, hstands⟩ := h.live hspan
    obtain ⟨c, hc⟩ := Option.ne_none_iff_exists'.1 (hstands.root.2 hroots.1)
    obtain ⟨-, hcommit, htoken⟩ := h.counted.own root.1 s c hinner hc
    have hopen : ∀ item ∈ s.collectToken, .commitCollect item.collectId ∉ w.commands := by
      intro item hitem
      rw [htoken item hitem]
      exact hcommit
    obtain ⟨htraced, hstack⟩ := ih (h.dropSpan hinner hopen root.2) hroots.2 hrun
    exact ⟨htraced, hstack⟩

omit [DecidableEq T] in
/-- Before the first root. -/
private theorem simulates_init (roots : List Var) (t : T) :
    Simulates roots t none 0 Meaning.empty { (World.init : World T) with reporterReady := true } where
  ready := rfl
  spans h span hspan := by cases hspan
  counted := Counted.init
  order := List.Pairwise.nil
  collected _ := rfl
  owes := ⟨[], Tally.empty fun _ => rfl, List.Perm.refl _⟩
  top := .none
  depth_eq := rfl
  capacity := rfl
  noCommit _ := List.not_mem_nil

/-- The world after the program, with its stack empty. -/
private theorem BlockProgram.traced {p : BlockProgram} (hfits : p.body.Fits (p.roots.map Prod.fst) 0)
    (hfresh : FreshIds (p.calls t)) (hrun : Steps.run World.step World.init (p.calls t) = some w) :
    Traced (p.roots.map Prod.fst) t p.meaning w ∧ (w.spanStack t).spanLines = [] := by
  have hrun' : Steps.run World.step { (World.init : World T) with reporterReady := true }
      (p.body.calls t ++ p.roots.map fun root => (t, .dropSpan root.1 root.2)) = some w := hrun
  rw [Steps.run_append] at hrun'
  obtain ⟨w₁, hbody, hdrops⟩ := Option.bind_eq_some_iff.1 hrun'
  have hreach : Steps.run World.step World.init [(t, .setReporter)] =
      some { (World.init : World T) with reporterReady := true } := rfl
  have hsplit : p.calls t = [(t, .setReporter)] ++ p.body.calls t ++
      p.roots.map fun root => (t, .dropSpan root.1 root.2) := rfl
  rw [hsplit] at hfresh
  have hroom : Room p.body.entries ((World.init : World T).spanStack t).spanLines := by
    intro line lines heq
    cases heq
  obtain ⟨hsim, -⟩ := p.body.simulates hreach hfresh.before (simulates_init _ t) hfits hroom hbody
  have hroots : ∀ root ∈ p.roots, root.1 ∈ p.roots.map Prod.fst := fun root hroot => List.mem_map_of_mem hroot
  obtain ⟨htraced, hstack⟩ := hsim.toTraced.dropRoots hroots hdrops
  have htop := hsim.top
  refine ⟨htraced, ?_⟩
  rw [hstack]
  generalize (w₁.spanStack t).spanLines = lines at htop
  cases htop
  rfl

end Run

/-! ### What is reported -/

section Reported

variable {T : Type} [DecidableEq T] {t : T} {roots : List Var} {as : List (T × Op)} {m : Meaning}
  {rounds : List Round} {w : World T}

/-- The program `as` with the meaning `m` has dropped all spans, and all its commands have been received. -/
structure Finished (roots : List Var) (t : T) (as : List (T × Op)) (m : Meaning) (rounds : List Round) (w : World T) :
    Prop where
  reach : Steps.run World.step World.init as = some w
  traced : Traced roots t m w
  spans : ∀ h, w.spans h = none
  lines : (w.spanStack t).spanLines = []
  received_eq : received rounds = w.commands
  ownTraces : (rootTraces as).Nodup
  once : (m.facts.filterMap Fact.recordId?).Nodup
  bare : ∀ key properties, .record key properties ∈ m.facts → properties = []

namespace Finished

private theorem submitted_eq (h : Finished roots t as m rounds w) : submitSpans (received rounds) = w.submitted := by
  rw [h.received_eq]
  rfl

private theorem inner (h : Finished roots t as m rounds w) (v : Var) : w.inner v = none := by
  rw [World.inner, h.spans v, Option.bind_none]

/-- The submissions ask for what the meaning says. -/
private theorem facts (h : Finished roots t as m rounds w) : (w.submitted.flatMap SubmitSpans.facts).Perm m.facts :=
  h.traced.owes.submitted h.inner h.lines

private theorem keys (h : Finished roots t as m rounds w) :
    (((GlobalCollector.start { cancelable := false }).handleRounds rounds).reported.flatten.map SpanRecord.key).Perm
      m.keys := by
  have hkeys : w.submitted.flatMap SubmitSpans.keys =
      (w.submitted.flatMap SubmitSpans.facts).filterMap Fact.key? := by
    rw [List.filterMap_flatMap]
    exact List.flatMap_congr fun cmd _ => (keys_of_submission cmd).symm
  refine (reported_false_keys rounds).trans ?_
  rw [h.submitted_eq, hkeys]
  exact h.facts.filterMap _

/-- The items of the submissions go back to sampled roots. -/
private theorem fromRoot (h : Finished roots t as m rounds w) {cmd : SubmitSpans} (hcmd : cmd ∈ w.submitted)
    {item : CollectTokenItem} (hitem : item ∈ cmd.collectToken) :
    ∃ parent id, RootCall as parent id item.collectId ∧ item.traceId = parent.traceId ∧ parent.sampled = true := by
  obtain ⟨⟨parent, id, hcall, htrace, hsame⟩, hsampled⟩ := (rooted_of_run h.reach).submitted cmd hcmd item hitem
  exact ⟨parent, id, hcall, htrace, hsame.symm.trans hsampled⟩

private theorem trace_eq_iff (h : Finished roots t as m rounds w) {cmd cmd' : SubmitSpans} (hcmd : cmd ∈ w.submitted)
    (hcmd' : cmd' ∈ w.submitted) {item item' : CollectTokenItem} (hitem : item ∈ cmd.collectToken)
    (hitem' : item' ∈ cmd'.collectToken) : item.collectId = item'.collectId ↔ item.traceId = item'.traceId := by
  obtain ⟨parent, id, hcall, htrace, hsampled⟩ := h.fromRoot hcmd hitem
  obtain ⟨parent', id', hcall', htrace', hsampled'⟩ := h.fromRoot hcmd' hitem'
  rw [htrace, htrace']
  exact hcall.collectId_eq_iff h.ownTraces hcall' hsampled hsampled'

/-- An item received for the trace, and where it comes from. -/
private theorem item_of_trace (h : Finished roots t as m rounds w) {c : CollectId} {i : Item}
    (hi : i ∈ itemsFor c (received rounds)) :
    ∃ cmd ∈ w.submitted, ∃ item ∈ cmd.collectToken, item.collectId = c ∧ i = itemOf cmd.spans item := by
  rw [itemsFor_eq, h.submitted_eq] at hi
  obtain ⟨cmd, hcmd, hi⟩ := List.mem_flatMap.1 hi
  obtain ⟨item, hitem, rfl⟩ := List.mem_map.1 hi
  obtain ⟨hitem, hc⟩ := List.mem_filter.1 hitem
  exact ⟨cmd, hcmd, item, hitem, by simpa using hc, rfl⟩

private theorem trace_of_item (h : Finished roots t as m rounds w) {c : CollectId} {i i' : Item}
    (hi : i ∈ itemsFor c (received rounds)) (hi' : i' ∈ itemsFor c (received rounds)) : i.traceId = i'.traceId := by
  obtain ⟨cmd, hcmd, item, hitem, hc, rfl⟩ := h.item_of_trace hi
  obtain ⟨cmd', hcmd', item', hitem', hc', rfl⟩ := h.item_of_trace hi'
  exact (h.trace_eq_iff hcmd hcmd' hitem hitem').1 (hc.trans hc'.symm)

/-- Every span is submitted once for the trace. -/
private theorem spansOnce (h : Finished roots t as m rounds w) (c : CollectId) :
    ((itemsFor c (received rounds)).flatMap Item.spanIds).Nodup := by
  have hkeys : (((itemsFor c (received rounds)).flatMap Item.keys).map
      fun key => (key.traceId, key.spanId)).Nodup := by
    have hsub := (reportedFor_sublist false c rounds).map SpanRecord.key
    rw [reportedFor_false_keys] at hsub
    have honce := h.once
    rw [recordIds_of_keys] at honce
    exact ((h.keys.map _).nodup_iff.2 honce).sublist (hsub.map _)
  obtain ⟨traceId, htrace⟩ : ∃ traceId, ∀ i ∈ itemsFor c (received rounds), i.traceId = traceId := by
    cases hitems : itemsFor c (received rounds) with
    | nil => exact ⟨default, fun i hi => by cases hi⟩
    | cons i items =>
      rw [← hitems]
      exact ⟨i.traceId, fun i' hi' => h.trace_of_item hi' (hitems ▸ List.mem_cons_self ..)⟩
  have hids : (((itemsFor c (received rounds)).flatMap Item.keys).map fun key => (key.traceId, key.spanId)) =
      ((itemsFor c (received rounds)).flatMap Item.spanIds).map fun x => (traceId, x) := by
    rw [List.map_flatMap, List.map_flatMap]
    refine List.flatMap_congr fun i hi => ?_
    rw [← htrace i hi, Item.keys, Item.spanIds, List.map_map, List.map_map]
    rfl
  rw [hids] at hkeys
  exact List.Nodup.of_map _ hkeys

private theorem wholeTrace (h : Finished roots t as m rounds w) {c : CollectId} {i : Item}
    (hi : i ∈ itemsFor c (received rounds)) : WholeTrace c rounds := by
  obtain ⟨cmd, hcmd, item, hitem, rfl, -⟩ := h.item_of_trace hi
  obtain ⟨parent, id, hcall, -, hsampled⟩ := h.fromRoot hcmd hitem
  have hlt := hcall.lt hsampled h.reach
  have hcounted := h.traced.counted
  refine wholeTrace_of_order (h.received_eq ▸ h.traced.order) ?_ ?_ ?_ ?_
  · rw [h.received_eq, hcounted.starts, if_pos hlt]
  · rw [h.received_eq]
    rcases hcounted.commits item.collectId hlt with ⟨v, s, hs, -⟩ | hcommit
    · rw [h.inner v] at hs
      cases hs
    · exact hcommit
  · rw [h.received_eq]
    exact hcounted.noDrop item.collectId
  · have hitems : rounds.flatMap (·.items item.collectId) = itemsFor item.collectId (received rounds) := by
      simp only [itemsFor_eq, received, submitSpans, List.filterMap_flatMap, List.flatMap_assoc]
    rw [hitems]
    exact h.spansOnce item.collectId

/-- What the meaning attaches to a span in a trace is what the items of the trace attach to it. -/
private theorem attachedTo (h : Finished roots t as m rounds w) {c : CollectId} {i : Item}
    (hi : i ∈ itemsFor c (received rounds)) (x : SpanId) :
    ((itemsFor c (received rounds)).flatMap fun i => keyed (i.attachments fun _ => 0) x).Perm
      (m.attachedTo i.traceId x) := by
  obtain ⟨cmd, hcmd, item, hitem, hc, hi⟩ := h.item_of_trace hi
  refine (List.Perm.of_eq ?_).trans (h.facts.filterMap _)
  rw [itemsFor_eq, h.submitted_eq, List.flatMap_assoc, List.filterMap_flatMap]
  refine List.flatMap_congr fun cmd' hcmd' => (attachedTo_of_submission (fun item' hitem' => ?_) x).symm
  rw [← hc, hi]
  exact h.trace_eq_iff hcmd' hcmd hitem' hitem

/-- A record carries what the meaning attaches to its span. -/
private theorem record (h : Finished roots t as m rounds w) {r : SpanRecord}
    (hr : r ∈ ((GlobalCollector.start { cancelable := false }).handleRounds rounds).reported.flatten) :
    ∃ items : List DanglingItem, items.Perm (m.attachedTo r.traceId r.spanId) ∧
      r.properties = items.flatMap DanglingItem.props ∧
      r.events.map EventRecord.eraseTimes = items.flatMap DanglingItem.events := by
  obtain ⟨c, hr⟩ := exists_reportedFor hr
  have hitem : ∃ i, i ∈ itemsFor c (received rounds) := by
    have hkey := List.mem_map_of_mem (f := SpanRecord.key) hr
    rw [reportedFor_false_keys] at hkey
    obtain ⟨i, hi, -⟩ := List.mem_flatMap.1 hkey
    exact ⟨i, hi⟩
  obtain ⟨i₀, hi₀⟩ := hitem
  obtain ⟨i, hi, raw, hraw, hkind, htrace, hid, hproperties, hevents⟩ := (h.wholeTrace hi₀).record hr
  refine ⟨_, htrace ▸ h.attachedTo hi r.spanId, ?_, hevents⟩
  -- the span itself has no properties
  have hbare : raw.properties.getD [] = [] := by
    obtain ⟨cmd, hcmd, item, hitem, -, rfl⟩ := h.item_of_trace hi
    have hfact : (itemOf cmd.spans item).fact raw ∈ w.submitted.flatMap SubmitSpans.facts :=
      List.mem_flatMap.2 ⟨cmd, hcmd, List.mem_flatMap.2 ⟨item, hitem, List.mem_map_of_mem hraw⟩⟩
    rw [fact_of_span _ hkind] at hfact
    exact h.bare _ _ (h.facts.subset hfact)
  rwa [hbare, List.nil_append] at hproperties

end Finished

/-- A proper program of nested blocks is reported as its meaning says, wherever the calls of `handle_commands` cut its
commands. -/
theorem parentage (p : BlockProgram) (hproper : p.Proper) (hfresh : FreshIds (p.calls t))
    (hrun : Steps.run World.step World.init (p.calls t) = some w) (hdropped : ∀ h, w.spans h = none)
    (hreceived : received rounds = w.commands) :
    let reported := ((GlobalCollector.start { cancelable := false }).handleRounds rounds).reported.flatten
    (reported.map SpanRecord.key).Perm p.meaning.keys ∧ ∀ r ∈ reported, ∃ items : List DanglingItem,
      items.Perm (p.meaning.attachedTo r.traceId r.spanId) ∧ r.properties = items.flatMap DanglingItem.props ∧
        r.events.map EventRecord.eraseTimes = items.flatMap DanglingItem.events := by
  obtain ⟨htraced, hlines⟩ := BlockProgram.traced hproper.fits hfresh hrun
  have hempty : Meaning.empty.Sound [] :=
    ⟨fun h place hplace => (by cases hplace), List.nodup_nil, fun p hp => (by cases hp),
      fun key properties hmem => (by cases hmem)⟩
  have hids : ([] ++ drawnIds (p.body.calls t)).Nodup := by
    have hnodup := hfresh.nodup
    rw [BlockProgram.calls, drawnIds_cons, drawnIds_append] at hnodup
    exact hnodup.of_append_right.of_append_left
  have hsound := p.body.sound hempty hids (fun place hplace => (by cases hplace)) hproper.oneItem
  have hfinished : Finished (p.roots.map Prod.fst) t (p.calls t) p.meaning rounds w :=
    ⟨hrun, htraced, hdropped, hlines, hreceived, rootTraces_calls p t ▸ hproper.ownTraces, hsound.once, hsound.bare⟩
  exact ⟨hfinished.keys, fun r hr => hfinished.record hr⟩

end Reported

/-! ### A program with two roots -/

/-- A span is made in a local span and has a block of its own, and so has a join of the two roots. -/
def twoRoots : BlockProgram where
  body :=
    .call (.root 0 "root" ⟨⟨1⟩, ⟨9⟩, true⟩ ⟨1⟩ ⟨10⟩) <|
    .call (.root 1 "other" ⟨⟨2⟩, ⟨9⟩, true⟩ ⟨2⟩ ⟨11⟩) <|
    .setLocalParent 0 0
      (.localSpan 0 "span1" ⟨3⟩ ⟨12⟩
        (.call (.addEvent ⟨"event", none⟩ ⟨4⟩ ⟨13⟩) <|
          .call (.enterWithLocalParent 2 "span2" ⟨5⟩ ⟨14⟩) <|
          .setLocalParent 1 2
            (.localSpan 1 "span3" ⟨6⟩ ⟨15⟩ (.call (.addProperties [("k", "v")] ⟨7⟩) .done) ⟨16⟩ .done) ⟨17⟩ <|
          .call (.dropSpan 2 ⟨18⟩) <|
          .localSpan 1 "span4" ⟨8⟩ ⟨19⟩ .done ⟨20⟩ .done) ⟨21⟩ .done) ⟨22⟩ <|
    .call (.enterWithParents 3 "join" [0, 1] ⟨10⟩ ⟨23⟩) <|
    .setLocalParent 0 3 (.localSpan 0 "span5" ⟨11⟩ ⟨24⟩ .done ⟨25⟩ .done) ⟨26⟩ <|
    .call (.dropSpan 3 ⟨27⟩) .done
  roots := [(1, ⟨28⟩), (0, ⟨29⟩)]

def twoRootsWorld : World Unit := (Steps.run World.step World.init (twoRoots.calls ())).getD World.init

/-- Two calls of `handle_commands`. -/
def twoRootsRounds : List Round := [
  ⟨twoRootsWorld.commands.take 5, fun i => i.ticks, .stored⟩,
  ⟨twoRootsWorld.commands.drop 5, fun i => i.ticks, .stored⟩]

theorem parentage_two_roots :
    let reported := ((GlobalCollector.start { cancelable := false }).handleRounds twoRootsRounds).reported.flatten
    (reported.map SpanRecord.key).Perm [⟨⟨1⟩, ⟨1⟩, ⟨9⟩⟩, ⟨⟨2⟩, ⟨2⟩, ⟨9⟩⟩, ⟨⟨1⟩, ⟨3⟩, ⟨1⟩⟩, ⟨⟨1⟩, ⟨5⟩, ⟨3⟩⟩,
      ⟨⟨1⟩, ⟨6⟩, ⟨5⟩⟩, ⟨⟨1⟩, ⟨8⟩, ⟨3⟩⟩, ⟨⟨1⟩, ⟨10⟩, ⟨1⟩⟩, ⟨⟨2⟩, ⟨10⟩, ⟨2⟩⟩, ⟨⟨1⟩, ⟨11⟩, ⟨10⟩⟩, ⟨⟨2⟩, ⟨11⟩, ⟨10⟩⟩] ∧
    ∀ r ∈ reported, ∃ items : List DanglingItem, items.Perm (twoRoots.meaning.attachedTo r.traceId r.spanId) ∧
      r.properties = items.flatMap DanglingItem.props ∧
        r.events.map EventRecord.eraseTimes = items.flatMap DanglingItem.events := by
  have hdropped : ∀ h, twoRootsWorld.spans h = none
    | 0 | 1 | 2 | 3 | _ + 4 => rfl
  have hreceived : received twoRootsRounds = twoRootsWorld.commands := by
    simp [received, twoRootsRounds]
  have hfresh : FreshIds (twoRoots.calls ()) := ⟨by decide, by decide⟩
  exact parentage twoRoots ⟨by decide, by decide, by decide⟩ hfresh rfl hdropped hreceived

end Fastrace
