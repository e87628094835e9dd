import Fastrace.Places

/-!
# Running a program of nested blocks

Run from a world that agrees with the meaning of the program so far, a block ends in a world that agrees with the
meaning of the block as well, at the same place (`Block.simulates`).  A block leaves nothing but the entries of the
top line (`Framed`): the lines below are as before, and so are the guards and local spans, since each has been dropped
at the end of a block of its own.
-/

namespace Fastrace

section Simulation

variable {T : Type}

/-! ### One call -/

/-- What a block leaves behind: the spans it has not dropped are as before, and so are the guards, the local spans and
the lines, but for at most `n` entries in the top line. -/
structure Framed (drops : List Var) (n : Nat) (t : T) (w w' : World T) : Prop where
  guards : w'.guards = w.guards
  localSpans : w'.localSpans = w.localSpans
  spans : ∀ h, h ∉ drops → w.spans h ≠ none → w'.spans h = w.spans h
  lines : Grown n (w.spanStack t).spanLines (w'.spanStack t).spanLines

private theorem Framed.refl (t : T) (w : World T) : Framed [] 0 t w w := ⟨rfl, rfl, fun _ _ _ => rfl, .refl ..⟩

private theorem Framed.trans {drops drops' : List Var} {n n' : Nat} {t : T} {w w' w'' : World T}
    (h : Framed drops n t w w')
    (h' : Framed drops' n' t w' w'') : Framed (drops ++ drops') (n + n') t w w'' where
  guards := h'.guards.trans h.guards
  localSpans := h'.localSpans.trans h.localSpans
  spans v hv hlive := by
    rw [List.mem_append, not_or] at hv
    have hkept := h.spans v hv.1 hlive
    exact (h'.spans v hv.2 (by rwa [hkept])).trans hkept
  lines := h.lines.trans h'.lines

/-- The top line has room for `n` more entries. -/
def Room (n : Nat) (lines : List SpanLine) : Prop :=
  ∀ line rest, lines = line :: rest → line.spanQueue.spanQueue.length + n ≤ line.spanQueue.capacity

private theorem Room.after {n n' : Nat} {lines lines' : List SpanLine} (h : Room (n + n') lines)
    (hgrown : Grown n lines lines') : Room n' lines' := by
  intro line rest heq
  cases hgrown with
  | bare => cases heq
  | @top line' rest' new hlines hlength =>
    cases heq
    have hroom := h line' rest hlines
    change (line'.spanQueue.spanQueue ++ new).length + n' ≤ line'.spanQueue.capacity
    rw [List.length_append]
    omega

private theorem Room.mono {n n' : Nat} {lines : List SpanLine} (h : Room n lines) (hle : n' ≤ n) : Room n' lines := by
  intro line rest heq
  have hroom := h line rest heq
  omega

/-- The world agrees with the meaning `m`, and the thread is at the place `scope` inside of `depth` local parents. -/
structure Simulates (roots : List Var) (t : T) (scope : Option Place) (depth : Nat) (m : Meaning) (w : World T) :
    Prop extends Traced roots t m w where
  top : Top (w.spanStack t).spanLines scope
  depth_eq : (w.spanStack t).spanLines.length = depth
  capacity : (w.spanStack t).capacity = defaultSpanStackSize
  noCommit : ∀ c, .commitCollect c ∉ w.commands

section Call

variable [DecidableEq T] {roots : List Var} {t : T} {scope : Option Place} {depth : Nat} {m : Meaning}
  {w w' : World T}

omit [DecidableEq T] in
/-- A new span leaves the stack alone. -/
private theorem newSpan_simulates (h : Simulates roots t scope depth m w) {v : Var} {s : SpanInner}
    (hfree : w.spans v = none) (hstands : Stands roots (m.newSpan v s.place s.facts) v s)
    (hchild : s.collectId = none) :
    Simulates roots t scope depth (m.newSpan v s.place s.facts) (w.setSpan v (some ⟨some s⟩)) ∧
      Framed [] 0 t w (w.setSpan v (some ⟨some s⟩)) := by
  refine ⟨⟨h.toTraced.newSpan hfree hstands hchild, h.top, h.depth_eq, h.capacity, h.noCommit⟩, rfl, rfl,
    fun v' _ hlive => ?_, .refl ..⟩
  have hne : v' ≠ v := fun he => hlive (he ▸ hfree)
  exact Function.update_of_ne hne ..

private theorem root_simulates {as : List (T × Op)} (hreach : Steps.run World.step World.init as = some w)
    (h : Simulates roots t scope depth m w) {v : Var} {name : String} {parent : SpanContext} {id : SpanId}
    {now : Instant} (hfits : v ∈ roots ∧ parent.sampled = true)
    (hw : w.step (t, .root v name parent id now) = some w') :
    Simulates roots t scope depth
      (m.newSpan v ⟨id, [parent.traceId]⟩ [.record ⟨parent.traceId, id, parent.spanId⟩ []]) w' ∧
      Framed [] 0 t w w' := by
  obtain ⟨hroots, hsampled⟩ := hfits
  obtain ⟨w₁, hw₁, rfl⟩ := Option.map_eq_some_iff.1 hw
  obtain ⟨hfree, rfl⟩ := newSpan_eq_some hw₁
  have hroot : Span.root w.reporterReady w.nextCollectId name parent id now =
      (.new (Span.rootToken parent w.nextCollectId) name (some w.nextCollectId) id now, w.nextCollectId + 1,
        [.startCollect w.nextCollectId]) := by
    simp [Span.root, h.ready, hsampled]
  have hnew : ∀ cmd ∈ w.submitted, ∀ item ∈ cmd.collectToken, item.collectId ≠ w.nextCollectId := by
    intro cmd hcmd item hitem heq
    obtain ⟨⟨parent', id', hcall, -, hsame⟩, hitemSampled⟩ := (rooted_of_run hreach).submitted cmd hcmd item hitem
    have hlt := hcall.lt (hsame.symm.trans hitemSampled) hreach
    rw [heq] at hlt
    exact Nat.lt_irrefl _ hlt
  have hstands : Stands roots (m.newSpan v ⟨id, [parent.traceId]⟩ [.record ⟨parent.traceId, id, parent.spanId⟩ []]) v
      ⟨.beginWith id default now name .span, Span.rootToken parent w.nextCollectId, some w.nextCollectId⟩ := by
    refine ⟨Function.update_self .., fun hnil => (by cases hnil), fun item hitem => ?_, rfl, rfl,
      ⟨fun _ => hroots, fun _ => Option.some_ne_none _⟩⟩
    rw [List.mem_singleton.1 hitem]
    exact hsampled
  rw [hroot]
  have htraced := h.toTraced.root (s := ⟨.beginWith id default now name .span, Span.rootToken parent w.nextCollectId,
    some w.nextCollectId⟩) hfree hstands rfl (fun item hitem => by rw [List.mem_singleton.1 hitem]) hnew
  refine ⟨⟨htraced, h.top, h.depth_eq, h.capacity, fun c => ?_⟩, rfl, rfl, fun v' _ hlive => ?_, .refl ..⟩
  · rw [commands_send]
    have hnot : .commitCollect c ∉ w.commands := h.noCommit c
    change .commitCollect c ∉ w.commands ++ _
    simpa using hnot
  · have hne : v' ≠ v := fun he => hlive (he ▸ hfree)
    exact Function.update_of_ne hne ..

omit [DecidableEq T] in
/-- The parents of a new span stand where the meaning has them. -/
private theorem parents_stand (h : Traced roots t m w) {parents : List Var} {spans : List Span}
    (hspans : parents.mapM w.spans = some spans) :
    parents.filterMap m.spans = (spans.filterMap Span.inner).map SpanInner.place ∧
      (spans.filterMap Span.inner).length = parents.length ∧
      ∀ s ∈ spans.filterMap Span.inner, s.collectToken ≠ [] ∧ ∀ item ∈ s.collectToken, item.isSampled = true := by
  induction parents generalizing spans with
  | nil =>
    cases hspans
    exact ⟨rfl, rfl, fun s hs => by cases hs⟩
  | cons parent parents ih =>
    rw [List.mapM_cons] at hspans
    obtain ⟨span, hspan, hspans⟩ := Option.bind_eq_some_iff.1 hspans
    obtain ⟨spans', hspans', heq⟩ := Option.bind_eq_some_iff.1 hspans
    cases heq
    obtain ⟨hplaces, hlength, hall⟩ := ih hspans'
    obtain ⟨s, hs, hstands⟩ := h.spans parent span hspan
    rw [List.filterMap_cons_some hs, List.filterMap_cons_some hstands.place, hplaces]
    refine ⟨rfl, congrArg (· + 1) hlength, ?_⟩
    rw [List.forall_mem_cons]
    exact ⟨⟨hstands.nonempty, hstands.sampled⟩, hall⟩

private theorem enterWithParents_simulates (h : Simulates roots t scope depth m w) {v : Var} {name : String}
    {parents : List Var} {id : SpanId} {now : Instant} (hfits : v ∉ roots ∧ parents ≠ [])
    (hw : w.step (t, .enterWithParents v name parents id now) = some w') :
    Simulates roots t scope depth (m.newSpan v ⟨id, (parents.filterMap m.spans).flatMap Place.traces⟩
      ((parents.filterMap m.spans).flatMap fun place => place.child id)) w' ∧ Framed [] 0 t w w' := by
  obtain ⟨hroots, hparents⟩ := hfits
  obtain ⟨spans, hspans, hw⟩ := Option.bind_eq_some_iff.1 hw
  obtain ⟨hfree, rfl⟩ := newSpan_eq_some hw
  obtain ⟨hplaces, hlength, hall⟩ := parents_stand h.toTraced hspans
  have hplace : (⟨id, (parents.filterMap m.spans).flatMap Place.traces⟩ : Place) =
      SpanInner.place ⟨.beginWith id default now name .span,
        (spans.filterMap Span.inner).flatMap SpanInner.issueCollectToken, none⟩ := by
    rw [hplaces, SpanInner.place, List.flatMap_map, List.map_flatMap]
    refine congrArg (Place.mk id) (List.flatMap_congr fun s _ => ?_)
    rw [SpanInner.issueCollectToken, issueToken, List.map_map]
    rfl
  have hfacts : ((parents.filterMap m.spans).flatMap fun place => place.child id) =
      SpanInner.facts ⟨.beginWith id default now name .span,
        (spans.filterMap Span.inner).flatMap SpanInner.issueCollectToken, none⟩ := by
    rw [hplaces, SpanInner.facts, facts_of_span rfl rfl, List.flatMap_map, List.map_flatMap]
    refine List.flatMap_congr fun s _ => ?_
    rw [Place.child, SpanInner.place, List.map_map, SpanInner.issueCollectToken, issueToken, List.map_map]
    rfl
  rw [hplace, hfacts]
  refine newSpan_simulates h hfree ⟨Function.update_self .., ?_, fun item hitem => ?_, rfl, rfl,
    ⟨fun hne => absurd rfl hne, fun hv => absurd hv hroots⟩⟩ rfl
  · have hne : spans.filterMap Span.inner ≠ [] := by
      intro hnil
      rw [hnil, List.length_nil] at hlength
      exact hparents (List.length_eq_zero_iff.1 hlength.symm)
    obtain ⟨s, hs⟩ := List.exists_mem_of_ne_nil _ hne
    intro hnil
    have hissued := List.flatMap_eq_nil_iff.1 hnil s hs
    exact (hall s hs).1 (List.map_eq_nil_iff.1 hissued)
  · obtain ⟨s, hs, hitem⟩ := List.mem_flatMap.1 hitem
    obtain ⟨item', hitem', rfl⟩ := List.mem_map.1 hitem
    exact (hall s hs).2 item' hitem'

/-- A span made under the local parent has the place as its parent. -/
private theorem enterWithLocalParent_simulates (h : Simulates roots t scope depth m w) {v : Var} {name : String}
    {id : SpanId} {now : Instant} (hfits : v ∉ roots ∧ 0 < depth)
    (hw : w.step (t, .enterWithLocalParent v name id now) = some w') :
    Simulates roots t scope depth ((PlainCall.enterWithLocalParent v name id now).meaning scope m) w' ∧
      Framed [] 0 t w w' := by
  obtain ⟨hroots, hdepth⟩ := hfits
  obtain ⟨hfree, rfl⟩ := newSpan_eq_some hw
  cases hlines : (w.spanStack t).spanLines with
  | nil =>
    have hzero := h.depth_eq
    rw [hlines, List.length_nil] at hzero
    omega
  | cons line lines =>
    have htop := h.top
    rw [hlines] at htop
    cases htop with
    | @some _ _ place hat =>
      obtain ⟨token, htoken, hnonempty, hsampled, htraces, -⟩ := hat.token
      have hspan : Span.enterWithStack name (w.spanStack t) id now =
          .new (token.map fun item => { item with parentId := place.id }) name none id now := by
        simp only [Span.enterWithStack, LocalSpanStack.currentCollectToken, hlines, hat.currentCollectToken htoken]
      have hplace : (⟨id, place.traces⟩ : Place) = SpanInner.place ⟨.beginWith id default now name .span,
          token.map fun item => { item with parentId := place.id }, none⟩ := by
        rw [SpanInner.place, ← htraces, List.map_map]
        rfl
      have hfacts : place.child id = SpanInner.facts ⟨.beginWith id default now name .span,
          token.map fun item => { item with parentId := place.id }, none⟩ := by
        rw [SpanInner.facts, facts_of_span rfl rfl, Place.child, ← htraces, List.map_map, List.map_map]
        rfl
      rw [hspan]
      change Simulates roots t (some place) depth (m.newSpan v ⟨id, place.traces⟩ (place.child id)) _ ∧ _
      rw [hplace, hfacts]
      refine newSpan_simulates h hfree ⟨Function.update_self .., fun hnil => hnonempty (List.map_eq_nil_iff.1 hnil),
        fun item hitem => ?_, rfl, rfl, ⟨fun hne => absurd rfl hne, fun hv => absurd hv hroots⟩⟩ rfl
      obtain ⟨item', hitem', rfl⟩ := List.mem_map.1 hitem
      exact hsampled item' hitem'

private theorem dropSpan_simulates (h : Simulates roots t scope depth m w) {v : Var} {now : Instant}
    (hfits : v ∉ roots) (hw : w.step (t, .dropSpan v now) = some w') :
    Simulates roots t scope depth m w' ∧ Framed [v] 0 t w w' := by
  obtain ⟨span, hspan, rfl⟩ := Option.map_eq_some_iff.1 hw
  obtain ⟨s, rfl, hinner, hstands⟩ := h.live hspan
  have hchild : s.collectId = none := by
    by_contra hne
    exact hfits (hstands.root.1 hne)
  refine ⟨⟨h.toTraced.dropSpan hinner (fun item _ => h.noCommit item.collectId) now, h.top, h.depth_eq, h.capacity,
    fun c => ?_⟩, rfl, rfl, fun v' hv _ => ?_, .refl ..⟩
  · rw [commands_send, Traced.drop_eq hstands.nonempty hstands.sampled, hchild]
    have hnot : .commitCollect c ∉ w.commands := h.noCommit c
    change .commitCollect c ∉ w.commands ++ _
    simpa using hnot
  · exact Function.update_of_ne (fun he => hv (List.mem_singleton.2 he)) ..

/-- An entry that is no span is attached to the place. -/
private theorem entry_simulates (h : Simulates roots t scope depth m w) {line : SpanLine} {lines : List SpanLine}
    (hlines : (w.spanStack t).spanLines = line :: lines) {raw : RawSpan}
    (hraw : raw.parentId = line.spanQueue.parentId) (hkind : raw.rawKind ≠ .span) {item : DanglingItem}
    (hitem : raw.dangling (fun _ => 0) = item) {stack : LocalSpanStack}
    (hstack : stack = { w.spanStack t with spanLines := line.grow [raw] :: lines }) :
    Simulates roots t scope depth (m.add (scope.toList.flatMap fun place => place.attach item)) (w.setStack t stack) ∧
      Framed [] 1 t w (w.setStack t stack) := by
  have htop := h.top
  rw [hlines] at htop
  cases htop with
  | @some _ _ place hat =>
    obtain ⟨token, htoken, -⟩ := hat.token
    have hself : (w.setStack t stack).spanStack t = { w.spanStack t with spanLines := line.grow [raw] :: lines } := by
      rw [hstack]
      exact Function.update_self ..
    have hgrown : Grown 1 (w.spanStack t).spanLines ((w.setStack t stack).spanStack t).spanLines := by
      rw [hself]
      exact .top hlines (Nat.le_refl _)
    have hpush : (line.grow [raw]).facts.Perm (line.facts ++ place.attach item) := by
      rw [← hitem, ← hat.attach htoken hraw hkind]
      exact @facts_push line (line.grow [raw]) token htoken htoken raw rfl
    have hsame : OnStack w (w.setStack t stack) := ⟨rfl, rfl, rfl, rfl, rfl⟩
    refine ⟨⟨h.toTraced.onStack hsame ?_, h.top.grown hgrown, hgrown.length_eq.trans h.depth_eq, ?_,
      h.noCommit⟩, rfl, rfl, fun _ _ _ => rfl, hgrown⟩
    · rw [hself, hlines, Option.toList_some, List.flatMap_singleton]
      exact lines_facts hpush lines
    · rw [hself]
      exact h.capacity

omit [DecidableEq T] in
/-- Outside of all local parents nothing is recorded. -/
private theorem outside_simulates (h : Simulates roots t scope depth m w) (hlines : (w.spanStack t).spanLines = [])
    (item : DanglingItem) :
    Simulates roots t scope depth (m.add (scope.toList.flatMap fun place => place.attach item)) w ∧
      Framed [] 1 t w w := by
  have htop := h.top
  rw [hlines] at htop
  cases htop
  refine ⟨⟨h.toTraced.onStack ⟨rfl, rfl, rfl, rfl, rfl⟩ (List.Perm.of_eq (List.append_nil _).symm), h.top, h.depth_eq,
    h.capacity, h.noCommit⟩, rfl, rfl, fun _ _ _ => rfl, .refl ..⟩

private theorem PlainCall.simulates (c : PlainCall) {as : List (T × Op)}
    (hreach : Steps.run World.step World.init as = some w) (h : Simulates roots t scope depth m w)
    (hfits : c.Fits roots depth) (hroom : Room c.entries (w.spanStack t).spanLines)
    (hw : w.step (t, c.op) = some w') :
    Simulates roots t scope depth (c.meaning scope m) w' ∧ Framed c.drops c.entries t w w' := by
  cases c with
  | root v name parent id now => exact root_simulates hreach h hfits hw
  | enterWithParents v name parents id now => exact enterWithParents_simulates h hfits hw
  | enterWithLocalParent v name id now => exact enterWithLocalParent_simulates h hfits hw
  | dropSpan v now => exact dropSpan_simulates h hfits hw
  | addEvent event id now =>
    cases hw
    cases hlines : (w.spanStack t).spanLines with
    | nil =>
      have hsame : (w.spanStack t).addEvent id now event = w.spanStack t := by
        simp only [LocalSpanStack.addEvent, hlines]
      rw [hsame, World.setStack, Function.update_eq_self]
      exact outside_simulates h hlines event.item
    | cons line lines =>
      have hspace := hroom line lines hlines
      have htop := h.top
      rw [hlines] at htop
      cases htop with
      | @some _ _ place hat =>
        have hstack := addEvent_grow hlines hat.sampled hspace id now event
        exact entry_simulates h hlines rfl (fun hkind => by cases hkind) rfl hstack
  | addProperties properties id =>
    cases hw
    cases hlines : (w.spanStack t).spanLines with
    | nil =>
      have hsame : (w.spanStack t).addProperties id properties = w.spanStack t := by
        simp only [LocalSpanStack.addProperties, hlines]
      rw [hsame, World.setStack, Function.update_eq_self]
      exact outside_simulates h hlines (.properties properties)
    | cons line lines =>
      have hspace := hroom line lines hlines
      have htop := h.top
      rw [hlines] at htop
      cases htop with
      | @some _ _ place hat =>
        have hstack := addProperties_grow hlines hat.sampled hspace id properties
        exact entry_simulates h hlines rfl (fun hkind => by cases hkind) rfl hstack

end Call

/-! ### Blocks -/

section Blocks

variable {roots : List Var} {t : T} {scope : Option Place} {depth : Nat} {m : Meaning} {w w' : World T}

private theorem Meaning.add_nil (m : Meaning) : m.add [] = m := by
  unfold Meaning.add
  rw [List.append_nil]

/-- A local span opens: the place in it is the span itself. -/
private theorem opened_simulates (h : Simulates roots t scope depth m w) {line : SpanLine} {lines : List SpanLine}
    (hlines : (w.spanStack t).spanLines = line :: lines) {place : Place} (hat : line.At place) {raw : RawSpan}
    (hraw : raw.parentId = line.spanQueue.parentId) (hkind : raw.rawKind = .span) (hbare : raw.properties = none)
    (hid : raw.id ≠ default) (hsame : OnStack w w')
    (hstack : w'.spanStack t = { w.spanStack t with spanLines := line.opened raw :: lines }) :
    Simulates roots t (some ⟨raw.id, place.traces⟩) depth (m.add (place.child raw.id)) w' := by
  obtain ⟨token, htoken, -⟩ := hat.token
  have hpush : (line.opened raw).facts.Perm (line.facts ++ place.child raw.id) := by
    rw [← hat.child htoken hraw hkind hbare]
    exact @facts_push line (line.opened raw) token htoken htoken raw rfl
  have hdepth := h.depth_eq
  rw [hlines] at hdepth
  refine ⟨h.toTraced.onStack hsame ?_, ?_, ?_, ?_, ?_⟩
  · rw [hstack, hlines]
    exact lines_facts hpush lines
  · rw [hstack]
    exact .some (hat.opened hid)
  · rw [hstack]
    exact hdepth
  · rw [hstack]
    exact h.capacity
  · rw [hsame.commands]
    exact h.noCommit

/-- A local span ends: the place is again the one around it. -/
private theorem ended_simulates {inner : Option Place} (h : Simulates roots t inner depth m w) {line : SpanLine}
    {lines : List SpanLine} {place : Place} (hat : line.At place) {raw : RawSpan} {new : List RawSpan}
    (hlines : (w.spanStack t).spanLines = (line.opened raw).grow new :: lines) {later : Instant}
    (hsame : OnStack w w')
    (hstack : w'.spanStack t = { w.spanStack t with spanLines := line.grow (raw.endWith later :: new) :: lines }) :
    Simulates roots t (some place) depth m w' := by
  have hdepth := h.depth_eq
  rw [hlines] at hdepth
  have hfacts : ((w'.spanStack t).spanLines.flatMap SpanLine.facts).Perm
      ((w.spanStack t).spanLines.flatMap SpanLine.facts ++ []) := by
    rw [hstack, hlines, List.flatMap_cons, List.flatMap_cons, facts_closed, List.append_nil]
  have htraced := h.toTraced.onStack hsame hfacts
  rw [Meaning.add_nil] at htraced
  refine ⟨htraced, ?_, ?_, ?_, ?_⟩
  · rw [hstack]
    exact .some (hat.grow _)
  · rw [hstack]
    exact hdepth
  · rw [hstack]
    exact h.capacity
  · rw [hsame.commands]
    exact h.noCommit

/-- A local parent is set: the place in it is the span of the variable. -/
private theorem parent_set (h : Simulates roots t scope depth m w) {s : SpanInner} {v : Var} (hs : w.inner v = some s)
    {capacity epoch : Nat} (hsame : OnStack w w')
    (hlines : (w'.spanStack t).spanLines = SpanLine.new capacity epoch (some s.issueCollectToken) ::
      (w.spanStack t).spanLines) (hcapacity : (w'.spanStack t).capacity = (w.spanStack t).capacity) :
    Simulates roots t (m.spans v) (depth + 1) m w' := by
  have hstands := h.inner hs
  have hfacts : ((w'.spanStack t).spanLines.flatMap SpanLine.facts).Perm
      ((w.spanStack t).spanLines.flatMap SpanLine.facts ++ []) := by
    have hnew : (SpanLine.new capacity epoch (some s.issueCollectToken)).facts = [] :=
      List.flatMap_eq_nil_iff.2 fun _ _ => rfl
    rw [hlines, List.flatMap_cons, hnew, List.nil_append, List.append_nil]
  have htraced := h.toTraced.onStack hsame hfacts
  rw [Meaning.add_nil] at htraced
  refine ⟨htraced, ?_, ?_, hcapacity.trans h.capacity, ?_⟩
  · rw [hlines, hstands.place]
    exact .some (.new hstands.nonempty hstands.sampled capacity epoch)
  · rw [hlines, List.length_cons, h.depth_eq]
  · rw [hsame.commands]
    exact h.noCommit

/-- The spans that a line has attachments for are open: its own entries, and the span of the local parent. -/
private theorem attached_open [DecidableEq T] {as : List (T × Op)} (hfresh : FreshIds as)
    (hreach : Steps.run World.step World.init as = some w) (h : Traced roots t m w) {line : SpanLine}
    (hline : line ∈ (w.spanStack t).spanLines) {v : Var} {s : SpanInner} (hs : w.inner v = some s) :
    ∀ item ∈ s.issueCollectToken,
      ∀ x ∈ (itemOf (.localSpansInner ⟨line.spanQueue.spanQueue, .zero⟩) item).attachedTo,
      ∀ cmd ∈ w.submitted, ∀ raw ∈ cmd.spans.raws, raw.rawKind = .span → raw.id ≠ x := by
  obtain ⟨howned, tokenOf, htokens⟩ := owned_of_run hfresh hreach
  intro item hitem x hx cmd hcmd raw hraw _ heq
  have hsubmitted : x ∈ w.view.holds .submitted := by
    refine List.mem_flatMap.2 ⟨cmd, hcmd, ?_⟩
    unfold SubmitSpans.ownIds
    cases hspans : cmd.spans with
    | span raw' =>
      rw [hspans] at hraw
      rw [← heq, List.mem_singleton.1 hraw]
      exact List.mem_singleton_self _
    | localSpansInner localSpans =>
      rw [hspans] at hraw
      exact List.mem_map.2 ⟨raw, hraw, heq⟩
    | sharedLocalSpans localSpans =>
      obtain ⟨l, hl⟩ := howned.shared cmd hcmd localSpans hspans
      have hnone : w.view.collected l = none := h.collected l
      rw [hnone] at hl
      cases hl
  obtain ⟨raw', hraw', rfl⟩ := List.mem_map.1 hx
  have hentry := (List.mem_filter.1 hraw').1
  rw [parentOf_set fun _ he => by cases he] at hsubmitted
  split at hsubmitted
  · obtain ⟨item', -, rfl⟩ := List.mem_map.1 hitem
    have hlive : s.rawSpan.id ∈ w.view.holds (.span v) := by
      change s.rawSpan.id ∈ (w.inner v).toList.map (·.rawSpan.id)
      rw [hs]
      exact List.mem_singleton_self _
    cases howned.exclusive.owner _ _ _ hlive hsubmitted
  · rename_i hparent
    obtain ⟨i, hi⟩ := List.mem_iff_getElem?.1 hentry
    rcases (htokens.line t line hline).linked.back i raw' hi with hdefault | ⟨j, -, raw₁, hraw₁, hid, -⟩
    · exact hparent hdefault
    · have hstack : raw'.parentId ∈ w.view.holds (.stack t) := by
        refine List.mem_flatMap.2 ⟨line, hline, ?_⟩
        rw [← hid]
        exact List.mem_map_of_mem (List.mem_of_getElem? hraw₁)
      cases howned.exclusive.owner _ _ _ hstack hsubmitted

/-- The guard of a local parent is dropped: the lines are again those around it. -/
private theorem parent_dropped {inner : Option Place} (h : Simulates roots t inner (depth + 1) m w) {line : SpanLine}
    {w₀ : World T} (hsame : OnStack w w₀) (hlines : (w.spanStack t).spanLines = line :: (w₀.spanStack t).spanLines)
    (hcapacity : (w₀.spanStack t).capacity = (w.spanStack t).capacity) (htop : Top (w₀.spanStack t).spanLines scope)
    {token : CollectToken} (htoken : line.collectToken = some token)
    (hattached : ∀ item ∈ token, ∀ x ∈ (itemOf (.localSpansInner ⟨line.spanQueue.spanQueue, .zero⟩) item).attachedTo,
      ∀ cmd ∈ w.submitted, ∀ raw ∈ cmd.spans.raws, raw.rawKind = .span → raw.id ≠ x) (now : Instant) :
    Simulates roots t scope depth m
      (w₀.send t [.submitSpans ⟨.localSpansInner ⟨line.spanQueue.spanQueue, now⟩, token⟩]) := by
  have hdepth := h.depth_eq
  rw [hlines, List.length_cons] at hdepth
  refine ⟨h.toTraced.dropGuard hsame hlines htoken h.noCommit hattached now, htop, Nat.succ.inj hdepth,
    hcapacity.trans h.capacity, fun c => ?_⟩
  rw [commands_send, hsame.commands]
  simpa using h.noCommit c

variable [DecidableEq T]

/-- The world in a block of the local parent `v`, entered from `w`. -/
structure Entered (roots : List Var) (t : T) (depth : Nat) (m : Meaning) (g v : Var) (s : SpanInner)
    (w w' : World T) : Prop where
  simulates : Simulates roots t (m.spans v) (depth + 1) m w'
  onStack : OnStack w w'
  lines : (w'.spanStack t).spanLines = SpanLine.new defaultSpanQueueSize (w.spanStack t).nextSpanLineEpoch
    (some s.issueCollectToken) :: (w.spanStack t).spanLines
  free : w.guards g = none
  guards : w'.guards =
    Function.update w.guards g (some (t, ⟨some ⟨some ⟨(w.spanStack t).nextSpanLineEpoch⟩⟩⟩))
  localSpans : w'.localSpans = w.localSpans

private theorem setLocalParent_entered (h : Simulates roots t scope depth m w) {g v : Var}
    (hdepth : depth < defaultSpanStackSize) (hw : w.step (t, .setLocalParent g v) = some w') :
    ∃ s, w.inner v = some s ∧ Stands roots m v s ∧ Entered roots t depth m g v s w w' := by
  obtain ⟨span, hspan, -⟩ := Option.bind_eq_some_iff.1 hw
  obtain ⟨s, rfl, hinner, hstands⟩ := h.live hspan
  have hroom : (w.spanStack t).spanLines.length < (w.spanStack t).capacity := by
    rw [h.depth_eq, h.capacity]
    exact hdepth
  obtain ⟨hfree, rfl⟩ := step_setLocalParent hinner hroom hw
  have hself := @Function.update_self T (fun _ => LocalSpanStack) _ t { w.spanStack t with
    spanLines := SpanLine.new defaultSpanQueueSize (w.spanStack t).nextSpanLineEpoch
      (some s.issueCollectToken) :: (w.spanStack t).spanLines
    nextSpanLineEpoch := LocalSpanStack.wrappingSucc (w.spanStack t).nextSpanLineEpoch } w.spanStack
  have hlines := congrArg LocalSpanStack.spanLines hself
  have hcapacity := congrArg LocalSpanStack.capacity hself
  exact ⟨s, hinner, hstands, parent_set h hinner ⟨rfl, rfl, rfl, rfl, rfl⟩ hlines hcapacity,
    ⟨rfl, rfl, rfl, rfl, rfl⟩, hlines, hfree, rfl, rfl⟩

omit [DecidableEq T] in
/-- The body leaves the line of the local parent on top. -/
private theorem Entered.top {g v : Var} {s : SpanInner} {drops : List Var} {n : Nat} {w₁ w₂ : World T}
    (h : Entered roots t depth m g v s w w₁) (hframe : Framed drops n t w₁ w₂) :
    ∃ new, (w₂.spanStack t).spanLines = (SpanLine.new defaultSpanQueueSize (w.spanStack t).nextSpanLineEpoch
      (some s.issueCollectToken)).grow new :: (w.spanStack t).spanLines := by
  have hgrown := hframe.lines
  rw [h.lines] at hgrown
  generalize (w₂.spanStack t).spanLines = lines at hgrown
  cases hgrown with
  | bare heq => cases heq
  | top heq =>
    cases heq
    exact ⟨_, rfl⟩

/-- The guard is dropped at the end of the body. -/
private theorem Entered.left {g v : Var} {s : SpanInner} {drops : List Var} {n : Nat} {m' : Meaning}
    {w₁ w₂ w₃ : World T} (h : Entered roots t depth m g v s w w₁) (hsim : Simulates roots t scope depth m w)
    (hs : w.inner v = some s)
    (hstands : Stands roots m v s) (hv : v ∉ drops) (hsim₂ : Simulates roots t (m.spans v) (depth + 1) m' w₂)
    (hframe : Framed drops n t w₁ w₂) {as : List (T × Op)} (hfresh : FreshIds as)
    (hreach : Steps.run World.step World.init as = some w₂) {now : Instant}
    (hw : w₂.step (t, .dropGuard g now) = some w₃) : Simulates roots t scope depth m' w₃ ∧ Framed drops 0 t w w₃ := by
  obtain ⟨new, hlines⟩ := h.top hframe
  have hguard : w₂.guards g = some (t, ⟨some ⟨some ⟨(w.spanStack t).nextSpanLineEpoch⟩⟩⟩) := by
    rw [hframe.guards, h.guards]
    exact Function.update_self ..
  have hkept : ∀ v', v' ∉ drops → w.spans v' ≠ none → w₂.spans v' = w.spans v' := by
    intro v' hv' hlive
    rw [← h.onStack.spans] at hlive ⊢
    exact hframe.spans v' hv' hlive
  have hlive : w₂.inner v = some s := by
    have hne : w.spans v ≠ none := fun hnone => by rw [World.inner, hnone] at hs; cases hs
    rwa [World.inner, hkept v hv hne]
  have hissued : s.issueCollectToken ≠ [] := fun hnil => hstands.nonempty (List.map_eq_nil_iff.1 hnil)
  have hsampled : ∀ item ∈ s.issueCollectToken, item.isSampled = true := by
    intro item hitem
    obtain ⟨item', hitem', rfl⟩ := List.mem_map.1 hitem
    exact hstands.sampled item' hitem'
  have hclose := step_dropGuard hguard hlines rfl hw
  rw [Traced.submit_all hissued hsampled] at hclose
  obtain ⟨w₀, hw₀⟩ : ∃ w₀, w₀ = { w₂.setStack t { w₂.spanStack t with spanLines := (w.spanStack t).spanLines } with
      guards := Function.update w₂.guards g none } := ⟨_, rfl⟩
  rw [← hw₀] at hclose
  have hsame : OnStack w₂ w₀ := by
    subst hw₀
    exact ⟨rfl, rfl, rfl, rfl, rfl⟩
  have hstack : w₀.spanStack t = { w₂.spanStack t with spanLines := (w.spanStack t).spanLines } := by
    subst hw₀
    exact Function.update_self ..
  have hattached := attached_open hfresh hreach hsim₂.toTraced (hlines ▸ List.mem_cons_self ..) hlive
  have hsim₃ : Simulates roots t scope depth m' w₃ := by
    rw [hclose]
    refine parent_dropped hsim₂ hsame ?_ ?_ ?_ rfl hattached now
    · rw [hstack]
      exact hlines
    · rw [hstack]
    · rw [hstack]
      exact hsim.top
  subst hclose
  refine ⟨hsim₃, ?_, ?_, fun v' hv' hlive' => ?_, ?_⟩
  · change w₀.guards = w.guards
    rw [hw₀]
    change Function.update w₂.guards g none = w.guards
    rw [hframe.guards, h.guards, Function.update_idem, ← h.free, Function.update_eq_self]
  · change w₀.localSpans = w.localSpans
    rw [hw₀]
    exact hframe.localSpans.trans h.localSpans
  · change w₀.spans v' = w.spans v'
    rw [hsame.spans]
    exact hkept v' hv' hlive'
  · change Grown 0 (w.spanStack t).spanLines (w₀.spanStack t).spanLines
    rw [hstack]
    exact .refl ..

/-- The world in a local span `v`, entered from `w`. -/
structure Opened (roots : List Var) (t : T) (scope : Option Place) (depth : Nat) (m : Meaning) (v : Var)
    (line : SpanLine) (lines : List SpanLine) (raw : RawSpan) (w w' : World T) : Prop where
  simulates : Simulates roots t (scope.map fun place => ⟨raw.id, place.traces⟩) depth
    (m.add (scope.toList.flatMap fun place => place.child raw.id)) w'
  onStack : OnStack w w'
  lines_before : (w.spanStack t).spanLines = line :: lines
  lines_eq : (w'.spanStack t).spanLines = line.opened raw :: lines
  parent : raw.parentId = line.spanQueue.parentId
  free : w.localSpans v = none
  localSpans : w'.localSpans = Function.update w.localSpans v
    (some (t, ⟨some ⟨line.epoch, ⟨line.spanQueue.spanQueue.length⟩⟩⟩))
  guards : w'.guards = w.guards

private theorem enterLocal_opened (h : Simulates roots t scope depth m w) {v : Var} {name : String} {id : SpanId}
    {now : Instant} (hid : id ≠ default) (hw : w.step (t, .enterLocal v name id now) = some w') :
    ∃ line lines raw, raw.id = id ∧ Opened roots t scope depth m v line lines raw w w' := by
  obtain ⟨line, lines, hlines, hsampled, -, hfree, rfl⟩ := step_enterLocal hw
  have htop := h.top
  rw [hlines] at htop
  have hself := @Function.update_self T (fun _ => LocalSpanStack) _ t { w.spanStack t with
    spanLines := line.opened (.beginWith id line.spanQueue.parentId now name .span) :: lines } w.spanStack
  refine ⟨line, lines, .beginWith id line.spanQueue.parentId now name .span, rfl, ?_, ⟨rfl, rfl, rfl, rfl, rfl⟩,
    hlines, congrArg LocalSpanStack.spanLines hself, rfl, hfree, rfl, rfl⟩
  cases htop with
  | @some _ _ place hat =>
    rw [Option.toList_some, List.flatMap_singleton]
    exact opened_simulates h hlines hat rfl rfl rfl hid ⟨rfl, rfl, rfl, rfl, rfl⟩ hself

/-- The local span ends at the end of the body. -/
private theorem Opened.ended {v : Var} {line : SpanLine} {lines : List SpanLine} {raw : RawSpan} {drops : List Var}
    {n : Nat} {inner : Option Place} {m' : Meaning} {w₁ w₂ w₃ : World T}
    (h : Opened roots t scope depth m v line lines raw w w₁) (hsim : Simulates roots t scope depth m w)
    (hsim₂ : Simulates roots t inner depth m' w₂) (hframe : Framed drops n t w₁ w₂) {later : Instant}
    (hw : w₂.step (t, .dropLocal v later) = some w₃) :
    Simulates roots t scope depth m' w₃ ∧ Framed drops (1 + n) t w w₃ := by
  have htop := hsim.top
  rw [h.lines_before] at htop
  cases htop with
  | @some _ _ place hat =>
    obtain ⟨new, hnew, hlines⟩ : ∃ new : List RawSpan, new.length ≤ n ∧
        (w₂.spanStack t).spanLines = (line.opened raw).grow new :: lines := by
      have hgrown := hframe.lines
      rw [h.lines_eq] at hgrown
      generalize (w₂.spanStack t).spanLines = lines' at hgrown
      cases hgrown with
      | bare heq => cases heq
      | top heq hlength =>
        cases heq
        exact ⟨_, hlength, rfl⟩
    have hhandle : w₂.localSpans v = some (t, ⟨some ⟨line.epoch, ⟨line.spanQueue.spanQueue.length⟩⟩⟩) := by
      rw [hframe.localSpans, h.localSpans]
      exact Function.update_self ..
    have hclose := step_dropLocal hhandle hlines h.parent hat.register hw
    have hsame : OnStack w₂ w₃ := by
      subst hclose
      exact ⟨rfl, rfl, rfl, rfl, rfl⟩
    have hstack : w₃.spanStack t =
        { w₂.spanStack t with spanLines := line.grow (raw.endWith later :: new) :: lines } := by
      subst hclose
      exact Function.update_self ..
    refine ⟨ended_simulates hsim₂ hat hlines hsame hstack, ?_, ?_, fun v' hv' hlive => ?_, ?_⟩
    · subst hclose
      exact hframe.guards.trans h.guards
    · subst hclose
      change Function.update w₂.localSpans v none = w.localSpans
      rw [hframe.localSpans, h.localSpans, Function.update_idem, ← h.free, Function.update_eq_self]
    · rw [hsame.spans, hframe.spans v' hv' (by rwa [h.onStack.spans]), h.onStack.spans]
    · rw [hstack]
      refine .top h.lines_before ?_
      rw [List.length_cons]
      omega

/-- A block is entered and left as its meaning says. -/
theorem Block.simulates (p : Block) {as : List (T × Op)} (hreach : Steps.run World.step World.init as = some w)
    (hfresh : FreshIds (as ++ p.calls t)) (h : Simulates roots t scope depth m w) (hfits : p.Fits roots depth)
    (hroom : Room p.entries (w.spanStack t).spanLines) (hrun : Steps.run World.step w (p.calls t) = some w') :
    Simulates roots t scope depth (p.meaning scope m) w' ∧ Framed p.drops p.entries t w w' := by
  induction p generalizing as scope depth m w w' with
  | done =>
    cases hrun
    exact ⟨h, .refl t _⟩
  | call c rest ih =>
    obtain ⟨w₁, hw, hrun⟩ := Option.bind_eq_some_iff.1 hrun
    obtain ⟨hsim, hframe⟩ := c.simulates hreach h hfits.1 (hroom.mono (Nat.le_add_right ..)) hw
    have hreach₁ := Steps.run_step hreach hw
    have hfresh₁ : FreshIds (as ++ [(t, c.op)] ++ rest.calls t) := by
      rw [List.append_assoc]
      exact hfresh
    obtain ⟨hsim', hframe'⟩ := ih hreach₁ hfresh₁ hsim hfits.2 (hroom.after hframe.lines) hrun
    exact ⟨hsim', hframe.trans hframe'⟩
  | setLocalParent g v body now rest ihbody ihrest =>
    obtain ⟨⟨hdepth, hcapacity, hv⟩, hfitsBody, hfitsRest⟩ := hfits
    obtain ⟨w₁, w₂, w₃, hopen, hbody, hclose, hrest⟩ := run_block hrun
    obtain ⟨s, hs, hstands, hentered⟩ := setLocalParent_entered h hdepth hopen
    have hsplit : as ++ (Block.setLocalParent g v body now rest).calls t =
        as ++ [(t, .setLocalParent g v)] ++ body.calls t ++ [(t, .dropGuard g now)] ++ rest.calls t := by
      simp [Block.calls]
    rw [hsplit] at hfresh
    have hreach₁ := Steps.run_step hreach hopen
    have hreach₂ := Steps.run_trans hreach₁ hbody
    have hreach₃ := Steps.run_step hreach₂ hclose
    have hroom₁ : Room body.entries (w₁.spanStack t).spanLines := by
      intro line lines heq
      rw [hentered.lines] at heq
      cases heq
      change 0 + body.entries ≤ defaultSpanQueueSize
      omega
    obtain ⟨hsim₂, hframe₂⟩ := ihbody hreach₁ hfresh.before.before hentered.simulates hfitsBody hroom₁ hbody
    obtain ⟨hsim₃, hframe₃⟩ := hentered.left h hs hstands hv hsim₂ hframe₂ hfresh.before.before hreach₂ hclose
    have hroom₃ : Room rest.entries (w₃.spanStack t).spanLines := by
      refine Room.after (n := 0) ?_ hframe₃.lines
      rw [Nat.zero_add]
      exact hroom
    obtain ⟨hsim', hframe'⟩ := ihrest hreach₃ hfresh hsim₃ hfitsRest hroom₃ hrest
    refine ⟨hsim', ?_⟩
    have hall := hframe₃.trans hframe'
    rwa [Nat.zero_add] at hall
  | localSpan v name id now body later rest ihbody ihrest =>
    obtain ⟨hfitsBody, hfitsRest⟩ := hfits
    obtain ⟨w₁, w₂, w₃, hopen, hbody, hclose, hrest⟩ := run_block hrun
    have hsplit : as ++ (Block.localSpan v name id now body later rest).calls t =
        as ++ [(t, .enterLocal v name id now)] ++ body.calls t ++ [(t, .dropLocal v later)] ++ rest.calls t := by
      simp [Block.calls]
    rw [hsplit] at hfresh
    have hid : id ≠ default := by
      intro heq
      refine hfresh.before.before.before.nonzero ?_
      rw [drawnIds_append]
      exact List.mem_append_right _ (List.mem_singleton.2 heq.symm)
    obtain ⟨line, lines, raw, rfl, hopened⟩ := enterLocal_opened h hid hopen
    have hreach₁ := Steps.run_step hreach hopen
    have hreach₃ := Steps.run_step (Steps.run_trans hreach₁ hbody) hclose
    have hroom₁ : Room body.entries (w₁.spanStack t).spanLines := by
      intro top rest' heq
      rw [hopened.lines_eq] at heq
      cases heq
      have hspace := hroom line lines hopened.lines_before
      change line.spanQueue.spanQueue.length + (1 + body.entries + rest.entries) ≤ line.spanQueue.capacity at hspace
      change (line.spanQueue.spanQueue ++ [raw]).length + body.entries ≤ line.spanQueue.capacity
      rw [List.length_append, List.length_singleton]
      omega
    obtain ⟨hsim₂, hframe₂⟩ := ihbody hreach₁ hfresh.before.before hopened.simulates hfitsBody hroom₁ hbody
    obtain ⟨hsim₃, hframe₃⟩ := hopened.ended h hsim₂ hframe₂ hclose
    obtain ⟨hsim', hframe'⟩ := ihrest hreach₃ hfresh hsim₃ hfitsRest (hroom.after hframe₃.lines) hrest
    exact ⟨hsim', hframe₃.trans hframe'⟩

end Blocks

end Simulation

end Fastrace
