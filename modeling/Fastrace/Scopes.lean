import Fastrace.Effects

/-!
# Scopes

A local parent guard and a local collector are scopes: each registers a span line and takes it off the stack when it
is dropped.  `unregister_and_collect` pops the top line whatever the handle says, so a scope that is dropped out of
turn makes a line disappear.  When the scopes of every thread are dropped last in first out (`Lifo`), the lines on a
stack are those of the open scopes (`Scoped`), and a line with a token goes only with the submission of its spans
(`World.Scoped.step`).  Spans that have been dropped too late, or never, do no harm: the order of the local spans is
free.
-/

namespace Fastrace

inductive Scope where
  | guard (g : Var)
  | collector (k : Var)
deriving DecidableEq, Repr

def Op.opens : Op → Option Scope
  | .setLocalParent g _ => some (.guard g)
  | .startCollector k => some (.collector k)
  | _ => none

def Op.closes : Op → Option Scope
  | .dropGuard g _ => some (.guard g)
  | .collect k _ _ => some (.collector k)
  | .dropCollector k => some (.collector k)
  | _ => none

variable {T : Type}

/-- The open scopes of a thread after a call of it, the innermost first. -/
def scopesAfter (scopes : List Scope) (op : Op) : List Scope :=
  match op.opens, op.closes with
  | some scope, _ => scope :: scopes
  | none, some _ => scopes.tail
  | none, none => scopes

/-- From the open scopes `scopes`, a thread that closes a scope closes its innermost one. -/
def Lifo [DecidableEq T] (scopes : T → List Scope) : List (T × Op) → Prop
  | [] => True
  | a :: as => (a.2.closes.isSome → a.2.closes = (scopes a.1).head?) ∧
      Lifo (Function.update scopes a.1 (scopesAfter (scopes a.1) a.2)) as

instance decidableLifo [DecidableEq T] (scopes : T → List Scope) : (as : List (T × Op)) → Decidable (Lifo scopes as)
  | [] => isTrue trivial
  | a :: as =>
    have := decidableLifo (Function.update scopes a.1 (scopesAfter (scopes a.1) a.2)) as
    inferInstanceAs (Decidable (_ ∧ _))

/-- The open scopes after the calls. -/
def scopesRun [DecidableEq T] (scopes : T → List Scope) (as : List (T × Op)) : T → List Scope :=
  as.foldl (fun scopes a => Function.update scopes a.1 (scopesAfter (scopes a.1) a.2)) scopes

theorem lifo_append [DecidableEq T] {scopes : T → List Scope} {as bs : List (T × Op)} :
    Lifo scopes (as ++ bs) ↔ Lifo scopes as ∧ Lifo (scopesRun scopes as) bs := by
  induction as generalizing scopes with
  | nil => exact (and_iff_right trivial).symm
  | cons a as ih =>
    rw [List.cons_append, Lifo, ih, Lifo, and_assoc]
    rfl

/-! ### The lines of the open scopes -/

/-- The thread of an open scope and its handle, if it has registered a line. -/
def World.handles (w : World T) : Scope → Option (T × Option SpanLineHandle)
  | .guard g => (w.guards g).map fun p => (p.1, p.2.inner.bind LocalCollector.inner)
  | .collector k => (w.collectors k).map fun p => (p.1, p.2.inner)

/-- The epoch and the token of a line, which do not change. -/
abbrev Frame := Nat × Option CollectToken

def SpanLine.frame (line : SpanLine) : Frame := (line.epoch, line.collectToken)

def LocalSpanStack.frames (stack : LocalSpanStack) : List Frame := stack.spanLines.map SpanLine.frame

/-- The frames are those of the scopes that have a handle, in their order. -/
inductive Matched (handles : Scope → Option (T × Option SpanLineHandle)) : List Scope → List Frame → Prop
  | nil : Matched handles [] []
  | idle {scope : Scope} {t : T} {scopes : List Scope} {frames : List Frame} (h : handles scope = some (t, none))
      (hrest : Matched handles scopes frames) : Matched handles (scope :: scopes) frames
  | line {scope : Scope} {t : T} {handle : SpanLineHandle} {token : Option CollectToken} {scopes : List Scope}
      {frames : List Frame} (h : handles scope = some (t, some handle))
      (htoken : ∀ k, scope = .collector k → token = none) (hrest : Matched handles scopes frames) :
      Matched handles (scope :: scopes) ((handle.spanLineEpoch, token) :: frames)

private theorem Matched.congr {handles handles' : Scope → Option (T × Option SpanLineHandle)} {scopes : List Scope}
    {frames : List Frame} (h : Matched handles scopes frames)
    (hsame : ∀ scope ∈ scopes, handles' scope = handles scope) : Matched handles' scopes frames := by
  induction h with
  | nil => exact .nil
  | idle h hrest ih =>
    rw [List.forall_mem_cons] at hsame
    exact .idle (hsame.1.trans h) (ih hsame.2)
  | line h htoken hrest ih =>
    rw [List.forall_mem_cons] at hsame
    exact .line (hsame.1.trans h) htoken (ih hsame.2)

structure Scoped (handles : Scope → Option (T × Option SpanLineHandle)) (frames : T → List Frame)
    (scopes : T → List Scope) : Prop where
  owner : ∀ t scope, scope ∈ scopes t ↔ ∃ handle, handles scope = some (t, handle)
  nodup : ∀ t, (scopes t).Nodup
  lines : ∀ t, Matched handles (scopes t) (frames t)

section Changes

variable [DecidableEq T] {handles : Scope → Option (T × Option SpanLineHandle)} {frames : T → List Frame}
  {scopes : T → List Scope} {t : T} {scope : Scope}

/-- A new scope registers a line, or finds the stack full. -/
private theorem Scoped.opened (h : Scoped handles frames scopes) (hfree : handles scope = none)
    {handle : Option SpanLineHandle} {frames' : List Frame}
    (hlines : handle = none ∧ frames' = frames t ∨ ∃ handle' token, handle = some handle' ∧
      frames' = (handle'.spanLineEpoch, token) :: frames t ∧ ∀ k, scope = .collector k → token = none) :
    Scoped (Function.update handles scope (some (t, handle))) (Function.update frames t frames')
      (Function.update scopes t (scope :: scopes t)) := by
  have hnew : ∀ u, scope ∉ scopes u := by
    intro u hmem
    obtain ⟨handle', hhandle⟩ := (h.owner u scope).1 hmem
    rw [hfree] at hhandle
    cases hhandle
  refine ⟨fun u scope' => ?_, fun u => ?_, fun u => ?_⟩
  · by_cases hu : u = t
    · subst hu
      rw [Function.update_self, List.mem_cons]
      by_cases hs : scope' = scope
      · subst hs
        simp
      · rw [Function.update_of_ne hs, h.owner]
        simp [hs]
    · rw [Function.update_of_ne hu, h.owner]
      by_cases hs : scope' = scope
      · subst hs
        rw [hfree, Function.update_self]
        simp [Ne.symm hu]
      · rw [Function.update_of_ne hs]
  · by_cases hu : u = t
    · subst hu
      rw [Function.update_self, List.nodup_cons]
      exact ⟨hnew u, h.nodup u⟩
    · rw [Function.update_of_ne hu]
      exact h.nodup u
  · by_cases hu : u = t
    · subst hu
      have hrest := (h.lines u).congr fun scope' hmem =>
        Function.update_of_ne (ne_of_mem_of_not_mem hmem (hnew u)) (some (u, handle)) handles
      rw [Function.update_self, Function.update_self]
      rcases hlines with ⟨rfl, rfl⟩ | ⟨handle', token, rfl, rfl, htoken⟩
      · exact .idle (Function.update_self ..) hrest
      · exact .line (Function.update_self ..) htoken hrest
    · rw [Function.update_of_ne hu, Function.update_of_ne hu]
      exact (h.lines u).congr fun scope' hmem =>
        Function.update_of_ne (ne_of_mem_of_not_mem hmem (hnew u)) _ _

omit [DecidableEq T] in
/-- The top line is that of the innermost scope, unless that has none. -/
private theorem Scoped.innermost (h : Scoped handles frames scopes) {rest : List Scope}
    (hscopes : scopes t = scope :: rest) :
    (handles scope = some (t, none) ∧ Matched handles rest (frames t)) ∨
      ∃ handle token frames', handles scope = some (t, some handle) ∧
        frames t = (handle.spanLineEpoch, token) :: frames' ∧ (∀ k, scope = .collector k → token = none) ∧
        Matched handles rest frames' := by
  obtain ⟨handle, hhandle⟩ := (h.owner t scope).1 (by rw [hscopes]; exact List.mem_cons_self ..)
  have hlines := h.lines t
  rw [hscopes] at hlines
  generalize frames t = fs at hlines
  cases hlines with
  | idle hidle hrest =>
    rw [hhandle] at hidle
    cases hidle
    exact Or.inl ⟨hhandle, hrest⟩
  | line hline htoken hrest =>
    rw [hhandle] at hline
    cases hline
    exact Or.inr ⟨_, _, _, hhandle, rfl, htoken, hrest⟩

/-- The innermost scope of a thread is closed, with its line if it has one. -/
private theorem Scoped.closed (h : Scoped handles frames scopes) {rest : List Scope}
    (hscopes : scopes t = scope :: rest)
    {frames' : List Frame} (hlines : Matched handles rest frames') :
    Scoped (Function.update handles scope none) (Function.update frames t frames')
      (Function.update scopes t rest) := by
  have hnodup := h.nodup t
  rw [hscopes, List.nodup_cons] at hnodup
  obtain ⟨handle, hhandle⟩ := (h.owner t scope).1 (by rw [hscopes]; exact List.mem_cons_self ..)
  refine ⟨fun u scope' => ?_, fun u => ?_, fun u => ?_⟩
  · by_cases hs : scope' = scope
    · subst hs
      rw [Function.update_self]
      refine ⟨fun hmem => ?_, fun ⟨_, hnone⟩ => by cases hnone⟩
      by_cases hu : u = t
      · subst hu
        rw [Function.update_self] at hmem
        exact absurd hmem hnodup.1
      · rw [Function.update_of_ne hu] at hmem
        obtain ⟨handle', hhandle'⟩ := (h.owner u scope').1 hmem
        rw [hhandle] at hhandle'
        cases hhandle'
        exact absurd rfl hu
    · rw [Function.update_of_ne hs, ← h.owner]
      by_cases hu : u = t
      · subst hu
        rw [Function.update_self, hscopes, List.mem_cons]
        simp [hs]
      · rw [Function.update_of_ne hu]
  · by_cases hu : u = t
    · subst hu
      rw [Function.update_self]
      exact hnodup.2
    · rw [Function.update_of_ne hu]
      exact h.nodup u
  · by_cases hu : u = t
    · subst hu
      rw [Function.update_self, Function.update_self]
      exact hlines.congr fun scope' hmem => Function.update_of_ne (ne_of_mem_of_not_mem hmem hnodup.1) _ _
    · rw [Function.update_of_ne hu, Function.update_of_ne hu]
      refine (h.lines u).congr fun scope' hmem => Function.update_of_ne (fun hs => ?_) _ _
      subst hs
      obtain ⟨handle', hhandle'⟩ := (h.owner u scope').1 hmem
      rw [hhandle] at hhandle'
      cases hhandle'
      exact hu rfl

end Changes

/-! ### A step -/

/-- The scopes of a world are those listed. -/
def World.Scoped (w : World T) (scopes : T → List Scope) : Prop :=
  Fastrace.Scoped w.handles (fun u => (w.spanStack u).frames) scopes

theorem handles_updateGuard (w : World T) (g : Var) (guard : Option (T × LocalParentGuard)) :
    { w with guards := Function.update w.guards g guard }.handles =
      Function.update w.handles (.guard g)
        (guard.map fun p => (p.1, p.2.inner.bind LocalCollector.inner)) := by
  funext scope
  cases scope with
  | guard g' =>
    by_cases hg : g' = g
    · subst hg
      simp [World.handles]
    · simp [World.handles, hg]
  | collector k => simp [World.handles]

theorem handles_updateCollector (w : World T) (k : Var) (collector : Option (T × LocalCollector)) :
    { w with collectors := Function.update w.collectors k collector }.handles =
      Function.update w.handles (.collector k) (collector.map fun p => (p.1, p.2.inner)) := by
  funext scope
  cases scope with
  | guard g => simp [World.handles]
  | collector k' =>
    by_cases hk : k' = k
    · subst hk
      simp [World.handles]
    · simp [World.handles, hk]

/-- A line with a token that goes is submitted with what it has recorded. -/
def Collects (v : View T) (t : T) (v' : View T) : Prop :=
  ∀ line token, (v.spanStack t).spanLines = line :: (v'.spanStack t).spanLines → line.collectToken = some token →
    ∃ now, v'.submitted = v.submitted ++ submission (.localSpansInner ⟨line.spanQueue.spanQueue, now⟩) token

private theorem frames_of_topChange {stack stack' : LocalSpanStack} {label : Option (SpanId × RawKind)}
    (h : stack.TopChange label stack') : stack'.frames = stack.frames := by
  obtain ⟨line, lines, line', hlines, hchange, rfl⟩ := h
  have hframe : line'.frame = line.frame := by cases hchange <;> rfl
  unfold LocalSpanStack.frames
  rw [hlines, List.map_cons, List.map_cons, hframe]

/-- No line goes when the frames stay. -/
private theorem collects_of_frames {v v' : View T} {t : T} (h : (v'.spanStack t).frames = (v.spanStack t).frames) :
    Collects v t v' := by
  intro line token hlines
  have hlength := congrArg List.length h
  unfold LocalSpanStack.frames at hlength
  rw [hlines, List.length_map, List.length_map, List.length_cons] at hlength
  omega

section Step

variable [DecidableEq T] {w w' : World T} {t : T} {scopes : T → List Scope}

private theorem frames_setStack (w : World T) (t : T) (stack : LocalSpanStack) :
    (fun u => ((w.setStack t stack).spanStack u).frames) =
      Function.update (fun u => (w.spanStack u).frames) t stack.frames := by
  funext u
  by_cases hu : u = t
  · subst hu
    simp [World.setStack]
  · simp [World.setStack, hu]

/-- Calls that neither open nor close a scope. -/
theorem same_of_other {op : Op} (hopens : op.opens = none) (hcloses : op.closes = none)
    (hw : w.step (t, op) = some w') :
    w'.handles = w.handles ∧ ∀ u, (w'.spanStack u).frames = (w.spanStack u).frames := by
  have hstack : ∀ stack : LocalSpanStack, stack.frames = (w.spanStack t).frames →
      ∀ u, ((w.setStack t stack).spanStack u).frames = (w.spanStack u).frames := by
    intro stack hframes
    refine congrFun ((frames_setStack w t stack).trans ?_)
    rw [hframes, Function.update_eq_self]
  cases op with
  | setReporter => cases hw; exact ⟨rfl, fun _ => rfl⟩
  | root h name parent id now =>
    obtain ⟨w₁, hw₁, rfl⟩ := Option.map_eq_some_iff.1 hw
    obtain ⟨-, rfl⟩ := newSpan_eq_some hw₁
    exact ⟨rfl, fun _ => rfl⟩
  | enterWithParent h name parent id now =>
    obtain ⟨span, -, hw⟩ := Option.bind_eq_some_iff.1 hw
    obtain ⟨-, rfl⟩ := newSpan_eq_some hw
    exact ⟨rfl, fun _ => rfl⟩
  | enterWithParents h name parents id now =>
    obtain ⟨spans, -, hw⟩ := Option.bind_eq_some_iff.1 hw
    obtain ⟨-, rfl⟩ := newSpan_eq_some hw
    exact ⟨rfl, fun _ => rfl⟩
  | enterWithLocalParent h name id now =>
    obtain ⟨-, rfl⟩ := newSpan_eq_some hw
    exact ⟨rfl, fun _ => rfl⟩
  | withProperties h properties =>
    obtain ⟨span, -, rfl⟩ := Option.map_eq_some_iff.1 hw
    exact ⟨rfl, fun _ => rfl⟩
  | addProperties h properties id now =>
    obtain ⟨span, -, rfl⟩ := Option.map_eq_some_iff.1 hw
    exact ⟨rfl, fun _ => rfl⟩
  | addEvent h event id now =>
    obtain ⟨span, -, rfl⟩ := Option.map_eq_some_iff.1 hw
    exact ⟨rfl, fun _ => rfl⟩
  | pushChildSpans h l =>
    obtain ⟨span, -, hw⟩ := Option.bind_eq_some_iff.1 hw
    obtain ⟨localSpans, -, rfl⟩ := Option.map_eq_some_iff.1 hw
    exact ⟨rfl, fun _ => rfl⟩
  | cancel h =>
    obtain ⟨span, -, rfl⟩ := Option.map_eq_some_iff.1 hw
    exact ⟨rfl, fun _ => rfl⟩
  | dropSpan h now =>
    obtain ⟨span, -, rfl⟩ := Option.map_eq_some_iff.1 hw
    exact ⟨rfl, fun _ => rfl⟩
  | enterLocal v name id now =>
    obtain ⟨out, hout, hw⟩ := Option.bind_eq_some_iff.1 hw
    split at hw
    · cases hw
      obtain ⟨⟨handle, stack⟩, henter, rfl⟩ := Option.map_eq_some_iff.1 hout
      exact ⟨rfl, hstack _ (frames_of_topChange (LocalSpanStack.enterSpan_cases henter))⟩
    · cases hw
  | localWithProperties v properties =>
    obtain ⟨span, -, hw⟩ := Option.bind_eq_some_iff.1 hw
    obtain ⟨stack, hset, rfl⟩ := Option.map_eq_some_iff.1 hw
    refine ⟨rfl, hstack _ ?_⟩
    rcases LocalSpan.withProperties_cases hset with rfl | htop
    · rfl
    · exact frames_of_topChange htop
  | dropLocal v now =>
    obtain ⟨span, -, hw⟩ := Option.bind_eq_some_iff.1 hw
    obtain ⟨stack, hset, rfl⟩ := Option.map_eq_some_iff.1 hw
    refine ⟨rfl, hstack _ ?_⟩
    rcases LocalSpan.drop_cases hset with rfl | htop
    · rfl
    · exact frames_of_topChange htop
  | localAddEvent event id now =>
    cases hw
    refine ⟨rfl, hstack _ ?_⟩
    rcases (w.spanStack t).addEvent_cases id now event with h | htop
    · rw [h]
    · exact frames_of_topChange htop
  | localAddProperties properties id =>
    cases hw
    refine ⟨rfl, hstack _ ?_⟩
    rcases (w.spanStack t).addProperties_cases id properties with h | htop
    · rw [h]
    · exact frames_of_topChange htop
  | setLocalParent g h => cases hopens
  | startCollector k => cases hopens
  | dropGuard g now => cases hcloses
  | collect k l now => cases hcloses
  | dropCollector k => cases hcloses

omit [DecidableEq T] in
theorem newCollector_frames (token : Option CollectToken) (stack : LocalSpanStack) :
    (LocalCollector.new token stack).1.inner = none ∧ (LocalCollector.new token stack).2.frames = stack.frames ∨
      ∃ handle, (LocalCollector.new token stack).1.inner = some handle ∧
        (LocalCollector.new token stack).2.frames = (handle.spanLineEpoch, token) :: stack.frames := by
  unfold LocalCollector.new LocalSpanStack.registerSpanLine
  split
  · rename_i handle stack' hregister
    split at hregister
    · cases hregister
    · cases hregister
      exact Or.inr ⟨_, rfl, rfl⟩
  · exact Or.inl ⟨rfl, rfl⟩

/-- A scope is opened. -/
private theorem scoped_opened (h : w.Scoped scopes) {scope : Scope}
    (hfree : w.handles scope = none) {handle : Option SpanLineHandle} {stack : LocalSpanStack}
    (hlines : handle = none ∧ stack.frames = (w.spanStack t).frames ∨ ∃ handle' token, handle = some handle' ∧
      stack.frames = (handle'.spanLineEpoch, token) :: (w.spanStack t).frames ∧
      ∀ k, scope = .collector k → token = none)
    (hhandles : w'.handles = Function.update w.handles scope (some (t, handle)))
    (hstack : w'.spanStack = (w.setStack t stack).spanStack) :
    w'.Scoped (Function.update scopes t (scope :: scopes t)) ∧
      Collects w.view t w'.view := by
  have hframes : (fun u => (w'.spanStack u).frames) =
      Function.update (fun u => (w.spanStack u).frames) t stack.frames := by
    rw [hstack, frames_setStack]
  refine ⟨?_, fun line token hpop => ?_⟩
  · rw [World.Scoped, hhandles, hframes]
    exact h.opened hfree hlines
  · have hlength := congrArg List.length hpop
    have hstack' : w'.view.spanStack t = stack := (congrFun hstack t).trans (Function.update_self ..)
    rw [hstack', List.length_cons] at hlength
    have hgrown : (w.spanStack t).spanLines.length ≤ stack.spanLines.length := by
      rcases hlines with ⟨-, hsame⟩ | ⟨handle', token, -, hnew, -⟩
      · have := congrArg List.length hsame
        simp only [LocalSpanStack.frames, List.length_map] at this
        omega
      · have := congrArg List.length hnew
        simp only [LocalSpanStack.frames, List.length_map, List.length_cons] at this
        omega
    change (w.spanStack t).spanLines.length = _ at hlength
    omega

omit [DecidableEq T] in
/-- What the innermost scope of a thread finds when it is closed. -/
private theorem innermost_line (h : w.Scoped scopes) {scope : Scope}
    {rest : List Scope} (hscopes : scopes t = scope :: rest) {handle : Option SpanLineHandle}
    (hhandle : w.handles scope = some (t, handle)) :
    (handle = none ∧ Matched w.handles rest (w.spanStack t).frames) ∨
      ∃ handle' line lines, handle = some handle' ∧ (w.spanStack t).spanLines = line :: lines ∧
        (w.spanStack t).unregisterAndCollect handle' =
          (some (line.spanQueue.spanQueue, line.collectToken), { w.spanStack t with spanLines := lines }) ∧
        (∀ k, scope = .collector k → line.collectToken = none) ∧
        Matched w.handles rest (lines.map SpanLine.frame) := by
  rcases h.innermost hscopes with ⟨hidle, hrest⟩ | ⟨handle', token, frames', hline, hframes, htoken, hrest⟩
  · rw [hhandle] at hidle
    cases hidle
    exact Or.inl ⟨rfl, hrest⟩
  · rw [hhandle] at hline
    cases hline
    obtain ⟨line, lines, hlines, hframe, hframes'⟩ := List.map_eq_cons_iff.1 hframes
    obtain ⟨hepoch, rfl⟩ := Prod.mk.inj hframe
    refine Or.inr ⟨handle', line, lines, rfl, hlines, ?_, htoken, hframes' ▸ hrest⟩
    simp only [LocalSpanStack.unregisterAndCollect, hlines, SpanLine.collect, hepoch, if_true]
    rfl

/-- The innermost scope is closed: its line, if it has one, goes. -/
private theorem scoped_closed (h : w.Scoped scopes) {scope : Scope}
    {rest : List Scope} (hscopes : scopes t = scope :: rest) {stack : LocalSpanStack}
    (hlines : Matched w.handles rest stack.frames) (hhandles : w'.handles = Function.update w.handles scope none)
    (hstack : w'.spanStack = (w.setStack t stack).spanStack) :
    w'.Scoped (Function.update scopes t rest) := by
  have hframes : (fun u => (w'.spanStack u).frames) =
      Function.update (fun u => (w.spanStack u).frames) t stack.frames := by
    rw [hstack, frames_setStack]
  rw [World.Scoped, hhandles, hframes]
  exact h.closed hscopes hlines

theorem owned_eq_some {α : Type} {value : Option (T × α)} {a : α} (h : World.owned t value = some a) :
    value = some (t, a) := by
  obtain ⟨⟨u, b⟩, hvalue, hb⟩ := Option.bind_eq_some_iff.1 h
  split at hb
  · rename_i hu
    cases hb
    cases hu
    exact hvalue
  · cases hb

/-- A guard that is the innermost scope submits what its line has recorded. -/
private theorem scoped_dropGuard (h : w.Scoped scopes) {g : Var}
    {rest : List Scope} (hscopes : scopes t = .guard g :: rest) {now : Instant}
    (hw : w.step (t, .dropGuard g now) = some w') :
    w'.Scoped (Function.update scopes t rest) ∧
      Collects w.view t w'.view := by
  obtain ⟨guard, hguard, rfl⟩ := Option.map_eq_some_iff.1 hw
  have hhandle : w.handles (.guard g) = some (t, guard.inner.bind LocalCollector.inner) := by
    rw [World.handles, owned_eq_some hguard, Option.map_some]
  have hdrop : ∃ cmds stack, guard.drop (w.spanStack t) now = (cmds, stack) ∧ Matched w.handles rest stack.frames ∧
      ∀ line token, (w.spanStack t).spanLines = line :: stack.spanLines → line.collectToken = some token →
        cmds = GlobalCollect.submitSpans (.localSpansInner ⟨line.spanQueue.spanQueue, now⟩) token := by
    rcases innermost_line h hscopes hhandle with
      ⟨hnone, hrest⟩ | ⟨handle', line, lines, hsome, hlines, hcollect, -, hrest⟩
    · refine ⟨[], w.spanStack t, ?_, hrest, fun line token hpop => ?_⟩
      · unfold LocalParentGuard.drop LocalCollector.collectSpansAndToken
        cases hinner : guard.inner with
        | none => rfl
        | some collector =>
          rw [hinner, Option.bind_some] at hnone
          simp only [hnone]
      · have hlength := congrArg List.length hpop
        rw [List.length_cons] at hlength
        omega
    · obtain ⟨collector, hinner, hcollector⟩ := Option.bind_eq_some_iff.1 hsome
      have hall : collector.collectSpansAndToken (w.spanStack t) now =
          ((⟨line.spanQueue.spanQueue, now⟩, line.collectToken), { w.spanStack t with spanLines := lines }) := by
        simp only [LocalCollector.collectSpansAndToken, hcollector, hcollect, Option.getD_some]
      refine ⟨(line.collectToken.map fun token => GlobalCollect.submitSpans
          (.localSpansInner ⟨line.spanQueue.spanQueue, now⟩) token).getD [],
        { w.spanStack t with spanLines := lines }, ?_, hrest, fun line' token hpop htoken => ?_⟩
      · simp only [LocalParentGuard.drop, hinner, hall]
        cases line.collectToken <;> rfl
      · rw [hlines] at hpop
        cases hpop
        rw [htoken]
        rfl
  obtain ⟨cmds, stack, hout, hlines, hsubmits⟩ := hdrop
  rw [hout]
  refine ⟨scoped_closed h hscopes hlines (handles_updateGuard w g none) rfl, fun line token hpop htoken => ⟨now, ?_⟩⟩
  rw [view_send]
  have hstack : (w.setStack t stack).spanStack t = stack := Function.update_self ..
  have hsub := hsubmits line token (hpop.trans (by
    change line :: ((w.setStack t stack).spanStack t).spanLines = _
    rw [hstack])) htoken
  rw [hsub, submitSpans_submitSpans]
  rfl

/-- A collector that is the innermost scope takes off a line without a token. -/
private theorem scoped_closeCollector (h : w.Scoped scopes) {k : Var}
    {rest : List Scope} (hscopes : scopes t = .collector k :: rest) {collector : LocalCollector}
    (hcollector : w.collectors k = some (t, collector)) {stack : LocalSpanStack}
    (hnone : collector.inner = none → stack = w.spanStack t)
    (hsome : ∀ handle, collector.inner = some handle → stack = ((w.spanStack t).unregisterAndCollect handle).2)
    (hhandles : w'.handles = Function.update w.handles (.collector k) none)
    (hstack : w'.spanStack = (w.setStack t stack).spanStack) :
    w'.Scoped (Function.update scopes t rest) ∧
      Collects w.view t w'.view := by
  have hhandle : w.handles (.collector k) = some (t, collector.inner) := by
    rw [World.handles, hcollector, Option.map_some]
  have hstack' : w'.view.spanStack t = stack := (congrFun hstack t).trans (Function.update_self ..)
  rcases innermost_line h hscopes hhandle with
    ⟨hidle, hrest⟩ | ⟨handle', line, lines, hinner, hlines, hcollect, htoken, hrest⟩
  · obtain rfl := hnone hidle
    exact ⟨scoped_closed h hscopes hrest hhandles hstack, collects_of_frames (by rw [hstack']; rfl)⟩
  · have hpopped := hsome handle' hinner
    rw [hcollect] at hpopped
    subst hpopped
    have hframes : Matched w.handles rest { w.spanStack t with spanLines := lines }.frames := hrest
    refine ⟨scoped_closed h hscopes hframes hhandles hstack, fun line' token hpop htoken' => ?_⟩
    rw [hstack'] at hpop
    change (w.spanStack t).spanLines = _ at hpop
    rw [hlines] at hpop
    cases hpop
    rw [htoken k rfl] at htoken'
    cases htoken'

/-- Every step of a program with scopes in order keeps the lines in step with the scopes, and a line with a token goes
only with its submission. -/
theorem World.Scoped.step (h : w.Scoped scopes) {op : Op}
    (hlifo : op.closes.isSome → op.closes = (scopes t).head?) (hw : w.step (t, op) = some w') :
    w'.Scoped (Function.update scopes t (scopesAfter (scopes t) op)) ∧
      Collects w.view t w'.view := by
  have hrest : ∀ scope, op.closes = some scope → ∃ rest, scopes t = scope :: rest := by
    intro scope hscope
    have hhead := hlifo (by rw [hscope]; rfl)
    rw [hscope] at hhead
    exact List.head?_eq_some_iff.1 hhead.symm
  have hother : op.opens = none → op.closes = none →
      w'.Scoped (Function.update scopes t (scopesAfter (scopes t) op)) ∧
        Collects w.view t w'.view := by
    intro hopens hcloses
    obtain ⟨hhandles, hframes⟩ := same_of_other hopens hcloses hw
    have hscopes : scopesAfter (scopes t) op = scopes t := by simp only [scopesAfter, hopens, hcloses]
    rw [hscopes, Function.update_eq_self, World.Scoped, hhandles, funext hframes]
    exact ⟨h, collects_of_frames (hframes t)⟩
  cases op with
  | setLocalParent g h' =>
    obtain ⟨span, hspan, hw⟩ := Option.bind_eq_some_iff.1 hw
    simp only at hw
    split at hw
    · rename_i hfree
      cases hw
      have hnone : w.handles (.guard g) = none := by
        rw [World.handles, Option.isNone_iff_eq_none.1 hfree, Option.map_none]
      refine scoped_opened h hnone ?_ (handles_updateGuard w g _) rfl
      unfold Span.attachIntoStack
      cases span.inner with
      | none => exact Or.inl ⟨rfl, rfl⟩
      | some s =>
        rcases newCollector_frames (some s.issueCollectToken) (w.spanStack t) with
          ⟨hinner, hframes⟩ | ⟨handle, hinner, hframes⟩
        · exact Or.inl ⟨hinner, hframes⟩
        · exact Or.inr ⟨handle, _, hinner, hframes, fun k hk => by cases hk⟩
    · cases hw
  | startCollector k =>
    simp only [World.step] at hw
    split at hw
    · rename_i hfree
      cases hw
      have hnone : w.handles (.collector k) = none := by
        rw [World.handles, Option.isNone_iff_eq_none.1 hfree, Option.map_none]
      refine scoped_opened h hnone ?_ (handles_updateCollector w k _) rfl
      rcases newCollector_frames none (w.spanStack t) with ⟨hinner, hframes⟩ | ⟨handle, hinner, hframes⟩
      · exact Or.inl ⟨hinner, hframes⟩
      · exact Or.inr ⟨handle, _, hinner, hframes, fun _ _ => rfl⟩
    · cases hw
  | dropGuard g now =>
    obtain ⟨rest, hscopes⟩ := hrest _ rfl
    have hafter : scopesAfter (scopes t) (.dropGuard g now) = rest := by rw [hscopes]; rfl
    rw [hafter]
    exact scoped_dropGuard h hscopes hw
  | collect k l now =>
    obtain ⟨rest, hscopes⟩ := hrest _ rfl
    have hafter : scopesAfter (scopes t) (.collect k l now) = rest := by rw [hscopes]; rfl
    rw [hafter]
    obtain ⟨collector, hcollector, hw⟩ := Option.bind_eq_some_iff.1 hw
    simp only at hw
    split at hw
    · cases hw
      refine scoped_closeCollector h hscopes (owned_eq_some hcollector) (fun hnone => ?_) (fun handle hsome => ?_)
        (handles_updateCollector w k none) rfl
      · simp only [LocalCollector.collect, LocalCollector.collectSpansAndToken, hnone]
      · simp only [LocalCollector.collect, LocalCollector.collectSpansAndToken, hsome]
    · cases hw
  | dropCollector k =>
    obtain ⟨rest, hscopes⟩ := hrest _ rfl
    have hafter : scopesAfter (scopes t) (.dropCollector k) = rest := by rw [hscopes]; rfl
    rw [hafter]
    obtain ⟨collector, hcollector, rfl⟩ := Option.map_eq_some_iff.1 hw
    refine scoped_closeCollector h hscopes (owned_eq_some hcollector) (fun hnone => ?_) (fun handle hsome => ?_)
      (handles_updateCollector w k none) rfl
    · simp only [LocalCollector.drop, hnone]
    · simp only [LocalCollector.drop, hsome]
  | _ => exact hother rfl rfl

omit [DecidableEq T] in
theorem scoped_init : (World.init : World T).Scoped fun _ => [] where
  owner t scope := by
    refine ⟨fun h => (by cases h), fun ⟨handle, h⟩ => ?_⟩
    cases scope <;> cases h
  nodup t := List.nodup_nil
  lines t := .nil

/-- Induction over a run with scopes in order, where no line with a token is lost. -/
theorem scoped_induction {P : World T → Prop}
    (hstep : ∀ w a w', P w → w.step a = some w' → Collects w.view a.1 w'.view → P w') {as : List (T × Op)}
    (hlifo : Lifo scopes as) (hscoped : w.Scoped scopes) (hP : P w) (hrun : Steps.run World.step w as = some w') :
    P w' ∧ w'.Scoped (scopesRun scopes as) := by
  induction as generalizing w scopes with
  | nil => cases hrun; exact ⟨hP, hscoped⟩
  | cons a as ih =>
    obtain ⟨w₁, hw₁, hrun⟩ := Option.bind_eq_some_iff.1 hrun
    obtain ⟨hscoped₁, hcollects⟩ := hscoped.step (t := a.1) hlifo.1 hw₁
    exact ih hlifo.2 hscoped₁ (hstep w a w₁ hP hw₁ hcollects) hrun

end Step

end Fastrace
