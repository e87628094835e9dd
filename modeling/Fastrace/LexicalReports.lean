import Fastrace.Adapters
import Fastrace.LexicalRuns

/-!
# Nested calls

A guard, a local collector or a local span is held from the call that makes it to the call that drops it.  When every
thread drops first what it has made last (`Nested`), as the blocks of a program do, all its calls are in order
(`ordered_of_nested`), whatever other threads do in between and whichever of the scopes have a layer.  So what is
reported of a collection is what the calls mean (`reported_lexically`).
-/

namespace Fastrace

inductive Held where
  | scope (scope : Scope)
  | localSpan (v : Var)
deriving DecidableEq, Repr

def Held.scope? : Held → Option Scope
  | .scope s => some s
  | .localSpan _ => none

/-- The scopes among what is held. -/
abbrev scopesOf (held : List Held) : List Scope := held.filterMap Held.scope?

def Op.makes : Op → Option Held
  | .enterLocal v _ _ _ => some (.localSpan v)
  | op => op.opens.map .scope

def Op.drops : Op → Option Held
  | .dropLocal v _ => some (.localSpan v)
  | op => op.closes.map .scope

/-- What a thread holds after a call of it, the last made first. -/
def heldAfter (held : List Held) (op : Op) : List Held :=
  match op.makes, op.drops with
  | some x, _ => x :: held
  | none, some _ => held.tail
  | none, none => held

/-- A call that drops something drops what has been made last. -/
def DropsInnermost (held : List Held) (op : Op) : Prop := op.drops.isSome → op.drops = held.head?

/-- Every thread drops in order what it has made. -/
def Nested {T : Type} [DecidableEq T] (as : List (T × Op)) : Prop :=
  Interleavings.Along (Interleavings.stepOf heldAfter) (fun held a => DropsInnermost (held a.1) a.2) (fun _ => []) as

instance (held : List Held) (op : Op) : Decidable (DropsInnermost held op) :=
  inferInstanceAs (Decidable (_ → _))

instance {T : Type} [DecidableEq T] (as : List (T × Op)) : Decidable (Nested as) :=
  Interleavings.decidableAlong _ as

/-! ### Scopes among what is held -/

private theorem scopesOf_heldAfter {held : List Held} {op : Op} (h : DropsInnermost held op) :
    scopesOf (heldAfter held op) = scopesAfter (scopesOf held) op := by
  cases op with
  | dropLocal v now =>
    obtain ⟨rest, rfl⟩ := List.head?_eq_some_iff.1 (h rfl).symm
    rfl
  | dropGuard g now =>
    obtain ⟨rest, rfl⟩ := List.head?_eq_some_iff.1 (h rfl).symm
    rfl
  | collect k c now =>
    obtain ⟨rest, rfl⟩ := List.head?_eq_some_iff.1 (h rfl).symm
    rfl
  | dropCollector k =>
    obtain ⟨rest, rfl⟩ := List.head?_eq_some_iff.1 (h rfl).symm
    rfl
  | _ => rfl

private theorem closesInnermost_of_drops {held : List Held} {op : Op} (h : DropsInnermost held op) :
    ClosesInnermost (scopesOf held) op := by
  intro hcloses
  cases op with
  | dropGuard g now =>
    obtain ⟨rest, rfl⟩ := List.head?_eq_some_iff.1 (h rfl).symm
    rfl
  | collect k c now =>
    obtain ⟨rest, rfl⟩ := List.head?_eq_some_iff.1 (h rfl).symm
    rfl
  | dropCollector k =>
    obtain ⟨rest, rfl⟩ := List.head?_eq_some_iff.1 (h rfl).symm
    rfl
  | _ => cases hcloses

/-! ### Layers of what is held -/

/-- The scope of a layer, and the variables of the open local spans in it. -/
def Layer.shape (layer : Layer) : Scope × List Var := (layer.scope, layer.locals.map Prod.fst)

/-- The layers are those of what is held; a scope may have none. -/
inductive Within : List Held → List (Scope × List Var) → Prop
  | nil : Within [] []
  | idle {scope : Scope} {held : List Held} {shapes : List (Scope × List Var)} (h : Within held shapes) :
      Within (.scope scope :: held) shapes
  | layer {scope : Scope} {held : List Held} {shapes : List (Scope × List Var)} (h : Within held shapes) :
      Within (.scope scope :: held) ((scope, []) :: shapes)
  | localSpan {v : Var} {scope : Scope} {locals : List Var} {held : List Held} {shapes : List (Scope × List Var)}
      (h : Within held ((scope, locals) :: shapes)) :
      Within (.localSpan v :: held) ((scope, v :: locals) :: shapes)

private theorem Within.scopes_sublist {held : List Held} {shapes : List (Scope × List Var)} (h : Within held shapes) :
    (shapes.map Prod.fst).Sublist (scopesOf held) := by
  induction h with
  | nil => exact .slnil
  | idle _ ih => exact .cons _ ih
  | layer _ ih => exact .cons_cons _ ih
  | localSpan _ ih => exact ih

namespace Lexical

variable {T : Type} {l : Lexical T} {t : T} {held : List Held}

/-- The layers of a thread, as far as what it holds decides them. -/
def shapes (l : Lexical T) (t : T) : List (Scope × List Var) := (l.layers t).map Layer.shape

/-- The scope made last is closed in order. -/
private theorem closes_of_within {scope : Scope} (h : Within (.scope scope :: held) (l.shapes t))
    (honce : (scopesOf (.scope scope :: held)).Nodup) : l.Closes t scope ∧
      ((∃ layer rest, l.closing t scope = some (layer, rest) ∧ Within held (rest.map Layer.shape)) ∨
        l.closing t scope = none ∧ Within held (l.shapes t)) := by
  have hscopes : (l.shapes t).map Prod.fst = (l.layers t).map Layer.scope := by
    rw [shapes, List.map_map]
    rfl
  unfold closing Closes
  generalize hshapes : l.shapes t = ss at h hscopes
  cases h with
  | idle h =>
    have hnone : scope ∉ (l.layers t).map Layer.scope := by
      intro hmem
      rw [← hscopes] at hmem
      exact (List.nodup_cons.1 honce).1 (h.scopes_sublist.subset hmem)
    refine ⟨Or.inr hnone, Or.inr ⟨?_, h⟩⟩
    cases hlayers : l.layers t with
    | nil => rfl
    | cons layer rest =>
      rw [hlayers, List.map_cons] at hnone
      have hne : layer.scope ≠ scope := fun heq => hnone (heq ▸ List.mem_cons_self ..)
      exact if_neg hne
  | layer h =>
    unfold shapes at hshapes
    cases hlayers : l.layers t with
    | nil => rw [hlayers] at hshapes; cases hshapes
    | cons layer rest =>
      rw [hlayers, List.map_cons] at hshapes
      obtain ⟨hshape, rfl⟩ := List.cons.inj hshapes
      obtain ⟨rfl, hlocals⟩ := Prod.mk.inj hshape
      refine ⟨Or.inl ?_, Or.inl ⟨layer, rest, if_pos rfl, h⟩⟩
      rw [List.head?_cons, Option.map_some, List.map_eq_nil_iff.1 hlocals]

variable [DecidableEq T]

@[simp] theorem shapes_setLayers (l : Lexical T) (t : T) (layers : List Layer) :
    (l.setLayers t layers).shapes t = layers.map Layer.shape := by
  simp [shapes, setLayers]

/-- A call of a thread leaves the layers of the other threads alone. -/
private theorem layers_step_ne {u : T} (hu : u ≠ t) (op : Op) : (l.step (t, op)).layers u = l.layers u := by
  have hset : ∀ layers, (l.setLayers t layers).layers u = l.layers u := fun layers => Function.update_of_ne hu ..
  cases op <;> simp only [step, opened] <;> (repeat' split) <;> first | rfl | exact hset _

/-- A new scope may have a layer. -/
private theorem within_opened {scope : Scope} (h : Within held (l.shapes t)) (site : Option Site) :
    Within (.scope scope :: held) ((l.opened t ⟨scope, site, [], []⟩).shapes t) := by
  unfold opened
  split
  · rw [shapes_setLayers, List.map_cons]
    exact .layer h
  · exact .idle h

/-- A call that drops what has been made last is in order, and keeps the layers those of what is held. -/
private theorem within_step {op : Op} (h : Within held (l.shapes t)) (honce : (scopesOf held).Nodup)
    (hdrops : DropsInnermost held op) (henter : ∀ v name id now, op = .enterLocal v name id now → l.layers t ≠ []) :
    l.InOrder (t, op) ∧ Within (heldAfter held op) ((l.step (t, op)).shapes t) := by
  cases op with
  | root h' name parent id now =>
    refine ⟨trivial, ?_⟩
    unfold step
    simp only
    split <;> exact h
  | setLocalParent g h' =>
    refine ⟨trivial, ?_⟩
    unfold step
    simp only
    split
    · exact within_opened h _
    · exact .idle h
  | startCollector k => exact ⟨trivial, within_opened h _⟩
  | dropGuard g now =>
    obtain ⟨rest, rfl⟩ := List.head?_eq_some_iff.1 (hdrops rfl).symm
    obtain ⟨hcloses, ⟨layer, layers, hclosing, hwithin⟩ | ⟨hclosing, hwithin⟩⟩ := closes_of_within h honce
    · refine ⟨hcloses, ?_⟩
      simp only [step, hclosing]
      exact shapes_setLayers l t layers ▸ hwithin
    · simp only [step, hclosing]
      exact ⟨hcloses, hwithin⟩
  | collect k c now =>
    obtain ⟨rest, rfl⟩ := List.head?_eq_some_iff.1 (hdrops rfl).symm
    obtain ⟨hcloses, ⟨layer, layers, hclosing, hwithin⟩ | ⟨hclosing, hwithin⟩⟩ := closes_of_within h honce
    · refine ⟨hcloses, ?_⟩
      simp only [step, hclosing]
      exact shapes_setLayers l t layers ▸ hwithin
    · simp only [step, hclosing]
      exact ⟨hcloses, hwithin⟩
  | dropCollector k =>
    obtain ⟨rest, rfl⟩ := List.head?_eq_some_iff.1 (hdrops rfl).symm
    obtain ⟨hcloses, ⟨layer, layers, hclosing, hwithin⟩ | ⟨hclosing, hwithin⟩⟩ := closes_of_within h honce
    · refine ⟨hcloses, ?_⟩
      simp only [step, hclosing]
      exact shapes_setLayers l t layers ▸ hwithin
    · simp only [step, hclosing]
      exact ⟨hcloses, hwithin⟩
  | enterLocal v name id now =>
    refine ⟨trivial, ?_⟩
    simp only [step]
    unfold shapes at h
    cases hlayers : l.layers t with
    | nil => exact absurd hlayers (henter v name id now rfl)
    | cons layer layers =>
      rw [hlayers, List.map_cons] at h
      rw [shapes_setLayers, List.map_cons]
      exact .localSpan h
  | dropLocal v now =>
    obtain ⟨rest, rfl⟩ := List.head?_eq_some_iff.1 (hdrops rfl).symm
    unfold shapes at h
    cases hlayers : l.layers t with
    | nil => rw [hlayers] at h; cases h
    | cons layer layers =>
      rw [hlayers, List.map_cons] at h
      obtain ⟨scope, site, locals, entries⟩ := layer
      cases locals with
      | nil => cases h
      | cons p locals =>
        cases h with
        | localSpan h =>
          refine ⟨?_, ?_⟩
          · simp only [InOrder, hlayers]
            rfl
          · simp only [step, hlayers, shapes_setLayers, List.map_cons]
            exact h
  | _ => exact ⟨trivial, h⟩

end Lexical

/-! ### Programs -/

section Programs

variable {T : Type} [DecidableEq T] {w w' : World T} {l : Lexical T}

/-- A run from where every thread has the layers of what it holds. -/
private theorem along_of_nested {held : T → List Held} {as : List (T × Op)} (h : Agrees w l)
    (hscoped : w.Scoped fun t => scopesOf (held t)) (hwithin : ∀ t, Within (held t) (l.shapes t))
    (hnested : Interleavings.Along (Interleavings.stepOf heldAfter) (fun held a => DropsInnermost (held a.1) a.2) held
      as)
    (hids : default ∉ drawnIds as) (hrun : Steps.run World.step w as = some w') :
    Interleavings.Along Lexical.step Lexical.InOrder l as := by
  induction as generalizing w l held with
  | nil => trivial
  | cons a as ih =>
    obtain ⟨t, op⟩ := a
    obtain ⟨w₁, hw₁, hrun⟩ := Option.bind_eq_some_iff.1 hrun
    obtain ⟨hdrops, hnested⟩ := hnested
    rw [drawnIds_cons, List.mem_append, not_or] at hids
    have hid : ∀ x, op.id? = some x → x ≠ default := by
      rintro x hx rfl
      exact hids.1 (by rw [hx]; exact List.mem_singleton_self _)
    -- a local span is entered in a layer
    have henter : ∀ v name id now, op = .enterLocal v name id now → l.layers t ≠ [] := by
      rintro v name id now rfl
      obtain ⟨line, lines, hlines, -⟩ := step_enterLocal hw₁
      obtain ⟨layer, rest, hlayers, -⟩ := h.placed.top_of_line hlines
      simp [hlayers]
    obtain ⟨horder, hafter⟩ := Lexical.within_step (hwithin t) (hscoped.nodup t) hdrops henter
    obtain ⟨hscoped₁, -⟩ := hscoped.step (closesInnermost_of_drops hdrops) hw₁
    have hscopes : (fun u => scopesOf (Interleavings.stepOf heldAfter held (t, op) u)) =
        Function.update (fun u => scopesOf (held u)) t (scopesAfter (scopesOf (held t)) op) := by
      funext u
      unfold Interleavings.stepOf
      by_cases hu : u = t
      · subst hu
        rw [Function.update_self, Function.update_self, scopesOf_heldAfter hdrops]
      · rw [Function.update_of_ne hu, Function.update_of_ne hu]
    refine ⟨horder, ih (h.step horder hid hw₁) (hscopes ▸ hscoped₁) (fun u => ?_) hnested hids.2 hrun⟩
    unfold Interleavings.stepOf
    by_cases hu : u = t
    · subst hu
      rw [Function.update_self]
      exact hafter
    · rw [Function.update_of_ne hu, Lexical.shapes, Lexical.layers_step_ne hu]
      exact hwithin u

theorem ordered_of_nested {as : List (T × Op)} (hrun : Steps.run World.step World.init as = some w)
    (hids : default ∉ drawnIds as) (hnested : Nested as) : Lexical.Ordered as :=
  along_of_nested Agrees.init scoped_init (fun _ => .nil) hnested hids hrun

end Programs

/-! ### Reports -/

theorem ownedBy_asked (c : CollectId) (cmds : List SubmitSpans) :
    ownedBy c (cmds.flatMap SubmitSpans.asked) = keysFor c cmds := by
  rw [ownedBy_flatMap, keysFor]
  refine List.flatMap_congr fun cmd _ => ?_
  rw [SubmitSpans.asked, ownedBy_flatMap]
  induction cmd.collectToken with
  | nil => rfl
  | cons item token ih =>
    rw [List.flatMap_cons, ih, ownedBy_map]
    by_cases h : item.collectId = c <;> simp [h]

/-- At any time in a program of several threads each of which drops in order the guards, local collectors and local
spans that it has made: once all commands so far have been received, in whatever rounds and order, the keys of the
records reported for a collection are those that the calls so far ask for, each as often as it is asked for. -/
theorem reported_lexically {T : Type} [DecidableEq T] {w : World T} {as : List (T × Op)}
    (hrun : Steps.run World.step World.init as = some w) (hids : default ∉ drawnIds as) (hnested : Nested as)
    {rounds : List Round} (hreceived : (received rounds).Perm w.commands) (c : CollectId) :
    ((reportedFor false c rounds).flatten.map SpanRecord.key).Perm (ownedBy c (Lexical.run as).submitted) := by
  have hagrees : Agrees w (Lexical.run as) := Agrees.init.run (ordered_of_nested hrun hids hnested) hids hrun
  rw [← hagrees.submitted, ownedBy_asked, reportedFor_false_keys, keysFor_itemsFor]
  exact (hreceived.filterMap _).flatMap_right _

/-- The thread `1` works under the span `task` while the thread `0` collects local spans, which it then gives to a span
of the thread `1`. -/
def sharedProgram : List (Nat × Op) := [
  (0, .setReporter),
  (0, .root 0 "root" ⟨⟨1⟩, ⟨9⟩, true⟩ ⟨1⟩ ⟨10⟩),
  (0, .enterWithParent 1 "task" 0 ⟨2⟩ ⟨11⟩),
  (1, .setLocalParent 0 1),
  (1, .enterLocal 0 "work" ⟨3⟩ ⟨12⟩),
  (0, .startCollector 0),
  (1, .enterWithLocalParent 2 "child" ⟨4⟩ ⟨13⟩),
  (0, .enterLocal 1 "batch" ⟨5⟩ ⟨14⟩),
  (1, .dropLocal 0 ⟨15⟩),
  (0, .dropLocal 1 ⟨16⟩),
  (1, .dropGuard 0 ⟨17⟩),
  (0, .collect 0 0 ⟨18⟩),
  (0, .pushChildSpans 2 0),
  (1, .dropSpan 2 ⟨19⟩),
  (0, .dropSpan 1 ⟨20⟩),
  (0, .dropSpan 0 ⟨21⟩)]

def sharedWorld : World Nat := (Steps.run World.step World.init sharedProgram).getD World.init

theorem reported_lexically_shared :
    ((reportedFor false 0 [⟨sharedWorld.commands, fun i => i.ticks, .stored⟩]).flatten.map SpanRecord.key).Perm
      [⟨⟨1⟩, ⟨3⟩, ⟨2⟩⟩, ⟨⟨1⟩, ⟨5⟩, ⟨4⟩⟩, ⟨⟨1⟩, ⟨4⟩, ⟨3⟩⟩, ⟨⟨1⟩, ⟨2⟩, ⟨1⟩⟩, ⟨⟨1⟩, ⟨1⟩, ⟨9⟩⟩] := by
  have hreceived : (received [⟨sharedWorld.commands, fun i => i.ticks, .stored⟩]).Perm sharedWorld.commands := by
    rw [received, List.flatMap_singleton]
  have hsubmitted : ownedBy 0 (Lexical.run sharedProgram).submitted =
      [⟨⟨1⟩, ⟨3⟩, ⟨2⟩⟩, ⟨⟨1⟩, ⟨5⟩, ⟨4⟩⟩, ⟨⟨1⟩, ⟨4⟩, ⟨3⟩⟩, ⟨⟨1⟩, ⟨2⟩, ⟨1⟩⟩, ⟨⟨1⟩, ⟨1⟩, ⟨9⟩⟩] := by decide
  rw [← hsubmitted]
  exact reported_lexically (w := sharedWorld) rfl (by decide) (by decide) hreceived 0

end Fastrace
