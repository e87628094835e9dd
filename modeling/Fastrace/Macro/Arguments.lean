import Mathlib.Data.List.Nodup
import Fastrace.Macro.Properties

/-!
# The arguments of `#[trace]`

`fastrace-macro/src/lib.rs`, `Args::parse`: arguments `ident = value` in any order, each followed by a comma or not, up
to the end of the tokens.  The primitives are those of the crate `syn`, of which only what its documentation says is
assumed here (`Syn`).

`parse_eq_ok_iff`: what is accepted is what can be written with distinct arguments and distinct keys of the properties,
and the arguments are then those written, in whatever order.
-/

namespace Fastrace.Macro

/-! ### The primitives -/

/-- A parser on streams `S`: it returns the rest of the stream, or a message; where it fails the stream stays as it
was. -/
abbrev Parse (S : Type) := StateT S (Except String)

/-- Items with commas between them and after the last one or not, up to the end of the stream. -/
inductive Terminated {S α : Type} (isEmpty : S → Bool) (Item : α → S → S → Prop) (Comma : S → S → Prop) :
    List α → S → Prop
  | nil {s : S} (h : isEmpty s = true) : Terminated isEmpty Item Comma [] s
  | last {x : α} {s rest : S} (hx : Item x s rest) (h : isEmpty rest = true) : Terminated isEmpty Item Comma [x] s
  | cons {x : α} {xs : List α} {s rest rest' : S} (hx : Item x s rest) (hcomma : Comma rest rest')
      (h : Terminated isEmpty Item Comma xs rest') : Terminated isEmpty Item Comma (x :: xs) s

/-- The crate `syn`: its streams of tokens and its parsers, with what is documented of them. -/
structure Syn (S : Type) where
  isEmpty : S → Bool
  /-- `Ident::parse` and `Ident::to_string`. -/
  ident : Parse S String
  /-- The parser of a punctuation token. -/
  punct (char : Char) : Parse S Unit
  /-- `LitStr::parse` and `LitStr::value`. -/
  litStr : Parse S String
  /-- `LitBool::parse`. -/
  litBool : Parse S Bool
  /-- `braced!`: what stands between the braces. -/
  braced : Parse S S
  /-- `parse_terminated`, with commas. -/
  parseTerminated {α : Type} (parse : Parse S α) (s : S) : Except String (List α)
  size : S → Nat
  isEmpty_iff : ∀ s, isEmpty s = true ↔ size s = 0
  ident_lt : ∀ {s name rest}, ident s = .ok (name, rest) → size rest < size s
  punct_lt : ∀ {char s rest}, punct char s = .ok ((), rest) → size rest < size s
  litStr_lt : ∀ {s value rest}, litStr s = .ok (value, rest) → size rest < size s
  litBool_lt : ∀ {s value rest}, litBool s = .ok (value, rest) → size rest < size s
  braced_lt : ∀ {s content rest}, braced s = .ok (content, rest) → size rest < size s
  /-- An identifier is no punctuation. -/
  ident_ne_punct : ∀ {s name rest char rest'}, ident s = .ok (name, rest) → punct char s ≠ .ok ((), rest')
  /-- The parser is called again and again to the end of the stream, and a comma is read in between. -/
  parseTerminated_eq_ok : ∀ {α : Type} {parse : Parse S α},
    (∀ {s x rest}, parse s = .ok (x, rest) → size rest < size s) → ∀ {s xs}, parseTerminated parse s = .ok xs ↔
      Terminated isEmpty (fun x s rest => parse s = .ok (x, rest)) (fun s rest => punct ',' s = .ok ((), rest)) xs s

variable {S : Type}

section Primitives

variable {α β : Type} {s rest : S}

/-- A parser that goes on with what is left. -/
private theorem bind_eq_ok {p : Parse S α} {f : α → Parse S β} {b : β} :
    (p >>= f) s = .ok (b, rest) ↔ ∃ a s', p s = .ok (a, s') ∧ f a s' = .ok (b, rest) := by
  change (p s >>= fun x => f x.1 x.2) = _ ↔ _
  cases p s with
  | error e => simp [bind, Except.bind]
  | ok x => cases x; simp [bind, Except.bind]

private theorem pure_eq_ok {a b : α} : (pure a : Parse S α) s = .ok (b, rest) ↔ a = b ∧ s = rest := by
  change Except.ok (a, s) = Except.ok (b, rest) ↔ _
  simp

private theorem lift_eq_ok {x : Except String α} {a : α} :
    (StateT.lift x : Parse S α) s = .ok (a, rest) ↔ x = .ok a ∧ s = rest := by
  cases x with
  | error e => simp [StateT.lift, bind, Except.bind]
  | ok b => simp [StateT.lift, bind, Except.bind, pure, Except.pure]

private theorem throw_eq_ok {message : String} {a : α} : (throw message : Parse S α) s = .ok (a, rest) ↔ False := by
  change Except.error message = Except.ok (a, rest) ↔ False
  simp

theorem except_bind_eq_ok {x : Except String α} {f : α → Except String β} {b : β} :
    x >>= f = .ok b ↔ ∃ a, x = .ok a ∧ f a = .ok b := by
  cases x <;> simp [bind, Except.bind]

theorem map_eq_ok {x : Except String α} {f : α → β} {b : β} : x.map f = .ok b ↔ ∃ a, x = .ok a ∧ f a = b := by
  cases x <;> simp [Except.map]

end Primitives

/-! ### The parsers -/

structure Property where
  key : String
  value : String
deriving DecidableEq, Repr

def Property.parse (syn : Syn S) : Parse S Property := do
  let key ← syn.litStr
  syn.punct ':'
  let value ← syn.litStr
  return { key := key, value := value }

structure TraceArgs extends Args where
  name : Option String
  shortName : Bool
deriving DecidableEq, Repr

def TraceArgs.empty : TraceArgs where
  name := none
  shortName := false
  enterOnPoll := false
  properties := []

def pushProperties (properties : List (String × String)) : List Property → Except String (List (String × String))
  | [] => .ok properties
  | property :: list =>
    if properties.any fun p => p.1 = property.key then .error "duplicate property key"
    else pushProperties (properties ++ [(property.key, property.value)]) list

/-- What follows the `=`. -/
def parseValue (syn : Syn S) (ident : String) (args : TraceArgs) : Parse S TraceArgs :=
  if ident = "name" then do
    let parsedName ← syn.litStr
    return { args with name := some parsedName }
  else if ident = "short_name" then do
    let parsedShortName ← syn.litBool
    return { args with shortName := parsedShortName }
  else if ident = "enter_on_poll" then do
    let parsedEnterOnPoll ← syn.litBool
    return { args with enterOnPoll := parsedEnterOnPoll }
  else if ident = "properties" then do
    let content ← syn.braced
    let propertyList ← StateT.lift (syn.parseTerminated (Property.parse syn) content)
    let properties ← StateT.lift (pushProperties args.properties propertyList)
    return { args with properties := properties }
  else
    throw "unexpected identifier"

def parseArgument (syn : Syn S) (seen : List String) (args : TraceArgs) : Parse S (String × TraceArgs) := do
  let ident ← syn.ident
  if ident ∈ seen then
    throw "duplicate argument"
  else
    syn.punct '='
    let args ← parseValue syn ident args
    return (ident, args)

/-- The comma that is parsed if there is one. -/
def skipComma (syn : Syn S) (s : S) : S :=
  if syn.isEmpty s then s
  else
    match syn.punct ',' s with
    | .ok (_, rest) => rest
    | .error _ => s

/-! ### What can be written -/

/-- A property at the front of a stream. -/
def Property.Written (syn : Syn S) (property : Property) (s rest : S) : Prop :=
  ∃ s₁ s₂, syn.litStr s = .ok (property.key, s₁) ∧ syn.punct ':' s₁ = .ok ((), s₂) ∧
    syn.litStr s₂ = .ok (property.value, rest)

/-- An argument as it is written. -/
inductive Argument where
  | name (value : String)
  | shortName (value : Bool)
  | enterOnPoll (value : Bool)
  | properties (list : List Property)
deriving DecidableEq, Repr

namespace Argument

def ident : Argument → String
  | .name _ => "name"
  | .shortName _ => "short_name"
  | .enterOnPoll _ => "enter_on_poll"
  | .properties _ => "properties"

/-- The value of the argument at the front of a stream. -/
def ValueWritten (syn : Syn S) (s rest : S) : Argument → Prop
  | .name value => syn.litStr s = .ok (value, rest)
  | .shortName value => syn.litBool s = .ok (value, rest)
  | .enterOnPoll value => syn.litBool s = .ok (value, rest)
  | .properties list => ∃ content, syn.braced s = .ok (content, rest) ∧
      Terminated syn.isEmpty (Property.Written syn) (fun s rest => syn.punct ',' s = .ok ((), rest)) list content

/-- The argument at the front of a stream. -/
def Written (syn : Syn S) (argument : Argument) (s rest : S) : Prop :=
  ∃ s₁ s₂, syn.ident s = .ok (argument.ident, s₁) ∧ syn.punct '=' s₁ = .ok ((), s₂) ∧
    argument.ValueWritten syn s₂ rest

/-- No key of a property is there twice. -/
def DistinctKeys (args : TraceArgs) : Argument → Prop
  | .properties list =>
    (list.map Property.key).Nodup ∧ ∀ property ∈ list, property.key ∉ args.properties.map Prod.fst
  | _ => True

def set (args : TraceArgs) : Argument → TraceArgs
  | .name value => { args with name := some value }
  | .shortName value => { args with shortName := value }
  | .enterOnPoll value => { args with enterOnPoll := value }
  | .properties list =>
    { args with properties := args.properties ++ list.map fun property => (property.key, property.value) }

end Argument

/-- Arguments at the front of a stream, one after the other, each with a comma or without. -/
inductive ArgumentsWritten (syn : Syn S) : List Argument → S → S → Prop
  | nil {s : S} : ArgumentsWritten syn [] s s
  | bare {argument : Argument} {arguments : List Argument} {s s₁ rest : S} (h : argument.Written syn s s₁)
      (hs : ArgumentsWritten syn arguments s₁ rest) : ArgumentsWritten syn (argument :: arguments) s rest
  | comma {argument : Argument} {arguments : List Argument} {s s₁ s₂ rest : S} (h : argument.Written syn s s₁)
      (hcomma : syn.punct ',' s₁ = .ok ((), s₂)) (hs : ArgumentsWritten syn arguments s₂ rest) :
      ArgumentsWritten syn (argument :: arguments) s rest

/-- The arguments that are there when these have been read. -/
def argsOf (args : TraceArgs) (arguments : List Argument) : TraceArgs := arguments.foldl Argument.set args

/-- No argument is written twice, and no key of a property. -/
structure WellFormed (arguments : List Argument) : Prop where
  idents : (arguments.map Argument.ident).Nodup
  keys : ∀ argument ∈ arguments, argument.DistinctKeys TraceArgs.empty

/-! ### One argument -/

section Values

variable {syn : Syn S} {s rest : S}

private theorem Property.parse_eq_ok {property : Property} :
    Property.parse syn s = .ok (property, rest) ↔ property.Written syn s rest := by
  unfold Property.parse Property.Written
  simp only [bind_eq_ok, pure_eq_ok]
  constructor
  · rintro ⟨key, s₁, hkey, ⟨⟩, s₂, hcolon, value, _, hvalue, rfl, rfl⟩
    exact ⟨s₁, s₂, hkey, hcolon, hvalue⟩
  · rintro ⟨s₁, s₂, hkey, hcolon, hvalue⟩
    exact ⟨property.key, s₁, hkey, (), s₂, hcolon, property.value, rest, hvalue, rfl, rfl⟩

private theorem Property.Written.lt {property : Property} (h : property.Written syn s rest) :
    syn.size rest < syn.size s := by
  obtain ⟨s₁, s₂, hkey, hcolon, hvalue⟩ := h
  have hkey := syn.litStr_lt hkey
  have hcolon := syn.punct_lt hcolon
  have hvalue := syn.litStr_lt hvalue
  omega

private theorem parsePropertyList_eq_ok {list : List Property} : syn.parseTerminated (Property.parse syn) s = .ok list ↔
    Terminated syn.isEmpty (Property.Written syn) (fun s rest => syn.punct ',' s = .ok ((), rest)) list s := by
  rw [syn.parseTerminated_eq_ok fun h => (Property.parse_eq_ok.1 h).lt]
  simp only [Property.parse_eq_ok]

private theorem pushProperties_eq_ok {properties properties' : List (String × String)} {list : List Property} :
    pushProperties properties list = .ok properties' ↔
      ((list.map Property.key).Nodup ∧ ∀ property ∈ list, property.key ∉ properties.map Prod.fst) ∧
        properties' = properties ++ list.map fun property => (property.key, property.value) := by
  induction list generalizing properties with
  | nil => simp [pushProperties, eq_comm]
  | cons property list ih =>
    have hany : (properties.any fun p => p.1 = property.key) = true ↔ property.key ∈ properties.map Prod.fst := by
      simp
    rw [pushProperties]
    by_cases hkey : property.key ∈ properties.map Prod.fst
    · rw [if_pos (hany.2 hkey)]
      exact iff_of_false (fun h => by cases h) fun h => h.1.2 property (List.mem_cons_self ..) hkey
    · rw [if_neg (mt hany.1 hkey), ih]
      simp only [List.map_append, List.mem_append, not_or, List.map_cons, List.nodup_cons, List.forall_mem_cons, hkey,
        not_false_eq_true, true_and, List.append_assoc, List.cons_append, List.nil_append]
      refine and_congr_left fun _ => ?_
      constructor
      · rintro ⟨hnodup, hnew⟩
        refine ⟨⟨fun hmem => ?_, hnodup⟩, fun p hp => (hnew p hp).1⟩
        obtain ⟨p, hp, heq⟩ := List.mem_map.1 hmem
        exact (hnew p hp).2 (by simp [heq])
      · rintro ⟨⟨hhead, hnodup⟩, hnew⟩
        refine ⟨hnodup, fun p hp => ⟨hnew p hp, fun hmem => hhead ?_⟩⟩
        rw [← (by simpa using hmem : p.key = property.key)]
        exact List.mem_map_of_mem hp

/-- A value is read if it is one of the argument. -/
private theorem parseValue_eq_ok {ident : String} {args args' : TraceArgs} :
    parseValue syn ident args s = .ok (args', rest) ↔
      ∃ argument : Argument, argument.ident = ident ∧ argument.DistinctKeys args ∧
        argument.ValueWritten syn s rest ∧ args' = argument.set args := by
  unfold parseValue
  constructor
  · intro hparse
    split_ifs at hparse with hname hshort hpoll hproperties
    · obtain ⟨value, _, hvalue, hpure⟩ := bind_eq_ok.1 hparse
      obtain ⟨rfl, rfl⟩ := pure_eq_ok.1 hpure
      exact ⟨.name value, hname.symm, trivial, hvalue, rfl⟩
    · obtain ⟨value, _, hvalue, hpure⟩ := bind_eq_ok.1 hparse
      obtain ⟨rfl, rfl⟩ := pure_eq_ok.1 hpure
      exact ⟨.shortName value, hshort.symm, trivial, hvalue, rfl⟩
    · obtain ⟨value, _, hvalue, hpure⟩ := bind_eq_ok.1 hparse
      obtain ⟨rfl, rfl⟩ := pure_eq_ok.1 hpure
      exact ⟨.enterOnPoll value, hpoll.symm, trivial, hvalue, rfl⟩
    · obtain ⟨content, _, hcontent, hparse⟩ := bind_eq_ok.1 hparse
      obtain ⟨list, _, hlist, hparse⟩ := bind_eq_ok.1 hparse
      obtain ⟨properties, _, hpush, hpure⟩ := bind_eq_ok.1 hparse
      obtain ⟨rfl, rfl⟩ := pure_eq_ok.1 hpure
      obtain ⟨hread, rfl⟩ := lift_eq_ok.1 hlist
      obtain ⟨hpushed, rfl⟩ := lift_eq_ok.1 hpush
      obtain ⟨hnodup, rfl⟩ := pushProperties_eq_ok.1 hpushed
      exact ⟨.properties list, hproperties.symm, hnodup, ⟨content, hcontent, parsePropertyList_eq_ok.1 hread⟩, rfl⟩
    · exact (throw_eq_ok.1 hparse).elim
  · rintro ⟨argument, rfl, hnodup, hvalue, rfl⟩
    cases argument with
    | name value => exact bind_eq_ok.2 ⟨value, rest, hvalue, rfl⟩
    | shortName value => exact bind_eq_ok.2 ⟨value, rest, hvalue, rfl⟩
    | enterOnPoll value => exact bind_eq_ok.2 ⟨value, rest, hvalue, rfl⟩
    | properties list =>
      obtain ⟨content, hcontent, hlist⟩ := hvalue
      have hident : (Argument.properties list).ident = "properties" := rfl
      rw [hident, if_neg (by decide), if_neg (by decide), if_neg (by decide), if_pos rfl]
      refine bind_eq_ok.2 ⟨content, rest, hcontent, bind_eq_ok.2 ⟨list, rest, ?_, ?_⟩⟩
      · exact lift_eq_ok.2 ⟨parsePropertyList_eq_ok.2 hlist, rfl⟩
      · exact bind_eq_ok.2 ⟨_, rest, lift_eq_ok.2 ⟨pushProperties_eq_ok.2 ⟨hnodup, rfl⟩, rfl⟩, rfl⟩

private theorem Argument.ValueWritten.lt {argument : Argument} (h : argument.ValueWritten syn s rest) :
    syn.size rest < syn.size s := by
  cases argument with
  | name value => exact syn.litStr_lt h
  | shortName value => exact syn.litBool_lt h
  | enterOnPoll value => exact syn.litBool_lt h
  | properties list =>
    obtain ⟨content, hcontent, -⟩ := h
    exact syn.braced_lt hcontent

private theorem Argument.Written.lt {argument : Argument} (h : argument.Written syn s rest) :
    syn.size rest < syn.size s := by
  obtain ⟨s₁, s₂, hident, heq, hvalue⟩ := h
  have hident := syn.ident_lt hident
  have heq := syn.punct_lt heq
  have hvalue := hvalue.lt
  omega

/-- An argument is read if it is none of those before. -/
private theorem parseArgument_eq_ok {seen : List String} {args args' : TraceArgs} {ident : String} :
    parseArgument syn seen args s = .ok ((ident, args'), rest) ↔
      ∃ argument : Argument, argument.ident = ident ∧ ident ∉ seen ∧ argument.DistinctKeys args ∧
        argument.Written syn s rest ∧ args' = argument.set args := by
  unfold parseArgument
  rw [bind_eq_ok]
  constructor
  · rintro ⟨ident', s₁, hident, hparse⟩
    split at hparse
    · exact (throw_eq_ok.1 hparse).elim
    · next hseen =>
      obtain ⟨⟨⟩, s₂, hpunct, hparse⟩ := bind_eq_ok.1 hparse
      obtain ⟨args'', _, hvalue, hpure⟩ := bind_eq_ok.1 hparse
      obtain ⟨heq, rfl⟩ := pure_eq_ok.1 hpure
      cases heq
      obtain ⟨argument, rfl, hnodup, hwritten, hargs⟩ := parseValue_eq_ok.1 hvalue
      exact ⟨argument, rfl, hseen, hnodup, ⟨s₁, s₂, hident, hpunct, hwritten⟩, hargs⟩
  · rintro ⟨argument, rfl, hseen, hnodup, ⟨s₁, s₂, hident, hpunct, hwritten⟩, rfl⟩
    refine ⟨argument.ident, s₁, hident, ?_⟩
    rw [if_neg hseen]
    refine bind_eq_ok.2 ⟨(), s₂, hpunct, bind_eq_ok.2 ⟨_, rest, ?_, rfl⟩⟩
    exact parseValue_eq_ok.2 ⟨argument, rfl, hnodup, hwritten, rfl⟩

private theorem isEmpty_of_lt (h : syn.size rest < syn.size s) : syn.isEmpty s = false := by
  rw [Bool.eq_false_iff, Ne, syn.isEmpty_iff]
  omega

/-- A comma is skipped if there is one. -/
private theorem skipComma_of_comma (h : syn.punct ',' s = .ok ((), rest)) : skipComma syn s = rest := by
  rw [skipComma, isEmpty_of_lt (syn.punct_lt h), h]
  rfl

private theorem skipComma_of_isEmpty (h : syn.isEmpty s = true) : skipComma syn s = s := by
  rw [skipComma, h]
  rfl

private theorem skipComma_of_ident {name : String} (h : syn.ident s = .ok (name, rest)) : skipComma syn s = s := by
  rw [skipComma, isEmpty_of_lt (syn.ident_lt h), if_neg Bool.false_ne_true]
  split
  · next u rest' hcomma => exact absurd hcomma (syn.ident_ne_punct h)
  · rfl

private theorem size_skipComma : syn.size (skipComma syn s) ≤ syn.size s := by
  unfold skipComma
  split
  · exact Nat.le_refl _
  · split
    · next hcomma => exact Nat.le_of_lt (syn.punct_lt hcomma)
    · exact Nat.le_refl _

end Values

/-! ### The loop -/

def parseLoop (syn : Syn S) (seen : List String) (args : TraceArgs) (s : S) : Except String TraceArgs :=
  if syn.isEmpty s then
    .ok args
  else
    match _hargument : parseArgument syn seen args s with
    | .error message => .error message
    | .ok (argument, rest) => parseLoop syn (argument.1 :: seen) argument.2 (skipComma syn rest)
termination_by syn.size s
decreasing_by
  obtain ⟨argument, -, -, -, hwritten, -⟩ := parseArgument_eq_ok.1 _hargument
  exact Nat.lt_of_le_of_lt size_skipComma hwritten.lt

/-- `Args::parse`. -/
def TraceArgs.parse (syn : Syn S) (s : S) : Except String TraceArgs := parseLoop syn [] TraceArgs.empty s

section Loop

variable {syn : Syn S} {seen : List String} {args : TraceArgs} {s rest : S} {arguments : List Argument}

/-- The properties have not been read yet, or are not read again. -/
def Unread (seen : List String) (args : TraceArgs) : Prop := "properties" ∈ seen ∨ args.properties = []

private theorem Unread.set {argument : Argument} (h : Unread seen args) :
    Unread (argument.ident :: seen) (argument.set args) := by
  cases argument with
  | properties list => exact Or.inl (List.mem_cons_self ..)
  | _ => exact h.imp (List.mem_cons_of_mem _) id

private theorem Unread.distinctKeys_iff {argument : Argument} (h : Unread seen args) (hseen : argument.ident ∉ seen) :
    argument.DistinctKeys args ↔ argument.DistinctKeys TraceArgs.empty := by
  cases argument with
  | properties list =>
    have hnil : args.properties = [] := h.resolve_left hseen
    simp [Argument.DistinctKeys, hnil, TraceArgs.empty]
  | _ => exact Iff.rfl

private theorem parseLoop_of_ok {argument : String × TraceArgs}
    (h : parseArgument syn seen args s = .ok (argument, rest)) :
    parseLoop syn seen args s = parseLoop syn (argument.1 :: seen) argument.2 (skipComma syn rest) := by
  obtain ⟨_, -, -, -, hwritten, -⟩ := parseArgument_eq_ok.1 h
  rw [parseLoop, isEmpty_of_lt hwritten.lt, if_neg Bool.false_ne_true]
  split
  · next h' => cases h.symm.trans h'
  · next h' => cases h.symm.trans h'; rfl

private theorem skipComma_written (h : ArgumentsWritten syn arguments s rest) (hrest : skipComma syn rest = rest) :
    skipComma syn s = s := by
  cases h with
  | nil => exact hrest
  | bare h => obtain ⟨_, _, hident, -, -⟩ := h; exact skipComma_of_ident hident
  | comma h => obtain ⟨_, _, hident, -, -⟩ := h; exact skipComma_of_ident hident

/-- A round of the loop reads the first of well-formed arguments. -/
private theorem parseLoop_first {argument : Argument} {s₁ s₂ : S} (hunread : Unread seen args)
    (hseen : ∀ argument' ∈ argument :: arguments, argument'.ident ∉ seen) (hwf : WellFormed (argument :: arguments))
    (hwritten : argument.Written syn s s₁) (hskip : skipComma syn s₁ = s₂) :
    parseLoop syn seen args s = parseLoop syn (argument.ident :: seen) (argument.set args) s₂ ∧
      (∀ argument' ∈ arguments, argument'.ident ∉ argument.ident :: seen) ∧ WellFormed arguments := by
  rw [List.forall_mem_cons] at hseen
  have hnodup := List.nodup_cons.1 hwf.idents
  have hkeys := List.forall_mem_cons.1 hwf.keys
  have hread : parseArgument syn seen args s = .ok ((argument.ident, argument.set args), s₁) :=
    parseArgument_eq_ok.2 ⟨argument, rfl, hseen.1, (hunread.distinctKeys_iff hseen.1).2 hkeys.1, hwritten, rfl⟩
  refine ⟨by rw [parseLoop_of_ok hread, hskip], fun a ha hmem => ?_, hnodup.2, hkeys.2⟩
  rcases List.mem_cons.1 hmem with heq | hmem
  · exact hnodup.1 (heq ▸ List.mem_map_of_mem ha)
  · exact hseen.2 a ha hmem

/-- The loop goes on behind well-formed arguments. -/
private theorem parseLoop_written (h : ArgumentsWritten syn arguments s rest) (hunread : Unread seen args)
    (hseen : ∀ argument ∈ arguments, argument.ident ∉ seen) (hwf : WellFormed arguments)
    (hrest : skipComma syn rest = rest) : parseLoop syn seen args s =
      parseLoop syn ((arguments.map Argument.ident).reverse ++ seen) (argsOf args arguments) rest := by
  induction h generalizing seen args with
  | nil => rfl
  | bare h hs ih =>
    obtain ⟨hstep, hseen', hwf'⟩ := parseLoop_first hunread hseen hwf h (skipComma_written hs hrest)
    rw [hstep, ih hunread.set hseen' hwf' hrest]
    simp [argsOf]
  | comma h hcomma hs ih =>
    obtain ⟨hstep, hseen', hwf'⟩ := parseLoop_first hunread hseen hwf h (skipComma_of_comma hcomma)
    rw [hstep, ih hunread.set hseen' hwf' hrest]
    simp [argsOf]

/-- An argument with the comma that is skipped, or without. -/
private theorem ArgumentsWritten.skip {argument : Argument} {s₁ : S} (h : argument.Written syn s s₁)
    (hs : ArgumentsWritten syn arguments (skipComma syn s₁) rest) :
    ArgumentsWritten syn (argument :: arguments) s rest := by
  cases hcomma : syn.punct ',' s₁ with
  | ok out =>
    obtain ⟨⟨⟩, s₂⟩ := out
    rw [skipComma_of_comma hcomma] at hs
    exact .comma h hcomma hs
  | error message =>
    have hskip : skipComma syn s₁ = s₁ := by
      rw [skipComma, hcomma]
      split <;> rfl
    rw [hskip] at hs
    exact .bare h hs

/-- What the loop accepts is written so. -/
private theorem written_of_parseLoop {args' : TraceArgs} (h : Unread seen args)
    (hparse : parseLoop syn seen args s = .ok args') :
    ∃ arguments rest, (∀ argument ∈ arguments, argument.ident ∉ seen) ∧ WellFormed arguments ∧
      ArgumentsWritten syn arguments s rest ∧ syn.isEmpty rest = true ∧ args' = argsOf args arguments := by
  fun_induction parseLoop syn seen args s with
  | case1 seen args s hempty =>
    cases hparse
    exact ⟨[], s, by simp, ⟨List.nodup_nil, by simp⟩, .nil, hempty, rfl⟩
  | case2 => cases hparse
  | case3 seen args s hempty parsed rest hargument ih =>
    obtain ⟨ident, args₁⟩ := parsed
    obtain ⟨argument, rfl, hseen, hkeys, hwritten, rfl⟩ := parseArgument_eq_ok.1 hargument
    obtain ⟨arguments, rest', hnew, hwf, hrest, hend, hargs⟩ := ih h.set hparse
    refine ⟨argument :: arguments, rest', ?_, ⟨?_, ?_⟩, .skip hwritten hrest, hend, hargs⟩
    · rw [List.forall_mem_cons]
      exact ⟨hseen, fun a ha hmem => hnew a ha (List.mem_cons_of_mem _ hmem)⟩
    · rw [List.map_cons, List.nodup_cons]
      refine ⟨fun hmem => ?_, hwf.idents⟩
      obtain ⟨a, ha, heq⟩ := List.mem_map.1 hmem
      exact hnew a ha (heq ▸ List.mem_cons_self ..)
    · rw [List.forall_mem_cons]
      exact ⟨(h.distinctKeys_iff hseen).1 hkeys, hwf.keys⟩

/-- An argument that has been seen is not read again. -/
private theorem parseLoop_seen {ident : String} (h : ident ∈ seen) (hident : syn.ident s = .ok (ident, rest)) :
    parseLoop syn seen args s = .error "duplicate argument" := by
  have hone : parseArgument syn seen args s = .error "duplicate argument" := by
    change (syn.ident s >>= fun x => _) = _
    rw [hident]
    change (if ident ∈ seen then throw "duplicate argument" else _ : Parse S (String × TraceArgs)) rest = _
    rw [if_pos h]
    rfl
  rw [parseLoop, isEmpty_of_lt (syn.ident_lt hident), if_neg Bool.false_ne_true]
  split
  · next h' => cases hone.symm.trans h'; rfl
  · next h' => cases hone.symm.trans h'

end Loop

/-- The arguments may be written in any order. -/
private theorem argsOf_perm {args : TraceArgs} {arguments arguments' : List Argument} (hwf : WellFormed arguments)
    (h : arguments.Perm arguments') : argsOf args arguments = argsOf args arguments' := by
  refine h.foldl_eq' (fun a ha b hb args => ?_) args
  by_cases hident : a.ident = b.ident
  · rw [List.inj_on_of_nodup_map hwf.idents ha hb hident]
  · cases a <;> cases b <;> first | rfl | exact absurd rfl hident

private theorem WellFormed.perm {arguments arguments' : List Argument} (hwf : WellFormed arguments)
    (h : arguments.Perm arguments') : WellFormed arguments' where
  idents := (h.map Argument.ident).nodup_iff.1 hwf.idents
  keys argument hargument := hwf.keys argument (h.mem_iff.2 hargument)

/-! ### Streams of plain tokens -/

/-- The tokens of arguments that are written out, with no group without delimiters among them. -/
inductive Token where
  | ident (name : String)
  | str (value : String)
  | bool (value : Bool)
  | punct (char : Char)
  /-- What stands between braces. -/
  | braced (tokens : List Token)

namespace Token

def parseIdent : Parse (List Token) String
  | .ident name :: rest => .ok (name, rest)
  | _ => .error "expected identifier"

def parsePunct (char : Char) : Parse (List Token) Unit
  | .punct char' :: rest => if char' = char then .ok ((), rest) else .error ("expected `" ++ char.toString ++ "`")
  | _ => .error ("expected `" ++ char.toString ++ "`")

def parseLitStr : Parse (List Token) String
  | .str value :: rest => .ok (value, rest)
  | _ => .error "expected string literal"

def parseLitBool : Parse (List Token) Bool
  | .bool value :: rest => .ok (value, rest)
  | _ => .error "expected boolean literal"

def parseBraced : Parse (List Token) (List Token)
  | .braced content :: rest => .ok (content, rest)
  | _ => .error "expected curly braces"

def parseTerminated {α : Type} (parse : Parse (List Token) α) : Nat → List Token → Except String (List α)
  | _, [] => .ok []
  | 0, _ => .ok []
  | fuel + 1, tokens => do
    let (x, rest) ← parse tokens
    if rest.isEmpty then return [x]
    let (_, rest) ← parsePunct ',' rest
    let xs ← parseTerminated parse fuel rest
    return x :: xs

variable {tokens rest : List Token}

private theorem parseIdent_eq_ok {name : String} :
    parseIdent tokens = .ok (name, rest) ↔ tokens = .ident name :: rest := by
  unfold parseIdent
  split <;> simp_all

private theorem parsePunct_eq_ok {char : Char} {u : Unit} :
    parsePunct char tokens = .ok (u, rest) ↔ tokens = .punct char :: rest := by
  unfold parsePunct
  split
  · split <;> simp_all
  · simp_all

private theorem parseLitStr_eq_ok {value : String} :
    parseLitStr tokens = .ok (value, rest) ↔ tokens = .str value :: rest := by
  unfold parseLitStr
  split <;> simp_all

private theorem parseLitBool_eq_ok {value : Bool} :
    parseLitBool tokens = .ok (value, rest) ↔ tokens = .bool value :: rest := by
  match tokens with
  | .bool value' :: tokens => simp [parseLitBool]
  | [] => simp [parseLitBool]
  | .ident _ :: _ => simp [parseLitBool]
  | .str _ :: _ => simp [parseLitBool]
  | .punct _ :: _ => simp [parseLitBool]
  | .braced _ :: _ => simp [parseLitBool]

private theorem parseBraced_eq_ok {content : List Token} :
    parseBraced tokens = .ok (content, rest) ↔ tokens = .braced content :: rest := by
  unfold parseBraced
  split <;> simp_all

private theorem parseTerminated_cons {α : Type} (parse : Parse (List Token) α) (fuel : Nat) (token : Token) :
    parseTerminated parse (fuel + 1) (token :: tokens) = (do
      let (x, rest) ← parse (token :: tokens)
      if rest.isEmpty then return [x]
      let (_, rest) ← parsePunct ',' rest
      let xs ← parseTerminated parse fuel rest
      return x :: xs) := by
  rw [parseTerminated]
  simp

private theorem parseTerminated_eq_ok {α : Type} {parse : Parse (List Token) α}
    (hparse : ∀ {tokens x rest}, parse tokens = .ok (x, rest) → rest.length < tokens.length) {xs : List α} {fuel : Nat}
    (hfuel : tokens.length ≤ fuel) : parseTerminated parse fuel tokens = .ok xs ↔
      Terminated List.isEmpty (fun x tokens rest => parse tokens = .ok (x, rest))
        (fun tokens rest => parsePunct ',' tokens = .ok ((), rest)) xs tokens := by
  have hnil : ∀ {xs : List α}, Terminated List.isEmpty (fun x tokens rest => parse tokens = .ok (x, rest))
      (fun tokens rest => parsePunct ',' tokens = .ok ((), rest)) xs [] ↔ xs = [] := by
    intro xs
    constructor
    · intro h
      cases h with
      | nil => rfl
      | last hx => exact absurd (hparse hx) (Nat.not_lt_zero _)
      | cons hx => exact absurd (hparse hx) (Nat.not_lt_zero _)
    · rintro rfl
      exact .nil rfl
  -- what an item and a comma leave is read with less fuel
  have hrest : ∀ {x tokens rest rest' fuel}, tokens.length ≤ fuel + 1 → parse tokens = .ok (x, rest) →
      parsePunct ',' rest = .ok ((), rest') → rest'.length ≤ fuel := by
    intro x tokens rest rest' fuel hfuel hx hcomma
    have hlt := hparse hx
    rw [parsePunct_eq_ok.1 hcomma, List.length_cons] at hlt
    omega
  induction fuel generalizing tokens xs with
  | zero =>
    rw [List.length_eq_zero_iff.1 (Nat.le_zero.1 hfuel), hnil]
    simp [parseTerminated, eq_comm]
  | succ fuel ih =>
    cases tokens with
    | nil => rw [hnil]; simp [parseTerminated, eq_comm]
    | cons token tokens =>
      rw [parseTerminated_cons]
      constructor
      · intro h
        obtain ⟨⟨x, rest⟩, hx, h⟩ := except_bind_eq_ok.1 h
        dsimp only at h
        cases hempty : rest.isEmpty with
        | true =>
          rw [if_pos hempty] at h
          cases h
          exact .last hx hempty
        | false =>
          rw [if_neg (by simp only [hempty, Bool.false_eq_true, not_false_eq_true])] at h
          obtain ⟨⟨⟨⟩, rest'⟩, hcomma, h⟩ := except_bind_eq_ok.1 h
          obtain ⟨ys, hys, h⟩ := except_bind_eq_ok.1 h
          cases h
          exact .cons hx hcomma ((ih (hrest hfuel hx hcomma)).1 hys)
      · intro h
        cases h with
        | nil h => cases h
        | last hx hempty => exact except_bind_eq_ok.2 ⟨_, hx, if_pos hempty⟩
        | cons hx hcomma h =>
          refine except_bind_eq_ok.2 ⟨_, hx, ?_⟩
          dsimp only
          rw [parsePunct_eq_ok.1 hcomma, if_neg (by simp), ← parsePunct_eq_ok.1 hcomma]
          refine except_bind_eq_ok.2 ⟨_, hcomma, except_bind_eq_ok.2 ⟨_, (ih (hrest hfuel hx hcomma)).2 h, rfl⟩⟩

end Token

def tokenSyn : Syn (List Token) where
  isEmpty := List.isEmpty
  ident := Token.parseIdent
  punct := Token.parsePunct
  litStr := Token.parseLitStr
  litBool := Token.parseLitBool
  braced := Token.parseBraced
  parseTerminated parse tokens := Token.parseTerminated parse tokens.length tokens
  size := List.length
  isEmpty_iff tokens := by simp
  ident_lt h := by rw [Token.parseIdent_eq_ok.1 h]; exact Nat.lt_succ_self _
  punct_lt h := by rw [Token.parsePunct_eq_ok.1 h]; exact Nat.lt_succ_self _
  litStr_lt h := by rw [Token.parseLitStr_eq_ok.1 h]; exact Nat.lt_succ_self _
  litBool_lt h := by rw [Token.parseLitBool_eq_ok.1 h]; exact Nat.lt_succ_self _
  braced_lt h := by rw [Token.parseBraced_eq_ok.1 h]; exact Nat.lt_succ_self _
  ident_ne_punct h h' := by cases (Token.parseIdent_eq_ok.1 h).symm.trans (Token.parsePunct_eq_ok.1 h')
  parseTerminated_eq_ok h := Token.parseTerminated_eq_ok h (Nat.le_refl _)

/-- `name = "query", properties = { "k": "v", "l": "w" }` and, if `again`, `name` once more. -/
def queryTokens (again : Bool) : List Token :=
  [.ident "name", .punct '=', .str "query", .punct ',', .ident "properties", .punct '=',
    .braced [.str "k", .punct ':', .str "v", .punct ',', .str "l", .punct ':', .str "w"]] ++
      if again then [.ident "name"] else []

/-- `properties = { "k": "v", "l": "w", } name = "query"`. -/
def reorderedTokens : List Token :=
  [.ident "properties", .punct '=',
    .braced [.str "k", .punct ':', .str "v", .punct ',', .str "l", .punct ':', .str "w", .punct ','],
    .ident "name", .punct '=', .str "query"]

def queryArguments : List Argument :=
  [.name "query", .properties [⟨"k", "v"⟩, ⟨"l", "w"⟩]]

private theorem queryArguments_wellFormed : WellFormed queryArguments where
  idents := by decide
  keys := by
    rintro argument hargument
    rcases List.mem_pair.1 hargument with rfl | rfl
    · trivial
    · exact ⟨by decide, fun _ _ => List.not_mem_nil⟩

private theorem queryTokens_written (again : Bool) :
    ArgumentsWritten tokenSyn queryArguments (queryTokens again) (if again then [.ident "name"] else []) := by
  refine .comma ⟨_, _, rfl, rfl, rfl⟩ rfl (.bare ⟨_, _, rfl, rfl, _, rfl, ?_⟩ .nil)
  exact .cons ⟨_, _, rfl, rfl, rfl⟩ rfl (.last ⟨_, _, rfl, rfl, rfl⟩ rfl)

private theorem reorderedTokens_written : ArgumentsWritten tokenSyn queryArguments.reverse reorderedTokens [] := by
  refine .bare ⟨_, _, rfl, rfl, _, rfl, ?_⟩ (.bare ⟨_, _, rfl, rfl, rfl⟩ .nil)
  exact .cons ⟨_, _, rfl, rfl, rfl⟩ rfl (.cons ⟨_, _, rfl, rfl, rfl⟩ rfl (.nil rfl))

/-! ### The result -/

/-- `Args::parse` accepts what can be written with distinct arguments and distinct keys of the properties, each argument
with a comma behind it or without, and nothing else; it returns what is written, in whatever order; and an argument that
comes again is an error, whatever follows it. -/
theorem parse_eq_ok_iff (syn : Syn S) :
    (∀ s args, TraceArgs.parse syn s = .ok args ↔ ∃ arguments rest, WellFormed arguments ∧
      ArgumentsWritten syn arguments s rest ∧ syn.isEmpty rest = true ∧ args = argsOf TraceArgs.empty arguments) ∧
    (∀ arguments arguments' s s' rest rest', WellFormed arguments → arguments.Perm arguments' →
      ArgumentsWritten syn arguments s rest → syn.isEmpty rest = true →
        ArgumentsWritten syn arguments' s' rest' → syn.isEmpty rest' = true →
          TraceArgs.parse syn s' = TraceArgs.parse syn s) ∧
    ∀ arguments s ident rest rest', WellFormed arguments → ArgumentsWritten syn arguments s rest →
      syn.ident rest = .ok (ident, rest') → ident ∈ arguments.map Argument.ident →
        TraceArgs.parse syn s = .error "duplicate argument" := by
  have hunread : Unread [] TraceArgs.empty := Or.inr rfl
  have hwritten : ∀ {arguments : List Argument} {s rest : S}, WellFormed arguments →
      ArgumentsWritten syn arguments s rest → syn.isEmpty rest = true →
        TraceArgs.parse syn s = .ok (argsOf TraceArgs.empty arguments) := by
    intro arguments s rest hwf h hend
    rw [TraceArgs.parse, parseLoop_written h hunread (fun _ _ => List.not_mem_nil) hwf (skipComma_of_isEmpty hend),
      parseLoop, if_pos hend]
  refine ⟨fun s args => ⟨fun h => ?_, ?_⟩, fun arguments arguments' s s' rest rest' hwf hperm h hend h' hend' => ?_,
    fun arguments s ident rest rest' hwf h hident hmem => ?_⟩
  · obtain ⟨arguments, rest, -, hwf, hargs⟩ := written_of_parseLoop hunread h
    exact ⟨arguments, rest, hwf, hargs⟩
  · rintro ⟨arguments, rest, hwf, h, hend, rfl⟩
    exact hwritten hwf h hend
  · rw [hwritten hwf h hend, hwritten (hwf.perm hperm) h' hend', argsOf_perm hwf hperm]
  · rw [TraceArgs.parse, parseLoop_written h hunread (fun _ _ => List.not_mem_nil) hwf (skipComma_of_ident hident)]
    exact parseLoop_seen (by simpa using hmem) hident

theorem parse_queryTokens :
    TraceArgs.parse tokenSyn (queryTokens false) = .ok
      { name := some "query", shortName := false, enterOnPoll := false, properties := [("k", "v"), ("l", "w")] } ∧
    TraceArgs.parse tokenSyn reorderedTokens = TraceArgs.parse tokenSyn (queryTokens false) ∧
    TraceArgs.parse tokenSyn (queryTokens true) = .error "duplicate argument" := by
  obtain ⟨hiff, hperm, hseen⟩ := parse_eq_ok_iff tokenSyn
  refine ⟨(hiff _ _).2 ⟨queryArguments, [], queryArguments_wellFormed, queryTokens_written false, rfl, rfl⟩, ?_, ?_⟩
  · exact hperm queryArguments queryArguments.reverse _ _ [] [] queryArguments_wellFormed
      (List.reverse_perm _).symm (queryTokens_written false) rfl reorderedTokens_written rfl
  · exact hseen queryArguments _ "name" [.ident "name"] [] queryArguments_wellFormed (queryTokens_written true) rfl
      (by decide)

end Fastrace.Macro
