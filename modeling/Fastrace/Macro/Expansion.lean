import Fastrace.Macro.Arguments

/-!
# The expansion of `#[trace]`

`fastrace-macro/src/lib.rs`: the body of a function is put under a guard, or into a future that is instrumented.  A
function that ends with `Box::pin(async move { .. })` is taken for one that `async-trait` has written: the future is
instrumented, and what stands around it is left out of the expansion.

`trace_keeps_iff`: with the instrumentation taken out again the expansion reads as the function just when nothing stands
there, no attribute comes from inside the body, and its qualifiers are emitted in the order of the grammar.
-/

namespace Fastrace.Macro

/-! ### Functions -/

structure PathSegment where
  ident : String
  arguments : String
deriving DecidableEq, Repr

structure Path where
  leadingColon : Bool
  segments : List PathSegment
deriving DecidableEq, Repr

structure ExprPath where
  attrs : List String
  qself : Option String
  path : Path
deriving DecidableEq, Repr

mutual

/-- What the macro looks at of an expression; the rest is text. -/
inductive Expr where
  | path (path : ExprPath)
  | call (attrs : List String) (func : Expr) (args : List Expr)
  | async (attrs : List String) (capture : Bool) (block : List Stmt)
  | other (tokens : String)

inductive Stmt where
  | itemFn (asyncness : Bool) (ident : String) (tokens : String)
  | expr (e : Expr) (semi : Bool)
  | other (tokens : String)

end

/-- An attribute; the inner ones are written at the start of the body, and `syn` gives them with the others. -/
structure Attribute where
  inner : Bool
  tokens : String
deriving DecidableEq, Repr

structure Signature where
  constness : Bool
  asyncness : Bool
  unsafety : Bool
  abi : Option String
  ident : String
  genericParams : List String
  whereClause : Option String
  inputs : List String
  variadic : Option String
  output : Option String

structure ItemFn where
  attrs : List Attribute
  vis : String
  sig : Signature
  block : List Stmt

/-- What stands at the end of a block without a semicolon. -/
def Stmt.tail? : Stmt → Option Expr
  | .expr e false => some e
  | _ => none

/-- The name of an async function that is declared. -/
def Stmt.asyncFn? : Stmt → Option String
  | .itemFn true ident _ => some ident
  | _ => none

def Expr.call? : Expr → Option (Expr × List Expr)
  | .call _ func args => some (func, args)
  | _ => none

def Expr.path? : Expr → Option ExprPath
  | .path exprPath => some exprPath
  | _ => none

def pathToString (path : Path) : String := "::".intercalate (path.segments.map PathSegment.ident)

/-! ### The generated code -/

inductive SpanName where
  | literal (name : String)
  /-- `fastrace::func_path!()`. -/
  | funcPath
deriving DecidableEq, Repr

/-- The code that `gen_block` and `trace` generate around a block of the function. -/
inductive Instrumented where
  /-- `let __guard__ = LocalSpan::enter_with_local_parent(name).with_properties(..); { block }`. -/
  | guarded (name : SpanName) (properties : List (String × PropertyValue)) (block : List Stmt)
  /-- `FutureExt::in_span(async move { block }, Span::enter_with_local_parent(name).with_properties(..))`. -/
  | inSpan (name : SpanName) (properties : List (String × PropertyValue)) (block : List Stmt)
  /-- `FutureExt::enter_on_poll(async move { block }, name)`. -/
  | enterOnPoll (name : SpanName) (block : List Stmt)
  | await (future : Instrumented)
  | boxPin (attrs : List String) (future : Instrumented)

inductive Qualifier where
  | constness
  | unsafety
  | asyncness
deriving DecidableEq, Repr

/-- What is emitted, from left to right. -/
structure Expansion where
  attrs : List Attribute
  vis : String
  qualifiers : List Qualifier
  abi : Option String
  ident : String
  genParams : List String
  params : List String
  returnType : Option String
  whereClause : Option String
  funcBody : Instrumented

/-! ### The macro -/

def genName (funcName : String) (args : TraceArgs) : Except String SpanName :=
  match args.name with
  | some name =>
    if name = "" then .error "`name` can not be empty"
    else if args.shortName then .error "`name` and `short_name` can not be used together"
    else .ok (.literal name)
  | none => if args.shortName then .ok (.literal funcName) else .ok .funcPath

def genBlock (funcName : String) (block : List Stmt) (asyncContext asyncKeyword : Bool) (args : TraceArgs) :
    Except String Instrumented := do
  let name ← genName funcName args
  let properties ← genProperties args.toArgs
  if asyncContext then
    let future := if args.enterOnPoll then .enterOnPoll name block else .inSpan name properties block
    return if asyncKeyword then .await future else future
  else if args.enterOnPoll then
    throw "`enter_on_poll` can not be applied on non-async function"
  else
    return .guarded name properties block

inductive AsyncTraitKind where
  /-- `async fn foo(..) {..}; Box::pin(foo(..))`. -/
  | function
  /-- `Box::pin(async move {..})`. -/
  | async (attrs : List String) (block : List Stmt)

def endsWithBoxPin (path : Path) : Bool := "Box::pin".toList.isSuffixOf (pathToString path).toList

/-- What the first argument of `Box::pin` stands for: an async block that captures its environment, or a call of a
function that is declared inside. -/
def argKind (insideFuns : List String) : Expr → Option AsyncTraitKind
  | .async attrs capture block => if capture then some (.async attrs block) else none
  | .call _ func _ =>
    func.path?.bind fun path => if pathToString path.path ∈ insideFuns then some .function else none
  | _ => none

def getAsyncTraitInfo (block : List Stmt) (blockIsAsync : Bool) : Option AsyncTraitKind :=
  if blockIsAsync then none
  else do
    let insideFuns := block.filterMap Stmt.asyncFn?
    let lastExpr ← block.reverse.findSome? Stmt.tail?
    let call ← lastExpr.call?
    let path ← call.1.path?
    if endsWithBoxPin path.path then call.2.head?.bind (argKind insideFuns) else none

/-- The body of the expansion. -/
def funcBody (args : TraceArgs) (input : ItemFn) : Except String Instrumented :=
  match getAsyncTraitInfo input.block input.sig.asyncness with
  | some .function =>
    .error "not implemented: Please upgrade the crate `async-trait` to a version higher than 0.1.44"
  | some (.async attrs block) => (genBlock input.sig.ident block true false args).map (.boxPin attrs)
  | none => genBlock input.sig.ident input.block input.sig.asyncness input.sig.asyncness args

/-- The function with another body; the `...` of a variadic function is not passed on. -/
def expand (input : ItemFn) (funcBody : Instrumented) : Expansion where
  attrs := input.attrs
  vis := input.vis
  qualifiers := (if input.sig.constness then [.constness] else []) ++
    (if input.sig.unsafety then [.unsafety] else []) ++ (if input.sig.asyncness then [.asyncness] else [])
  abi := input.sig.abi
  ident := input.sig.ident
  genParams := input.sig.genericParams
  params := input.sig.inputs
  returnType := input.sig.output
  whereClause := input.sig.whereClause
  funcBody := funcBody

/-- `#[trace]`. -/
def trace (args : TraceArgs) (input : ItemFn) : Except String Expansion := (funcBody args input).map (expand input)

/-! ### What the expansion keeps -/

def boxPinPath : ExprPath := ⟨[], none, false, [⟨"Box", ""⟩, ⟨"pin", ""⟩]⟩

/-- The statements with the instrumentation taken out: `async move { block }.await` stands for the block. -/
def Instrumented.erase : Instrumented → List Stmt
  | .guarded _ _ block => block
  | .inSpan _ _ block => block
  | .enterOnPoll _ block => block
  | .await future => future.erase
  | .boxPin attrs future => [.expr (.call [] (.path boxPinPath) [.async attrs true future.erase]) false]

def takeQualifier (qualifier : Qualifier) : List Qualifier → Bool × List Qualifier
  | [] => (false, [])
  | q :: qualifiers => if q = qualifier then (true, qualifiers) else (false, q :: qualifiers)

/-- The function that is emitted, with the instrumentation taken out: by the grammar the attributes before a function
are outer ones, and `async` stands before what follows `const`. -/
def Expansion.itemFn? (expansion : Expansion) : Option ItemFn :=
  let (constness, qualifiers) := takeQualifier .constness expansion.qualifiers
  let (asyncness, qualifiers) := takeQualifier .asyncness qualifiers
  let (unsafety, qualifiers) := takeQualifier .unsafety qualifiers
  if qualifiers = [] ∧ ∀ attr ∈ expansion.attrs, attr.inner = false then
    some {
      attrs := expansion.attrs
      vis := expansion.vis
      sig := ⟨constness, asyncness, unsafety, expansion.abi, expansion.ident, expansion.genParams,
        expansion.whereClause, expansion.params, none, expansion.returnType⟩
      block := expansion.funcBody.erase }
  else none

/-- The last expression is a call of a path that ends in `Box::pin`; its first argument, and what stands around. -/
structure Pinned (block : List Stmt) (arg : Expr) where
  before : List Stmt
  attrs : List String
  path : ExprPath
  args : List Expr
  after : List Stmt
  block_eq : block = before ++ .expr (.call attrs (.path path) (arg :: args)) false :: after
  path_ends : endsWithBoxPin path.path = true
  last : ∀ stmt ∈ after, stmt.tail? = none

/-- Nothing but the call stands there, and it is one of `Box::pin` itself. -/
def Pinned.Bare {block : List Stmt} {arg : Expr} (p : Pinned block arg) : Prop :=
  p.before = [] ∧ p.attrs = [] ∧ p.path = boxPinPath ∧ p.args = [] ∧ p.after = []

/-- The arguments can be used for a body that is a future or is not. -/
structure Usable (args : TraceArgs) (future : Prop) : Prop where
  name : ∀ name, args.name = some name → name ≠ "" ∧ args.shortName = false
  properties : args.enterOnPoll = true → args.properties = []
  future : args.enterOnPoll = true → future

/-- The arguments can be used for the function: its body is a future if it is async or pins one. -/
def UsableFor (args : TraceArgs) (input : ItemFn) : Prop :=
  Usable args (input.sig.asyncness = true ∨ ∃ attrs block, Nonempty (Pinned input.block (.async attrs true block)))

section Tails

variable {block : List Stmt} {arg : Expr}

private theorem tail?_eq_some {stmt : Stmt} {e : Expr} : stmt.tail? = some e ↔ stmt = .expr e false := by
  unfold Stmt.tail?
  split <;> simp_all

private theorem call?_eq_some {e func : Expr} {args : List Expr} :
    e.call? = some (func, args) ↔ ∃ attrs, e = .call attrs func args := by
  unfold Expr.call?
  split <;> simp_all

private theorem path?_eq_some {e : Expr} {path : ExprPath} : e.path? = some path ↔ e = .path path := by
  unfold Expr.path?
  split <;> simp_all

private theorem argKind_eq_function {insideFuns : List String} : argKind insideFuns arg = some .function ↔
    ∃ attrs path args, arg = .call attrs (.path path) args ∧ pathToString path.path ∈ insideFuns := by
  cases arg with
  | call attrs func args =>
    rw [argKind]
    constructor
    · intro h
      obtain ⟨path, hpath, h⟩ := Option.bind_eq_some_iff.1 h
      split_ifs at h with hmem
      exact ⟨attrs, path, args, by rw [path?_eq_some.1 hpath], hmem⟩
    · rintro ⟨attrs', path, args', heq, hmem⟩
      cases heq
      exact if_pos hmem
  | async attrs capture block => cases capture <;> simp [argKind]
  | _ => simp [argKind]

private theorem argKind_eq_async {insideFuns attrs : List String} {inner : List Stmt} :
    argKind insideFuns arg = some (.async attrs inner) ↔ arg = .async attrs true inner := by
  cases arg with
  | call attrs' func args =>
    rw [argKind]
    refine iff_of_false (fun h => ?_) (fun h => by cases h)
    obtain ⟨path, -, h⟩ := Option.bind_eq_some_iff.1 h
    split_ifs at h
    cases h
  | async attrs' capture block => cases capture <;> simp [argKind]
  | _ => simp [argKind]

/-- The last expression of a block is the last statement that is one without a semicolon. -/
private theorem lastExpr_eq_some {e : Expr} : block.reverse.findSome? Stmt.tail? = some e ↔
    ∃ before after, block = before ++ .expr e false :: after ∧ ∀ stmt ∈ after, stmt.tail? = none := by
  rw [List.findSome?_eq_some_iff]
  constructor
  · rintro ⟨after, stmt, before, hblock, hstmt, hafter⟩
    rw [tail?_eq_some.1 hstmt] at hblock
    refine ⟨before.reverse, after.reverse, ?_, fun stmt hstmt => hafter stmt (List.mem_reverse.1 hstmt)⟩
    rw [← List.reverse_reverse block, hblock]
    simp
  · rintro ⟨before, after, rfl, hafter⟩
    exact ⟨after.reverse, .expr e false, before.reverse, by simp, rfl,
      fun stmt hstmt => hafter stmt (List.mem_reverse.1 hstmt)⟩

private theorem getAsyncTraitInfo_eq_some {kind : AsyncTraitKind} : getAsyncTraitInfo block false = some kind ↔
    ∃ arg, Nonempty (Pinned block arg) ∧ argKind (block.filterMap Stmt.asyncFn?) arg = some kind := by
  unfold getAsyncTraitInfo
  rw [if_neg Bool.false_ne_true]
  constructor
  · intro h
    obtain ⟨e, he, h⟩ := Option.bind_eq_some_iff.1 h
    obtain ⟨⟨func, args⟩, hcall, h⟩ := Option.bind_eq_some_iff.1 h
    obtain ⟨path, hpath, h⟩ := Option.bind_eq_some_iff.1 h
    split_ifs at h with hends
    obtain ⟨arg, harg, hkind⟩ := Option.bind_eq_some_iff.1 h
    obtain ⟨before, after, hblock, hafter⟩ := lastExpr_eq_some.1 he
    obtain ⟨attrs, rfl⟩ := call?_eq_some.1 hcall
    have hfunc : func = .path path := path?_eq_some.1 hpath
    rw [hfunc] at hblock
    obtain ⟨args, rfl⟩ := List.head?_eq_some_iff.1 harg
    exact ⟨arg, ⟨⟨before, attrs, path, args, after, hblock, hends, hafter⟩⟩, hkind⟩
  · rintro ⟨arg, ⟨p⟩, hkind⟩
    refine Option.bind_eq_some_iff.2 ⟨_, lastExpr_eq_some.2 ⟨_, _, p.block_eq, p.last⟩, ?_⟩
    refine Option.bind_eq_some_iff.2 ⟨_, rfl, Option.bind_eq_some_iff.2 ⟨p.path, rfl, ?_⟩⟩
    rw [if_pos p.path_ends]
    exact hkind

end Tails

/-! ### When the body is kept -/

/-- Nothing around a future that is pinned is left out, and the future is not that of a function declared inside. -/
def Kept (input : ItemFn) : Prop :=
  input.sig.asyncness = false → ∀ arg (p : Pinned input.block arg),
    (∀ attrs block, arg = .async attrs true block → p.Bare) ∧
      ∀ attrs path args, arg = .call attrs (.path path) args →
        pathToString path.path ∉ input.block.filterMap Stmt.asyncFn?

section Expand

variable {funcName : String} {block : List Stmt} {future keyword : Bool} {args : TraceArgs} {body : Instrumented}

private theorem genName_isOk : (∃ name, genName funcName args = .ok name) ↔
    ∀ name, args.name = some name → name ≠ "" ∧ args.shortName = false := by
  unfold genName
  cases args.name with
  | none => cases args.shortName <;> simp
  | some name => by_cases hname : name = "" <;> cases args.shortName <;> simp [hname]

private theorem genProperties_isOk : (∃ properties, genProperties args.toArgs = .ok properties) ↔
    (args.enterOnPoll = true → args.properties = []) := by
  unfold genProperties
  by_cases hempty : args.properties = []
  · simp [hempty]
  · cases args.enterOnPoll <;> simp [hempty]

private theorem genBlock_eq_ok : genBlock funcName block future keyword args = .ok body ↔
    ∃ name, genName funcName args = .ok name ∧ ∃ properties, genProperties args.toArgs = .ok properties ∧
      (future = false → args.enterOnPoll = false) ∧
      body = if future then
          let body := if args.enterOnPoll then .enterOnPoll name block else .inSpan name properties block
          if keyword then .await body else body
        else .guarded name properties block := by
  unfold genBlock
  simp only [except_bind_eq_ok]
  refine exists_congr fun name => and_congr_right fun _ => exists_congr fun properties => and_congr_right fun _ => ?_
  cases future <;> cases args.enterOnPoll <;> simp [pure, Except.pure, throw, throwThe, MonadExceptOf.throw, eq_comm]

/-- A block is instrumented just when the arguments can be used for it. -/
private theorem genBlock_isOk : (∃ body, genBlock funcName block future keyword args = .ok body) ↔
    Usable args (future = true) := by
  simp only [genBlock_eq_ok]
  constructor
  · rintro ⟨body, name, hname, properties, hproperties, hpoll, -⟩
    refine ⟨genName_isOk.1 ⟨name, hname⟩, genProperties_isOk.1 ⟨properties, hproperties⟩, fun htrue => ?_⟩
    by_contra hfuture
    rw [hpoll (Bool.eq_false_iff.2 hfuture)] at htrue
    cases htrue
  · intro h
    obtain ⟨name, hname⟩ := genName_isOk.2 h.name
    obtain ⟨properties, hproperties⟩ := genProperties_isOk.2 h.properties
    refine ⟨_, name, hname, properties, hproperties, fun hfalse => ?_, rfl⟩
    by_contra hpoll
    rw [h.future (Bool.ne_false_iff.1 hpoll)] at hfalse
    cases hfalse

private theorem erase_of_genBlock (h : genBlock funcName block future keyword args = .ok body) :
    body.erase = block := by
  obtain ⟨name, -, properties, -, -, rfl⟩ := genBlock_eq_ok.1 h
  cases future <;> cases args.enterOnPoll <;> cases keyword <;> rfl

private theorem Pinned.unique {arg arg' : Expr} (p : Pinned block arg) (p' : Pinned block arg') : arg = arg' := by
  have h := lastExpr_eq_some.2 ⟨_, _, p.block_eq, p.last⟩
  rw [lastExpr_eq_some.2 ⟨_, _, p'.block_eq, p'.last⟩] at h
  simp only [Option.some.injEq, Expr.call.injEq, List.cons.injEq] at h
  exact h.2.2.1.symm

private theorem Pinned.bare_iff {arg : Expr} (p : Pinned block arg) :
    p.Bare ↔ block = [.expr (.call [] (.path boxPinPath) [arg]) false] := by
  constructor
  · rintro ⟨hbefore, hattrs, hpath, hargs, hafter⟩
    rw [p.block_eq, hbefore, hattrs, hpath, hargs, hafter]
    rfl
  · intro h
    have heq := p.block_eq.symm.trans h
    have hlength := congrArg List.length heq
    simp only [List.length_append, List.length_cons, List.length_nil] at hlength
    have hbefore : p.before = [] := List.length_eq_zero_iff.1 (by omega)
    have hafter : p.after = [] := List.length_eq_zero_iff.1 (by omega)
    rw [hbefore, hafter, List.nil_append] at heq
    simp only [List.cons.injEq, Stmt.expr.injEq, Expr.call.injEq, Expr.path.injEq, and_true, true_and] at heq
    exact ⟨hbefore, heq.1, heq.2.1, heq.2.2, hafter⟩

/-- What can be read of the emitted code. -/
private theorem itemFn?_expand {input : ItemFn} : (expand input body).itemFn? = some input ↔ body.erase = input.block ∧
    (∀ attr ∈ input.attrs, attr.inner = false) ∧ ¬(input.sig.asyncness = true ∧ input.sig.unsafety = true) ∧
      input.sig.variadic = none := by
  obtain ⟨attrs, vis, sig, block⟩ := input
  obtain ⟨constness, asyncness, unsafety, abi, ident, genericParams, whereClause, inputs, variadic, output⟩ := sig
  have hswap : ∀ p q r : Prop, q ∧ r ∧ p ↔ p ∧ q ∧ r := fun p q r => by tauto
  -- `unsafe async` is the one order that is not read
  cases constness <;> cases asyncness <;> cases unsafety <;>
    simp [expand, Expansion.itemFn?, takeQualifier, hswap, eq_comm (a := none)]

private theorem trace_eq_ok {input : ItemFn} :
    (∃ expansion, trace args input = .ok expansion ∧ expansion.itemFn? = some input) ↔
      (∃ body, funcBody args input = .ok body ∧ body.erase = input.block) ∧
        (∀ attr ∈ input.attrs, attr.inner = false) ∧ ¬(input.sig.asyncness = true ∧ input.sig.unsafety = true) ∧
          input.sig.variadic = none := by
  constructor
  · rintro ⟨expansion, h, hitem⟩
    obtain ⟨body, hbody, rfl⟩ := map_eq_ok.1 h
    obtain ⟨herase, hread⟩ := itemFn?_expand.1 hitem
    exact ⟨⟨body, hbody, herase⟩, hread⟩
  · rintro ⟨⟨body, hbody, herase⟩, hread⟩
    exact ⟨expand input body, map_eq_ok.2 ⟨body, hbody, rfl⟩, itemFn?_expand.2 ⟨herase, hread⟩⟩

section Body

variable {input : ItemFn}

/-- The body of an async function is taken whole. -/
private theorem async_keeps_iff (hasync : input.sig.asyncness = true) :
    (∃ body, funcBody args input = .ok body ∧ body.erase = input.block) ↔ Kept input ∧ UsableFor args input := by
  have hkept : Kept input := fun hfalse => by rw [hasync] at hfalse; cases hfalse
  unfold funcBody
  rw [hasync, show getAsyncTraitInfo input.block true = none from rfl]
  constructor
  · rintro ⟨body, hbody, -⟩
    have husable := genBlock_isOk.1 ⟨body, hbody⟩
    exact ⟨hkept, husable.name, husable.properties, fun _ => Or.inl hasync⟩
  · rintro ⟨-, husable⟩
    obtain ⟨body, hbody⟩ := genBlock_isOk.2 (⟨husable.name, husable.properties, fun _ => rfl⟩ : Usable args _)
    exact ⟨body, hbody, erase_of_genBlock hbody⟩

/-- And so is that of any other function, when nothing is pinned at its end. -/
private theorem plain_keeps_iff (hasync : input.sig.asyncness = false)
    (hinfo : getAsyncTraitInfo input.block false = none) :
    (∃ body, funcBody args input = .ok body ∧ body.erase = input.block) ↔ Kept input ∧ UsableFor args input := by
  have hno : ∀ arg, Nonempty (Pinned input.block arg) →
      ∀ kind, argKind (input.block.filterMap Stmt.asyncFn?) arg ≠ some kind := by
    intro arg p kind hkind
    rw [getAsyncTraitInfo_eq_some.2 ⟨arg, p, hkind⟩] at hinfo
    cases hinfo
  have hkept : Kept input := by
    refine fun _ arg p => ⟨fun attrs block harg => ?_, fun attrs path args harg hmem => ?_⟩
    · exact absurd (argKind_eq_async.2 harg) (hno arg ⟨p⟩ _)
    · exact absurd (argKind_eq_function.2 ⟨attrs, path, args, harg, hmem⟩) (hno arg ⟨p⟩ _)
  unfold funcBody
  rw [hasync, hinfo]
  constructor
  · rintro ⟨body, hbody, -⟩
    have husable := genBlock_isOk.1 ⟨body, hbody⟩
    exact ⟨hkept, husable.name, husable.properties, fun hpoll => absurd (husable.future hpoll) Bool.false_ne_true⟩
  · rintro ⟨-, husable⟩
    have hfuture : args.enterOnPoll = true → false = true := by
      intro hpoll
      rcases husable.future hpoll with htrue | ⟨attrs, block, p⟩
      · exact hasync.symm.trans htrue
      · exact absurd (argKind_eq_async.2 rfl) (hno _ p _)
    obtain ⟨body, hbody⟩ := genBlock_isOk.2 (⟨husable.name, husable.properties, hfuture⟩ : Usable args _)
    exact ⟨body, hbody, erase_of_genBlock hbody⟩

/-- What is left of a function that pins a future is the call of `Box::pin`. -/
private theorem pinned_keeps_iff (hasync : input.sig.asyncness = false) {kind : AsyncTraitKind}
    (hinfo : getAsyncTraitInfo input.block false = some kind) :
    (∃ body, funcBody args input = .ok body ∧ body.erase = input.block) ↔ Kept input ∧ UsableFor args input := by
  obtain ⟨arg, ⟨p⟩, hkind⟩ := getAsyncTraitInfo_eq_some.1 hinfo
  unfold funcBody
  rw [hasync, hinfo]
  cases kind with
  | function =>
    obtain ⟨attrs, path, args', harg, hmem⟩ := argKind_eq_function.1 hkind
    refine iff_of_false ?_ fun h => ((h.1 hasync arg p).2 attrs path args' harg) hmem
    rintro ⟨body, hbody, -⟩
    cases hbody
  | async attrs block =>
    have harg := argKind_eq_async.1 hkind
    subst harg
    constructor
    · rintro ⟨body, hbody, herase⟩
      obtain ⟨future, hfuture, rfl⟩ := map_eq_ok.1 hbody
      have husable := genBlock_isOk.1 ⟨future, hfuture⟩
      rw [Instrumented.erase, erase_of_genBlock hfuture] at herase
      refine ⟨fun _ arg' p' => ?_, husable.name, husable.properties, fun _ => Or.inr ⟨attrs, block, ⟨p⟩⟩⟩
      obtain rfl := p.unique p'
      exact ⟨fun _ _ _ => p'.bare_iff.2 herase.symm, fun _ _ _ heq => by cases heq⟩
    · rintro ⟨hkept, husable⟩
      obtain ⟨future, hfuture⟩ := genBlock_isOk.2 (⟨husable.name, husable.properties, fun _ => rfl⟩ : Usable args _)
      refine ⟨.boxPin attrs future, map_eq_ok.2 ⟨future, hfuture, rfl⟩, ?_⟩
      rw [Instrumented.erase, erase_of_genBlock hfuture]
      exact (p.bare_iff.1 ((hkept hasync _ p).1 attrs block rfl)).symm

/-- The body is kept just when the arguments can be used and the function does not end with a call of `Box::pin`
around which something would be left out. -/
private theorem funcBody_keeps_iff :
    (∃ body, funcBody args input = .ok body ∧ body.erase = input.block) ↔ Kept input ∧ UsableFor args input := by
  cases hasync : input.sig.asyncness with
  | true => exact async_keeps_iff hasync
  | false =>
    cases hinfo : getAsyncTraitInfo input.block false with
    | none => exact plain_keeps_iff hasync hinfo
    | some kind => exact pinned_keeps_iff hasync hinfo

end Body

end Expand

/-- An expansion exists and reads as the function, with the instrumentation taken out, just when the arguments can be
used, the function does not end with a call of `Box::pin` around which something would be left out, its attributes stand
before it, it is not both `async` and `unsafe`, and it has no `...`. -/
theorem trace_keeps_iff (args : TraceArgs) (input : ItemFn) :
    (∃ expansion, trace args input = .ok expansion ∧ expansion.itemFn? = some input) ↔
      Kept input ∧ UsableFor args input ∧ (∀ attr ∈ input.attrs, attr.inner = false) ∧
        ¬(input.sig.asyncness = true ∧ input.sig.unsafety = true) ∧ input.sig.variadic = none := by
  rw [trace_eq_ok, funcBody_keeps_iff, and_assoc]

/-- A function that logs and pins a future. -/
def pinning : ItemFn where
  attrs := []
  vis := "pub"
  sig := ⟨false, false, false, none, "work", [], none, ["x: u32"], none, some "BoxFuture<u32>"⟩
  block := [.other "info!(\"called\");", .expr (.call [] (.path boxPinPath) [.async [] true [.other "x"]]) false]

/-- The log is gone. -/
example : ∃ expansion, trace TraceArgs.empty pinning = .ok expansion ∧
    expansion.funcBody = .boxPin [] (.inSpan .funcPath [] [.other "x"]) := ⟨_, rfl, rfl⟩

end Fastrace.Macro
