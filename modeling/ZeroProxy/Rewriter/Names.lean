import ZeroProxy.Text.Search
import ZeroProxy.Rewriter.Syntax

/-!
# Names and the state of the visitor

The names that are routed through the membrane, the names of the runtime itself, which a program
may neither bind nor write, and the names that a list of statements declares, so that a reference
that comes before its declaration counts as bound; then what the rewriter makes of a program.

The rewriter walks a syntax tree and collects patches. What every method of the
visitor puts back on its way out is a context (`Ctx`) that is handed down; what lives
on is its state (`Visitor`). The operations on the state that do not walk are here.
-/

namespace ZeroProxy.Rewriter

/-! ## Dangerous names -/

/-- Names that must not be read as free identifiers. -/
def dangerousGlobals : List Text := ["location", "window", "document", "history", "top", "parent",
    "opener", "frames", "frameElement", "self", "globalThis", "navigation", "Function", "eval"]

/-- Names that must not be read as members of any object. -/
def dangerousMembers : List Text := ["location", "document", "window", "self", "globalThis",
    "contentWindow", "contentDocument", "defaultView", "frameElement", "parent", "top", "opener",
    "frames", "href", "protocol", "host", "hostname", "port", "pathname", "search", "hash",
    "origin", "navigation", "prepareStackTrace"]

/-- Names that must not be called as methods of any object. -/
def dangerousMethods : List Text := ["assign", "replace", "open", "postMessage", "pushState",
    "replaceState"]

/-- The members that are routed on a local receiver too. -/
def urlShapeMembers : List Text := ["href", "protocol", "host", "hostname", "port", "pathname",
    "search", "hash", "origin", "location", "top", "parent", "opener", "frameElement", "window",
    "self", "globalThis", "frames", "document", "defaultView", "contentWindow", "contentDocument",
    "prepareStackTrace"]

def isDangerousGlobal (name : Text) : Bool := dangerousGlobals.contains name

def isDangerousMember (name : Text) : Bool := dangerousMembers.contains name

def isDangerousMethod (name : Text) : Bool := dangerousMethods.contains name

/-! ## Operators -/

def assignmentOperatorStr : AssignmentOperator → Option Text
  | .assign => none
  | .addition => some "+="
  | .subtraction => some "-="
  | .multiplication => some "*="
  | .division => some "/="
  | .remainder => some "%="
  | .exponential => some "**="
  | .shiftLeft => some "<<="
  | .shiftRight => some ">>="
  | .shiftRightZeroFill => some ">>>="
  | .bitwiseAnd => some "&="
  | .bitwiseOR => some "|="
  | .bitwiseXOR => some "^="
  | .logicalAnd => some "&&="
  | .logicalOr => some "||="
  | .logicalNullish => some "??="

/-- The operators that may leave their right-hand side unevaluated. -/
def isLogicalAssignment : AssignmentOperator → Bool
  | .logicalAnd | .logicalOr | .logicalNullish => true
  | _ => false

/-! ## The names of the runtime -/

/-- The helpers that rewritten code calls as free identifiers. -/
def runtimeHelpers : List Text :=
  ["__zp_get", "__zp_set", "__zp_call", "__zp_this", "__zp_assign".toList, "__zp_update",
    "__zp_delete", "__zp_eval", "__zp_has".toList, "__zp_oget", "__zp_ocall", "__zp_ocallv",
    "__zp_ochain".toList, "__zp_odelete", "__zp_okeys", "__zp_rget", "__zp_rset".toList,
    "__zp_ownKeys", "__zp_getOwnPropertyDescriptor", "__zp_getOwnPropertyDescriptors",
    "__zp_getOwnPropertyNames".toList, "__zp_module_url", "__zp_with_get", "__zp_with_set",
    "__zp_with_assign".toList, "__zp_with_update", "__zp_with_delete", "__zp_with_d",
    "__zp_lex_decl".toList, "__zp_lex_bind", "__zp_export_vars", "__zp_fast", "__zp_fastset"]

def isRuntimeHelper (name : Text) : Bool := runtimeHelpers.contains name

/-- The text before the first `c` and the text after it. -/
def splitOnce (c : Char) (s : Text) : Option (Text × Text) :=
  match s.dropWhile (· != c) with
  | [] => none
  | _ :: rest => some (s.takeWhile (· != c), rest)

/-- The name of a temporary: `tag_n`. -/
def isTempName (rest : Text) : Bool :=
  match splitOnce '_' rest with
  | some (tag, n) =>
    ["w".toList, "lc", "lbl", "vdcl", "dp", "sk",
      "t"].contains tag && !n.isEmpty && n.all Text.isAsciiDigit
  | none => false

/-- A name the page may not bind or write. -/
def isReservedName (name : Text) : Bool :=
  match Text.stripPrefix "__zp_" name with
  | some rest =>
    !(["bad".toList, "oc", "dynamic__", "dyn__", "inner__",
      "scope", "args", "self", "env", "src"].contains rest)
      && !isTempName rest
  | none => "__ZP_".toList.isPrefixOf name

/-! ## The helper prefix -/

/-- A helper, bound by its own name in an object pattern. -/
def isHelperProperty : Node → Bool
  | .mk ⟨.bindingProperty true false, _⟩
      [.mk ⟨.identifierName _, _⟩ [], .mk ⟨.bindingIdentifier name, _⟩ []] => isRuntimeHelper name
  | _ => false

/-- `function(){return this}`, in parentheses. -/
def isThisFunction : Node → Bool
  | .mk ⟨.parenthesizedExpression, _⟩ [e] => isThisFunction e
  | .mk ⟨.functionLike ⟨_, false, true⟩, _⟩ [.mk ⟨.absent, _⟩ [], .mk ⟨.formalParameters, _⟩ [],
      .mk ⟨.functionBody none, _⟩ [.mk ⟨.returnStatement, _⟩ [.mk ⟨.thisExpression, _⟩ []]]] => true
  | _ => false

/-- `const{__zp_get,…}=(function(){return this})();`, as the rewriter writes it at the
    head of a `with` body. -/
def isHelperPrefixDeclaration : Node → Bool
  | .mk ⟨.variableDeclaration .const, _⟩ [.mk ⟨.variableDeclarator, _⟩
      [.mk ⟨.objectPattern, _⟩ (p :: ps), .mk ⟨.callExpression false, _⟩ [callee]]] =>
    (p :: ps).all isHelperProperty && isThisFunction callee
  | _ => false

/-! ## Refusal -/

mutual

/-- The names a program binds or writes, in the order in which they are met. A
    reference counts where it is the target of a write. -/
def claimedNames (target : Bool) : Node → List Text
  | .mk ⟨form, sp⟩ cs =>
    match form, cs with
    | .bindingIdentifier name, [] => [name]
    | .identifierReference name, [] => if target then [name] else []
    | .variableDeclaration kind, cs =>
      if isHelperPrefixDeclaration (.mk ⟨.variableDeclaration kind, sp⟩ cs) then []
      else claimedNamesList false cs
    | .assignmentExpression _, [t, right] => claimedNames true t ++ claimedNames false right
    | .updateExpression _ _, [t] => claimedNames true t
    | .forIterStatement _, [.mk ⟨.variableDeclaration kind, dsp⟩ ds, right, body] =>
      claimedNames false (.mk ⟨.variableDeclaration kind, dsp⟩ ds) ++ claimedNames false right ++
        claimedNames false body
    | .forIterStatement _, [left, right, body] =>
      claimedNames true left ++ claimedNames false right ++ claimedNames false body
    | .targetPropertyIdentifier, [i, init] => claimedNames true i ++ claimedNames false init
    | .targetPropertyProperty _, [key, t] => claimedNames false key ++ claimedNames true t
    | .targetWithDefault, [t, init] => claimedNames true t ++ claimedNames false init
    | .targetRest, cs => claimedNamesList true cs
    | .arrayAssignmentTarget, cs => claimedNamesList true cs
    | .objectAssignmentTarget, cs => claimedNamesList true cs
    | _, cs => claimedNamesList false cs

/-- The names the nodes of a list bind or write. -/
def claimedNamesList (target : Bool) : List Node → List Text
  | [] => []
  | n :: ns => claimedNames target n ++ claimedNamesList target ns

end

/-- The first reserved name that a program binds or writes. -/
def reservedNameViolation (program : Node) : Option Text :=
  (claimedNames false program).find? isReservedName

/-! ## Patterns -/

mutual

def bindingIdents : Node → List Ident
  | .mk ⟨form, sp⟩ cs =>
    match form, cs with
    | .bindingIdentifier name, [] => [⟨name, sp⟩]
    | .objectPattern, cs => bindingIdentsList cs
    | .bindingProperty _ _, [_, value] => bindingIdents value
    | .arrayPattern, cs => bindingIdentsList cs
    | .assignmentPattern, left :: _ => bindingIdents left
    | .bindingRest, cs => bindingIdentsList cs
    | _, _ => []

def bindingIdentsList : List Node → List Ident
  | [] => []
  | n :: ns => bindingIdents n ++ bindingIdentsList ns

end

def collectBindingPattern (pattern : Node) : List Text := (bindingIdents pattern).map Ident.name

def declaratorId : Node → List Node
  | .mk ⟨.variableDeclarator, _⟩ (id :: _) => [id]
  | _ => []

def declaredIdents (declarators : List Node) : List Ident :=
  (declarators.flatMap declaratorId).flatMap bindingIdents

/-- The parameters of a function up to its rest parameter. -/
def paramItems : Node → List Node
  | .mk ⟨.formalParameters, _⟩ items => items.filter fun p => Node.form p != .bindingRest
  | _ => []

def bodyStatements : Node → List Node
  | .mk ⟨.functionBody _, _⟩ stmts => stmts
  | _ => []

/-! ## Scopes -/

/-- How a name is declared. -/
inductive BindCat where
  | varLike
  | lexical
  deriving DecidableEq

def VariableDeclarationKind.cat : VariableDeclarationKind → BindCat
  | .var => .varLike
  | _ => .lexical

/-- Names with the category they are declared in. -/
def withCat (cat : BindCat) (ids : List Ident) : List (Text × BindCat) :=
  ids.map fun i => (i.name, cat)

/-- The `var` names of the head of a loop. -/
def headVarNames : Node → List (Text × BindCat)
  | .mk ⟨.variableDeclaration .var, _⟩ ds => withCat .varLike (declaredIdents ds)
  | _ => []

def exportedNames : Node → List (Text × BindCat)
  | .mk ⟨.variableDeclaration _, _⟩ ds => withCat .lexical (declaredIdents ds)
  | .mk ⟨.functionLike _, _⟩ (id :: _) => withCat .lexical (bindingIdents id)
  | .mk ⟨.classLike _, _⟩ (id :: _) => withCat .lexical (bindingIdents id)
  | _ => []

mutual

/-- The names one statement declares in the scope being collected. `topLevel`: the
    statement belongs to the list itself; a nested one only gives the names that hoist
    out of it. -/
def collectOne (topLevel fnLike sloppy : Bool) : Node → List (Text × BindCat)
  | .mk ⟨form, _⟩ cs =>
    match form, cs with
    | .variableDeclaration kind, ds =>
      if kind.cat == .varLike || topLevel then withCat kind.cat (declaredIdents ds) else []
    | .functionLike _, id :: _ =>
      if topLevel then withCat (if fnLike then .varLike else .lexical) (bindingIdents id)
      else if sloppy then withCat .varLike (bindingIdents id)
      else []
    | .classLike _, id :: _ => if topLevel then withCat .lexical (bindingIdents id) else []
    | .importDeclaration, cs => if topLevel then withCat .lexical (cs.flatMap bindingIdents) else []
    | .exportNamedDeclaration, declaration :: _ => exportedNames declaration
    | .exportDefaultDeclaration, [.mk ⟨.functionLike _, _⟩ (id :: _)] =>
      withCat .lexical (bindingIdents id)
    | .blockStatement, cs => collectList false fnLike sloppy cs
    | .ifStatement, [_, consequent, alternate] =>
      collectOne false fnLike sloppy consequent ++ collectOne false fnLike sloppy alternate
    | .forStatement, [init, _, _, body] => headVarNames init ++ collectOne false fnLike sloppy body
    | .forIterStatement _, [left, _, body] =>
      headVarNames left ++ collectOne false fnLike sloppy body
    | .whileStatement, [_, body] => collectOne false fnLike sloppy body
    | .doWhileStatement, [body, _] => collectOne false fnLike sloppy body
    | .tryStatement, [block, handler, finalizer] =>
      collectOne false fnLike sloppy block ++ collectOne false fnLike sloppy handler ++
        collectOne false fnLike sloppy finalizer
    | .catchClause, [_, body] => collectOne false fnLike sloppy body
    | .switchStatement, _ :: cases => collectList false fnLike sloppy cases
    | .switchCase, _ :: stmts => collectList false fnLike sloppy stmts
    | .labeledStatement _, [body] => collectOne false fnLike sloppy body
    | _, _ => []

def collectList (topLevel fnLike sloppy : Bool) : List Node → List (Text × BindCat)
  | [] => []
  | n :: ns => collectOne topLevel fnLike sloppy n ++ collectList topLevel fnLike sloppy ns

end

/-- The names a list of statements declares in its scope. `fnLike`: the list is that of a
    program or a function body, where a function declaration counts as a `var`. In
    `sloppy` mode the function declarations of nested statements count as `var` too. -/
def collectScopeDeclNames (stmts : List Node) (fnLike sloppy : Bool) : List (Text × BindCat) :=
  collectList true fnLike sloppy stmts

/-! ## Patches

A patch replaces a span of the source. What it is replaced by is a *marker*: the rewriter records
the spans of the operands, and the text is rendered later, with the patches inside the operands
applied. Replacements that are plain text are markers too, with the data their text is made of. -/

/-- The key of a method call in an optional chain. -/
inductive ChainKey where
  | name (name : Text)
  | expr (span : Span)
  deriving DecidableEq

/-- A `?.` of an optional chain. -/
inductive ChainSplit where
  /-- `base?.p`, `base?.[k]`, `base?.#p`. -/
  | member (baseEnd : Nat)
  /-- `callee?.(args)` with a callee that is not a member access. -/
  | plain (calleeEnd : Nat)
  /-- `obj.p?.(args)`, `obj[k]?.(args)`. -/
  | method (objEnd : Nat) (key : ChainKey) (calleeEnd : Nat) (call : Span)
  deriving DecidableEq

def ChainSplit.baseEnd : ChainSplit → Nat
  | member e => e
  | plain e => e
  | method _ _ e _ => e

/-- What a span of the source is replaced by. `temps` are the objects of the `with`
    statements around the place, outermost first. -/
inductive Marker where
  -- Identifiers.
  | globalGet (name : Text)
  | shorthandGlobalGet (name : Text)
  | withGet (temps : List Text) (name : Text)
  | shorthandWithGet (temps : List Text) (name : Text)
  | globalTarget (name : Text)
  | wtref (stmt : Bool) (temps : List Text) (name : Text)
  | globalDestr (name : Text) (temps : List Text)
  | globalSet (name : Text) (value : Span)
  | globalAssign (name op : Text) (value : Span) (logical : Bool)
  | withSet (name : Text) (value : Span) (temps : List Text)
  | withAssign (name op : Text) (value : Span) (logical : Bool) (temps : List Text)
  | globalUpdate (name op : Text) (pre : Bool)
  | withUpdate (temps : List Text) (name op : Text) (pre : Bool)
  | globalDelete (temps : List Text) (name : Text)
  -- Declarations.
  | rename (temp : Text)
  | renameKey (name temp : Text)
  | varSet (temp name : Text) (value : Span)
  | varWset (temp name : Text) (value : Span) (temps : List Text)
  | sinks (sink : Text) (sets : List (Text × Text)) (temps : List Text)
  | iterSinks (braced : Bool) (sets : List (Text × Text)) (temps : List Text)
  | hoistVars (names : List Text)
  | lexDecl (names : List (Text × Text)) (varlikes vars functions : List Text)
  | lexBind (names : List (Text × Text))
  -- Members and calls.
  | thisMap
  | memberGet (obj : Span) (prop : Text)
  | memberRef (stmt : Bool) (obj : Span) (prop : Text)
  | memberSet (obj : Span) (prop : Text) (value : Span)
  | memberA (stmt : Bool) (obj : Span) (prop op : Text) (value : Span) (logical : Bool)
  | cget (obj key : Span) (group : Nat) (stmt : Bool)
  | cset (obj key value : Span) (group : Nat) (stmt : Bool)
  | cassign (stmt : Bool) (obj key : Span) (op : Text) (value : Span) (logical : Bool)
  | cref (stmt : Bool) (obj key : Span)
  | oget (obj : Span) (key : ChainKey)
  | methodCall (obj : Span) (method : Text) (args : Option Span)
  | ccall (obj key : Span) (args : Option Span) (group : Nat) (stmt : Bool)
  | ocall (obj : Span) (flags : Nat) (key : ChainKey) (args : Option Span)
  | deval (args : Option Span) (strict globalSite : Bool) (desc : List Text) (arguments : Bool)
  | ochain (chain : Span) (splits : List ChainSplit)
  | rget (obj key : Span) (receiver : Option Span)
  | rset (obj key value : Span) (receiver : Option Span)
  | gopd (obj key : Span)
  | gopds (obj : Span)
  | gown (obj : Span)
  | okeys (obj : Span)
  | rhas (obj key : Span)
  | rowk (obj : Span)
  | cdele (obj key : Span) (optional : Bool)
  | sdele (obj : Span) (prop : Text) (optional : Bool)
  -- Modules.
  | moduleUrl (source : Span) (target : Text)
  | moduleSpecifier (url : Text)
  | importMetaUrl (target : Text)
  | importMetaResolve (target : Text)
  -- Statements.
  | withOpen (temp : Text)
  | withObj (temp : Text) (obj : Span)
  | helperPrefix (braced : Bool)
  | closeBrace
  | guardTemps (groups : Nat)
  | loopHeader (id : Nat)
  | loopPrefix (wrap : Bool) (id : Nat) (label : Option Text)
  | capTest (id : Nat)
  | forCap (id : Nat) (region : Span)
  | label (name : Text)
  | reservedName (name : Text)
  deriving DecidableEq

/-- A patch: replace the text in `span`. -/
structure Patch where
  span : Span
  marker : Marker
  deriving DecidableEq

/-! ## Statement forms -/

/-- The form of a marker at the head of an expression statement, where a leading `(` would
    continue the line before. `outer`: no other patch of the statement is around it. -/
def Marker.atStatement (outer : Bool) : Marker → Marker
  | .cget obj key group s => .cget obj key group (s || outer)
  | .cset obj key value group s => .cset obj key value group (s || outer)
  | .ccall obj key args group s => .ccall obj key args group (s || outer)
  | .memberRef _ obj prop => .memberRef true obj prop
  | .cref _ obj key => .cref true obj key
  | .wtref _ temps name => .wtref true temps name
  | .memberA _ obj prop op value logical => .memberA true obj prop op value logical
  | .cassign _ obj key op value logical => .cassign true obj key op value logical
  | m => m

/-- What the rewriter gets from elsewhere. -/
structure Deps where
  /-- The statements of a sloppy script, when it parses. -/
  parse : Text → Option (List Node)
  /-- The address a module specifier is replaced by, unless it is left alone. -/
  moduleSpecifier : Text → Option Text

/-- Where the visitor is. -/
structure Ctx where
  kind : ScriptKind
  targetUrl : Text
  /-- Top-level `this` belongs to the caller of the `eval`. -/
  localThis : Bool
  /-- The number of functions around the place, arrow functions included. -/
  fnDepth : Nat
  /-- The number of functions around the place, arrow functions not included. -/
  ntDepth : Nat
  classDepth : Nat
  /-- Positive in an assignment target. -/
  inTarget : Nat
  /-- The objects of the `with` statements around the place, outermost first. -/
  withTemps : List Text
  /-- Positive in a body that is a statement without braces. -/
  unbracedBody : Nat
  curSloppy : Bool
  /-- The function around the place: how many scopes there are up to its own, and where
      a `var` can be put in it. -/
  varEnv : Option (Nat × Option Nat)
  /-- The labels right around the place. -/
  labels : List Text
  deriving DecidableEq

/-- The top level of a classic script, where a `var` or function of a browser's own name
    binds nothing. -/
def Ctx.globalClassic (c : Ctx) : Bool := c.kind == .classic && c.fnDepth == 0

def Ctx.read (c : Ctx) : Ctx := { c with inTarget := 0 }

def Ctx.target (c : Ctx) : Ctx := { c with inTarget := c.inTarget + 1 }

/-- The state of the visitor. Scopes are listed from the innermost to the outermost. -/
structure Visitor where
  patches : List Patch
  scopes : List (List Text)
  declSeq : Nat
  infiniteLoopCaps : Nat
  /-- Per `for-in` or `for-of` head: the names to write in the body, and from what. -/
  iterSinks : List (List (Text × Text))
  forIterHead : Bool
  pendingLabels : List Text
  labelRenames : List (Text × Text)
  guardFns : List (Option Nat × Nat)
  guardHeight : Nat
  ccallCallees : List Span
  arrowExprBodies : List Nat
  deriving DecidableEq

namespace Visitor

def new : Visitor := ⟨[], [[]], 0, 0, [], false, [], [], [], 0, [], []⟩

/-- Add a patch. -/
def push (v : Visitor) (span : Span) (marker : Marker) : Visitor :=
  { v with patches := v.patches ++ [⟨span, marker⟩] }

/-- A new temporary: its name, and the state after. -/
def fresh (v : Visitor) (tag : Text) : Text × Visitor :=
  ("__zp_" ++ tag ++ "_" ++ Nat.toDigits 10 (v.declSeq + 1), { v with declSeq := v.declSeq + 1 })

/-! ## Scopes -/

def pushScope (v : Visitor) (names : List Text) : Visitor := { v with scopes := names :: v.scopes }

def popScope (v : Visitor) : Visitor := { v with scopes := v.scopes.tail }

/-- Record names in the innermost scope. -/
def declare (v : Visitor) (names : List Text) : Visitor :=
  { v with scopes := v.scopes.modifyHead (names ++ ·) }

def isShadowed (v : Visitor) (name : Text) : Bool := v.scopes.any fun s => s.contains name

def routes (v : Visitor) (name : Text) : Bool := isDangerousGlobal name && !v.isShadowed name

/-- The `var` names that a sloppy script declares. -/
def evalVarNames (d : Deps) (src : Text) : List Text :=
  match d.parse src with
  | some stmts =>
    (((collectScopeDeclNames stmts true true).filter (·.2 == .varLike)).map Prod.fst).eraseDups
  | none => []

/-- Record the `var` names of a literal direct `eval` in the scope of the function around
    it, and declare those it does not have. -/
def hoistEvalVarDecls (v : Visitor) (d : Deps) (c : Ctx) (src : Text) : Visitor :=
  match c.varEnv with
  | some (height, some pos) =>
    let i := v.scopes.length - height
    let names := (evalVarNames d src).filter fun n => !(v.scopes.getD i []).contains n
    let v' := { v with scopes := v.scopes.modify i (names ++ ·) }
    if names.isEmpty then v' else v'.push ⟨pos, pos⟩ (.hoistVars names)
  | _ => v

/-! ## Inline guards -/

/-- Begin a site: the height so far, and a state that measures anew. -/
def guardEnter (v : Visitor) : Visitor := { v with guardHeight := 0 }

/-- End a site begun at height `saved`. -/
def guardLeave (v : Visitor) (saved : Nat) : Visitor :=
  { v with guardHeight := max v.guardHeight saved }

/-- The group of temporaries of the site whose operands were just visited, `0` where there
    is no room for any. -/
def guardClaim (v : Visitor) (c : Ctx) : Nat × Visitor :=
  match c.withTemps, v.guardFns with
  | [], (some pos, groups) :: rest =>
    let group := v.guardHeight + 1
    (group, { v with guardFns := (some pos, max groups group) :: rest, guardHeight := group })
  | _, _ => (0, v)

/-- A function begins, with room for temporaries at `pos`. -/
def guardFnEnter (v : Visitor) (pos : Option Nat) : Visitor :=
  { v with guardFns := (pos, 0) :: v.guardFns, guardHeight := 0 }

/-- A function begun at height `saved` ends. -/
def guardFnLeave (v : Visitor) (saved : Nat) : Visitor :=
  let v' := { v with guardFns := v.guardFns.tail, guardHeight := saved }
  match v.guardFns with
  | (some pos, groups + 1) :: _ => v'.push ⟨pos, pos + 1⟩ (.guardTemps (groups + 1))
  | _ => v'

/-! ## Identifiers -/

/-- Route a reference that is read. -/
def emitGlobalGet (v : Visitor) (span : Span) (name : Text) : Visitor :=
  v.push span (.globalGet name)

/-- Route a reference that is written. -/
def emitTargetIdent (v : Visitor) (c : Ctx) (span : Span) (name : Text) : Visitor :=
  v.push span (if c.withTemps.isEmpty then .globalTarget name else .wtref false c.withTemps name)

def visitIdentifierReference (v : Visitor) (c : Ctx) (span : Span) (name : Text) : Visitor :=
  if v.routes name then
    if 0 < c.inTarget then v.emitTargetIdent c span name
    else if c.withTemps.isEmpty then v.emitGlobalGet span name
    else v.push span (.withGet c.withTemps name)
  else v

def visitTargetIdentifier (v : Visitor) (c : Ctx) (span : Span) (name : Text) : Visitor :=
  if v.routes name then v.emitTargetIdent c span name else v

/-- The value of a shorthand property `{name}`. -/
def emitShorthand (v : Visitor) (c : Ctx) (span : Span) (name : Text) : Visitor :=
  v.push span (if c.withTemps.isEmpty then .shorthandGlobalGet name
    else .shorthandWithGet c.withTemps name)

/-- `name op= value`. An assignment operator without a text is plain assignment. -/
def globalWrite (c : Ctx) (op : AssignmentOperator) (name : Text) (value : Span) : Marker :=
  match assignmentOperatorStr op, c.withTemps with
  | none, [] => .globalSet name value
  | none, temps => .withSet name value temps
  | some o, [] => .globalAssign name o value (isLogicalAssignment op)
  | some o, temps => .withAssign name o value (isLogicalAssignment op) temps

/-- `name++`, `--name`. -/
def globalUpdate (c : Ctx) (name op : Text) (pre : Bool) : Marker :=
  if c.withTemps.isEmpty then .globalUpdate name op pre else .withUpdate c.withTemps name op pre

/-- `this`. -/
def visitThisExpression (v : Visitor) (c : Ctx) (span : Span) : Visitor :=
  let top := !c.localThis && c.ntDepth == 0 && c.classDepth == 0
  if c.kind == .classic && top then v.push span (.globalGet "window")
  else if c.kind == .worker && top then v.push span (.globalGet "self")
  else if c.curSloppy && c.classDepth == 0 && c.kind != .module then v.push span .thisMap
  else v

end Visitor

/-! ## Declarations -/

/-- The binding of a shorthand property in a pattern: `{name}`, `{name = value}`. -/
def shorthandBinding : Node → Option Ident
  | .mk ⟨.bindingIdentifier name, sp⟩ [] => some ⟨name, sp⟩
  | .mk ⟨.assignmentPattern, _⟩ (.mk ⟨.bindingIdentifier name, sp⟩ [] :: _) => some ⟨name, sp⟩
  | _ => none

/-- The dangerous identifiers a pattern binds, each with whether it is written in
    shorthand. -/
def dangerousBindings (pattern : Node) : List Ident :=
  (bindingIdents pattern).filter fun i => isDangerousGlobal i.name

mutual

def shorthandIdents : Node → List Ident
  | .mk ⟨form, _⟩ cs =>
    match form, cs with
    | .objectPattern, cs => shorthandIdentsList cs
    | .bindingProperty true _, [_, value] =>
      match shorthandBinding value with
      | some i => [i]
      | none => shorthandIdents value
    | .bindingProperty false _, [_, value] => shorthandIdents value
    | .arrayPattern, cs => shorthandIdentsList cs
    | .assignmentPattern, left :: _ => shorthandIdents left
    | .bindingRest, cs => shorthandIdentsList cs
    | _, _ => []

/-- The identifiers that the patterns of a list bind in shorthand. -/
def shorthandIdentsList : List Node → List Ident
  | [] => []
  | n :: ns => shorthandIdents n ++ shorthandIdentsList ns

end

/-- Bind temporaries in place of dangerous names; what is to be written from them after. -/
def renameBindings (shorthand : List Ident) : List Ident → Visitor → Visitor × List (Text × Text)
  | [], v => (v, [])
  | i :: is, v =>
    let (tmp, v) := v.fresh "dp"
    let v := v.push i.span (if shorthand.contains i then .renameKey i.name tmp else .rename tmp)
    let (v, sets) := renameBindings shorthand is v
    (v, (i.name, tmp) :: sets)

/-- Rename the dangerous names that a pattern binds. -/
def transformDangerousPattern (pattern : Node) (v : Visitor) : Visitor × List (Text × Text) :=
  renameBindings (shorthandIdents pattern) (dangerousBindings pattern) v

/-- The writes from temporaries, once per iteration or after the declarator. -/
def emitSinks (c : Ctx) (span : Span) (sets : List (Text × Text)) (v : Visitor) : Visitor :=
  if sets.isEmpty then v
  else if v.forIterHead then { v with iterSinks := v.iterSinks.modifyHead (· ++ sets) }
  else
    let (sk, v) := v.fresh "sk"
    v.push ⟨span.stop, span.stop⟩ (.sinks sk sets c.withTemps)

/-- The declaration of a dangerous name by a `var` in the top level of a classic script.
    Its initialiser is not walked. -/
def globalVarBinding (c : Ctx) (span : Span) (id : Ident) (init : Node) (v : Visitor) : Visitor :=
  if v.forIterHead then
    let (tmp, v) := v.fresh "dp"
    let v := v.push id.span (.rename tmp)
    { v with iterSinks := v.iterSinks.modifyHead (· ++ [(id.name, tmp)]) }
  else if init.form == .absent then v
  else
    let (tmp, v) := v.fresh "vdcl"
    v.push span (if c.withTemps.isEmpty then .varSet tmp id.name init.span
      else .varWset tmp id.name init.span c.withTemps)

/-- A function declaration of a dangerous name in the top level of a classic script. -/
def renameFunction (c : Ctx) (info : FunctionInfo) (id : Node) (v : Visitor) : Visitor :=
  match id.binding? with
  | some i =>
    if info.declaration && c.globalClassic && isDangerousGlobal i.name then
      let (tmp, v) := v.fresh "vdcl"
      v.push i.span (.rename tmp)
    else v
  | none => v

/-- The writes at the head of the body of a `for-in` or `for-of` loop. -/
def injectIterSinks (c : Ctx) (body : Node) (sets : List (Text × Text)) (v : Visitor) : Visitor :=
  if sets.isEmpty then v
  else if body.form == .blockStatement then
    v.push ⟨body.span.start + 1, body.span.start + 1⟩ (.iterSinks false sets c.withTemps)
  else
    (v.push ⟨body.span.start, body.span.start⟩ (.iterSinks true sets c.withTemps)).push
      ⟨body.span.stop, body.span.stop⟩ .closeBrace

/-! ## Member accesses and calls

The patches at a member access, a call or an optional chain, once the parts of the node have been
walked: they put a call of a helper around the operands, whose own patches are applied inside. -/

open Node

def isSuper (n : Node) : Bool := n.form == .superKeyword

def stringValue? (n : Node) : Option Text :=
  match n.form with
  | .stringLiteral value => some value
  | _ => none

def callArgsSpan (args : List Node) : Option Span :=
  match args.head?, args.getLast? with
  | some first, some last => some ⟨first.span.start, last.span.stop⟩
  | _, _ => none

/-! ## Calls -/

/-- The names of all scopes, for the code that a direct `eval` runs. -/
def callerDescObject (v : Visitor) : List Text := v.scopes.reverse.flatten.eraseDups

/-- The key of a `Reflect` call is not known to be harmless. -/
def needsMediation (key : Node) : Bool :=
  match stringValue? key with
  | some p => isDangerousMember p || isDangerousGlobal p
  | none => true

/-- `Reflect.get`, `Reflect.set`. -/
def reflectAccess (method : Text) : List Node → Option Marker
  | obj :: key :: rest =>
    if !needsMediation key then none
    else if method == "get" then
      some (.rget (span obj) (span key) (rest.head?.map span))
    else match rest with
      | value :: rest' =>
        some (.rset (span obj) (span key) (span value) (rest'.head?.map span))
      | [] => none
  | _ => none

/-- The functions that read the properties of an object. -/
def reflectInspection (receiver method : Text) (args : List Node) : Option Marker :=
  let onObject := receiver == "Object"
  let onReflect := receiver == "Reflect"
  match args with
  | [] => none
  | obj :: rest =>
    if method == "getOwnPropertyDescriptor" then
      rest.head?.map fun key => .gopd obj.span key.span
    else if method == "getOwnPropertyDescriptors" && onObject then some (.gopds obj.span)
    else if method == "getOwnPropertyNames" && onObject then some (.gown obj.span)
    else if method == "keys" && onObject then some (.okeys obj.span)
    else if method == "has" && onReflect then
      rest.head?.map fun key => .rhas obj.span key.span
    else if method == "deleteProperty" && onReflect then
      rest.head?.map fun key => .cdele obj.span key.span false
    else if method == "ownKeys" && onReflect then some (.rowk obj.span)
    else none

/-- A call of a function of `Reflect` or `Object` that is routed. -/
def reflectSite (receiver method : Text) (args : List Node) : Option Marker :=
  let access := if receiver == "Reflect" && (method == "get" || method == "set")
    then reflectAccess method args else none
  access <|> if receiver == "Reflect" || receiver == "Object"
    then reflectInspection receiver method args else none

/-- The flags of an optional call: whether the member and whether the call is optional. -/
def optionalFlags (member call : Bool) : Nat := 2 * member.toNat + call.toNat

/-- A computed call `obj[key](args)`. -/
def computedCallSite (c : Ctx) (span : Span) (optional memberOptional : Bool) (obj key : Node)
    (args : List Node) (v : Visitor) : Visitor :=
  if optional || memberOptional then
    v.push span (.ocall obj.span (optionalFlags memberOptional optional) (.expr key.span)
      (callArgsSpan args))
  else
    let (group, v) := v.guardClaim c
    v.push span (.ccall obj.span key.span (callArgsSpan args) group false)

/-- A call `obj.method(args)` of a routed method. The patch of the callee is dropped. -/
def methodCallSite (span callee : Span) (optional memberOptional : Bool) (obj : Node)
    (method : Text) (args : List Node) (v : Visitor) : Visitor :=
  if isDangerousMethod method || isDangerousMember method then
    let v := if isDangerousMember method
      then { v with patches := v.patches.filter fun p => p.span != callee } else v
    v.push span (if optional || memberOptional then
        .ocall obj.span (optionalFlags memberOptional optional) (.name method) (callArgsSpan args)
      else .methodCall obj.span method (callArgsSpan args))
  else v

def staticCallSite (span callee : Span) (optional memberOptional : Bool) (obj : Node)
    (method : Text) (args : List Node) (v : Visitor) : Visitor :=
  let reflected := match obj.form with
    | .identifierReference receiver =>
      if v.isShadowed receiver then none else reflectSite receiver method args
    | _ => none
  match reflected with
  | some marker => v.push span marker
  | none =>
    if isSuper obj then v
    else methodCallSite span callee optional memberOptional obj method args v

def directEvalSite (d : Deps) (c : Ctx) (span : Span) (args : List Node) (v : Visitor) : Visitor :=
  let v := match c.curSloppy, args.head?.bind stringValue? with
    | true, some src => v.hoistEvalVarDecls d c src
    | _, _ => v
  v.push span (.deval (callArgsSpan args) (!c.curSloppy) c.globalClassic (callerDescObject v)
    (0 < c.ntDepth))

def callSite (d : Deps) (c : Ctx) (span : Span) (optional : Bool) (callee : Node)
    (args : List Node) (v : Visitor) : Visitor :=
  if !optional && callee.form == .identifierReference "eval"
      && !v.isShadowed "eval" then directEvalSite d c span args v
  else match callee with
    | .mk ⟨.computedMemberExpression memberOptional, _⟩ [obj, key] =>
      if isSuper obj then v else computedCallSite c span optional memberOptional obj key args v
    | .mk ⟨.staticMemberExpression method memberOptional, calleeSpan⟩ [obj] =>
      staticCallSite span calleeSpan optional memberOptional obj method args v
    | _ => v

/-! ## Members -/

def isImportMeta (n : Node) : Bool := n.form == .metaProperty "import" "meta"

def memberGetSite (span : Span) (property : Text) (optional : Bool) (obj : Node) (v : Visitor) :
    Visitor :=
  if isDangerousMember property then
    v.push span (if optional then .oget obj.span (.name property) else .memberGet obj.span property)
  else v

/-- A receiver that is a local variable, whose members are left alone. -/
def localReceiver (property : Text) (obj : Node) (v : Visitor) : Bool :=
  match obj.form with
  | .identifierReference receiver =>
    v.isShadowed receiver && (!urlShapeMembers.contains property || isDangerousGlobal receiver)
  | _ => false

def staticMemberSite (c : Ctx) (span : Span) (property : Text) (optional : Bool) (obj : Node)
    (v : Visitor) : Visitor :=
  if isSuper obj then v
  else if isImportMeta obj && property == "url" && !c.targetUrl.isEmpty then
    v.push span (.importMetaUrl c.targetUrl)
  else if isImportMeta obj && property == "resolve" && !c.targetUrl.isEmpty then
    v.push span (.importMetaResolve c.targetUrl)
  else if localReceiver property obj v then v
  else memberGetSite span property optional obj v

/-- A key that is a literal of no interest. -/
def harmlessKey (key : Node) : Bool :=
  match stringValue? key with
  | some name => !isDangerousMember name && !isDangerousGlobal name && !isDangerousMethod name
  | none => false

/-- A computed member read, after its object and key. -/
def computedMemberSite (c : Ctx) (span : Span) (optional : Bool) (obj key : Node) (v : Visitor) :
    Visitor :=
  if isSuper obj || harmlessKey key then v
  else if optional then v.push span (.oget obj.span (.expr key.span))
  else
    let (group, v) := if v.ccallCallees.contains span then (0, v) else v.guardClaim c
    v.push span (.cget obj.span key.span group false)

/-! ## Optional chains -/

def isMember (n : Node) : Bool :=
  match n.form with
  | .staticMemberExpression _ _ | .computedMemberExpression _ | .privateFieldExpression _ => true
  | _ => false

def withoutParentheses : Node → Node
  | .mk ⟨.parenthesizedExpression, _⟩ [e] => withoutParentheses e
  | n => n

/-- The split of an optional call; nothing when its receiver cannot be handed on. -/
def callSplit (span : Span) (callee : Node) : Option (List ChainSplit) :=
  match callee with
  | .mk ⟨.staticMemberExpression property _, sp⟩ [obj] =>
    if isSuper obj then none
    else some [.method (Node.span obj).stop (.name property) sp.stop span]
  | .mk ⟨.computedMemberExpression _, sp⟩ [obj, key] =>
    if isSuper obj then none
    else some [.method (Node.span obj).stop (.expr (Node.span key)) sp.stop span]
  | n => if isMember n || (n.form == .parenthesizedExpression && isMember (withoutParentheses n))
    then none else some [.plain n.span.stop]

def callLink (optional : Bool) (span : Span) (callee : Node) : Option (List ChainSplit) :=
  if optional then callSplit span callee else some []

def memberLink (optional : Bool) (obj : Node) : List ChainSplit :=
  if optional then [.member obj.span.stop] else []

/-- The `?.` links of a chain, from the innermost; nothing when one of them cannot be
    split. -/
def chainSplits : Node → Option (List ChainSplit)
  | .mk ⟨form, sp⟩ cs =>
    match form, cs with
    | .callExpression optional, callee :: _ =>
      (chainSplits callee).bind fun inner => (callLink optional sp callee).map (inner ++ ·)
    | .computedMemberExpression optional, obj :: _ =>
      (chainSplits obj).map (· ++ memberLink optional obj)
    | .staticMemberExpression _ optional, obj :: _ =>
      (chainSplits obj).map (· ++ memberLink optional obj)
    | .privateFieldExpression optional, obj :: _ =>
      (chainSplits obj).map (· ++ memberLink optional obj)
    | _, _ => some []

def isFunctionForm (l : Label) : Bool :=
  match l.form with
  | .functionLike _ | .arrowFunctionExpression _ _ => true
  | _ => false

/-- The chain waits at or after `pos`. -/
def chainSuspendsAfter (chain : Node) (pos : Nat) : Bool :=
  !(Tree.gather isFunctionForm (fun n => if (form n == .awaitExpression ||
    form n == .yieldExpression) && pos ≤ (span n).start then [()] else []) chain).isEmpty

def methodCalls (splits : List ChainSplit) : List Span :=
  splits.filterMap fun
    | .method _ _ _ call => some call
    | _ => none

def Marker.isGenericCall : Marker → Bool
  | .ccall .. | .ocall .. | .methodCall .. => true
  | _ => false

/-- A patch of a chain that is a single optional read of a name is exact as it is. -/
def exactLink (chain : Span) : List Patch → Bool
  | [⟨sp, .oget _ (.name _)⟩] => sp.stop == chain.stop
  | _ => false

/-- The patches of a chain that is split at its `?.` links. -/
def splitChain (span : Span) (splits : List ChainSplit) (own : List Patch) : List Patch :=
  ⟨span, .ochain span splits⟩ :: own.filter fun p => !(methodCalls splits).contains p.span

/-- The patches made in an optional chain, `own`, after the walk. -/
def chainPatches (chain : Node) (splits : List ChainSplit) (own : List Patch) : List Patch :=
  match splits with
  | [] => own
  | first :: _ =>
    let crossing := own.filter fun p =>
      p.span.start == chain.span.start && first.baseEnd < p.span.stop
    if crossing.isEmpty || exactLink chain.span crossing || chainSuspendsAfter chain first.baseEnd
        || own.any fun p => (methodCalls splits).contains p.span && !p.marker.isGenericCall
    then own else splitChain chain.span splits own

/-- An optional chain, after the walk; `before` is the number of patches there were. -/
def chainSite (chain expr : Node) (before : Nat) (v : Visitor) : Visitor :=
  match chainSplits expr with
  | none => v
  | some splits =>
    { v with
      patches := v.patches.take before ++ chainPatches chain splits (v.patches.drop before) }

/-! ## Statements -/

/-- Mark the patches at the head of an expression statement; `before` is the number of
    patches there were. -/
def statementPatches (start : Nat) (own : List Patch) : List Patch :=
  let outerEnd := ((own.filter (·.span.start == start)).map (·.span.stop)).foldl max 0
  own.map fun p =>
    if p.span.start == start then { p with marker := p.marker.atStatement (p.span.stop == outerEnd) }
    else p

def expressionStatementSite (span : Span) (before : Nat) (v : Visitor) : Visitor :=
  if v.arrowExprBodies.contains span.start then v
  else { v with
    patches := v.patches.take before ++ statementPatches span.start (v.patches.drop before) }

def isTruthyConstant : Node → Bool
  | .mk ⟨.booleanLiteral b, _⟩ _ => b
  | .mk ⟨.numericLiteral zero, _⟩ _ => !zero
  | .mk ⟨.parenthesizedExpression, _⟩ [e] => isTruthyConstant e
  | _ => false

def bodyYields (body : Node) : Bool := !(Tree.gather isFunctionForm (fun n => match form n with
    | .awaitExpression | .yieldExpression | .forIterStatement true => [()]
    | _ => []) body).isEmpty

end ZeroProxy.Rewriter
