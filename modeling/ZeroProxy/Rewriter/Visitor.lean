import ZeroProxy.Rewriter.Names

/-!
# The visitor

The walk of the rewriter over a program. Every form that a method of the visitor
overrides has its own case here, in which it is decided by hand which parts are walked
and in what state; all other forms are walked part by part, in order. Before a program is put
out, its source-map comment is cut off (`strip_sourcemap_pragma`).
-/

namespace ZeroProxy.Rewriter

open Node

/-! ## Statements and loops -/

def Form.isPlainStatement : Form → Bool
  | .functionLike info => info.declaration
  | .classLike declaration => declaration
  | .expressionStatement | .returnStatement | .variableDeclaration _ | .blockStatement
  | .ifStatement | .forIterStatement _ | .tryStatement | .switchStatement | .labeledStatement _
  | .withStatement | .breakStatement _ | .continueStatement _ | .importDeclaration
  | .exportNamedDeclaration | .exportDefaultDeclaration | .exportAllDeclaration
  | .otherStatement => true
  | _ => false

namespace Visitor

/-- Labels only concern the statement right behind them. -/
def enterStatement (v : Visitor) (form : Form) : Visitor :=
  if form.isPlainStatement then { v with pendingLabels := [] } else v

/-- A loop that is wrapped in a block takes its labels along, under a new name. -/
def openLabels (v : Visitor) (wrap : Bool) (labels : List Text) : Option Text × Visitor :=
  let v := { v with pendingLabels := [] }
  if wrap && !labels.isEmpty then
    let (l, v) := v.fresh "lbl"
    (some l, { v with labelRenames := (labels.map (·, l)).reverse ++ v.labelRenames })
  else (none, v)

def closeLabels (v : Visitor) (labels : List Text) : Visitor :=
  { v with labelRenames := v.labelRenames.drop labels.length }

def nextLoopId (v : Visitor) : Nat × Visitor :=
  (v.infiniteLoopCaps + 1, { v with infiniteLoopCaps := v.infiniteLoopCaps + 1 })

def openCounter (v : Visitor) (span : Span) (wrap : Bool) (id : Nat) (label : Option Text) :
    Visitor :=
  let v := v.push ⟨span.start, span.start⟩ (.loopPrefix wrap id label)
  if wrap then v.push ⟨span.stop, span.stop⟩ .closeBrace else v

/-- The label of a `break` or `continue`. -/
def renameLabel (v : Visitor) : Option Ident → Visitor
  | none => v
  | some l =>
    match v.labelRenames.find? (·.1 == l.name) with
    | some (_, new) => v.push l.span (.label new)
    | none => v

end Visitor

def isPresent (n : Node) : Bool := n.form != .absent

/-- A body, which may be a statement without braces. -/
def Ctx.body (c : Ctx) (body : Node) : Ctx :=
  if body.form == .blockStatement then c else { c with unbracedBody := c.unbracedBody + 1 }

/-- `for (;;)`. -/
def isEmptyLoop (init test update : Node) : Bool :=
  !isPresent init && !isPresent test && !isPresent update

/-- A `for` loop without an end. -/
def forNeedsCap (init test update body : Node) : Bool :=
  (isEmptyLoop init test update ||
    ((!isPresent test || isTruthyConstant test) && (isPresent init || isPresent update)))
    && !bodyYields body

/-- A `for` loop without an end, in a place where a declaration cannot stand. -/
def forNeedsWrap (c : Ctx) (init test update body : Node) : Bool :=
  forNeedsCap init test update body && !isEmptyLoop init test update && 0 < c.unbracedBody

/-- The cap of a `for` loop, after the walk. -/
def forCapSite (c : Ctx) (span : Span) (init test update body : Node) (label : Option Text)
    (v : Visitor) : Visitor :=
  if !forNeedsCap init test update body then v
  else
    let (id, v) := v.nextLoopId
    if isEmptyLoop init test update then v.push ⟨span.start, body.span.start⟩ (.loopHeader id)
    else
      let v := v.openCounter span (forNeedsWrap c init test update body) id label
      if isPresent test then v.push test.span (.capTest id)
      else
        let region : Span := ⟨if isPresent init then init.span.stop else span.start + 3,
          if isPresent update then update.span.start else body.span.start⟩
        v.push region (.forCap id region)

/-- The cap of a `while` loop, after the walk. -/
def whileCapSite (span : Span) (test body : Node) (v : Visitor) : Visitor :=
  if isTruthyConstant test && !bodyYields body then
    let (id, v) := v.nextLoopId
    v.push ⟨span.start, body.span.start⟩ (.loopHeader id)
  else v

/-- The cap of a `do` loop, after the walk. -/
def doWhileCapSite (span : Span) (wrap : Bool) (body test : Node) (label : Option Text)
    (v : Visitor) : Visitor :=
  if isTruthyConstant test && !bodyYields body then
    let (id, v) := v.nextLoopId
    (v.openCounter span wrap id label).push test.span (.capTest id)
  else v

/-! ## Modules -/

def specifierSite (d : Deps) (lit : Node) (v : Visitor) : Visitor :=
  match (stringValue? lit).bind d.moduleSpecifier with
  | some url => v.push lit.span (.moduleSpecifier url)
  | none => v

def isRuntimeLiteral (value : Text) : Bool := Text.startsWithCI (Text.rustTrimStart value) "data:"
    || Text.startsWithCI (Text.rustTrimStart value) "blob:"

/-- The specifier of a dynamic import that is known. -/
def isStaticSource (source : Node) : Bool :=
  match stringValue? source with
  | some value => !isRuntimeLiteral value
  | none => false

/-- The source of a dynamic import that is not known, before the walk. -/
def moduleUrlSite (c : Ctx) (source : Node) (v : Visitor) : Visitor :=
  if isStaticSource source || c.targetUrl.isEmpty then v
  else v.push source.span (.moduleUrl source.span c.targetUrl)

/-! ## Scopes -/

/-- Where a `var` can be put in a function body. -/
def bodyInsertPos : Node → Nat
  | .mk ⟨.functionBody (some stop), _⟩ _ => stop
  | .mk ⟨.functionBody none, _⟩ (s :: _) => (span s).start
  | n => n.span.start + 1

/-- The names that become visible, of those a list of statements declares: at the top level
    of a classic script a `var` of a dangerous name does not. -/
def Ctx.visible (c : Ctx) (names : List (Text × BindCat)) : List Text :=
  (names.filter fun (n, cat) =>
    !(cat == .varLike && c.globalClassic && isDangerousGlobal n)).map Prod.fst

def Ctx.enterFunction (c : Ctx) (strict : Bool) (height : Nat) (pos : Option Nat) (real : Bool) :
    Ctx :=
  { c with
    fnDepth := c.fnDepth + 1
    ntDepth := if real then c.ntDepth + 1 else c.ntDepth
    curSloppy := c.curSloppy && !strict
    varEnv := some (height, pos) }

/-- The names recorded in the scope of a function: its parameters, its own name and what
    its body declares. -/
def functionNames (sloppy : Bool) (id : List Node) (params body : Node) : List Text :=
  (collectScopeDeclNames (bodyStatements body) true sloppy).map Prod.fst ++
    id.flatMap collectBindingPattern ++ (paramItems params).flatMap collectBindingPattern

def Ctx.enterClass (c : Ctx) : Ctx :=
  { c with curSloppy := false, classDepth := c.classDepth + 1 }

def noteArrowBody (expression : Bool) (body : Node) (v : Visitor) : Visitor :=
  match expression, bodyStatements body with
  | true, .mk ⟨.expressionStatement, sp⟩ _ :: _ =>
    { v with arrowExprBodies := sp.start :: v.arrowExprBodies }
  | _, _ => v

def noteCallee (callee : Node) (v : Visitor) : Visitor :=
  match callee.form with
  | .computedMemberExpression _ => { v with ccallCallees := callee.span :: v.ccallCallees }
  | _ => v

/-- The temporary of a `with` statement, and the patches around it. -/
def withSite (span : Span) (obj body : Node) (v : Visitor) : Text × Visitor :=
  let (tmp, v) := v.fresh "w"
  let v := v.push ⟨span.start, span.start⟩ (.withOpen tmp)
  let v := v.push ⟨span.stop, span.stop⟩ .closeBrace
  let v := v.push obj.span (.withObj tmp obj.span)
  (tmp, match body with
    | .mk ⟨.blockStatement, sp⟩ stmts =>
      if stmts.head?.any isHelperPrefixDeclaration then v
      else v.push ⟨sp.start + 1, sp.start + 1⟩ (.helperPrefix false)
    | n => (v.push ⟨n.span.start, n.span.start⟩ (.helperPrefix true)).push
        ⟨n.span.stop, n.span.stop⟩ .closeBrace)

/-! ## The walk -/

mutual

/-- Walk a node. -/
def visit (d : Deps) (c : Ctx) : Node → Visitor → Visitor
  | .mk ⟨form, sp⟩ cs, v =>
    let v := v.enterStatement form
    match form, cs with
    | .identifierReference name, [] => v.visitIdentifierReference c sp name
    | .thisExpression, [] => v.visitThisExpression c sp
    | .objectProperty true _,
        [.mk ⟨.identifierName k, ksp⟩ [], .mk ⟨.identifierReference name, isp⟩ []] =>
      if v.routes name then v.emitShorthand c isp name
      else visit d c (.mk ⟨.identifierReference name, isp⟩ [])
        (visit d c (.mk ⟨.identifierName k, ksp⟩ []) v)
    | .unaryExpression .delete, [.mk ⟨.identifierReference name, isp⟩ []] =>
      if v.routes name then v.push sp (.globalDelete c.withTemps name)
      else visit d c (.mk ⟨.identifierReference name, isp⟩ []) v
    | .unaryExpression .delete, [.mk ⟨.staticMemberExpression property optional, msp⟩ [obj]] =>
      if !isSuper obj && isDangerousMember property then
        (visit d c obj v).push sp (.sdele (span obj) property optional)
      else visit d c (.mk ⟨.staticMemberExpression property optional, msp⟩ [obj]) v
    | .unaryExpression .delete, [.mk ⟨.computedMemberExpression optional, msp⟩ [obj, key]] =>
      if !isSuper obj then
        (visit d c key (visit d c obj v)).push sp (.cdele (span obj) (span key) optional)
      else visit d c (.mk ⟨.computedMemberExpression optional, msp⟩ [obj, key]) v
    | .unaryExpression .delete,
        [.mk ⟨.chainExpression, csp⟩ [.mk ⟨.staticMemberExpression property optional, msp⟩ [obj]]] =>
      if !isSuper obj && isDangerousMember property then
        (visit d c obj v).push sp (.sdele (span obj) property true)
      else visit d c (.mk ⟨.chainExpression, csp⟩
        [.mk ⟨.staticMemberExpression property optional, msp⟩ [obj]]) v
    | .unaryExpression .delete,
        [.mk ⟨.chainExpression, csp⟩ [.mk ⟨.computedMemberExpression optional, msp⟩ [obj, key]]] =>
      if !isSuper obj then
        (visit d c key (visit d c obj v)).push sp (.cdele (span obj) (span key) true)
      else visit d c (.mk ⟨.chainExpression, csp⟩
        [.mk ⟨.computedMemberExpression optional, msp⟩ [obj, key]]) v
    | .updateExpression op pre, [.mk ⟨.identifierReference name, isp⟩ []] =>
      if v.routes name then v.push sp (Visitor.globalUpdate c name op pre)
      else visitTarget d c (.mk ⟨.identifierReference name, isp⟩ []) v
    | .updateExpression _ _, [target] => visitTarget d c target v
    | .binaryExpression .in, [.mk ⟨.stringLiteral value, ksp⟩ ls, right] =>
      let v := if value == "prepareStackTrace"
        then v.push sp (.rhas (span right) ksp) else v
      visit d c right (visit d c (.mk ⟨.stringLiteral value, ksp⟩ ls) v)
    | .assignmentExpression op, [.mk ⟨.identifierReference name, isp⟩ [], right] =>
      let saved := v.guardHeight
      let v := v.guardEnter
      let v := if v.routes name then
          (visit d c right v).push sp (Visitor.globalWrite c op name (span right))
        else visit d c right (visitTarget d c (.mk ⟨.identifierReference name, isp⟩ []) v)
      v.guardLeave saved
    | .assignmentExpression op, [.mk ⟨.computedMemberExpression optional, msp⟩ [obj, key], right] =>
      let saved := v.guardHeight
      let v := v.guardEnter
      let v := if isSuper obj then
          visit d c right (visitTarget d c (.mk ⟨.computedMemberExpression optional, msp⟩ [obj, key]) v)
        else
          let v := visit d c right (visit d c key (visit d c obj v))
          match assignmentOperatorStr op with
          | none =>
            let (group, v) := v.guardClaim c
            v.push sp (.cset (span obj) (span key) (span right) group false)
          | some o => v.push sp (.cassign false (span obj) (span key) o (span right)
              (isLogicalAssignment op))
      v.guardLeave saved
    | .assignmentExpression op, [.mk ⟨.staticMemberExpression property optional, msp⟩ [obj], right] =>
      let saved := v.guardHeight
      let v := v.guardEnter
      let v := if isSuper obj || !isDangerousMember property then
          visit d c right
            (visitTarget d c (.mk ⟨.staticMemberExpression property optional, msp⟩ [obj]) v)
        else
          let v := visit d c right (visit d c obj v)
          match assignmentOperatorStr op with
          | none => v.push sp (.memberSet (span obj) property (span right))
          | some o => v.push sp (.memberA false (span obj) property o (span right)
              (isLogicalAssignment op))
      v.guardLeave saved
    | .assignmentExpression _, [target, right] =>
      let saved := v.guardHeight
      let v := v.guardEnter
      let v := visit d c right (visitTarget d c.target target v)
      v.guardLeave saved
    | .staticMemberExpression property optional, [obj] =>
      staticMemberSite c sp property optional obj (visit d c obj v)
    | .computedMemberExpression optional, [obj, key] =>
      let saved := v.guardHeight
      let v := v.guardEnter
      let v := visit d c key (visit d c obj v)
      (computedMemberSite c sp optional obj key v).guardLeave saved
    | .callExpression optional, callee :: args =>
      let saved := v.guardHeight
      let v := noteCallee callee v.guardEnter
      let v := visits d c args (visit d c callee v)
      (callSite d c sp optional callee args v).guardLeave saved
    | .chainExpression, [e] =>
      let before := v.patches.length
      chainSite (.mk ⟨.chainExpression, sp⟩ [e]) e before (visit d c e v)
    | .importExpression, source :: options =>
      let v := moduleUrlSite c source v
      let v := visits d c options (visit d c source v)
      if isStaticSource source then specifierSite d source v else v
    | .importDeclaration, source :: locals => specifierSite d source (visits d c (source :: locals) v)
    | .exportNamedDeclaration, declaration :: source :: specifiers =>
      specifierSite d source (visits d c (declaration :: source :: specifiers) v)
    | .exportAllDeclaration, [source] => specifierSite d source (visit d c source v)
    | .expressionStatement, [e] =>
      let before := v.patches.length
      expressionStatementSite sp before (visit d c e v)
    | .functionLike info, [id, params, body] =>
      let v := renameFunction c info id v
      let height := v.scopes.length + 1
      let pos := if isPresent body then some (bodyInsertPos body) else none
      let close := if isPresent body then some ((span body).stop - 1) else none
      let c' := c.enterFunction info.strict height pos true
      let saved := v.guardHeight
      let v := (v.pushScope (functionNames c'.curSloppy [id] params body)).guardFnEnter close
      let v := visit d c' body (visit d c' params (visit d c' id v))
      (v.guardFnLeave saved).popScope
    | .arrowFunctionExpression expression strict, [params, body] =>
      let height := v.scopes.length + 1
      let pos := if expression then none else some (bodyInsertPos body)
      let close := if expression then none else some ((span body).stop - 1)
      let c' := c.enterFunction strict height pos false
      let saved := v.guardHeight
      let v := noteArrowBody expression body v
      let v := (v.pushScope (functionNames c'.curSloppy [] params body)).guardFnEnter close
      let v := visit d c' body (visit d c' params v)
      (v.guardFnLeave saved).popScope
    | .formalParameters, items =>
      let saved := v.guardHeight
      (visits d c items (v.guardFnEnter none)).guardFnLeave saved
    | .classLike _, id :: rest =>
      let saved := v.guardHeight
      let v := (v.pushScope (collectBindingPattern id)).guardFnEnter none
      let v := visits d c.enterClass rest (visit d c.enterClass id v)
      (v.guardFnLeave saved).popScope
    | .blockStatement, stmts =>
      let v := v.pushScope (c.visible (collectScopeDeclNames stmts false c.curSloppy))
      (visits d c stmts v).popScope
    | .catchParameter, [pattern] => visit d c pattern (v.declare (collectBindingPattern pattern))
    | .variableDeclaration kind, ds =>
      if isHelperPrefixDeclaration (.mk ⟨.variableDeclaration kind, sp⟩ ds) then v
      else if kind == .var && c.globalClassic then visitGlobalDeclarators d c ds v
      else visitDeclarators d c ds v
    | .ifStatement, [test, consequent, alternate] =>
      let v := visit d c test v
      visit d (c.body alternate) alternate (visit d (c.body consequent) consequent v)
    | .labeledStatement label, [body] =>
      let names := c.labels ++ [label]
      match Node.form body with
      | .labeledStatement _ => visit d { c with labels := names } body v
      | _ =>
        let v := visit d ({ c with labels := [] }.body body) body { v with pendingLabels := names }
        { v with pendingLabels := [] }
    | .withStatement, [obj, body] =>
      let (tmp, v) := withSite sp obj body v
      let v := visit d c obj v
      visit d ({ c with withTemps := c.withTemps ++ [tmp] }.body body) body v
    | .breakStatement label, cs => visits d c cs (v.renameLabel label)
    | .continueStatement label, cs => visits d c cs (v.renameLabel label)
    | .forStatement, [init, test, update, body] =>
      let labels := v.pendingLabels
      let (inner, v) := v.openLabels (forNeedsWrap c init test update body) labels
      let v := visit d c update (visit d c test (visit d c init v))
      let v := (visit d (c.body body) body v).closeLabels labels
      forCapSite c sp init test update body inner v
    | .whileStatement, [test, body] =>
      let v := visit d c test { v with pendingLabels := [] }
      whileCapSite sp test body (visit d (c.body body) body v)
    | .doWhileStatement, [body, test] =>
      let wrap := isTruthyConstant test && !bodyYields body && 0 < c.unbracedBody
      let labels := v.pendingLabels
      let (inner, v) := v.openLabels wrap labels
      let v := (visit d c test (visit d (c.body body) body v)).closeLabels labels
      doWhileCapSite sp wrap body test inner v
    | .forIterStatement _, [left, right, body] =>
      match Node.form left with
      | .variableDeclaration kind =>
        if kind == .var && c.globalClassic then
          let v := { v with forIterHead := true, iterSinks := [] :: v.iterSinks }
          let v := { visit d c left v with forIterHead := false }
          let v := visit d c right v
          let sets := v.iterSinks.headD []
          let v := injectIterSinks c body sets { v with iterSinks := v.iterSinks.tail }
          visit d (c.body body) body v
        else visit d (c.body body) body (visit d c right (visit d c left v))
      | _ => visit d (c.body body) body (visit d c right (visitTarget d c.target left v))
    | _, cs => visits d c cs v

/-- Walk nodes one after the other. -/
def visits (d : Deps) (c : Ctx) : List Node → Visitor → Visitor
  | [], v => v
  | n :: ns, v => visits d c ns (visit d c n v)

/-- Walk a node in the place of an assignment target. -/
def visitTarget (d : Deps) (c : Ctx) : Node → Visitor → Visitor
  | .mk ⟨form, sp⟩ cs, v =>
    match form, cs with
    | .identifierReference name, [] => v.visitTargetIdentifier c sp name
    | .computedMemberExpression _, [obj, key] =>
      if isSuper obj then
        let saved := v.guardHeight
        (visit d c key (visit d c obj v.guardEnter)).guardLeave saved
      else (visit d c.read key (visit d c.read obj v)).push sp
        (.cref false (span obj) (span key))
    | .staticMemberExpression property _, [obj] =>
      let v := visit d c.read obj v
      if !isSuper obj && isDangerousMember property
      then v.push sp (.memberRef false (span obj) property) else v
    | .privateFieldExpression _, [obj] => visit d c.read obj v
    | .targetPropertyIdentifier, [.mk ⟨.identifierReference name, isp⟩ [], init] =>
      let v := if v.routes name then v.push isp (.globalDestr name c.withTemps) else v
      visit d c.read init v
    | .targetPropertyProperty _, [key, target] =>
      -- A key that is not computed is a name or a literal: there is nothing in it to walk.
      visitTarget d c.target target (visit d c.read key v)
    | .targetWithDefault, [target, init] => visit d c.read init (visitTarget d c.target target v)
    | .targetRest, [target] => visitTarget d c.target target v
    | .arrayAssignmentTarget, cs => visitTargets d c cs v
    | .objectAssignmentTarget, cs => visitTargets d c cs v
    | _, cs => visits d c cs v

def visitTargets (d : Deps) (c : Ctx) : List Node → Visitor → Visitor
  | [], v => v
  | n :: ns, v => visitTargets d c ns (visitTarget d c n v)

def visitDeclarators (d : Deps) (c : Ctx) : List Node → Visitor → Visitor
  | [], v => v
  | .mk ⟨.variableDeclarator, _⟩ [id, init] :: ds, v =>
    visitDeclarators d c ds
      (visit d c init (visit d c id (v.declare (collectBindingPattern id))))
  | n :: ds, v => visitDeclarators d c ds (visit d c n v)

/-- Walk the declarators of a `var` in the top level of a classic script. -/
def visitGlobalDeclarators (d : Deps) (c : Ctx) : List Node → Visitor → Visitor
  | [], v => v
  | .mk ⟨.variableDeclarator, sp⟩ [.mk ⟨.bindingIdentifier name, isp⟩ [], init] :: ds, v =>
    let v := if isDangerousGlobal name then globalVarBinding c sp ⟨name, isp⟩ init v
      else visit d c init (v.declare [name])
    visitGlobalDeclarators d c ds v
  | .mk ⟨.variableDeclarator, sp⟩ [pattern, init] :: ds, v =>
    let (v, sets) := transformDangerousPattern pattern v
    let v := v.declare ((collectBindingPattern pattern).filter (!isDangerousGlobal ·))
    let v := visit d c init (visit d c pattern v)
    visitGlobalDeclarators d c ds (emitSinks c sp sets v)
  | n :: ds, v => visitGlobalDeclarators d c ds (visit d c n v)

end

/-! ## Programs -/

/-- `import`, `export` or `import.meta`. -/
def isModuleSyntax (n : Node) : Bool :=
  match n.form with
  | .importDeclaration | .exportNamedDeclaration | .exportDefaultDeclaration
  | .exportAllDeclaration => true
  | _ => isImportMeta n

/-- The kind a program is rewritten as: a classic script with module syntax is a module. -/
def parseForKind (requested : ScriptKind) (program : Node) : ScriptKind :=
  let requested := if requested == .classicLocal then .classic else requested
  if requested == .classic && program.subtrees.any isModuleSyntax then .module else requested

def Ctx.program (opts : RewriteOpts) (s : Script) : Ctx :=
  let kind := parseForKind opts.kind s.root
  { kind
    targetUrl := opts.targetUrl
    localThis := opts.kind == .classicLocal
    fnDepth := 0
    ntDepth := 0
    classDepth := 0
    inTarget := 0
    withTemps := []
    unbracedBody := 0
    curSloppy := kind != .module && !s.strict
    varEnv := none
    labels := [] }

/-- The lexical names that a statement of a program declares, each with the kind of its
    declaration, and where the statement ends. -/
def lexBinds : Node → Option (Nat × List (Text × Text))
  | .mk ⟨.variableDeclaration kind, sp⟩ ds =>
    if kind == .var then none
    else some (sp.stop, (declaredIdents ds).map fun i =>
      (i.name, if kind == .const then "const" else "let"))
  | .mk ⟨.classLike true, sp⟩ (id :: _) =>
    (binding? id).map fun i => (sp.stop, [(i.name, "class")])
  | _ => none

def isRuntimeName (name : Text) : Bool :=
  "__zp_".toList.isPrefixOf name || "__ZP_".toList.isPrefixOf name

/-- The variables and functions of a program that are checked against its other scripts. -/
def topVarlikes (names : List (Text × BindCat)) : List Text :=
  ((names.filter fun (n, cat) => cat == .varLike && !isRuntimeName n).map Prod.fst).eraseDups

/-- The functions that a strict script hands on to the scripts after it. -/
def exportedFunctions (body : List Node) (varlikes : List Text) : List Text :=
  (body.filterMap fun
    | .mk ⟨.functionLike _, _⟩ (id :: _) => (binding? id).map Ident.name
    | _ => none).filter fun n => varlikes.contains n && !isDangerousGlobal n

/-- The lexical names of a classic script are registered for the scripts after it. -/
def emitLexRegistry (c : Ctx) (s : Script) (varlikes : List Text) (v : Visitor) : Visitor :=
  let binds := s.body.filterMap lexBinds
  let lex := binds.flatMap Prod.snd
  if lex.isEmpty && varlikes.isEmpty then v
  else
    let pos := (s.prologue <|> s.body.head?.map fun n => n.span.start).getD s.span.stop
    let functions := if c.curSloppy then [] else exportedFunctions s.body varlikes
    let vars := if c.curSloppy then []
      else varlikes.filter fun n => !functions.contains n && !isDangerousGlobal n
    binds.foldl (fun v b => v.push ⟨b.1, b.1⟩ (.lexBind b.2))
      (v.push ⟨pos, pos⟩ (.lexDecl lex varlikes vars functions))

def visitProgram (d : Deps) (c : Ctx) (s : Script) : Visitor :=
  let names := collectScopeDeclNames s.body true c.curSloppy
  let v := Visitor.new.declare (c.visible names)
  let v := if c.kind == .classic then emitLexRegistry c s (topVarlikes names) v else v
  visits d c s.body v

/-- The patches for a program. One that is refused is replaced by a `throw`. -/
def rewrite (d : Deps) (opts : RewriteOpts) (s : Script) : List Patch :=
  match reservedNameViolation s.root with
  | some name => [⟨s.span, .reservedName name⟩]
  | none => (visitProgram d (.program opts s) s).patches

/-! ## The source-map comment

Rewritten code is no longer described by the source map its `sourceMappingURL` comment
names, and `stripSourcemapPragma` cuts the comment off. It knows nothing of JavaScript: it
takes the last `sourceMappingURL=` in the last 4096 bytes, and if the line it is on begins
like a comment, the code from that line on. -/

open List Text

/-! ### White space and comments -/

/-- ECMAScript's `LineTerminator`. -/
def isLineTerminator (c : Char) : Bool :=
  c == '\n' || c == '\r' || c == '\u2028' || c == '\u2029'

def restOfLine (s : Text) : Text := s.takeWhile fun c => !isLineTerminator c

/-- The white space, line terminator or comment that `s` begins with, and whether nothing
    but trivia is before what follows on its line. `bol`: nothing but trivia is before `s`
    on its line; `html`: the comments `<!--` and `-->` of classic scripts are read. -/
def triviaAt (html bol : Bool) : Text → Option (Text × Bool)
  | [] => none
  | c :: s =>
    if isLineTerminator c then some ([c], true)
    else if isJsWhitespace c then some ([c], bol)
    else if "//".toList.isPrefixOf (c :: s) then some (c :: restOfLine s, bol)
    else if "/*".toList.isPrefixOf (c :: s) then
      (find "*/" (s.drop 1)).map fun i =>
        let comment := c :: s.take (1 + i + 2)
        (comment, bol || comment.any isLineTerminator)
    else if html && "<!--".toList.isPrefixOf (c :: s) then some (c :: restOfLine s, bol)
    else if html && bol && "-->".toList.isPrefixOf (c :: s) then some (c :: restOfLine s, bol)
    else none

variable {bol html : Bool} {s : Text}

theorem exists_of_triviaAt {bol' : Bool} {t : Text}
    (h : triviaAt html bol s = some (t, bol')) : t ≠ [] ∧ ∃ rest, s = t ++ rest := by
  have hline (c : Char) (s : Text) : ∃ rest, c :: s = (c :: restOfLine s) ++ rest :=
    ⟨s.dropWhile fun c => !isLineTerminator c, by
      rw [cons_append, restOfLine, takeWhile_append_dropWhile]⟩
  cases s with
  | nil => cases h
  | cons c s =>
    rw [triviaAt] at h
    split at h
    · cases h
      exact ⟨cons_ne_nil _ _, s, rfl⟩
    split at h
    · cases h
      exact ⟨cons_ne_nil _ _, s, rfl⟩
    split at h
    · cases h
      exact ⟨cons_ne_nil _ _, hline c s⟩
    split at h
    · rw [Option.map_eq_some_iff] at h
      obtain ⟨i, -, h⟩ := h
      cases h
      exact ⟨cons_ne_nil _ _, s.drop (1 + i + 2), by
        rw [cons_append, take_append_drop]⟩
    split at h
    · cases h
      exact ⟨cons_ne_nil _ _, hline c s⟩
    split at h
    · cases h
      exact ⟨cons_ne_nil _ _, hline c s⟩
    · cases h

theorem triviaAt_newline (html bol : Bool) (s : Text) :
    triviaAt html bol ('\n' :: s) = some (['\n'], true) := rfl

/-- `s` is white space, line terminators and comments only. -/
inductive TriviaOnly (html : Bool) : Bool → Text → Prop
  | nil (bol : Bool) : TriviaOnly html bol []
  | cons {bol bol' : Bool} {t rest : Text} (h : triviaAt html bol (t ++ rest) = some (t, bol')) :
      TriviaOnly html bol' rest → TriviaOnly html bol (t ++ rest)

/-! ### Readings -/

/-- A piece of a text: trivia, or a token (a string and a part of a template are one). -/
structure Lexeme where
  trivia : Bool
  text : Text
  deriving DecidableEq

def textOf (es : List Lexeme) : Text := es.flatMap Lexeme.text

/-- `s` is read as the elements `es`. Where trivia begins, it is read; otherwise a token
    comes, and which part of the text it takes is for the grammar to say. -/
inductive Reads (html : Bool) : Bool → Text → List Lexeme → Prop
  | nil (bol : Bool) : Reads html bol [] []
  | trivia {bol bol' : Bool} {t rest : Text} {es : List Lexeme}
      (h : triviaAt html bol (t ++ rest) = some (t, bol')) :
      Reads html bol' rest es → Reads html bol (t ++ rest) (⟨true, t⟩ :: es)
  | token {bol : Bool} {t rest : Text} {es : List Lexeme} (ht : t ≠ [])
      (h : triviaAt html bol (t ++ rest) = none) :
      Reads html false rest es → Reads html bol (t ++ rest) (⟨false, t⟩ :: es)

/-- A text as JavaScript reads it. `html`: as a classic script, and not as a module. -/
structure TokenReading where
  html : Bool
  text : Text
  elements : List Lexeme
  reads : Reads html true text elements

theorem Reads.textOf_eq {es : List Lexeme} (h : Reads html bol s es) : textOf es = s := by
  induction h with
  | nil => rfl
  | trivia _ _ ih | token _ _ _ ih => rw [textOf, flatMap_cons, ← textOf, ih]

theorem Reads.drop {pre post : List Lexeme} (h : Reads html bol s (pre ++ post)) :
    ∃ bol', Reads html bol' (textOf post) post ∧ (textOf pre = [] → bol' = bol) := by
  induction pre generalizing bol s with
  | nil =>
    rw [nil_append] at h
    exact ⟨bol, by rw [h.textOf_eq]; exact h, fun _ => rfl⟩
  | cons e pre ih =>
    have hne {t : Text} (ht : t ≠ []) {b : Bool} : textOf (⟨b, t⟩ :: pre) ≠ [] := by
      rw [textOf]
      exact append_ne_nil_of_left_ne_nil ht _
    cases h with
    | trivia ht hrest =>
      obtain ⟨bol', hpost, -⟩ := ih hrest
      exact ⟨bol', hpost, fun h => absurd h (hne (exists_of_triviaAt ht).1)⟩
    | token ht _ hrest =>
      obtain ⟨bol', hpost, -⟩ := ih hrest
      exact ⟨bol', hpost, fun h => absurd h (hne ht)⟩

theorem Reads.forall_trivia_iff {es : List Lexeme}
    (h : Reads html bol s es) : (∀ e ∈ es, e.trivia) ↔ TriviaOnly html bol s := by
  induction h with
  | nil bol => exact ⟨fun _ => .nil bol, nofun⟩
  | @trivia bol bol' t rest es ht hrest ih =>
    rw [forall_mem_cons]
    refine ⟨fun h => .cons ht (ih.1 h.2), fun h => ⟨rfl, ih.2 ?_⟩⟩
    generalize hs : t ++ rest = s at h ht
    cases h with
    | nil => cases ht
    | @cons _ bol₂ t₂ rest₂ ht₂ hrest₂ =>
      rw [ht] at ht₂
      cases ht₂
      rw [append_cancel_left hs]
      exact hrest₂
  | @token bol t rest es hne ht hrest ih =>
    rw [forall_mem_cons]
    refine ⟨fun h => absurd h.1 Bool.false_ne_true, fun h => ?_⟩
    generalize hs : t ++ rest = s at h ht
    cases h with
    | nil => exact absurd (append_eq_nil_iff.1 hs).1 hne
    | cons ht₂ _ =>
      rw [ht] at ht₂
      cases ht₂

/-! ### Cutting the comment off -/

def needle : Text := "sourceMappingURL="

theorem needle_ne_nil : needle ≠ [] := cons_ne_nil _ _

/-- The line up to the needle begins like a source-map comment. -/
def opensComment (line : Text) : Bool :=
  let trimmed := rustTrimStart line
  "//#".toList.isPrefixOf trimmed || "//@".toList.isPrefixOf trimmed ||
    "/*#".toList.isPrefixOf trimmed || "/*@".toList.isPrefixOf trimmed

/-- The code before the line that position `abs` is on, if the line begins like a
    source-map comment. -/
def cutLine (src : Text) (abs : Nat) : Text :=
  let lineStart := ((rfindChar (· == '\n') (src.take abs)).map (· + 1)).getD 0
  if opensComment ((src.take abs).drop lineStart) then
    -- The newline before the line goes too.
    src.take (if 0 < lineStart && src[lineStart - 1]? == some '\n' then lineStart - 1 else lineStart)
  else src

/-- The code without its source-map comment, and without what follows it. -/
def stripSourcemapPragma (src : Text) : Text :=
  let tail := dropBytes (utf8Len src - 4096) src
  match rfind needle tail with
  | none => src
  | some rel => cutLine src (src.length - tail.length + rel)

/-- A line that the needle is on, up to the needle, and what comes after the needle. -/
structure PragmaLine (line after : Text) : Prop where
  noNewline : '\n' ∉ line
  opens : opensComment line
  /-- The needle is the last one. -/
  last : LastIn needle after
  /-- It is within the last 4096 bytes. -/
  window : utf8Len (needle ++ after) ≤ 4096

/-- What is kept of a text and what is cut off it. -/
inductive Pragma : Text → Text → Prop
  | first {line after : Text} (h : PragmaLine line after) : Pragma [] (line ++ (needle ++ after))
  | later (kept : Text) {line after : Text} (h : PragmaLine line after) :
      Pragma kept ('\n' :: (line ++ (needle ++ after)))

theorem cutLine_first {line : Text} (h : '\n' ∉ line) (y : Text) :
    cutLine (line ++ y) line.length = if opensComment line then [] else line ++ y := by
  have hline : ∀ d ∈ line, (d == '\n') = false := fun d hd =>
    beq_eq_false_iff_ne.2 fun e => h (e ▸ hd)
  rw [cutLine, take_left, rfindChar_eq_none hline]
  rfl

theorem cutLine_later (kept : Text) {line : Text} (h : '\n' ∉ line) (y : Text) :
    cutLine (kept ++ '\n' :: line ++ y) (kept ++ '\n' :: line).length =
      if opensComment line then kept else kept ++ '\n' :: line ++ y := by
  have hline : ∀ d ∈ line, (d == '\n') = false := fun d hd =>
    beq_eq_false_iff_ne.2 fun e => h (e ▸ hd)
  have hdrop : (kept ++ '\n' :: line).drop (kept.length + 1) = line := by
    rw [← drop_drop, drop_left, drop_one, tail_cons]
  have hget : (kept ++ '\n' :: line ++ y)[kept.length]? = some '\n' := by simp
  rw [cutLine, take_left, rfindChar_append rfl hline, Option.map_some, Option.getD_some, hdrop,
    Nat.add_sub_cancel, hget]
  simp

theorem stripSourcemapPragma_eq_cutLine {front after : Text} (hlast : LastIn needle after)
    (hwindow : utf8Len (needle ++ after) ≤ 4096) :
    stripSourcemapPragma (front ++ (needle ++ after)) =
      cutLine (front ++ (needle ++ after)) front.length := by
  have hle : utf8Len (front ++ (needle ++ after)) - 4096 ≤ utf8Len front := by
    rw [utf8Len_append]
    omega
  obtain ⟨x, y, rfl, htail⟩ := dropBytes_append hle (needle ++ after)
  rw [stripSourcemapPragma, htail, rfind_append needle_ne_nil hlast]
  dsimp only
  congr 1
  simp only [length_append]
  omega

theorem stripSourcemapPragma_append {kept removed : Text} (h : Pragma kept removed) :
    stripSourcemapPragma (kept ++ removed) = kept := by
  cases h with
  | first h =>
    rw [nil_append, stripSourcemapPragma_eq_cutLine h.last h.window, cutLine_first h.noNewline,
      if_pos h.opens]
  | @later _ line after h =>
    have hassoc : kept ++ '\n' :: (line ++ (needle ++ after)) =
        kept ++ '\n' :: line ++ (needle ++ after) := by simp
    rw [hassoc, stripSourcemapPragma_eq_cutLine h.last h.window, cutLine_later kept h.noNewline,
      if_pos h.opens]

theorem window_of_dropBytes {src x after : Text}
    (h : dropBytes (utf8Len src - 4096) src = x ++ (needle ++ after)) :
    utf8Len (needle ++ after) ≤ 4096 := by
  obtain ⟨u, hu, hn⟩ := exists_dropBytes (utf8Len src - 4096) src
  rw [h] at hu hn
  have hlen := congrArg utf8Len hu
  rw [utf8Len_append, utf8Len_append] at hlen
  cases x with
  | nil =>
    have hlt := hn 's' ("ourceMappingURL=" ++ after) rfl
    have hsize : Char.utf8Size 's' = 1 := rfl
    rw [utf8Len_nil] at hlen
    omega
  | cons c x =>
    have hlt := hn c (x ++ (needle ++ after)) rfl
    rw [utf8Len_cons] at hlen
    omega

theorem stripSourcemapPragma_eq_self {src : Text}
    (h : ∀ kept removed, src = kept ++ removed → ¬ Pragma kept removed) :
    stripSourcemapPragma src = src := by
  cases hfind : rfind needle (dropBytes (utf8Len src - 4096) src) with
  | none => rw [stripSourcemapPragma, hfind]
  | some rel =>
    obtain ⟨x, after, htail, -, hlast⟩ := exists_of_rfind needle_ne_nil hfind
    have hwindow := window_of_dropBytes htail
    obtain ⟨u, hu, -⟩ := exists_dropBytes (utf8Len src - 4096) src
    rw [htail, ← append_assoc] at hu
    rw [hu, stripSourcemapPragma_eq_cutLine hlast hwindow]
    have hmem {t : Text} (ht : ∀ d ∈ t, (d == '\n') = false) : '\n' ∉ t := fun hn =>
      absurd (ht _ hn) (by simp)
    rcases exists_last_line (· == '\n') (u ++ x) with hline | ⟨kept, c, line, hux, hc, hline⟩
    · -- The needle is on the first line.
      rw [cutLine_first (hmem hline), if_neg fun hopens => h [] src rfl ?_]
      rw [hu]
      exact .first ⟨hmem hline, hopens, hlast, hwindow⟩
    · rw [eq_of_beq hc] at hux
      rw [hux, cutLine_later kept (hmem hline), if_neg fun hopens =>
        h kept ('\n' :: (line ++ (needle ++ after))) (by rw [hu, hux]; simp) ?_]
      exact .later kept ⟨hmem hline, hopens, hlast, hwindow⟩

/-! ### What is cut off -/

/-- Only white space and comments are cut off: what is kept ends between two elements of
    the text, and those after it are trivia. -/
def TokenReading.RemovesTrivia (r : TokenReading) : Prop :=
  ∃ pre post, r.elements = pre ++ post ∧ textOf pre = stripSourcemapPragma r.text ∧
    ∀ e ∈ post, e.trivia

/-- The text after `kept` begins between two elements. -/
def TokenReading.Boundary (r : TokenReading) (kept : Text) : Prop :=
  ∃ pre post, r.elements = pre ++ post ∧ textOf pre = kept

theorem triviaOnly_of_pragma {kept removed : Text} (h : Pragma kept removed)
    (hbol : kept = [] → bol) :
    TriviaOnly html bol removed ↔ TriviaOnly html true removed := by
  cases h with
  | first => rw [hbol rfl]
  | @later _ line after =>
    have hswap {b b' : Bool} (h : TriviaOnly html b ('\n' :: (line ++ (needle ++ after)))) :
        TriviaOnly html b' ('\n' :: (line ++ (needle ++ after))) := by
      generalize hs : '\n' :: (line ++ (needle ++ after)) = s at h
      cases h with
      | nil => cases hs
      | @cons _ bol₂ t rest ht hrest =>
        rw [← hs, triviaAt_newline] at ht
        cases ht
        exact .cons (triviaAt_newline html b' rest) hrest
    exact ⟨hswap, hswap⟩

/-- Only white space and comments are cut off exactly if the line of the source-map comment
    begins between two tokens, and only white space and comments come after. -/
theorem removesTrivia_iff (r : TokenReading) : r.RemovesTrivia ↔
    ∀ kept removed, r.text = kept ++ removed → Pragma kept removed →
      r.Boundary kept ∧ TriviaOnly r.html true removed := by
  have hsplit {pre post : List Lexeme} (h : r.elements = pre ++ post) :
      r.text = textOf pre ++ textOf post := by
    rw [← r.reads.textOf_eq, h, textOf, flatMap_append, ← textOf, ← textOf]
  -- The elements after a boundary, and the text they read.
  have hpost {pre post : List Lexeme} (h : r.elements = pre ++ post) {removed : Text}
      (htext : r.text = textOf pre ++ removed) (hp : Pragma (textOf pre) removed) :
      (∀ e ∈ post, e.trivia) ↔ TriviaOnly r.html true removed := by
    have hr := r.reads
    rw [h] at hr
    obtain ⟨bol, hreads, hbol⟩ := hr.drop
    have hremoved : textOf post = removed := append_cancel_left ((hsplit h).symm.trans htext)
    rw [hreads.forall_trivia_iff, hremoved, triviaOnly_of_pragma hp hbol]
  constructor
  · rintro ⟨pre, post, hes, hpre, htrivia⟩ kept removed htext hp
    rw [htext, stripSourcemapPragma_append hp] at hpre
    subst hpre
    exact ⟨⟨pre, post, hes, rfl⟩, (hpost hes htext hp).1 htrivia⟩
  intro h
  by_cases hp : ∃ kept removed, r.text = kept ++ removed ∧ Pragma kept removed
  · obtain ⟨kept, removed, htext, hp⟩ := hp
    obtain ⟨⟨pre, post, hes, rfl⟩, htrivia⟩ := h kept removed htext hp
    refine ⟨pre, post, hes, ?_, (hpost hes htext hp).2 htrivia⟩
    rw [htext, stripSourcemapPragma_append hp]
  · -- There is no such comment, and everything is kept.
    refine ⟨r.elements, [], (append_nil _).symm, ?_, nofun⟩
    rw [r.reads.textOf_eq, stripSourcemapPragma_eq_self fun kept removed htext hpragma =>
      hp ⟨kept, removed, htext, hpragma⟩]

def throwingText : Text := "//# sourceMappingURL=a\nthrow 1"

/-- Its syntax tree. -/
def throwing : Script where
  strict := false
  prologue := none
  span := ⟨0, 30⟩
  body := [.mk ⟨.otherStatement, ⟨23, 30⟩⟩ [.mk ⟨.numericLiteral false, ⟨29, 30⟩⟩ []]]
  distinct := by decide
  nested := by decide
  apart := by decide
  assigned := by decide

/-- The script as it is read: a comment, a newline and the statement. -/
def throwingReading : TokenReading where
  html := true
  text := throwingText
  elements := [⟨true, "//# sourceMappingURL=a"⟩, ⟨true, ['\n']⟩, ⟨false, "throw"⟩,
    ⟨true, [' ']⟩, ⟨false, ['1']⟩]
  reads := .trivia (t := "//# sourceMappingURL=a") rfl <| .trivia (t := ['\n']) rfl <|
    .token (t := "throw") (cons_ne_nil _ _) rfl <| .trivia (t := [' ']) rfl <|
    .token (t := ['1'])  (cons_ne_nil _ _) rfl <| .nil false

/-- The rewriter changes nothing in the script, and all of it is cut off. -/
theorem statement_after_pragma_dropped :
    rewrite ⟨fun _ => none, fun _ => none⟩ ⟨.classic, [], []⟩ throwing = [] ∧
      stripSourcemapPragma throwingText = [] ∧ ¬ throwingReading.RemovesTrivia := by
  have hcut : stripSourcemapPragma throwingText = [] := by decide
  refine ⟨by decide, hcut, ?_⟩
  rintro ⟨pre, post, hes, hpre, htrivia⟩
  change textOf pre = stripSourcemapPragma throwingText at hpre
  rw [hcut] at hpre
  have hnil : pre = [] := by
    cases pre with
    | nil => rfl
    | cons e pre =>
      rw [(cons.inj hes).1.symm] at hpre
      cases hpre
  rw [hnil, nil_append] at hes
  have hthrow := htrivia ⟨false, "throw"⟩ (by rw [← hes]; decide)
  cases hthrow

end ZeroProxy.Rewriter
