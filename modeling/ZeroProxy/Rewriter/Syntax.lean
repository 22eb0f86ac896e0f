import ZeroProxy.Text.Basic
import ZeroProxy.Tree.Basic

/-!
# Syntax trees

The JavaScript programs the rewriter walks. A syntax tree is a `Tree` whose labels
are a *form*, what kind of node it is with the names and flags it carries, and the
*span* of source text it was read from. The children of a node are its parts in the
order in which the parser's own traversal visits them; a part that is not there (the
test of `for (;;)`, the name of an anonymous function) is a node of form `absent`, so
that every form has its parts at fixed places.
-/

namespace ZeroProxy.Rewriter

/-- A range of source positions. -/
structure Span where
  start : Nat
  stop : Nat
  deriving DecidableEq

/-- `t` lies within `s`. -/
def Span.contains (s t : Span) : Bool := s.start ≤ t.start && t.stop ≤ s.stop

/-- An occurrence of an identifier: its name and where it stands. -/
structure Ident where
  name : Text
  span : Span
  deriving DecidableEq

/-- The word that a declaration begins with. -/
inductive VariableDeclarationKind where
  | var
  | let
  | const
  deriving DecidableEq

/-- The unary operators the rewriter tells apart. -/
inductive UnaryOperator where
  | delete
  | other
  deriving DecidableEq

/-- The binary operators the rewriter tells apart. -/
inductive BinaryOperator where
  | in
  | other
  deriving DecidableEq

/-- The operators of assignments. -/
inductive AssignmentOperator where
  | assign
  | addition
  | subtraction
  | multiplication
  | division
  | remainder
  | exponential
  | shiftLeft
  | shiftRight
  | shiftRightZeroFill
  | bitwiseAnd
  | bitwiseOR
  | bitwiseXOR
  | logicalAnd
  | logicalOr
  | logicalNullish
  deriving DecidableEq

/-- What a function node carries besides its name, parameters and body. -/
structure FunctionInfo where
  /-- A function declaration, and not an expression or a method. -/
  declaration : Bool
  /-- The body has a `'use strict'` directive. -/
  strict : Bool
  /-- Neither a generator nor asynchronous. -/
  plain : Bool
  deriving DecidableEq

/-- The forms of nodes. The comment after a form lists its children. -/
inductive Form where
  /-- `prologue`: the end of its directives. -/
  | program (strict : Bool) (prologue : Option Nat)      -- statements
  | identifierReference (name : Text)
  /-- A property name or another identifier that refers to nothing. -/
  | identifierName (name : Text)
  | stringLiteral (value : Text)
  | numericLiteral (zero : Bool)
  | booleanLiteral (value : Bool)
  | thisExpression
  | superKeyword
  | metaProperty (target property : Text)
  | unaryExpression (operator : UnaryOperator)           -- argument
  | updateExpression (operator : Text) (pre : Bool)      -- target
  | binaryExpression (operator : BinaryOperator)         -- left, right
  | assignmentExpression (operator : AssignmentOperator) -- target, right
  | staticMemberExpression (property : Text) (optional : Bool) -- object
  | computedMemberExpression (optional : Bool)           -- object, key
  | privateFieldExpression (optional : Bool)             -- object
  | callExpression (optional : Bool)                     -- callee, arguments
  | chainExpression                                      -- expression
  | importExpression                                     -- source, options
  | parenthesizedExpression                              -- expression
  | awaitExpression                                      -- argument
  | yieldExpression                                      -- argument
  | objectProperty (shorthand computed : Bool)           -- key, value
  | functionLike (info : FunctionInfo)                   -- id, parameters, body
  | arrowFunctionExpression (expression strict : Bool)   -- parameters, body
  | formalParameters                                     -- items, rest
  | functionBody (prologue : Option Nat)                 -- statements
  | classLike (declaration : Bool)                       -- id, superclass, elements
  | staticBlock                                          -- statements
  | bindingIdentifier (name : Text)
  | objectPattern                                        -- properties, rest
  | bindingProperty (shorthand computed : Bool)          -- key, value
  | arrayPattern                                         -- elements, rest
  | assignmentPattern                                    -- left, default
  | bindingRest                                          -- argument
  | objectAssignmentTarget                               -- properties, rest
  | arrayAssignmentTarget                                -- elements, rest
  | targetPropertyIdentifier                             -- identifier, default
  | targetPropertyProperty (computed : Bool)             -- key, target
  | targetWithDefault                                    -- target, default
  | targetRest                                           -- target
  | expressionStatement                                  -- expression
  | returnStatement                                      -- argument
  | variableDeclaration (kind : VariableDeclarationKind) -- declarators
  | variableDeclarator                                   -- id, initialiser
  | blockStatement                                       -- statements
  | ifStatement                                          -- test, consequent, alternate
  | forStatement                                         -- init, test, update, body
  | forIterStatement (awaits : Bool)                     -- left, right, body
  | whileStatement                                       -- test, body
  | doWhileStatement                                     -- body, test
  | tryStatement                                         -- block, handler, finaliser
  | catchClause                                          -- parameter, body
  | catchParameter                                       -- pattern
  | switchStatement                                      -- discriminant, cases
  | switchCase                                           -- test, statements
  | labeledStatement (label : Text)                      -- body
  | withStatement                                        -- object, body
  | breakStatement (label : Option Ident)
  | continueStatement (label : Option Ident)
  | importDeclaration                                    -- source, local names
  | exportNamedDeclaration                               -- declaration, source, specifiers
  | exportDefaultDeclaration                             -- declaration
  | exportAllDeclaration                                 -- source
  /-- Any other statement. -/
  | otherStatement
  /-- Any other form. -/
  | other
  | absent
  deriving DecidableEq

/-- A node without its children. -/
structure Label where
  form : Form
  span : Span
  deriving DecidableEq

abbrev Node := Tree Label

namespace Node

def form (n : Node) : Form := n.label.form

def span (n : Node) : Span := n.label.span

abbrev subtrees (n : Node) : List Node := Tree.subtrees n

def reference? : Node → Option Ident
  | .mk ⟨.identifierReference name, sp⟩ [] => some ⟨name, sp⟩
  | _ => none

def binding? : Node → Option Ident
  | .mk ⟨.bindingIdentifier name, sp⟩ [] => some ⟨name, sp⟩
  | _ => none

/-- The identifiers of a program, references and binding identifiers. -/
def idents : Node → List Ident :=
  Tree.gather (fun _ => false) fun n => (reference? n <|> binding? n).toList

/-- A node whose text an identifier patch may take the place of: an identifier, or the
    assignment, update, deletion or declarator it is the subject of (or `this`). -/
def isSubject (n : Node) : Bool :=
  match n.form with
  | .identifierReference _ | .bindingIdentifier _ | .thisExpression | .assignmentExpression _
  | .updateExpression _ _ | .unaryExpression _ | .variableDeclarator => true
  | _ => false

/-- A form that can stand in the place of an assignment target, or of a part of one. -/
def isTarget (n : Node) : Bool :=
  match n.form with
  | .identifierReference _ | .computedMemberExpression _ | .staticMemberExpression _ _
  | .privateFieldExpression _ | .arrayAssignmentTarget | .objectAssignmentTarget
  | .targetPropertyIdentifier | .targetPropertyProperty _ | .targetWithDefault | .targetRest
  | .absent => true
  | _ => false

/-- The parts of a node in the place of an assignment target. -/
def targets : Node → List Node
  | .mk ⟨.assignmentExpression _, _⟩ [target, _] => [target]
  | .mk ⟨.updateExpression _ _, _⟩ [target] => [target]
  | .mk ⟨.forIterStatement _, _⟩ [.mk ⟨.variableDeclaration _, _⟩ _, _, _] => []
  | .mk ⟨.forIterStatement _, _⟩ [left, _, _] => [left]
  | .mk ⟨.targetPropertyProperty _, _⟩ [_, target] => [target]
  | .mk ⟨.targetWithDefault, _⟩ [target, _] => [target]
  | .mk ⟨.targetRest, _⟩ [target] => [target]
  | .mk ⟨.arrayAssignmentTarget, _⟩ elements => elements
  | .mk ⟨.objectAssignmentTarget, _⟩ properties => properties
  | _ => []

def isAccess (n : Node) : Bool :=
  match n.form with
  | .staticMemberExpression _ _ | .computedMemberExpression _ | .callExpression _ => true
  | _ => false

end Node

/-! ## Scripts -/

/-- A program as the parser delivers it. The laws say that spans are laid out as the
    tree is, and what the grammar says of assignments. -/
structure Script where
  /-- The program has a `'use strict'` directive. -/
  strict : Bool
  /-- The end of its directives. -/
  prologue : Option Nat
  span : Span
  body : List Node
  /-- No identifier occurs twice. -/
  distinct : (Node.idents (.mk ⟨.program strict prologue, span⟩ body)).Nodup
  /-- An identifier lies within the span of a node exactly if it occurs in the node. -/
  nested : ∀ n ∈ Node.subtrees (.mk ⟨.program strict prologue, span⟩ body),
    ∀ i ∈ Node.idents (.mk ⟨.program strict prologue, span⟩ body),
      n.span.contains i.span ↔ i ∈ n.idents
  /-- No member access or call has the very span of an identifier or of `this`, or of an
      assignment, update, deletion or declarator. -/
  apart : ∀ n ∈ Node.subtrees (.mk ⟨.program strict prologue, span⟩ body),
    ∀ m ∈ Node.subtrees (.mk ⟨.program strict prologue, span⟩ body),
      n.isAccess → m.isSubject → n.span ≠ m.span
  /-- What is assigned to is an assignment target. -/
  assigned : ∀ n ∈ Node.subtrees (.mk ⟨.program strict prologue, span⟩ body),
    ∀ t ∈ n.targets, t.isTarget

def Script.root (s : Script) : Node := .mk ⟨.program s.strict s.prologue, s.span⟩ s.body

/-! ## Requests of the rewriter -/

/-- How a script is run. -/
inductive ScriptKind where
  | classic
  | module
  | eventHandler
  | eval
  | function
  | worker
  /-- A direct `eval` inside a function: a classic script whose top-level `this` is
      the caller's. -/
  | classicLocal
  deriving DecidableEq

/-- What the rewriter is told. -/
structure RewriteOpts where
  /-- The kind of the script. -/
  kind : ScriptKind
  /-- The URL of the document or script in the target site. -/
  targetUrl : Text
  /-- The proxy's origin. -/
  proxyOrigin : Text
  deriving DecidableEq

end ZeroProxy.Rewriter
