import ZeroProxy.Rewriter.Syntax
import ZeroProxy.Splice.Scan
import ZeroProxy.Text.Search

/-!
# Applying patches

The visitor leaves a list of patches: a span of the source, and the text that replaces it.
A text that begins with U+0001 is a *marker*, the name of a form and its fields, with
U+0001 around each. Some fields are positions of the source, in pairs: what stands there is
rendered, with the patches that lie in it, and put into the form. `applyPatches` renders a
range of the source as a text of its own, so the positions in the markers are shifted on
the way down.
-/

namespace ZeroProxy.Rewriter.Render

open Text

/-! ## Markers -/

def lit (s : String) : Text := s.toList

def sep : Char := '\x01'

/-- The forms of markers. -/
inductive Tag where
  | globalGet | shorthandGlobalGet | thisMap | globalSet | globalAssign | globalUpdate
  | globalDestr | memberGet | memberRef | memberRefStmt | memberSet | memberA | memberAStmt
  | methodCall | moduleUrl | varSet | varWset | wtref | wtrefStmt | withObj | withSet
  | withAssign | cget | cset | cassign | cassignStmt | cref | crefStmt | oget | ocall | ccall
  | deval | rget | rset | gopd | gopds | gown | okeys | rhas | rowk | cdele | sdele | forCap
  | ochain
  deriving DecidableEq

namespace Tag

/-- All forms. -/
def all : List Tag :=
  [globalGet, shorthandGlobalGet, thisMap, globalSet, globalAssign, globalUpdate, globalDestr,
    memberGet, memberRef, memberRefStmt, memberSet, memberA, memberAStmt, methodCall, moduleUrl,
    varSet, varWset, wtref, wtrefStmt, withObj, withSet, withAssign, cget, cset, cassign,
    cassignStmt, cref, crefStmt, oget, ocall, ccall, deval, rget, rset, gopd, gopds, gown, okeys,
    rhas, rowk, cdele, sdele, forCap, ochain]

def name : Tag → Text
  | globalGet => lit "GLOBAL_GET"
  | shorthandGlobalGet => lit "SHORTHAND_GLOBAL_GET"
  | thisMap => lit "THIS_MAP"
  | globalSet => lit "GLOBAL_SET"
  | globalAssign => lit "GLOBAL_ASSIGN"
  | globalUpdate => lit "GLOBAL_UPDATE"
  | globalDestr => lit "GLOBAL_DESTR"
  | memberGet => lit "MEMBER_GET"
  | memberRef => lit "MEMBER_REF"
  | memberRefStmt => lit "MEMBER_REF_STMT"
  | memberSet => lit "MEMBER_SET"
  | memberA => lit "MEMBER_A"
  | memberAStmt => lit "MEMBER_A_STMT"
  | methodCall => lit "METHOD_CALL"
  | moduleUrl => lit "MODULE_URL"
  | varSet => lit "VAR_SET"
  | varWset => lit "VAR_WSET"
  | wtref => lit "WTREF"
  | wtrefStmt => lit "WTREF_STMT"
  | withObj => lit "WITH_OBJ"
  | withSet => lit "WITH_SET"
  | withAssign => lit "WITH_ASSIGN"
  | cget => lit "CGET"
  | cset => lit "CSET"
  | cassign => lit "CASSIGN"
  | cassignStmt => lit "CASSIGN_STMT"
  | cref => lit "CREF"
  | crefStmt => lit "CREF_STMT"
  | oget => lit "OGET"
  | ocall => lit "OCALL"
  | ccall => lit "CCALL"
  | deval => lit "DEVAL"
  | rget => lit "RGET"
  | rset => lit "RSET"
  | gopd => lit "GOPD"
  | gopds => lit "GOPDS"
  | gown => lit "GOWN"
  | okeys => lit "OKEYS"
  | rhas => lit "RHAS"
  | rowk => lit "ROWK"
  | cdele => lit "CDELE"
  | sdele => lit "SDELE"
  | forCap => lit "FOR_CAP"
  | ochain => lit "OCHAIN"

/-- The parts of a marker that are positions. -/
def shiftIndices : Tag → List Nat
  | globalSet | withObj | withSet | forCap => [3, 4]
  | globalAssign | varSet | varWset | withAssign => [4, 5]
  | memberGet | memberRef | memberRefStmt | moduleUrl | deval | gopds | gown | okeys | rowk
  | sdele | ochain => [2, 3]
  | memberSet | methodCall | oget => [2, 3, 5, 6]
  | memberA | memberAStmt => [2, 3, 6, 7]
  | cget | cref | crefStmt | gopd | rhas | cdele => [2, 3, 4, 5]
  | cset | ccall => [2, 3, 4, 5, 6, 7]
  | cassign | cassignStmt | rget => [2, 3, 4, 5, 7, 8]
  | ocall => [2, 3, 6, 7, 8, 9]
  | rset => [2, 3, 4, 5, 6, 7, 9, 10]
  | globalGet | shorthandGlobalGet | thisMap | globalUpdate | globalDestr | wtref | wtrefStmt => []

def opens (t : Tag) (replacement : Text) : Bool := (sep :: t.name ++ [sep]).isPrefixOf replacement

end Tag

def tagOf (replacement : Text) : Option Tag := Tag.all.find? (·.opens replacement)

def partsOf (replacement : Text) : List Text := split (· == sep) replacement

/-- A position `offset` further to the left; other texts stay. -/
def shiftNumber (offset : Nat) (s : Text) : Text :=
  match parseU32 s with
  | some v => numeral (v - offset)
  | none => s

/-- A part of a marker, moved. The splits of `OCHAIN` are packed: all their members but the
    first may be positions. -/
def shiftPart (offset : Nat) (t : Tag) (i : Nat) (s : Text) : Text :=
  if i ∈ t.shiftIndices then shiftNumber offset s
  else if t = .ochain ∧ 4 ≤ i ∧ ',' ∈ s then
    joined ',' ((split (· == ',') s).mapIdx fun j f => if j = 0 then f else shiftNumber offset f)
  else s

def shiftMarkerPositions (replacement : Text) (offset : Nat) : Text :=
  match tagOf replacement with
  | some t => joined sep ((partsOf replacement).mapIdx (shiftPart offset t))
  | none => replacement

/-! ## Forms -/

section Forms

-- `{:?}` of a string.
variable (quote : Text → Text)

/-- `__zp_get(globalThis, name)`. -/
def getGlobal (name : Text) : Text := lit "__zp_get(globalThis," ++ quote name ++ lit ")"

/-- `__zp_set(globalThis, name, (value))`. -/
def setGlobal (name value : Text) : Text :=
  lit "__zp_set(globalThis," ++ quote name ++ lit ",(" ++ value ++ lit "))"

/-- A compound assignment to a global: `bin` is the operator without its `=`. -/
def assignGlobal (name op : Text) (logical : Bool) (value : Text) : Text :=
  let bin := op.dropLast
  if logical then
    lit "(" ++ getGlobal quote name ++ bin ++ setGlobal quote name value ++ lit ")"
  else
    lit "__zp_set(globalThis," ++ quote name ++ lit "," ++ getGlobal quote name ++ bin ++
      lit "(" ++ value ++ lit "))"

/-- `__zp_update(globalThis, name, op, prefix)`. -/
def updateGlobal (name op : Text) (pre : Bool) : Text :=
  lit "__zp_update(globalThis," ++ quote name ++ lit "," ++ quote op ++ lit "," ++
    (if pre then lit "true" else lit "false") ++ lit ")"

/-- `with_d_chain`: the write target of a name inside `with` bodies. -/
def withDChain (temps : List Text) (name : Text) : Text :=
  temps.foldl (fun e t =>
    lit "__zp_with_d(" ++ t ++ lit "," ++ quote name ++ lit "," ++ e ++ lit ")")
    (lit "__zp_get.d")

/-- `with_set_chain`: a write inside `with` bodies. -/
def withSetChain (temps : List Text) (name value : Text) : Text :=
  temps.foldl (fun e t =>
    lit "__zp_with_set(" ++ t ++ lit "," ++ quote name ++ lit ",(" ++ value ++
      lit "),(v)=>(" ++ e ++ lit "))")
    (setGlobal quote name value)

/-- `with_assign_chain`: a compound write inside `with` bodies. -/
def withAssignChain (temps : List Text) (name op value : Text) : Text :=
  temps.foldl (fun e t =>
    lit "__zp_with_assign(" ++ t ++ lit "," ++ quote name ++ lit "," ++ quote op ++
      lit "," ++ value ++ lit ",()=>(" ++ e ++ lit "))")
    (lit "__zp_assign(globalThis," ++ quote name ++ lit "," ++ quote op ++ lit "," ++
      value ++ lit ")")

/-- A shorthand destructuring target, outside `with` bodies or inside. -/
def destrTarget (name : Text) (chain : Option (List Text)) : Text :=
  name ++ lit ": " ++
    match chain with
    | some temps => withDChain quote temps name ++ lit ".v"
    | none => lit "__zp_get.d." ++ name

/-- `__zp_get(obj, prop)`. -/
def getMember (obj prop : Text) : Text :=
  lit "__zp_get(" ++ obj ++ lit "," ++ quote prop ++ lit ")"

def memberAdapter (obj prop : Text) : Text :=
  lit "(\x7bb:(" ++ obj ++ lit "),get v()\x7breturn __zp_get(this.b," ++ quote prop ++
    lit ")\x7d,set v(v)\x7b__zp_set(this.b," ++ quote prop ++ lit ",v)\x7d\x7d).v"

def computedAdapter (obj key : Text) : Text :=
  lit "(\x7bb:(" ++ obj ++ lit "),k:(" ++ key ++
    lit "),get v()\x7breturn __zp_get(this.b,this.k)\x7d,set v(v)\x7b__zp_set(this.b,this.k,v)\x7d\x7d).v"

/-- `__zp_set(obj, prop, value)`. -/
def setMember (obj prop value : Text) : Text :=
  lit "__zp_set(" ++ obj ++ lit "," ++ quote prop ++ lit "," ++ value ++ lit ")"

/-- `__zp_call(obj, method, [args])`. -/
def callMethod (obj method args : Text) : Text :=
  lit "__zp_call(" ++ obj ++ lit "," ++ quote method ++ lit ",[" ++ args ++ lit "])"

/-- `helper((a),(b),…)`. -/
def helperCall (helper : Text) (args : List Text) : Text :=
  helper ++ lit "(" ++ joined ',' (args.map fun a => lit "(" ++ a ++ lit ")") ++ lit ")"

/-- `__zp_module_url(source, "target")`. -/
def moduleUrlCall (source target : Text) : Text :=
  lit "__zp_module_url(" ++ source ++ lit ",\"" ++ target ++ lit "\")"

/-- The declarator of a `var` that is written elsewhere. -/
def varDeclarator (tmp written : Text) : Text :=
  tmp ++ lit "=(" ++ written ++ lit ",void 0)"

/-- The three temporaries of a guard group. The numbers have 32 bits. -/
def guardTemps (group : Nat) : Option (Text × Text × Text) :=
  if group = 0 then none
  else
    let temp n := lit "__zp_t_" ++ numeral (n % 4294967296)
    some (temp (group * 3 + 4294967294), temp (group * 3 + 4294967295), temp (group * 3))

def computedGet (group : Nat) (obj key : Text) : Text :=
  match guardTemps group with
  | some (a, b, _) =>
    lit "(" ++ a ++ lit "=(0," ++ obj ++ lit ")," ++ b ++ lit "=(0," ++ key ++
      lit "),__zp_fast(" ++ a ++ lit "," ++ b ++ lit ")?" ++ a ++ lit "[" ++ b ++
      lit "]:__zp_get(" ++ a ++ lit "," ++ b ++ lit "))"
  | none => helperCall (lit "__zp_get") [obj, key]

def computedSet (group : Nat) (obj key value : Text) : Text :=
  match guardTemps group with
  | some (a, b, c) =>
    lit "(" ++ a ++ lit "=(0," ++ obj ++ lit ")," ++ b ++ lit "=(0," ++ key ++
      lit ")," ++ c ++ lit "=(0," ++ value ++ lit "),__zp_fastset(" ++ a ++ lit "," ++
      b ++ lit ")?" ++ a ++ lit "[" ++ b ++ lit "]=" ++ c ++ lit ":__zp_set(" ++ a ++
      lit "," ++ b ++ lit "," ++ c ++ lit "))"
  | none => helperCall (lit "__zp_set") [obj, key, value]

/-- The temporaries of a computed call: its arguments are copied, so only short ones
    without guards of their own. -/
def callGuard (group : Nat) (args : Text) : Option (Text × Text × Text) :=
  (guardTemps group).filter fun _ => utf8Len args ≤ 512 && !contains args (lit "__zp_t_")

def computedCall (group : Nat) (obj key args : Text) : Text :=
  match callGuard group args with
  | some (a, b, _) =>
    lit "(" ++ a ++ lit "=(0," ++ obj ++ lit ")," ++ b ++ lit "=(0," ++ key ++
      lit "),__zp_fast(" ++ a ++ lit "," ++ b ++ lit ")?" ++ a ++ lit "[" ++ b ++
      lit "](" ++ args ++ lit "):__zp_call(" ++ a ++ lit "," ++ b ++ lit ",[" ++ args ++
      lit "]))"
  | none => lit "__zp_call((" ++ obj ++ lit ")," ++ key ++ lit ",[" ++ args ++ lit "])"

/-- An optional read. The key is quoted, or has its parentheses. -/
def optionalGet (obj key : Text) : Text :=
  lit "__zp_oget((" ++ obj ++ lit ")," ++ key ++ lit ")"

def optionalCall (obj key args : Text) (flags : Nat) : Text :=
  lit "__zp_ocall((" ++ obj ++ lit ")," ++ key ++ lit ",[" ++ args ++ lit "]," ++
    numeral flags ++ lit ")"

def directEval (args desc : Text) (strict : Text) : Text :=
  lit "__zp_eval.call(this,__zp_get(globalThis,\"eval\"),[" ++ args ++ lit "]," ++ desc ++
    lit "," ++ strict ++ lit ")"

/-- The test of a loop without one, after the first semicolon of its header. -/
def cappedHeader (counter mid : Text) (semi : Nat) : Text :=
  mid.take (semi + 1) ++ counter ++
    lit "++<10000000||(console.warn('[ZeroProxy] infinite-loop cap reached'),false)" ++
    mid.drop (semi + 1)

/-- One step of an optional chain: the base, and what is made of it. -/
def chainStep (base acc : Text) : Text :=
  lit "__zp_ochain((" ++ base ++ lit "),__zp_oc=>" ++ acc ++ lit ")"

def chainCallee (obj key : Text) : Text :=
  lit "__zp_ocallv((" ++ obj ++ lit ")," ++ key ++ lit ")"

end Forms

/-! ## The place of a patch -/

def isWordChar (c : Char) : Bool := isAsciiAlnum c || c == '_' || c == '$'

/-- A call in this place, after the text `lead`, needs parentheses: it would join a word,
    or become the constructor of a `new`. -/
def needsParenPrefix (lead : Text) : Bool :=
  match lead.reverse with
  | [] => false
  | c :: before =>
    isWordChar c ||
      match (c :: before).dropWhile fun d => d == ' ' || d == '\t' || d == '\n' || d == '\r' with
      | 'w' :: 'e' :: 'n' :: rest => !(rest.head?.any isWordChar)
      | _ => false

/-- What a form at the head of a statement begins with. It must not join the token before
    it. -/
def stmtZero (lead : Text) : Text :=
  if lead.getLast?.any fun c => isWordChar c || 0x80 ≤ c.toNat then lit " 0," else lit "0,"

/-- The text, in parentheses where it needs them. -/
def parenthesised (lead e : Text) : Text :=
  if needsParenPrefix lead then lit "(" ++ e ++ lit ")" else e

def atStatement (stmt : Bool) (lead e : Text) : Text :=
  if stmt then stmtZero lead ++ e else parenthesised lead e

/-! ## Resolving a marker -/

/-- Where a marker is resolved. -/
structure Env where
  /-- The length of the source. -/
  len : Nat
  /-- The source before the patch. -/
  lead : Text
  /-- The span of the patch. -/
  start : Nat
  stop : Nat
  /-- `rewrite_range`: a range of the source, with the patches in it. -/
  range : Nat → Nat → Text
  /-- `rewrite_range_ov`: the same, with a range in it that stands for `__zp_oc`. -/
  rangeOv : Nat → Nat → Option (Nat × Nat) → Text

section Resolve

variable (quote : Text → Text) (env : Env) (parts : List Text)

def part (i : Nat) : Text := parts.getD i []

def num (i : Nat) : Nat := (parseU32 (part parts i)).getD 0

/-- The range between two positions, if it is a range of the source. -/
def ranged (s e : Nat) : Option Text := if s < e ∧ e ≤ env.len then some (env.range s e) else none

def spanAt (i : Nat) : Option Text := ranged env (num parts i) (num parts (i + 1))

def argsAt (i : Nat) : Text := (spanAt env parts i).getD []

/-- The range given by two parts that must be numbers. -/
def strictSpanAt (i : Nat) : Option Text := do
  let s ← parseU32 (part parts i)
  let e ← parseU32 (part parts (i + 1))
  ranged env s e

def objOnly : Option Text := if parts.length < 4 then none else strictSpanAt env parts 2

def objKey : Option (Text × Text) :=
  if parts.length < 6 then none
  else do
    let obj ← strictSpanAt env parts 2
    let key ← strictSpanAt env parts 4
    some (obj, key)

/-- `guard_fields`: the group of temporaries, and whether the form starts a statement. -/
def guardFields (i : Nat) : Nat × Bool := (num parts i, parts[i + 1]? == some ['S'])

/-- The temporaries of a chain of `with` statements. -/
def chainTemps (chain : Text) : List Text := (split (· == '\x02') chain).filter (!·.isEmpty)

def zeroIf (stmt : Bool) : Text := if stmt then stmtZero env.lead else []

def isOne (i : Nat) : Bool := part parts i == ['1']

/-- A helper of one argument. -/
def resolveObj (helper : Text) : Option Text :=
  (objOnly env parts).map fun obj => helperCall helper [obj]

/-- A helper of two arguments. -/
def resolveObjKey (helper : Text) : Option Text :=
  (objKey env parts).map fun (obj, key) => helperCall helper [obj, key]

def resolveMemberRef (stmt : Bool) : Option Text :=
  if parts.length < 6 then none
  else (spanAt env parts 2).map fun obj =>
    zeroIf env stmt ++ memberAdapter quote obj (part parts 4)

def resolveMemberSet : Option Text :=
  if parts.length < 8 then none
  else if num parts 2 < num parts 3 ∧ num parts 5 ≤ num parts 6 ∧ num parts 6 ≤ env.len then
    some (parenthesised env.lead (setMember quote (env.range (num parts 2) (num parts 3))
      (part parts 4) (env.range (num parts 5) (num parts 6))))
  else none

def resolveMethodCall : Option Text :=
  if parts.length < 8 then none
  else if num parts 2 < num parts 3 then
    some (parenthesised env.lead (callMethod quote (env.range (num parts 2) (num parts 3))
      (part parts 4) (argsAt env parts 5)))
  else none

/-- `VAR_SET` and `VAR_WSET`. -/
def resolveVar (inWith : Bool) : Option Text :=
  if parts.length < 7 then none
  else (spanAt env parts 4).map fun value =>
    varDeclarator (part parts 2)
      (if inWith && 8 ≤ parts.length then
        withSetChain quote (chainTemps (part parts 6)) (part parts 3) value
      else setGlobal quote (part parts 3) value)

def resolveWtref (stmt : Bool) : Option Text :=
  if parts.length < 5 then none
  else some (zeroIf env stmt ++ withDChain quote (chainTemps (part parts 2)) (part parts 3) ++
    lit ".v")

def resolveCget : Option Text :=
  (objKey env parts).map fun (obj, key) =>
    let (group, stmt) := guardFields parts 6
    atStatement (0 < group && stmt) env.lead (computedGet group obj key)

def resolveCset : Option Text := do
  let (obj, key) ← objKey env parts
  let value ← if parts.length < 8 then none else strictSpanAt env parts 6
  let (group, stmt) := guardFields parts 8
  some (atStatement (0 < group && stmt) env.lead (computedSet group obj key value))

def resolveCassign (stmt : Bool) : Option Text :=
  if parts.length < 11 then none
  else do
    let (obj, key) ← objKey env parts
    let value ← spanAt env parts 7
    let e := computedAdapter obj key ++ part parts 6 ++ lit "(" ++ value ++ lit ")"
    some (if needsParenPrefix env.lead then lit "(" ++ e ++ lit ")" else zeroIf env stmt ++ e)

def resolveMemberA (stmt : Bool) : Option Text :=
  if parts.length < 10 then none
  else if num parts 2 < num parts 3 ∧ num parts 6 < num parts 7 ∧ num parts 7 ≤ env.len then
    let e := memberAdapter quote (env.range (num parts 2) (num parts 3)) (part parts 4) ++
      part parts 5 ++ lit "(" ++ env.range (num parts 6) (num parts 7) ++ lit ")"
    some (if needsParenPrefix env.lead then lit "(" ++ e ++ lit ")" else zeroIf env stmt ++ e)
  else none

def resolveCref (stmt : Bool) : Option Text :=
  (objKey env parts).map fun (obj, key) => zeroIf env stmt ++ computedAdapter obj key

/-- A key in parentheses, or nothing. -/
def keyAt (i : Nat) : Text :=
  match spanAt env parts i with
  | some key => lit "(" ++ key ++ lit ")"
  | none => []

def resolveOget : Option Text :=
  if parts.length < 6 then none
  else (spanAt env parts 2).bind fun obj =>
    let key :=
      if part parts 4 = ['L'] then quote (part parts 5)
      else if part parts 4 = ['E'] ∧ 8 ≤ parts.length then keyAt env parts 5
      else []
    if key.isEmpty then none else some (parenthesised env.lead (optionalGet obj key))

/-- `OCALL`: the key, and where the arguments are. -/
def ocallKey : Text × Nat :=
  if part parts 5 = ['L'] then (quote (part parts 6), 7)
  else if 9 < parts.length then (keyAt env parts 6, 8)
  else ([], 0)

def resolveOcall : Option Text :=
  if parts.length < 7 then none
  else (spanAt env parts 2).bind fun obj =>
    let flags := ((parseU32 (part parts 4)).filter (· < 256)).getD 0
    let (key, ai) := ocallKey quote env parts
    if !key.isEmpty && ai + 1 < parts.length then
      some (parenthesised env.lead (optionalCall obj key (argsAt env parts ai) flags))
    else none

def resolveCcall : Option Text :=
  if parts.length < 7 then none
  else (spanAt env parts 2).bind fun obj =>
    let key := keyAt env parts 4
    if !key.isEmpty && 7 < parts.length then
      let args := argsAt env parts 6
      let (group, stmt) := guardFields parts 8
      some (atStatement ((callGuard group args).isSome && stmt) env.lead
        (computedCall group obj key args))
    else none

/-- `DEVAL`. The descriptor is what is left after the sixth separator. -/
def resolveDeval : Option Text :=
  if parts.length < 7 then none
  else
    let strict :=
      if isOne parts 5 && part parts 4 == ['0'] then part parts 4 ++ lit ",1" else part parts 4
    let desc := trimEndMatches sep (joined sep (parts.drop 6))
    some (parenthesised env.lead (directEval (argsAt env parts 2) desc strict))

/-- The receiver of `Reflect.get` and `Reflect.set`, if there is one. -/
def receiverAt (i : Nat) : List Text :=
  if isOne parts i then (spanAt env parts (i + 1)).toList else []

def resolveRget : Option Text :=
  (objKey env parts).bind fun (obj, key) =>
    if parts.length < 10 then none
    else some (parenthesised env.lead
      (helperCall (lit "__zp_rget") (obj :: key :: receiverAt env parts 6)))

def resolveRset : Option Text :=
  (objKey env parts).bind fun (obj, key) =>
    if parts.length < 12 then none
    else (spanAt env parts 6).map fun value =>
      parenthesised env.lead
        (helperCall (lit "__zp_rset") (obj :: key :: value :: receiverAt env parts 8))

def resolveCdele : Option Text :=
  resolveObjKey env parts
    (if parts[6]? == some ['1'] then lit "__zp_odelete" else lit "__zp_delete")

def resolveSdele : Option Text :=
  if parts.length < 7 then none
  else (spanAt env parts 2).map fun obj =>
    (if isOne parts 5 then lit "__zp_odelete" else lit "__zp_delete") ++ lit "((" ++ obj ++
      lit ")," ++ quote (part parts 4) ++ lit ")"

def resolveForCap : Option Text :=
  if parts.length < 6 then none
  else (spanAt env parts 3).bind fun mid =>
    (find [';'] mid).map fun semi => cappedHeader (part parts 2) mid semi

/-! ### Optional chains -/

def member? (f : List Text) (i : Nat) : Option Nat := f[i]?.bind parseU32

def splitEnd (f : List Text) : Option Nat :=
  if f.head? = some ['M'] ∨ f.head? = some ['P'] then member? f 1
  else if f.head? = some ['S'] ∨ f.head? = some ['K'] then member? f 2
  else none

/-- The base of a split; what is before `prev` is `__zp_oc`. -/
def splitBase (cs : Nat) (prev : Option (Nat × Nat)) (stop : Nat) (f : List Text) : Option Text :=
  if f.head? = some ['M'] ∨ f.head? = some ['P'] then some (env.rangeOv cs stop prev)
  else if f.head? = some ['S'] then do
    let oe ← member? f 1
    let name ← f[3]?
    some (chainCallee (env.rangeOv cs oe prev) (quote name))
  else if f.head? = some ['K'] then do
    let oe ← member? f 1
    let ks ← member? f 3
    let ke ← member? f 4
    if ks < ke ∧ ke ≤ env.len then
      some (chainCallee (env.rangeOv cs oe prev) (lit "(" ++ env.range ks ke ++ lit ")"))
    else none
  else none

/-- The splits of a chain, each with its end and what the one before it leaves. -/
def splitBases (cs : Nat) : Option (Nat × Nat) → List (List Text × Nat) → Option (List Text)
  | _, [] => some []
  | prev, (f, stop) :: splits => do
    let base ← splitBase quote env cs prev stop f
    let bases ← splitBases cs (some (cs, stop)) splits
    some (base :: bases)

/-- A chain, if the marker is well formed. -/
def renderChain : Option Text := do
  let splits := ((parts.drop 4).filter (!·.isEmpty)).map fun s => split (· == ',') s
  let cs ← member? parts 2
  let ce ← member? parts 3
  let ends ← splits.mapM splitEnd
  if cs ≥ ce ∨ ce > env.len then none
  else do
    let last ← ends.getLast?
    let bases ← splitBases quote env cs none (splits.zip ends)
    some (bases.foldr chainStep (env.rangeOv cs ce (some (cs, last))))

def resolveOchain : Text :=
  match renderChain quote env parts with
  | some acc => parenthesised env.lead acc
  | none => env.range env.start env.stop

/-- The text a marker stands for; `none` if it is malformed. -/
def resolve (t : Tag) : Option Text :=
  match t with
  | .globalGet =>
    if parts.length < 4 then none else some (parenthesised env.lead (getGlobal quote (part parts 2)))
  | .shorthandGlobalGet =>
    if parts.length < 4 then none
    else some (part parts 2 ++ lit ":" ++ getGlobal quote (part parts 2))
  | .thisMap =>
    if parts = [[], Tag.thisMap.name, []] then some (parenthesised env.lead (lit "__zp_this(this)"))
    else none
  | .globalSet =>
    if parts.length < 6 then none
    else (spanAt env parts 3).map fun value => setGlobal quote (part parts 2) value
  | .globalAssign =>
    if parts.length < 8 then none
    else (spanAt env parts 4).map fun value =>
      assignGlobal quote (part parts 2) (part parts 3) (isOne parts 6) value
  | .globalUpdate =>
    if parts.length < 6 then none
    else some (updateGlobal quote (part parts 2) (part parts 3) (isOne parts 4))
  | .globalDestr =>
    if parts.length < 4 then none
    else some (destrTarget quote (part parts 2)
      (if 5 ≤ parts.length ∧ part parts 3 ≠ [] then some (chainTemps (part parts 3)) else none))
  | .memberGet =>
    if parts.length < 6 then none
    else (spanAt env parts 2).map fun obj =>
      parenthesised env.lead (getMember quote obj (part parts 4))
  | .memberRef => resolveMemberRef quote env parts false
  | .memberRefStmt => resolveMemberRef quote env parts true
  | .memberSet => resolveMemberSet quote env parts
  | .memberA => resolveMemberA quote env parts false
  | .memberAStmt => resolveMemberA quote env parts true
  | .methodCall => resolveMethodCall quote env parts
  | .moduleUrl =>
    if parts.length < 6 then none
    else (spanAt env parts 2).map fun source => moduleUrlCall source (part parts 4)
  | .varSet => resolveVar quote env parts false
  | .varWset => resolveVar quote env parts true
  | .wtref => resolveWtref quote env parts false
  | .wtrefStmt => resolveWtref quote env parts true
  | .withObj =>
    if parts.length < 6 then none
    else (spanAt env parts 3).map fun obj => part parts 2 ++ lit "=(" ++ obj ++ lit ")"
  | .withSet =>
    if parts.length < 7 then none
    else (spanAt env parts 3).map fun value =>
      withSetChain quote (chainTemps (part parts 5)) (part parts 2) value
  | .withAssign =>
    if parts.length < 9 then none
    else (spanAt env parts 4).map fun value =>
      withAssignChain quote (chainTemps (part parts 7)) (part parts 2) (part parts 3)
        (lit "()=>(" ++ value ++ lit ")")
  | .cget => resolveCget env parts
  | .cset => resolveCset env parts
  | .cassign => resolveCassign env parts false
  | .cassignStmt => resolveCassign env parts true
  | .cref => resolveCref env parts false
  | .crefStmt => resolveCref env parts true
  | .oget => resolveOget quote env parts
  | .ocall => resolveOcall quote env parts
  | .ccall => resolveCcall env parts
  | .deval => resolveDeval env parts
  | .rget => resolveRget env parts
  | .rset => resolveRset env parts
  | .gopd => resolveObjKey env parts (lit "__zp_getOwnPropertyDescriptor")
  | .gopds => resolveObj env parts (lit "__zp_getOwnPropertyDescriptors")
  | .gown => resolveObj env parts (lit "__zp_getOwnPropertyNames")
  | .okeys => resolveObj env parts (lit "__zp_okeys")
  | .rhas => resolveObjKey env parts (lit "__zp_has")
  | .rowk => resolveObj env parts (lit "__zp_ownKeys")
  | .cdele => resolveCdele env parts
  | .sdele => resolveSdele quote env parts
  | .forCap => resolveForCap env parts
  | .ochain => some (resolveOchain quote env parts)

end Resolve

/-! ## Applying patches -/

/-- A patch: the text that replaces a span of the source. -/
structure TextPatch where
  start : Nat
  stop : Nat
  replacement : Text
  deriving DecidableEq

/-- A patch that lies in a range, with its positions counted from `offset`. -/
def TextPatch.shift (offset : Nat) (p : TextPatch) : TextPatch :=
  ⟨p.start - offset, p.stop - offset, shiftMarkerPositions p.replacement offset⟩

/-- `inner_patches`: the patches in the range, other than the one with the index `k`, `p`,
    and insertions at its edges. -/
def innerPatches (patches : List TextPatch) (p : TextPatch) (k s e : Nat) : List TextPatch :=
  (patches.zipIdx.filter fun (q, j) => s ≤ q.start && q.stop ≤ e && j != k &&
    !(q.start == q.stop && (q.start == p.start || q.start == p.stop))).map fun q => q.1.shift s

/-- The patch for a range that stands for `__zp_oc`. -/
def chainPatch (s os oe : Nat) : TextPatch := ⟨os - s, oe - s, lit "__zp_oc"⟩

section Apply

variable (quote : Text → Text) (apply : Text → List TextPatch → Text) (source : Text)
  (patches : List TextPatch) (p : TextPatch × Nat)

/-- `rewrite_range`: a range that the patch `p` copies, rendered by `apply` with the patches
    in it. -/
def rewriteRange (s e : Nat) : Text :=
  if s ≥ e ∨ e > source.length then []
  else if (innerPatches patches p.1 p.2 s e).isEmpty then (source.take e).drop s
  else apply ((source.take e).drop s) (innerPatches patches p.1 p.2 s e)

/-- `rewrite_range_ov`: the same, where a range in it stands for `__zp_oc`. -/
def rewriteRangeOv (s e : Nat) (ov : Option (Nat × Nat)) : Text :=
  match ov.filter fun (os, oe) => s ≤ os && os < oe && oe ≤ e with
  | none => rewriteRange apply source patches p s e
  | some (os, oe) =>
    if e > source.length then []
    else apply ((source.take e).drop s) (chainPatch s os oe :: innerPatches patches p.1 p.2 s e)

/-- Where the patch `p` is resolved. -/
def patchEnv : Env :=
  ⟨source.length, source.take p.1.start, p.1.start, p.1.stop,
    rewriteRange apply source patches p, rewriteRangeOv apply source patches p⟩

/-- What the patch `p` puts out. -/
def emitPatch : Text :=
  match tagOf p.1.replacement with
  | some t =>
    (resolve quote (patchEnv apply source patches p) (partsOf p.1.replacement) t).getD
      p.1.replacement
  | none => p.1.replacement

/-- `apply_patches`, up to `fuel` levels of markers in markers. -/
def applyFuel : Nat → Text → List TextPatch → Text
  | 0, source, _ => source
  | fuel + 1, source, patches =>
    let start (p : TextPatch × Nat) := p.1.start
    let stop (p : TextPatch × Nat) := p.1.stop
    Splice.splice start stop source (emitPatch quote (applyFuel fuel) source patches) 0
      (Splice.choose start stop 0 (Splice.sort start stop patches.zipIdx))

/-- `apply_patches`. A patch is not among the patches of the ranges it copies, so there are
    at most as many levels as patches. -/
def applyPatches (source : Text) (patches : List TextPatch) : Text :=
  applyFuel quote (patches.length + 1) source patches

end Apply

end ZeroProxy.Rewriter.Render
