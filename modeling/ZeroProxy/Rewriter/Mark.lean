import ZeroProxy.Rewriter.MarkerText
import ZeroProxy.Rewriter.Names

/-!
# Markers as data

A marker is a form with its names, spans and flags, and the text of a patch is written from
it. `apply_patches` only sees the text. The last part is about the operand of a `new` in the text
that a form is written as.
-/

namespace ZeroProxy.Rewriter.Render

section

open List Option Text

/-! ## Spans and portions -/

/-- A span with its positions counted from `a`. -/
def shiftSpan (a : Nat) (s : Span) : Span := ⟨s.start - a, s.stop - a⟩

def Within (p s : Span) : Prop := p.start ≤ s.start ∧ s.start < s.stop ∧ s.stop ≤ p.stop

/-- A portion of the source. Up to `head` it stands for `__zp_oc`. -/
structure Portion where
  head : Option Nat
  start : Nat
  stop : Nat
  deriving DecidableEq

namespace Portion

def ofSpan (s : Span) : Portion := ⟨none, s.start, s.stop⟩

/-- A portion with its positions counted from `a`. -/
def shift (a : Nat) (r : Portion) : Portion := ⟨r.head.map (· - a), r.start - a, r.stop - a⟩

/-- A portion that is not empty, within a span. -/
def Wf (p : Span) (r : Portion) : Prop :=
  Within p ⟨r.start, r.stop⟩ ∧ ∀ h ∈ r.head, r.start < h ∧ h ≤ r.stop

end Portion

/-! ## Optional chains -/

/-- A key with its positions counted from `a`. -/
def shiftKey (a : Nat) : ChainKey → ChainKey
  | .name n => .name n
  | .expr s => .expr (shiftSpan a s)

/-- A split with its positions counted from `a`. -/
def shiftSplit (a : Nat) : ChainSplit → ChainSplit
  | .member e => .member (e - a)
  | .plain e => .plain (e - a)
  | .method o key e call => .method (o - a) (shiftKey a key) (e - a) (shiftSpan a call)

def splitMembers : ChainSplit → List Text
  | .member e => [['M'], numeral e]
  | .plain e => [['P'], numeral e]
  | .method o (.name n) e _ => [['S'], numeral o, numeral e, n]
  | .method o (.expr k) e _ => [['K'], numeral o, numeral e, numeral k.start, numeral k.stop]

/-- The end of what a split evaluates first: its base, or the object of its callee. -/
def splitObjStop : ChainSplit → Nat
  | .member e => e
  | .plain e => e
  | .method o _ _ _ => o

/-- The portion of the source that a split evaluates first. -/
def splitPortion (start : Nat) (prev : Option Nat) (s : ChainSplit) : Portion :=
  ⟨prev, start, splitObjStop s⟩

def keyPortion : ChainSplit → List Portion
  | .method _ (.expr k) _ _ => [.ofSpan k]
  | _ => []

def SplitWf (p : Span) : ChainSplit → Prop
  | .member e => p.start ≤ e ∧ e ≤ p.stop
  | .plain e => p.start ≤ e ∧ e ≤ p.stop
  | .method o key e _ => p.start ≤ o ∧ o ≤ p.stop ∧ p.start ≤ e ∧ e ≤ p.stop ∧
    match key with
    | .name n => sep ∉ n ∧ ',' ∉ n ∧ parseU32 n = none
    | .expr k => Within p k

/-- The splits come in order, from `i` to `stop`. -/
def Ordered (stop : Nat) : Nat → List ChainSplit → Prop
  | i, [] => i ≤ stop
  | i, s :: ss => i ≤ splitObjStop s ∧ splitObjStop s ≤ s.baseEnd ∧ Ordered stop s.baseEnd ss

/-! ## Fields -/

/-- A field of a marker. -/
inductive Field where
  /-- A name, an operator or some other text. -/
  | word (w : Text)
  /-- A name where other markers of the form have a position. -/
  | key (w : Text)
  | count (n : Nat)
  | flag (b : Bool)
  | temps (ts : List Text)
  | span (s : Span)
  | args (s : Option Span)
  | split (s : ChainSplit)
  deriving DecidableEq

namespace Field

/-- The parts of the marker a field is written as. -/
def texts : Field → List Text
  | word w => [w]
  | key w => [w]
  | count n => [numeral n]
  | flag b => [if b then ['1'] else ['0']]
  | temps ts => [joined '\x02' ts]
  | span s => [numeral s.start, numeral s.stop]
  | args s => [numeral ((s.map Span.start).getD 0), numeral ((s.map Span.stop).getD 0)]
  | split s => [joined ',' (splitMembers s)]

/-- A field with its positions counted from `a`. -/
def shift (a : Nat) : Field → Field
  | span s => span (shiftSpan a s)
  | args s => args (s.map (shiftSpan a))
  | split s => split (shiftSplit a s)
  | f => f

/-- A field is well formed in a patch. -/
def Wf (p : Span) : Field → Prop
  | word w => sep ∉ w
  | key w => sep ∉ w ∧ parseU32 w = none
  | count n => n < 4294967296
  | flag _ => True
  | temps ts => ∀ t ∈ ts, t ≠ [] ∧ sep ∉ t ∧ '\x02' ∉ t
  | span s => Within p s
  | args s => ∀ r ∈ s, Within p r
  | split s => SplitWf p s

/-- The portion of the source that a field gives, but for splits. -/
def portions : Field → List Portion
  | span s => [.ofSpan s]
  | args s => s.toList.map .ofSpan
  | _ => []

/-- What a field is agrees with what the parts from `i` on are. -/
def PlacedAt (t : Tag) (i : Nat) : Field → Prop
  | word _ | count _ | flag _ | temps _ => i ∉ t.shiftIndices ∧ t ≠ .ochain
  | key _ => t ≠ .ochain
  | span _ | args _ => i ∈ t.shiftIndices ∧ i + 1 ∈ t.shiftIndices
  | split _ => i ∉ t.shiftIndices ∧ t = .ochain ∧ 4 ≤ i

end Field

/-- All fields agree with what the parts from `i` on are. -/
def Placed (t : Tag) : Nat → List Field → Prop
  | _, [] => True
  | i, f :: fs => f.PlacedAt t i ∧ Placed t (i + f.texts.length) fs

/-! ## Marks -/

/-- A replacement: plain text, or a form. -/
inductive Mark where
  | text (t : Text)
  | globalGet (name : Text)
  | shorthandGlobalGet (name : Text)
  | thisMap
  | globalSet (name : Text) (value : Span)
  | globalAssign (name op : Text) (value : Span) (logical : Bool)
  | globalUpdate (name op : Text) (pre : Bool)
  | globalDestr (name : Text) (temps : List Text)
  | memberGet (obj : Span) (prop : Text)
  | memberRef (stmt : Bool) (obj : Span) (prop : Text)
  | memberSet (obj : Span) (prop : Text) (value : Span)
  | memberA (stmt : Bool) (obj : Span) (prop op : Text) (value : Span) (logical : Bool)
  | methodCall (obj : Span) (method : Text) (args : Option Span)
  | moduleUrl (source : Span) (target : Text)
  | varSet (temp name : Text) (value : Span)
  | varWset (temp name : Text) (value : Span) (temps : List Text)
  | wtref (stmt : Bool) (temps : List Text) (name : Text)
  | withObj (temp : Text) (obj : Span)
  | withSet (name : Text) (value : Span) (temps : List Text)
  | withAssign (name op : Text) (value : Span) (logical : Bool) (temps : List Text)
  | cget (obj key : Span) (group : Nat) (stmt : Bool)
  | cset (obj key value : Span) (group : Nat) (stmt : Bool)
  | cassign (stmt : Bool) (obj key : Span) (op : Text) (value : Span) (logical : Bool)
  | cref (stmt : Bool) (obj key : Span)
  | oget (obj : Span) (key : ChainKey)
  | ocall (obj : Span) (flags : Nat) (key : ChainKey) (args : Option Span)
  | ccall (obj key : Span) (args : Option Span) (group : Nat) (stmt : Bool)
  | deval (args : Option Span) (strict globalSite : Bool) (desc : Text)
  | rget (obj key : Span) (receiver : Option Span)
  | rset (obj key value : Span) (receiver : Option Span)
  | gopd (obj key : Span)
  | gopds (obj : Span)
  | gown (obj : Span)
  | okeys (obj : Span)
  | rhas (obj key : Span)
  | rowk (obj : Span)
  | cdele (obj key : Span) (optional : Bool)
  | sdele (obj : Span) (prop : Text) (optional : Bool)
  | forCap (counter : Text) (region : Span)
  | ochain (chain : Span) (splits : List ChainSplit)
  deriving DecidableEq

namespace Mark

/-- The form; plain text has none. -/
def tag : Mark → Option Tag
  | text _ => none
  | globalGet _ => some .globalGet
  | shorthandGlobalGet _ => some .shorthandGlobalGet
  | thisMap => some .thisMap
  | globalSet .. => some .globalSet
  | globalAssign .. => some .globalAssign
  | globalUpdate .. => some .globalUpdate
  | globalDestr .. => some .globalDestr
  | memberGet .. => some .memberGet
  | memberRef stmt .. => some (if stmt then .memberRefStmt else .memberRef)
  | memberSet .. => some .memberSet
  | memberA stmt .. => some (if stmt then .memberAStmt else .memberA)
  | methodCall .. => some .methodCall
  | moduleUrl .. => some .moduleUrl
  | varSet .. => some .varSet
  | varWset .. => some .varWset
  | wtref stmt .. => some (if stmt then .wtrefStmt else .wtref)
  | withObj .. => some .withObj
  | withSet .. => some .withSet
  | withAssign .. => some .withAssign
  | cget .. => some .cget
  | cset .. => some .cset
  | cassign stmt .. => some (if stmt then .cassignStmt else .cassign)
  | cref stmt .. => some (if stmt then .crefStmt else .cref)
  | oget .. => some .oget
  | ocall .. => some .ocall
  | ccall .. => some .ccall
  | deval .. => some .deval
  | rget .. => some .rget
  | rset .. => some .rset
  | gopd .. => some .gopd
  | gopds .. => some .gopds
  | gown .. => some .gown
  | okeys .. => some .okeys
  | rhas .. => some .rhas
  | rowk .. => some .rowk
  | cdele .. => some .cdele
  | sdele .. => some .sdele
  | forCap .. => some .forCap
  | ochain .. => some .ochain

def keyFields : ChainKey → List Field
  | .name n => [.word ['L'], .key n]
  | .expr s => [.word ['E'], .span s]

/-- The group of temporaries, and a mark at the head of a statement. -/
def guardFields (group : Nat) (stmt : Bool) : List Field :=
  .count group :: if stmt then [.word ['S']] else []

/-- The temporaries around a destructuring target; without them the field is left out. -/
def tempFields (ts : List Text) : List Field := if ts.isEmpty then [] else [.temps ts]

def fields : Mark → List Field
  | text t => [.word t]
  | globalGet name => [.word name]
  | shorthandGlobalGet name => [.word name]
  | thisMap => []
  | globalSet name value => [.word name, .span value]
  | globalAssign name op value logical => [.word name, .word op, .span value, .flag logical]
  | globalUpdate name op pre => [.word name, .word op, .flag pre]
  | globalDestr name ts => .word name :: tempFields ts
  | memberGet obj prop => [.span obj, .word prop]
  | memberRef _ obj prop => [.span obj, .word prop]
  | memberSet obj prop value => [.span obj, .word prop, .span value]
  | memberA _ obj prop op value logical =>
    [.span obj, .word prop, .word op, .span value, .flag logical]
  | methodCall obj method args => [.span obj, .word method, .args args]
  | moduleUrl source target => [.span source, .word target]
  | varSet temp name value => [.word temp, .word name, .span value]
  | varWset temp name value ts => [.word temp, .word name, .span value, .temps ts]
  | wtref _ ts name => [.temps ts, .word name]
  | withObj temp obj => [.word temp, .span obj]
  | withSet name value ts => [.word name, .span value, .temps ts]
  | withAssign name op value logical ts =>
    [.word name, .word op, .span value, .flag logical, .temps ts]
  | cget obj key group stmt => .span obj :: .span key :: guardFields group stmt
  | cset obj key value group stmt =>
    .span obj :: .span key :: .span value :: guardFields group stmt
  | cassign _ obj key op value logical =>
    [.span obj, .span key, .word op, .span value, .flag logical]
  | cref _ obj key => [.span obj, .span key]
  | oget obj key => .span obj :: keyFields key
  | ocall obj flags key args => .span obj :: .count flags :: (keyFields key ++ [.args args])
  | ccall obj key args group stmt =>
    .span obj :: .span key :: .args args :: guardFields group stmt
  | deval args strict globalSite desc =>
    [.args args, .flag strict, .flag globalSite, .word desc]
  | rget obj key receiver => [.span obj, .span key, .flag receiver.isSome, .args receiver]
  | rset obj key value receiver =>
    [.span obj, .span key, .span value, .flag receiver.isSome, .args receiver]
  | gopd obj key => [.span obj, .span key]
  | gopds obj => [.span obj]
  | gown obj => [.span obj]
  | okeys obj => [.span obj]
  | rhas obj key => [.span obj, .span key]
  | rowk obj => [.span obj]
  | cdele obj key optional => [.span obj, .span key, .flag optional]
  | sdele obj prop optional => [.span obj, .word prop, .flag optional]
  | forCap counter region => [.word counter, .span region]
  | ochain chain splits => .span chain :: splits.map .split

def parts (t : Tag) (fs : List Field) : List Text :=
  [] :: t.name :: (fs.flatMap Field.texts ++ [[]])

/-- The text a replacement is written as. -/
def encode (m : Mark) : Text :=
  match m with
  | text t => t
  | m => joined sep (parts (m.tag.getD .thisMap) m.fields)

/-- A replacement with its positions counted from `a`. -/
def shift (a : Nat) : Mark → Mark
  | globalSet name value => globalSet name (shiftSpan a value)
  | globalAssign name op value logical => globalAssign name op (shiftSpan a value) logical
  | memberGet obj prop => memberGet (shiftSpan a obj) prop
  | memberRef stmt obj prop => memberRef stmt (shiftSpan a obj) prop
  | memberSet obj prop value => memberSet (shiftSpan a obj) prop (shiftSpan a value)
  | memberA stmt obj prop op value logical =>
    memberA stmt (shiftSpan a obj) prop op (shiftSpan a value) logical
  | methodCall obj method args => methodCall (shiftSpan a obj) method (args.map (shiftSpan a))
  | moduleUrl source target => moduleUrl (shiftSpan a source) target
  | varSet temp name value => varSet temp name (shiftSpan a value)
  | varWset temp name value ts => varWset temp name (shiftSpan a value) ts
  | withObj temp obj => withObj temp (shiftSpan a obj)
  | withSet name value ts => withSet name (shiftSpan a value) ts
  | withAssign name op value logical ts => withAssign name op (shiftSpan a value) logical ts
  | cget obj key group stmt => cget (shiftSpan a obj) (shiftSpan a key) group stmt
  | cset obj key value group stmt =>
    cset (shiftSpan a obj) (shiftSpan a key) (shiftSpan a value) group stmt
  | cassign stmt obj key op value logical =>
    cassign stmt (shiftSpan a obj) (shiftSpan a key) op (shiftSpan a value) logical
  | cref stmt obj key => cref stmt (shiftSpan a obj) (shiftSpan a key)
  | oget obj key => oget (shiftSpan a obj) (shiftKey a key)
  | ocall obj flags key args =>
    ocall (shiftSpan a obj) flags (shiftKey a key) (args.map (shiftSpan a))
  | ccall obj key args group stmt =>
    ccall (shiftSpan a obj) (shiftSpan a key) (args.map (shiftSpan a)) group stmt
  | deval args strict globalSite desc => deval (args.map (shiftSpan a)) strict globalSite desc
  | rget obj key receiver =>
    rget (shiftSpan a obj) (shiftSpan a key) (receiver.map (shiftSpan a))
  | rset obj key value receiver =>
    rset (shiftSpan a obj) (shiftSpan a key) (shiftSpan a value) (receiver.map (shiftSpan a))
  | gopd obj key => gopd (shiftSpan a obj) (shiftSpan a key)
  | gopds obj => gopds (shiftSpan a obj)
  | gown obj => gown (shiftSpan a obj)
  | okeys obj => okeys (shiftSpan a obj)
  | rhas obj key => rhas (shiftSpan a obj) (shiftSpan a key)
  | rowk obj => rowk (shiftSpan a obj)
  | cdele obj key optional => cdele (shiftSpan a obj) (shiftSpan a key) optional
  | sdele obj prop optional => sdele (shiftSpan a obj) prop optional
  | forCap counter region => forCap counter (shiftSpan a region)
  | ochain chain splits => ochain (shiftSpan a chain) (splits.map (shiftSplit a))
  | m => m

/-- What the form asks beyond its fields: an operator is not empty, the flags of an optional
    call are a byte, and the splits of a chain come in order. -/
def Shaped : Mark → Prop
  | globalAssign _ op _ _ => op ≠ []
  | ocall _ flags _ _ => flags < 256
  | ochain chain splits => splits ≠ [] ∧ Ordered chain.stop (chain.start + 1) splits
  | _ => True

/-- A replacement is well formed in a patch. -/
structure Wf (p : Span) (m : Mark) : Prop where
  fields : ∀ f ∈ m.fields, f.Wf p
  shaped : m.Shaped

/-! ### What a form stands for -/

section Render

variable (quote : Text → Text) (lead : Text) (text : Portion → Text)

def spanText (s : Span) : Text := text (.ofSpan s)

def argsText (s : Option Span) : Text := (s.map (spanText text)).getD []

/-- A key: a name in quotes, or an expression in parentheses. -/
def keyText : ChainKey → Text
  | .name n => quote n
  | .expr s => lit "(" ++ spanText text s ++ lit ")"

def splitText (start : Nat) (prev : Option Nat) (s : ChainSplit) : Text :=
  match s with
  | .method _ key _ _ => chainCallee (text (splitPortion start prev s)) (keyText quote text key)
  | s => text (splitPortion start prev s)

/-- A chain from `prev` on. -/
def chainText (chain : Span) : Option Nat → List ChainSplit → Text
  | prev, [] => text ⟨prev, chain.start, chain.stop⟩
  | prev, s :: ss =>
    chainStep (splitText quote text chain.start prev s) (chainText chain (some s.baseEnd) ss)

def assignText (stmt : Bool) (e : Text) : Text :=
  if needsParenPrefix lead then lit "(" ++ e ++ lit ")"
  else (if stmt then stmtZero lead else []) ++ e

/-- The text a replacement stands for: `text` gives the portions of the source that it
    copies, and `lead` is what is before it in its range. -/
def render : Mark → Text
  | .text t => t
  | globalGet name => parenthesised lead (getGlobal quote name)
  | shorthandGlobalGet name => name ++ lit ":" ++ getGlobal quote name
  | thisMap => parenthesised lead (lit "__zp_this(this)")
  | globalSet name value => setGlobal quote name (spanText text value)
  | globalAssign name op value logical => assignGlobal quote name op logical (spanText text value)
  | globalUpdate name op pre => updateGlobal quote name op pre
  | globalDestr name ts => destrTarget quote name (if ts.isEmpty then none else some ts)
  | memberGet obj prop => parenthesised lead (getMember quote (spanText text obj) prop)
  | memberRef stmt obj prop =>
    (if stmt then stmtZero lead else []) ++ memberAdapter quote (spanText text obj) prop
  | memberSet obj prop value =>
    parenthesised lead (setMember quote (spanText text obj) prop (spanText text value))
  | memberA stmt obj prop op value _ =>
    assignText lead stmt (memberAdapter quote (spanText text obj) prop ++ op ++ lit "(" ++
      spanText text value ++ lit ")")
  | methodCall obj method args =>
    parenthesised lead (callMethod quote (spanText text obj) method (argsText text args))
  | moduleUrl source target => moduleUrlCall (spanText text source) target
  | varSet temp name value => varDeclarator temp (setGlobal quote name (spanText text value))
  | varWset temp name value ts =>
    varDeclarator temp (withSetChain quote ts name (spanText text value))
  | wtref stmt ts name =>
    (if stmt then stmtZero lead else []) ++ withDChain quote ts name ++ lit ".v"
  | withObj temp obj => temp ++ lit "=(" ++ spanText text obj ++ lit ")"
  | withSet name value ts => withSetChain quote ts name (spanText text value)
  | withAssign name op value _ ts =>
    withAssignChain quote ts name op (lit "()=>(" ++ spanText text value ++ lit ")")
  | cget obj key group stmt =>
    atStatement (0 < group && stmt) lead (computedGet group (spanText text obj) (spanText text key))
  | cset obj key value group stmt =>
    atStatement (0 < group && stmt) lead
      (computedSet group (spanText text obj) (spanText text key) (spanText text value))
  | cassign stmt obj key op value _ =>
    assignText lead stmt (computedAdapter (spanText text obj) (spanText text key) ++ op ++
      lit "(" ++ spanText text value ++ lit ")")
  | cref stmt obj key =>
    (if stmt then stmtZero lead else []) ++
      computedAdapter (spanText text obj) (spanText text key)
  | oget obj key =>
    parenthesised lead (optionalGet (spanText text obj) (keyText quote text key))
  | ocall obj flags key args =>
    parenthesised lead (optionalCall (spanText text obj) (keyText quote text key)
      (argsText text args) flags)
  | ccall obj key args group stmt =>
    atStatement ((callGuard group (argsText text args)).isSome && stmt) lead
      (computedCall group (spanText text obj) (lit "(" ++ spanText text key ++ lit ")")
        (argsText text args))
  | deval args strict globalSite desc =>
    parenthesised lead (directEval (argsText text args) desc
      (if strict then ['1'] else if globalSite then '0' :: lit ",1" else ['0']))
  | rget obj key receiver =>
    parenthesised lead (helperCall (lit "__zp_rget")
      (spanText text obj :: spanText text key :: (receiver.map (spanText text)).toList))
  | rset obj key value receiver =>
    parenthesised lead (helperCall (lit "__zp_rset") (spanText text obj :: spanText text key ::
      spanText text value :: (receiver.map (spanText text)).toList))
  | gopd obj key =>
    helperCall (lit "__zp_getOwnPropertyDescriptor") [spanText text obj, spanText text key]
  | gopds obj => helperCall (lit "__zp_getOwnPropertyDescriptors") [spanText text obj]
  | gown obj => helperCall (lit "__zp_getOwnPropertyNames") [spanText text obj]
  | okeys obj => helperCall (lit "__zp_okeys") [spanText text obj]
  | rhas obj key => helperCall (lit "__zp_has") [spanText text obj, spanText text key]
  | rowk obj => helperCall (lit "__zp_ownKeys") [spanText text obj]
  | cdele obj key optional =>
    helperCall (if optional then lit "__zp_odelete" else lit "__zp_delete")
      [spanText text obj, spanText text key]
  | sdele obj prop optional =>
    (if optional then lit "__zp_odelete" else lit "__zp_delete") ++ lit "((" ++
      spanText text obj ++ lit ")," ++ quote prop ++ lit ")"
  | forCap counter region =>
    match find [';'] (spanText text region) with
    | some semi => cappedHeader counter (spanText text region) semi
    | none => spanText text region
  | ochain chain splits => parenthesised lead (chainText quote text chain none splits)

end Render

def chainPortions (chain : Span) : Option Nat → List ChainSplit → List Portion
  | prev, [] => [⟨prev, chain.start, chain.stop⟩]
  | prev, s :: ss =>
    splitPortion chain.start prev s :: (keyPortion s ++ chainPortions chain (some s.baseEnd) ss)

def portions : Mark → List Portion
  | ochain chain splits => chainPortions chain none splits
  | m => m.fields.flatMap Field.portions

end Mark

open Mark

/-! ## The text of a marker -/

theorem sep_not_mem_name (t : Tag) : sep ∉ t.name := by
  cases t <;> decide

theorem find?_name (t : Tag) : Tag.all.find? (fun u => u.name = t.name) = some t := by
  cases t <;> decide

theorem isPrefixOf_sep {x y : Text} (hx : sep ∉ x) (hy : sep ∉ y) (z : Text) :
    (x ++ [sep]).isPrefixOf (y ++ sep :: z) = decide (x = y) := by
  induction x generalizing y with
  | nil =>
    cases y with
    | nil => simp
    | cons d y =>
      have hne : (sep == d) = false := beq_eq_false_iff_ne.2 (ne_of_not_mem_cons hy)
      rw [nil_append, cons_append, isPrefixOf_cons_cons, hne]
      simp
  | cons c x ih =>
    cases y with
    | nil =>
      have hne : (c == sep) = false := beq_eq_false_iff_ne.2 (ne_of_not_mem_cons hx).symm
      rw [nil_append, cons_append, isPrefixOf_cons_cons, hne]
      simp
    | cons d y =>
      rw [cons_append, cons_append, isPrefixOf_cons_cons,
        ih (not_mem_of_not_mem_cons hx) (not_mem_of_not_mem_cons hy), Bool.eq_iff_iff]
      simp

theorem tagOf_joined (t : Tag) (fs : List Field) : tagOf (joined sep (parts t fs)) = some t := by
  have hopens : (fun u : Tag => u.opens (joined sep (parts t fs))) =
      fun u => decide (u.name = t.name) := by
    funext u
    obtain ⟨f, rest, hrest⟩ : ∃ f rest, fs.flatMap Field.texts ++ [[]] = f :: rest :=
      exists_cons_of_ne_nil (by simp)
    rw [Tag.opens, parts, hrest, joined_cons_cons, joined_cons_cons, nil_append,
      cons_append, isPrefixOf_cons_cons, isPrefixOf_sep (sep_not_mem_name u) (sep_not_mem_name t)]
    simp
  rw [tagOf, hopens, find?_name]

theorem tagOf_eq_none {r : Text} (hr : sep ∉ r) : tagOf r = none := by
  rw [tagOf, find?_eq_none]
  intro u _ hu
  obtain ⟨rest, rfl⟩ := isPrefixOf_iff_prefix.1 hu
  exact hr (by simp)

variable {m : Mark} {t : Tag}

theorem Mark.encode_of_tag (h : m.tag = some t) : m.encode = joined sep (parts t m.fields) := by
  cases m with
  | text _ => cases h
  | _ => rw [encode, h, getD_some]; simp

theorem Mark.tagOf_encode (h : m.tag = some t) : tagOf m.encode = some t := by
  rw [encode_of_tag h, tagOf_joined]

/-! ### Its parts -/

theorem sep_not_mem_numeral (n : Nat) : sep ∉ numeral n := not_mem_numeral (by decide) n

variable {p : Span} {s : ChainSplit}

theorem splitMembers_clean (h : SplitWf p s) : ∀ f ∈ splitMembers s, sep ∉ f ∧ ',' ∉ f := by
  have hnum (n : Nat) : sep ∉ numeral n ∧ ',' ∉ numeral n :=
    ⟨sep_not_mem_numeral n, not_mem_numeral (by decide) n⟩
  have hletter : (sep ∉ ['M'] ∧ ',' ∉ ['M']) ∧ (sep ∉ ['P'] ∧ ',' ∉ ['P']) ∧
      (sep ∉ ['S'] ∧ ',' ∉ ['S']) ∧ sep ∉ ['K'] ∧ ',' ∉ ['K'] := by decide
  cases s with
  | member e | plain e => simp only [splitMembers, forall_mem_cons, hnum, hletter]; simp
  | method o key e call =>
    cases key with
    | name n =>
      have hn : sep ∉ n ∧ ',' ∉ n := ⟨h.2.2.2.2.1, h.2.2.2.2.2.1⟩
      simp only [splitMembers, forall_mem_cons, hnum, hletter, hn]
      simp
    | expr k => simp only [splitMembers, forall_mem_cons, hnum, hletter]; simp

theorem splitMembers_ne_nil (s : ChainSplit) : splitMembers s ≠ [] := by
  cases s with
  | method o key e call => cases key <;> simp [splitMembers]
  | _ => simp [splitMembers]

variable {f : Field}

theorem Field.texts_clean (h : f.Wf p) : ∀ x ∈ f.texts, sep ∉ x := by
  cases f with
  | word w => simpa [texts] using show sep ∉ w from h
  | key w => simpa [texts] using h.1
  | count n | span s => simp [texts, sep_not_mem_numeral]
  | flag b => cases b <;> simp [texts, sep]
  | temps ts => simpa [texts] using not_mem_joined (by decide) fun t ht => (h t ht).2.1
  | args s => cases s <;> simp [texts, sep_not_mem_numeral]
  | split s =>
    simpa [texts] using not_mem_joined (by decide) fun t ht => (splitMembers_clean h t ht).1

theorem Mark.partsOf_encode (h : m.tag = some t) (hm : m.Wf p) :
    partsOf m.encode = parts t m.fields := by
  rw [encode_of_tag h]
  refine split_joined (cons_ne_nil _ _) ?_
  rw [parts, forall_mem_cons, forall_mem_cons, forall_mem_append]
  refine ⟨not_mem_nil, sep_not_mem_name t, fun x hx => ?_, by simp⟩
  obtain ⟨f, hf, hxf⟩ := mem_flatMap.1 hx
  exact f.texts_clean (hm.fields f hf) x hxf

/-! ### Shifting -/

theorem shiftNumber_numeral {n : Nat} (h : n < 4294967296) (a : Nat) :
    shiftNumber a (numeral n) = numeral (n - a) := by
  rw [shiftNumber, parseU32_numeral h]

theorem shiftNumber_of_none {s : Text} (h : parseU32 s = none) (a : Nat) : shiftNumber a s = s := by
  rw [shiftNumber, h]

theorem splitMembers_shift (hp : p.stop < 4294967296) (h : SplitWf p s)
    (a : Nat) : (splitMembers s).mapIdx (fun j f => if j = 0 then f else shiftNumber a f) =
      splitMembers (shiftSplit a s) := by
  cases s with
  | member e | plain e =>
    simp [splitMembers, shiftSplit, shiftNumber_numeral (lt_of_le_of_lt h.2 hp)]
  | method o key e call =>
    obtain ⟨-, ho, -, he, hkey⟩ := h
    have ho' := shiftNumber_numeral (lt_of_le_of_lt ho hp) a
    have he' := shiftNumber_numeral (lt_of_le_of_lt he hp) a
    cases key with
    | name n => simp [splitMembers, shiftSplit, shiftKey, ho', he', shiftNumber_of_none hkey.2.2]
    | expr k =>
      obtain ⟨-, hlt, hle⟩ := hkey
      have hstart := @shiftNumber_numeral k.start (by omega) a
      have hstop := @shiftNumber_numeral k.stop (by omega) a
      simp [splitMembers, shiftSplit, shiftKey, shiftSpan, ho', he', hstart, hstop]

theorem joined_splitMembers_comma (s : ChainSplit) : ',' ∈ joined ',' (splitMembers s) := by
  cases s with
  | method o key e call => cases key <;> simp [splitMembers, joined_cons_cons]
  | _ => simp [splitMembers, joined_cons_cons]

variable {i a : Nat}

attribute [local simp] Field.texts Field.shift shiftPart shiftSpan in
theorem Field.texts_shift (hp : p.stop < 4294967296) (h : f.Wf p) (hat : f.PlacedAt t i) (a : Nat) :
    f.texts.mapIdx (fun j => shiftPart a t (j + i)) = (f.shift a).texts := by
  have hspan (s : Span) (hs : Within p s) : shiftNumber a (numeral s.start) = numeral (s.start - a) ∧
      shiftNumber a (numeral s.stop) = numeral (s.stop - a) := by
    obtain ⟨-, hlt, hle⟩ := hs
    exact ⟨shiftNumber_numeral (by omega) a, shiftNumber_numeral (by omega) a⟩
  cases f with
  | word _ | count _ | flag _ | temps _ => simp [hat.1, hat.2]
  | key w => simp [show t ≠ .ochain from hat, shiftNumber_of_none h.2]
  | span s => simp [hat.1, Nat.add_comm 1, hat.2, hspan s h]
  | args s =>
    cases s with
    | none => simp [hat.1, Nat.add_comm 1, hat.2, @shiftNumber_numeral 0 (by decide) a]
    | some s => simp [hat.1, Nat.add_comm 1, hat.2, hspan s (h s rfl)]
  | split s =>
    -- The members are packed into one part, so it is taken apart and put together again.
    obtain ⟨hi, ht, h4⟩ := hat
    have hsplit := split_joined (splitMembers_ne_nil s) fun f hf => (splitMembers_clean h f hf).2
    simp only [texts, shift, mapIdx_cons, mapIdx_nil, Nat.zero_add, shiftPart]
    rw [if_neg hi, if_pos ⟨ht, h4, joined_splitMembers_comma s⟩, hsplit, splitMembers_shift hp h]

theorem mapIdx_texts (hp : p.stop < 4294967296) (a : Nat) {fs : List Field}
    (h : ∀ f ∈ fs, f.Wf p) (hat : Placed t i fs) :
    (fs.flatMap Field.texts).mapIdx (fun j => shiftPart a t (j + i)) =
      (fs.map (Field.shift a)).flatMap Field.texts := by
  induction fs generalizing i with
  | nil => rfl
  | cons f fs ih =>
    rw [forall_mem_cons] at h
    have hindex : (fun j => shiftPart a t (j + f.texts.length + i)) =
        fun j => shiftPart a t (j + (i + f.texts.length)) := by
      funext j
      rw [add_assoc, add_comm i]
    rw [flatMap_cons, mapIdx_append, Field.texts_shift hp h.1 hat.1, map_cons,
      flatMap_cons, hindex, ih h.2 hat.2]

namespace Mark

theorem tag_shift (a : Nat) (m : Mark) : (m.shift a).tag = m.tag := by
  cases m <;> rfl

theorem fields_shift (a : Nat) (m : Mark) : (m.shift a).fields = m.fields.map (Field.shift a) := by
  have hguard (group : Nat) (stmt : Bool) :
      (guardFields group stmt).map (Field.shift a) = guardFields group stmt := by
    cases stmt <;> rfl
  have htemps (ts : List Text) : (tempFields ts).map (Field.shift a) = tempFields ts := by
    cases ts <;> rfl
  have hkey (key : ChainKey) : (keyFields key).map (Field.shift a) = keyFields (shiftKey a key) := by
    cases key <;> rfl
  cases m <;> simp [shift, fields, Field.shift, htemps, hguard, hkey]

theorem placed_splits (splits : List ChainSplit) {i : Nat} (hi : 4 ≤ i) :
    Placed .ochain i (splits.map .split) := by
  induction splits generalizing i with
  | nil => trivial
  | cons s splits ih =>
    have hnot : i ∉ Tag.ochain.shiftIndices := by
      simp only [Tag.shiftIndices, mem_cons, not_mem_nil, or_false]
      omega
    exact ⟨⟨hnot, rfl, hi⟩, ih (by omega)⟩

attribute [local simp] fields Placed Field.PlacedAt Tag.shiftIndices Field.texts in
theorem placed_fields {m : Mark} {t : Tag} (h : m.tag = some t) : Placed t 2 m.fields := by
  cases m <;> cases h
  case ochain chain splits => exact ⟨by simp, placed_splits splits (Nat.le_refl 4)⟩
  case globalDestr ts => cases ts <;> simp [tempFields]
  case cget stmt | cset stmt | ccall stmt => cases stmt <;> simp [guardFields]
  case oget key | ocall key args => cases key <;> simp [keyFields]
  case memberRef stmt obj prop | memberA stmt obj prop op value logical | wtref stmt ts name
      | cassign stmt obj key op value logical | cref stmt obj key => cases stmt <;> simp
  all_goals simp

theorem shiftMarkerPositions_encode {p : Span} (hp : p.stop < 4294967296) {m : Mark} (hm : m.Wf p)
    (a : Nat) : shiftMarkerPositions m.encode a = (m.shift a).encode := by
  cases ht : m.tag with
  | none =>
    -- Plain text.
    cases m with
    | text t =>
      have hclean : sep ∉ t := hm.fields (.word t) (.head _)
      rw [shiftMarkerPositions, encode, tagOf_eq_none hclean]
      rfl
    | _ => cases ht
  | some t =>
    have hempty (i : Nat) : shiftPart a t i [] = [] := by
      simp [shiftPart, shiftNumber_of_none (show parseU32 [] = none from rfl)]
    have hname : shiftPart a t 1 t.name = t.name := by
      have h1 : 1 ∉ t.shiftIndices := by
        cases t <;> decide
      simp [shiftPart, h1]
    have hfields := mapIdx_texts hp a hm.fields (placed_fields ht)
    rw [shiftMarkerPositions, tagOf_encode ht, partsOf_encode ht hm,
      encode_of_tag ((tag_shift a m).trans ht), fields_shift, parts, parts, ← hfields]
    simp [hempty, hname]

theorem shift_shift (a b : Nat) (m : Mark) : (m.shift a).shift b = m.shift (a + b) := by
  have hspan (s : Span) : shiftSpan b (shiftSpan a s) = shiftSpan (a + b) s := by
    simp [shiftSpan, Nat.sub_sub]
  have hargs (s : Option Span) : (s.map (shiftSpan a)).map (shiftSpan b) = s.map (shiftSpan (a + b)) := by
    rw [Option.map_map]
    exact congrArg (Option.map · s) (funext hspan)
  have hkey (key : ChainKey) : shiftKey b (shiftKey a key) = shiftKey (a + b) key := by
    cases key <;> simp [shiftKey, hspan]
  have hsplit (s : ChainSplit) : shiftSplit b (shiftSplit a s) = shiftSplit (a + b) s := by
    cases s <;> simp [shiftSplit, hkey, hspan, Nat.sub_sub]
  cases m <;> simp [shift, hspan, hargs, hkey, hsplit]

theorem shift_zero (m : Mark) : m.shift 0 = m := by
  have hspan (s : Span) : shiftSpan 0 s = s := rfl
  have hargs (s : Option Span) : s.map (shiftSpan 0) = s := by
    cases s <;> rfl
  have hkey (key : ChainKey) : shiftKey 0 key = key := by
    cases key <;> rfl
  have hsplit (s : ChainSplit) : shiftSplit 0 s = s := by
    cases s <;> simp [shiftSplit, hkey, hspan]
  cases m with
  | ochain chain splits => simp [shift, hspan, map_congr_left (fun s _ => hsplit s)]
  | _ => simp [shift, hspan, hargs, hkey]

end Mark

/-! ### Well-formed marks, shifted -/

theorem Within.shift {s : Span} (h : Within p s) (ha : a ≤ p.start) :
    Within (shiftSpan a p) (shiftSpan a s) := by
  simp only [Within, shiftSpan] at h ⊢
  omega

theorem SplitWf.shift (h : SplitWf p s) (ha : a ≤ p.start) :
    SplitWf (shiftSpan a p) (shiftSplit a s) := by
  cases s with
  | member e | plain e =>
    simp only [SplitWf, shiftSplit, shiftSpan] at h ⊢
    omega
  | method o key e call =>
    obtain ⟨h1, h2, h3, h4, hkey⟩ := h
    refine ⟨Nat.sub_le_sub_right h1 a, Nat.sub_le_sub_right h2 a, Nat.sub_le_sub_right h3 a,
      Nat.sub_le_sub_right h4 a, ?_⟩
    cases key with
    | name n => exact hkey
    | expr k => exact Within.shift hkey ha

theorem Field.Wf.shift (h : f.Wf p) (ha : a ≤ p.start) : (f.shift a).Wf (shiftSpan a p) := by
  cases f with
  | span s => exact Within.shift h ha
  | split s => exact SplitWf.shift h ha
  | args s =>
    intro r hr
    obtain ⟨r', hr', rfl⟩ := mem_map.1 hr
    exact (h r' hr').shift ha
  | _ => exact h

theorem splitObjStop_shift (a : Nat) (s : ChainSplit) :
    splitObjStop (shiftSplit a s) = splitObjStop s - a := by
  cases s <;> rfl

theorem baseEnd_shift (a : Nat) (s : ChainSplit) : (shiftSplit a s).baseEnd = s.baseEnd - a := by
  cases s <;> rfl

theorem Ordered.shift {stop : Nat} {splits : List ChainSplit} (h : Ordered stop i splits)
    (ha : a < i) : Ordered (stop - a) (i - a) (splits.map (shiftSplit a)) := by
  induction splits generalizing i with
  | nil => exact Nat.sub_le_sub_right h a
  | cons s splits ih =>
    obtain ⟨h1, h2, h3⟩ := h
    rw [map_cons, Ordered, splitObjStop_shift, baseEnd_shift]
    exact ⟨by omega, by omega, ih h3 (by omega)⟩

theorem Mark.Wf.shift (h : m.Wf p) (ha : a ≤ p.start) : (m.shift a).Wf (shiftSpan a p) where
  fields f hf := by
    rw [fields_shift] at hf
    obtain ⟨g, hg, rfl⟩ := mem_map.1 hf
    exact (h.fields g hg).shift ha
  shaped := by
    have hshaped := h.shaped
    cases m with
    | ochain chain splits =>
      obtain ⟨hne, hordered⟩ := hshaped
      obtain ⟨hstart, -, -⟩ : Within p chain := h.fields (.span chain) (.head _)
      have hshift := hordered.shift (show a < chain.start + 1 by omega)
      rw [Nat.sub_add_comm (le_trans ha hstart)] at hshift
      exact ⟨by simpa using hne, hshift⟩
    | _ => exact hshaped

end

section

open List Text

/-! ## The operand of `new`

The first arguments after a `new` are its own: a helper call in the place of the constructor is
made, and its value constructed, only if it is in parentheses. `apply_patches` looks back from the
operand to see whether there is a `new`. -/

/-! ### Between `new` and its operand -/

/-- A `new`, and the white space, line terminators and comments between it and its operand. They
    begin and end with characters that are in no word. -/
structure NewSite where
  before : Text
  gap : Text
  keyword : before.getLast?.any isWordChar = false
  head : gap.head?.any isWordChar = false
  last : gap.getLast?.any isWordChar = false

/-- The source up to the operand. -/
def NewSite.lead (site : NewSite) : Text := site.before ++ lit "new" ++ site.gap

/-- The characters that are skipped. -/
def isSkipped (c : Char) : Bool := c == ' ' || c == '\t' || c == '\n' || c == '\r'

/-- The text ends in the word `new`, up to characters that are skipped. -/
def endsInNew (t : Text) : Bool :=
  let s := t.reverse.dropWhile isSkipped
  (lit "wen").isPrefixOf s && !(s.drop 3).head?.any isWordChar

/-- A `new` is found before the operand: this one, or the last word of a comment. -/
def NewSite.Found (site : NewSite) : Prop := site.gap.all isSkipped ∨ endsInNew site.gap

theorem needsParenPrefix_eq (lead : Text) :
    needsParenPrefix lead = (lead.getLast?.any isWordChar || endsInNew lead) := by
  rw [needsParenPrefix, endsInNew, ← head?_reverse]
  cases lead.reverse with
  | nil => rfl
  | cons c before =>
    refine congrArg (isWordChar c || ·) ?_
    split
    · next rest h =>
      rw [show (c :: before).dropWhile isSkipped = _ from h]
      rfl
    · next h =>
      refine (Bool.eq_false_iff.2 fun hnew => ?_).symm
      obtain ⟨rest, hrest⟩ := isPrefixOf_iff_prefix.1 (Bool.and_eq_true_iff.1 hnew).1
      exact h rest hrest.symm

theorem endsInNew_lead (site : NewSite) : endsInNew site.lead ↔ site.Found := by
  obtain ⟨before, gap, keyword, head, last⟩ := site
  have hstop (s : Text) : ('w' :: s).dropWhile isSkipped = 'w' :: s := rfl
  have hsuffix := dropWhile_suffix (l := gap.reverse) isSkipped
  have hall : gap.all isSkipped = (gap.reverse.dropWhile isSkipped).isEmpty := by
    rw [← all_reverse, Bool.eq_iff_iff, List.isEmpty_iff, dropWhile_eq_nil_iff, all_eq_true]
  rw [NewSite.Found, NewSite.lead, hall, endsInNew, endsInNew]
  simp only [lit, reverse_append, dropWhile_append]
  rcases hs : gap.reverse.dropWhile isSkipped with _ | ⟨a, _ | ⟨b, _ | ⟨d, s⟩⟩⟩
  · simp [hstop, keyword]
  · simp
  · simp
  cases s with
  | nil =>
    -- The gap would begin with the `n`.
    have hd : d ≠ 'n' := by
      rintro rfl
      obtain ⟨t, ht⟩ := hs ▸ hsuffix
      rw [← getLast?_reverse, ← ht] at head
      simp +decide at head
    simp [hd.symm]
  | cons e s => simp

theorem needsParenPrefix_lead (site : NewSite) : needsParenPrefix site.lead ↔ site.Found := by
  rw [needsParenPrefix_eq, Bool.or_eq_true, endsInNew_lead, or_iff_right_iff_imp, NewSite.lead]
  cases hgap : site.gap.getLast? with
  | none => exact fun _ => .inl (by rw [getLast?_eq_none_iff.1 hgap]; rfl)
  | some c =>
    have hc := site.last
    rw [getLast?_append, hgap, Option.some_or, ← hgap, hc]
    exact nofun

/-! ### The operand -/

/-- `with_get_chain`: the read of a name in the body of `with` statements, whose objects are asked
    for it from the innermost on. -/
def withGetChain (quote : Text → Text) (temps : List Text) (name : Text) : Text :=
  temps.foldl (fun e t => lit "__zp_with_get(" ++ t ++ lit "," ++ quote name ++ lit ",()=>(" ++ e ++
    lit "))") (getGlobal quote name)

/-- An operand in whose place a helper is called. -/
inductive Operand
  | name (name : Text)
  /-- A name in the body of `with` statements. -/
  | withName (temps : List Text) (temp : Text) (name : Text)
  | this
  | member (obj : Span) (prop : Text)
  | computed (obj key : Span) (group : Nat)

/-- What the operand is replaced by; in the body of `with` statements that is plain text. -/
def Operand.mark (quote : Text → Text) : Operand → Mark
  | name n => .globalGet n
  | withName temps temp n => .text (withGetChain quote (temps ++ [temp]) n)
  | this => .thisMap
  | member obj prop => .memberGet obj prop
  | computed obj key group => .cget obj key group false

/-- The form has temporaries, and parentheses of its own. -/
def Operand.guarded : Operand → Bool
  | computed _ _ group => group != 0
  | _ => false

/-- The text before the operand decides about parentheses; plain text never gets any. -/
def Operand.looksBack : Operand → Bool
  | withName _ _ _ => false
  | _ => true

/-- The constructor and the arguments that `new` takes, where `operand` follows it and then `args`.
    A name ends at the first parenthesis. -/
def newTakes (operand args : Text) : Text × Text :=
  if operand.head? = some '(' then (operand, args)
  else (operand.takeWhile (· != '('), operand.dropWhile (· != '('))

theorem newTakes_call {e : Text} (hparen : '(' ∈ e) (hhead : e.head? ≠ some '(')
    (lead args : Text) :
    newTakes (parenthesised lead e) args = (parenthesised lead e, args) ↔
      needsParenPrefix lead := by
  rw [parenthesised]
  split_ifs with h
  · exact iff_of_true (if_pos rfl) h
  · refine iff_of_false (fun htakes => ?_) h
    rw [newTakes, if_neg hhead] at htakes
    have hname := takeWhile_eq_self_iff.1 (congrArg Prod.fst htakes) '(' hparen
    cases hname

/-- The operand is constructed, with the arguments of the source, exactly if the form has
    parentheses of its own, or a `new` is found before it and it is no name in the body of a
    `with`. -/
theorem constructs_iff (quote : Text → Text) (text : Portion → Text) (site : NewSite)
    (o : Operand) (args : Text) :
    newTakes ((o.mark quote).render quote site.lead text) args =
      ((o.mark quote).render quote site.lead text, args) ↔
        o.guarded ∨ o.looksBack ∧ site.Found := by
  rw [← needsParenPrefix_lead]
  cases o with
  | withName temps temp n =>
    -- The helper of the innermost object is what `new` constructs.
    have hhead : withGetChain quote (temps ++ [temp]) n = lit "__zp_with_get(" ++ (temp ++ (lit "," ++
        (quote n ++ (lit ",()=>(" ++ (withGetChain quote temps n ++ lit "))"))))) := by
      rw [withGetChain, foldl_append, ← withGetChain]
      simp only [foldl_cons, foldl_nil, append_assoc]
    simp only [Operand.guarded, Operand.looksBack, Bool.false_eq_true, false_and, or_false, iff_false]
    rw [Operand.mark, Mark.render, hhead]
    intro htakes
    exact absurd (congrArg (fun x : Text × Text => x.1.length) htakes) (by simp [newTakes, lit])
  | computed obj key group =>
    rw [Operand.mark, Mark.render, Bool.and_false, atStatement, if_neg Bool.false_ne_true]
    by_cases hgroup : group = 0
    · simp only [Operand.guarded, Operand.looksBack, hgroup, bne_self_eq_false,
        Bool.false_eq_true, false_or, true_and]
      refine newTakes_call ?_ ?_ _ _ <;> simp [computedGet, guardTemps, helperCall, lit]
    have hhead : (computedGet group (Mark.spanText text obj) (Mark.spanText text key)).head? =
        some '(' := by
      rw [computedGet]
      split
      · simp [lit]
      · next h => rw [guardTemps, if_neg hgroup] at h; cases h
    refine iff_of_true (if_pos ?_) (.inl (bne_iff_ne.2 hgroup))
    rw [parenthesised]
    split_ifs
    · rfl
    · exact hhead
  | _ =>
    simp only [Operand.guarded, Operand.looksBack, Bool.false_eq_true, false_or, true_and]
    refine newTakes_call ?_ ?_ _ _ <;> simp [getGlobal, getMember, lit]

/-- A comment between `new` and its operand: `new` constructs the helper. -/
theorem comment_before_operand : newTakes (((Operand.name "location").mark id).render id
      (NewSite.lead ⟨[], "/**/", rfl, rfl, rfl⟩) fun _ => []) "()" =
      ("__zp_get".toList, "(globalThis,location)".toList) := by
  decide

end

end ZeroProxy.Rewriter.Render
