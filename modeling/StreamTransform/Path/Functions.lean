import StreamTransform.Path.Context
import StreamTransform.Path.Signature
import StreamTransform.Text.Blank
import StreamTransform.Text.Case
import StreamTransform.Text.Search

/-!
# Functions

A function gets evaluated arguments. Where the argument may be left out, the
current node stands in. Sums start at the negative zero, so the sum of nothing
is the identity of addition.
-/

namespace StreamTransform.Path

/-- The text of the argument, or of the current node if there is none; `none` is the text of an
empty sequence. -/
def textOrContext (args : List Value) (ctx : Context) (top : Nat) :
    Except Fault (Option String) :=
  match args with
  | [] => do .ok (some (← ctx.nodeAt top).value)
  | v :: _ => .ok (v.first?.map Item.toText)

/-- What `extract` says of the node that is the argument or the current node. -/
def aboutNode (f : Function) (args : List Value) (ctx : Context) (top : Nat)
    (extract : Content → String) : Except Fault Value :=
  match args with
  | [] => do .ok (.text (extract (← ctx.nodeAt top).content))
  | v :: _ =>
    match v.first? with
    | none => .ok (.text "")
    | some (.node n) => .ok (.text (extract n.event.content))
    | some _ => .error (.notANode f.title)

def nameText (c : Content) : String := (c.name?.map QName.display).getD ""

def localNameText (c : Content) : String := (c.name?.map QName.localName).getD ""

/-- Only elements and attributes have a namespace. -/
def namespaceText : Content → String
  | .element n _ => n.uri
  | .attr a _ => a.name.uri
  | _ => ""

def qualifierText : Content → String
  | .element n _ => n.qualifier.getD ""
  | .attr a _ => a.name.qualifier.getD ""
  | _ => ""

/-- The characters at the positions from `first` on and before `last`, which count from 1. -/
def charactersFrom (first last : Float) : Nat → List Char → List Char
  | _, [] => []
  | i, c :: r =>
    let here := Float.ofNat i
    if first ≤ here && here < last then c :: charactersFrom first last (i + 1) r
    else charactersFrom first last (i + 1) r

/-- Bounds are rounded, the length before it is added; without a length the text runs to its
end, and a NaN bound excludes every position. -/
def substringText (s : String) (start : Float) (length : Option Float) : String :=
  let first := Decimal.round start
  let last := match length with
    | some l => first + Decimal.round l
    | none => 1.0 / 0.0
  String.ofList (charactersFrom first last 1 s.toList)

/-- Each character of `source` is replaced by the one at its first place in `from`; without a
counterpart it is dropped. -/
def translateText (source replaced counterparts : List Char) : List Char :=
  source.filterMap fun c =>
    match replaced.idxOf? c with
    | some i => counterparts[i]?
    | none => some c

def textBefore (s key : String) : String :=
  match Text.splitAtFirst key.toList s.toList with
  | some p => String.ofList p.1
  | none => ""

def textAfter (s key : String) : String :=
  match Text.splitAtFirst key.toList s.toList with
  | some p => String.ofList p.2
  | none => ""

def normalizeText (s : String) : String :=
  " ".intercalate ((Text.words s.toList).map String.ofList)

def sumOf (v : Value) : Float := v.items.foldl (fun acc i => acc + i.toNumber) (-0.0)

/-- The best number of a non-empty sequence; equal numbers keep the earlier one, and a NaN stays. -/
def extremum (better : Float → Float → Bool) (v : Value) : Value :=
  match v.items with
  | [] => .empty
  | i :: r =>
    .number <| r.foldl (fun acc j =>
      let x := j.toNumber
      if x.isNaN || acc.isNaN then Decimal.nan else if better x acc then x else acc) i.toNumber

def averageOf (v : Value) : Value :=
  if v.isEmpty then .empty else .number (sumOf v / Float.ofNat v.size)

/-- Applies `f` to the number of a value that is not empty. -/
def onNumber (f : Float → Float) (v : Value) : Value :=
  if v.isEmpty then .empty else .number (f v.toNumber)

/-- The value of a function for as many arguments as its signature admits. -/
def Function.apply (f : Function) (args : List Value) (ctx : Context) (top : Nat) :
    Except Fault Value :=
  match f, args with
  | .position, _ => .ok (.number (Float.ofNat ctx.position))
  | .level, _ => .ok (.number (Float.ofNat (top - 1)))
  | .hasChildNodes, _ => .ok (.boolean (top < ctx.depth || ctx.hasChildNodes))
  | .getNode, _ => do .ok (.node (← ctx.nodeAt top) top)
  | .name, _ => aboutNode f args ctx top nameText
  | .localName, _ => aboutNode f args ctx top localNameText
  | .namespaceUri, _ => aboutNode f args ctx top namespaceText
  | .qualifier, _ => aboutNode f args ctx top qualifierText
  | .not, [v] => .ok (.boolean !v.toBoolean)
  | .true, _ => .ok (.boolean Bool.true)
  | .false, _ => .ok (.boolean Bool.false)
  | .boolean, [v] => .ok (.boolean v.toBoolean)
  | .number, _ => do
    .ok (.number (((← textOrContext args ctx top).map Decimal.read).getD Decimal.nan))
  | .string, _ => do .ok (.text ((← textOrContext args ctx top).getD ""))
  | .concat, _ => .ok (.text ("".intercalate (args.map Value.toText)))
  | .stringLength, _ => do
    .ok (.number (Float.ofNat ((← textOrContext args ctx top).getD "").length))
  | .normalizeSpace, _ => do .ok (.text (normalizeText ((← textOrContext args ctx top).getD "")))
  | .contains, [s, t] => .ok (.boolean (Text.contains t.toText.toList s.toText.toList))
  | .startsWith, [s, t] => .ok (.boolean (t.toText.toList.isPrefixOf s.toText.toList))
  | .endsWith, [s, t] => .ok (.boolean (t.toText.toList.isSuffixOf s.toText.toList))
  | .substring, [s, start] => .ok (.text (substringText s.toText start.toNumber none))
  | .substring, [s, start, length] =>
    .ok (.text (substringText s.toText start.toNumber (some length.toNumber)))
  | .substringBefore, [s, t] => .ok (.text (textBefore s.toText t.toText))
  | .substringAfter, [s, t] => .ok (.text (textAfter s.toText t.toText))
  | .translate, [s, t, u] =>
    .ok (.text (String.ofList (translateText s.toText.toList t.toText.toList u.toText.toList)))
  | .upperCase, [v] => .ok (.text (Text.upperCase v.toText))
  | .lowerCase, [v] => .ok (.text (Text.lowerCase v.toText))
  | .stringJoin, [v, separator] => .ok (.text (v.joined separator.toText))
  | .count, [v] => .ok (.number (Float.ofNat v.size))
  | .empty, [v] => .ok (.boolean v.isEmpty)
  | .exists, [v] => .ok (.boolean !v.isEmpty)
  | .sum, [v] => .ok (.number (sumOf v))
  | .min, [v] => .ok (extremum (fun x y => x < y) v)
  | .max, [v] => .ok (extremum (fun x y => y < x) v)
  | .avg, [v] => .ok (averageOf v)
  | .floor, [v] => .ok (onNumber Decimal.floor v)
  | .ceiling, [v] => .ok (onNumber Decimal.ceiling v)
  | .round, [v] => .ok (onNumber Decimal.round v)
  | f, args => .error (.argumentCount f.title f.arity args.length)

/-- The value of a call by name. -/
def callFunction (called : String) (args : List Value) (ctx : Context) (top : Nat) :
    Except Fault Value := do
  let f ← Function.resolve called args.length
  f.apply args ctx top

end StreamTransform.Path
