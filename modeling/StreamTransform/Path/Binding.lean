import StreamTransform.Path.Grammar
import StreamTransform.Path.Signature

/-!
# Binding of qualifiers

After reading, every qualified name test is given the namespace of its
qualifier, and every call is checked against its signature. Faults are found in
the order of the text: a call before its arguments, a test before its
predicates. The qualifier `xml` is always bound.
-/

namespace StreamTransform

/-- Namespaces by qualifier. -/
abbrev Namespaces := List (String × String)

namespace Namespaces

/-- Binds a qualifier, in place of an earlier binding. -/
def bind : Namespaces → String → String → Namespaces
  | [], q, uri => [(q, uri)]
  | (p, v) :: r, q, uri => if p = q then (p, uri) :: r else (p, v) :: bind r q uri

end Namespaces

namespace Path

/-- The namespace of a qualifier in a name test. -/
def resolveQualifier (ns : Namespaces) (qualifier : String) : Except Fault String :=
  if qualifier = "xml" then .ok xmlNamespace
  else
    match ns.lookup qualifier with
    | some uri => .ok uri
    | none => .error (.unknownQualifier qualifier)

def NodeTest.bind (ns : Namespaces) : NodeTest → Except Fault NodeTest
  | .name (some q) l _ => do .ok (.name (some q) l (← resolveQualifier ns q))
  | .inNamespace q _ => do .ok (.inNamespace q (← resolveQualifier ns q))
  | test => .ok test

mutual

def Expr.bind (ns : Namespaces) : Expr → Except Fault Expr
  | .literal s => .ok (.literal s)
  | .number x => .ok (.number x)
  | .reference n => .ok (.reference n)
  | .sequence items => do .ok (.sequence (← bindAll ns items))
  | .path absolute steps => do .ok (.path absolute (← bindSteps ns steps))
  | .call n args => do
    let _ ← Function.resolve n args.length
    .ok (.call n (← bindAll ns args))
  | .binary op l r => do
    let l ← l.bind ns
    let r ← r.bind ns
    .ok (.binary op l r)
  | .negate e => do .ok (.negate (← e.bind ns))
  | .conditional c y n => do
    let c ← c.bind ns
    let y ← y.bind ns
    let n ← n.bind ns
    .ok (.conditional c y n)

def bindAll (ns : Namespaces) : List Expr → Except Fault (List Expr)
  | [] => .ok []
  | e :: es => do
    let e ← e.bind ns
    let es ← bindAll ns es
    .ok (e :: es)

def bindSteps (ns : Namespaces) : List Step → Except Fault (List Step)
  | [] => .ok []
  | .mk axis test ps :: r => do
    let test ← test.bind ns
    let ps ← bindAll ns ps
    let r ← bindSteps ns r
    .ok (.mk axis test ps :: r)

end

/-- Binds the steps of a pattern; only the last one may select attributes. -/
def bindPatternSteps (ns : Namespaces) (input : String) :
    List PatternStep → Except Fault (List PatternStep)
  | [] => .ok []
  | s :: r => do
    if s.isAttribute && !r.isEmpty then throw (.attributeNotLast input)
    let test ← s.test.bind ns
    let ps ← bindAll ns s.predicates
    let r ← bindPatternSteps ns input r
    .ok ({ s with test := test, predicates := ps } :: r)

def PathPattern.bind (ns : Namespaces) (input : String) (p : PathPattern) :
    Except Fault PathPattern := do
  .ok { p with steps := (← bindPatternSteps ns input p.steps) }

/-- Reads an expression and binds it. -/
def parseExpr (ns : Namespaces) (input : String) : Except Fault Expr := do
  let e ← readExpr input
  e.bind ns

/-- Reads a pattern and binds it. -/
def parsePattern (ns : Namespaces) (input : String) : Except Fault Pattern := do
  match ← readPattern input with
  | .single p => .ok (.single (← p.bind ns input))
  | .union ps => .ok (.union (← ps.mapM (·.bind ns input)))

end Path

end StreamTransform
