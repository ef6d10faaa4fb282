import StreamTransform.Program.ComputedName
import StreamTransform.Script.Resolution
import StreamTransform.Proofs.BoundTests
import StreamTransform.Proofs.Roundtrip
import StreamTransform.Proofs.Spelling

/-!
# Three resolvers of names

A written name is resolved in a test by the parser, as a name that is written out by the script, and
as a computed name at run time. A name without a qualifier has no namespace for any of the three,
and a qualifier other than `xml` is looked up in the same way by all of them. The qualifier `xml` is
known to the parser alone: the other two want it declared, and take what it is declared as.
-/

namespace StreamTransform

open StreamTransform.Path

/-! ## Names as patterns -/

def Path.LexicalName.text (n : LexicalName) : String := String.ofList n.print

/-- The test that a name is read as. -/
def Path.LexicalName.test : LexicalName → NodeTest
  | plain l => .name none l.text ""
  | qualified q l => .name (some q.text) l.text ""

namespace Path

open Reader

variable {expr : Reader Expr}

theorem nodeTest_print (n : LexicalName) : nodeTest n.print = some (n.test, []) := by
  have ends : EndsTest [] := ⟨fun _ h => (by cases h), fun _ h => (by cases h)⟩
  cases n with
  | plain l =>
    have read := nodeTest_name l ends
    rwa [List.append_nil] at read
  | qualified q l =>
    have read := nodeTest_qualified q l ends
    rwa [List.append_nil] at read

/-- A name begins with no sign. -/
theorem LexicalName.head_print (n : LexicalName) {c : Char} (h : isNameChar c = false) :
    n.print.head? ≠ some c := by
  have first (m : NcName) (rest : List Char) : (m.text.toList ++ rest).head? ≠ some c := by
    obtain ⟨d, r, spelled, start, -⟩ := m.spelled
    rw [spelled]
    rintro ⟨⟩
    rw [isNameChar_of_isNameStart start] at h
    cases h
  cases n with
  | plain l => simpa [LexicalName.print] using first l []
  | qualified q l => exact first q _

theorem predicates_nil : predicates expr [] = some ([], []) := by
  rw [predicates, many]
  rfl

theorem patternStep_print (n : LexicalName) :
    patternStep expr n.print = some (⟨n.test, false, false, []⟩, []) := by
  have noSign : Reader.optional (char '@') n.print = some (none, n.print) := by
    simp only [Reader.optional, char_of_head (n.head_print (c := '@') (by decide))]
  exact map_of_some _ (seq_of_some noSign (seq_of_some (nodeTest_print n) predicates_nil))

theorem relativePattern_print (n : LexicalName) :
    relativePattern expr n.print = some ((⟨n.test, false, false, []⟩, []), []) := by
  rw [relativePattern, patternStep_print]
  simp only
  rw [many]
  rfl

theorem pathPattern_print (n : LexicalName) :
    pathPattern expr n.print = some (⟨false, [⟨n.test, false, false, []⟩]⟩, []) := by
  have noSlash : n.print.head? ≠ some '/' := n.head_print (by decide)
  rw [pathPattern,
    firstOf_of_none _ (map_of_none _ (after_of_none _ (literally_of_head noSlash))),
    firstOf_of_none _ (map_of_none _ (after_of_none _ (char_of_head noSlash))),
    firstOf_of_some _ (map_of_some _ (relativePattern_print n))]

/-- A name is a pattern of one step. -/
theorem readPattern_print (n : LexicalName) :
    readPattern n.text = .ok (.single ⟨false, [⟨n.test, false, false, []⟩]⟩) := by
  have start : skipSpace n.print = n.print := by
    simpa using skipSpace_solid n.solid []
  have whole (expr : Reader Expr) : pattern expr n.print =
      some (.single ⟨false, [⟨n.test, false, false, []⟩]⟩, []) := by
    have others : many (after (spaced (char '|')) (spaced (pathPattern expr))) [] = ([], []) := by
      rw [many]
      rfl
    have first : spaced (pathPattern expr) n.print =
        some (⟨false, [⟨n.test, false, false, []⟩]⟩, []) := by
      simp only [spaced, start, pathPattern_print]
      rfl
    simp only [pattern, first, others]
  simp only [readPattern, LexicalName.text, String.toList_ofList, n.solid.trim, readWhole, whole]

end Path

/-! ## Names in parts -/

/-- A written name falls into the parts it is written from. -/
theorem splitName_print (n : LexicalName) :
    splitName n.text = match n with
      | .plain l => (none, l.text)
      | .qualified q l => (some q.text, l.text) := by
  have noColon (m : NcName) : ':' ∉ m.text.toList := fun h => by
    have := m.isNameChar_of_mem ':' h
    exact absurd this (by decide)
  cases n with
  | plain l =>
    have hsplit := Text.splitAtFirst_append (k := []) (s := []) (noColon l)
    rw [List.append_nil] at hsplit
    simp [splitName, LexicalName.text, LexicalName.print, hsplit, Text.splitAtFirst]
  | qualified q l =>
    have hsplit := Text.splitAtFirst_append (k := []) (s := ':' :: l.text.toList) (noColon q)
    have hcolon : Text.splitAtFirst [':'] (':' :: l.text.toList) = some ([], l.text.toList) :=
      Text.splitAtFirst_nil_append
    rw [hcolon] at hsplit
    simp [splitName, LexicalName.text, LexicalName.print, hsplit]

/-! ## Outcomes -/

/-- What a resolver makes of a name: a namespace, or a complaint about its qualifier. -/
inductive Resolved where
  | inNamespace (uri : String)
  | undeclared (qualifier : String)
  | otherwise
  deriving DecidableEq

/-- The outcome of a parse, by the namespace of the one test in the pattern. -/
def Resolved.ofParse : Except Path.Fault Pattern → Resolved
  | .ok (.single ⟨_, [s]⟩) => s.test.uri?.elim .otherwise .inNamespace
  | .ok _ => .otherwise
  | .error (.unknownQualifier q) => .undeclared q
  | .error _ => .otherwise

/-- The outcome of reading a name in a script. A complaint is a problem that is noted. -/
def Resolved.ofReading (r : Script.Reading) : QName × Script.Reading → Resolved
  | (n, r') =>
    if r'.problems.length = r.problems.length then .inNamespace n.uri
    else
      match r'.problems.head? with
      | some ⟨_, .unboundQualifier q⟩ => .undeclared q
      | _ => .otherwise

def Resolved.ofName : Except StreamTransform.Fault QName → Resolved
  | .ok n => .inNamespace n.uri
  | .error (.undeclaredQualifier q) => .undeclared q
  | .error _ => .otherwise

/-- A name as the test that a pattern consists of. -/
def resolvedInTest (ns : Namespaces) (lexical : String) : Resolved :=
  .ofParse (parsePattern ns lexical)

/-- A name that a script writes out. -/
def resolvedInScript (r : Script.Reading) (lexical : String) : Resolved :=
  .ofReading r ((Script.Resolve.name lexical).run r)

/-- A name that is computed, without an explicit namespace. -/
def resolvedAtRun (ns : Namespaces) (lexical : String) : Resolved :=
  .ofName (computedName lexical none ns)

/-- The outcome that the declarations alone give. -/
def declared (ns : Namespaces) (qualifier : String) : Resolved :=
  match ns.lookup qualifier with
  | some uri => .inNamespace uri
  | none => .undeclared qualifier

section
variable {ns : Namespaces}

/-- The parse of a name is the binding of its test. -/
theorem parsePattern_text (n : LexicalName) : parsePattern ns n.text =
    (n.test.bind ns).map fun test => .single ⟨false, [⟨test, false, false, []⟩]⟩ := by
  rw [parsePattern, readPattern_print]
  simp only [Bind.bind, Except.bind, PathPattern.bind, bindPatternSteps]
  cases n.test.bind ns <;> rfl

theorem resolvedInTest_plain (l : NcName) :
    resolvedInTest ns (LexicalName.plain l).text = .inNamespace "" := by
  rw [resolvedInTest, parsePattern_text]
  rfl

theorem resolvedInTest_qualified (q l : NcName) :
    resolvedInTest ns (LexicalName.qualified q l).text =
      if q.text = "xml" then .inNamespace xmlNamespace else declared ns q.text := by
  rw [resolvedInTest, parsePattern_text, LexicalName.test, NodeTest.bind, resolveQualifier,
    declared]
  by_cases hxml : q.text = "xml"
  · rw [if_pos hxml, if_pos hxml]
    rfl
  · rw [if_neg hxml, if_neg hxml]
    cases ns.lookup q.text <;> rfl

theorem resolvedInScript_plain (r : Script.Reading) (l : NcName) :
    resolvedInScript r (LexicalName.plain l).text = .inNamespace "" := by
  rw [resolvedInScript, Script.Resolve.name, splitName_print]
  exact if_pos rfl

/-- A name whose qualifier is not declared is noted as a problem, and loses the qualifier. -/
theorem run_name (r : Script.Reading) (q l : NcName) :
    (Script.Resolve.name (LexicalName.qualified q l).text).run r =
      match r.namespaces.lookup q.text with
      | some uri => (⟨some q.text, l.text, some uri⟩, r)
      | none => (QName.simple l.text,
          { r with problems := ⟨r.location, .unboundQualifier q.text⟩ :: r.problems }) := by
  rw [Script.Resolve.name, splitName_print]
  change (match r.namespaces.lookup q.text with
    | some uri => (pure ⟨some q.text, l.text, some uri⟩ : Script.Resolve QName)
    | none => do
      Script.Resolve.problem (.unboundQualifier q.text)
      pure (QName.simple l.text)) r = _
  cases r.namespaces.lookup q.text <;> rfl

theorem resolvedInScript_qualified (r : Script.Reading) (q l : NcName) :
    resolvedInScript r (LexicalName.qualified q l).text = declared r.namespaces q.text := by
  rw [resolvedInScript, run_name, declared]
  cases r.namespaces.lookup q.text with
  | some uri => exact if_pos rfl
  | none => exact if_neg (Nat.succ_ne_self _)

theorem resolvedAtRun_plain (l : NcName) :
    resolvedAtRun ns (LexicalName.plain l).text = .inNamespace "" := by
  rw [resolvedAtRun, computedName, splitName_print]
  simp only [l.legal]
  rfl

theorem resolvedAtRun_qualified (q l : NcName) :
    resolvedAtRun ns (LexicalName.qualified q l).text = declared ns q.text := by
  rw [resolvedAtRun, computedName, splitName_print, declared]
  simp only [l.legal, q.legal, Option.any_some, Bool.not_true, Bool.or_self, Bool.false_eq_true,
    if_false, namespaceFor]
  cases ns.lookup q.text <;> rfl

end

/-- How names are resolved where these namespaces are declared. -/
structure ResolvesNames (r : Script.Reading) : Prop where
  /-- A name without a qualifier has no namespace. -/
  plain (l : NcName) : let text := (LexicalName.plain l).text
    resolvedInTest r.namespaces text = .inNamespace "" ∧
      resolvedInScript r text = .inNamespace "" ∧
      resolvedAtRun r.namespaces text = .inNamespace ""
  /-- Names that are written out or computed go by the declarations, whatever the qualifier. -/
  qualified (q l : NcName) : let text := (LexicalName.qualified q l).text
    resolvedInScript r text = declared r.namespaces q.text ∧
      resolvedAtRun r.namespaces text = declared r.namespaces q.text
  /-- Tests do as well, but for one qualifier, which has its own namespace always. -/
  tested (q l : NcName) : let text := (LexicalName.qualified q l).text
    resolvedInTest r.namespaces text =
      if q.text = "xml" then .inNamespace xmlNamespace else declared r.namespaces q.text
  /-- So the three agree, unless this qualifier is used without being declared as what it is. -/
  agree (q l : NcName) : let text := (LexicalName.qualified q l).text
    resolvedInTest r.namespaces text = resolvedInScript r text ∧
        resolvedInScript r text = resolvedAtRun r.namespaces text ↔
      q.text ≠ "xml" ∨ r.namespaces.lookup "xml" = some xmlNamespace

/-- Three resolvers, one for tests, one for names in a script and one for computed names, differ
in the qualifier `xml` alone. -/
theorem resolves_names (r : Script.Reading) : ResolvesNames r where
  plain l := ⟨resolvedInTest_plain l, resolvedInScript_plain r l, resolvedAtRun_plain l⟩
  qualified q l := ⟨resolvedInScript_qualified r q l, resolvedAtRun_qualified q l⟩
  tested q l := resolvedInTest_qualified q l
  agree q l := by
    simp only [resolvedInTest_qualified, resolvedInScript_qualified, resolvedAtRun_qualified,
      and_true]
    by_cases hxml : q.text = "xml"
    · rw [if_pos hxml, declared, hxml]
      cases r.namespaces.lookup "xml" <;> simp [eq_comm]
    · simp [hxml]

end StreamTransform
