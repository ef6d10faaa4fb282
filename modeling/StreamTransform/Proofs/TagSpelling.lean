import StreamTransform.Output.Recorder
import StreamTransform.Proofs.Lasting
import StreamTransform.Proofs.Nesting

/-!
# How end tags are spelled

An end tag is accepted if it has the namespace and the local name of the innermost open element, and
the sink is called with the name of the end tag, not with that of the element. So an end tag may
have another prefix than the start tag that it closes, and this is all in which the two can differ.
Where no instruction writes single tags, the name is the same.
-/

namespace StreamTransform

/-! ## Prefixes -/

namespace QName

/-- The prefix that a name is shown with, empty if there is none. -/
def shownPrefix (n : QName) : String := n.qualifier.getD ""

theorem display_eq_ite (n : QName) : n.display =
    if n.shownPrefix = "" then n.localName else n.shownPrefix ++ ":" ++ n.localName := by
  unfold display shownPrefix
  cases n.qualifier with
  | none => rfl
  | some q => simp [String.isEmpty_iff]

/-- Names that are the same are shown alike exactly if their prefixes are. -/
theorem display_eq_iff {n m : QName} (h : n.same m) :
    n.display = m.display ↔ n.shownPrefix = m.shownPrefix := by
  have hlocal : n.localName = m.localName := by
    simp only [same, Bool.and_eq_true, beq_iff_eq] at h
    exact h.2
  have hlonger : ∀ p : String, m.localName ≠ p ++ ":" ++ m.localName := by
    intro p heq
    have hlength := congrArg String.length heq
    simp at hlength
  rw [display_eq_ite, display_eq_ite, hlocal]
  constructor
  · intro heq
    split at heq <;> split at heq
    · simp [*]
    · exact (hlonger _ heq).elim
    · exact (hlonger _ heq.symm).elim
    · have hlists := congrArg String.toList heq
      simp only [String.toList_append, List.append_assoc, List.append_cancel_right_eq] at hlists
      exact String.toList_inj.mp hlists
  · intro heq
    rw [heq]

end QName

namespace Output

/-! ## Start tags and the end tags that close them -/

/-- Every end tag is related to the start tag that it closes. What is no tag may stand anywhere. -/
inductive Matched (related : QName → QName → Prop) : List Event → Prop
  | nil : Matched related []
  | other {e : Event} {es : List Event} : e.isTag = false → Matched related es →
      Matched related (e :: es)
  | element (attributes : List Attribute) {name last : QName} {content es : List Event} :
      related name last → Matched related content → Matched related es →
      Matched related (.opening name attributes :: content ++ .closing last :: es)

section
variable {related : QName → QName → Prop} {es before after : List Event} {m : QName}
  {names : List QName}

theorem Paired.matched (h : Paired es) : Matched (fun n m => n.same m) es := by
  induction h with
  | nil => exact .nil
  | other he _ ih => exact .other he ih
  | element attributes hn _ _ ihc ih => exact .element attributes hn ihc ih

theorem Event.isTag_of_isPlain {e : Event} (he : e.isPlain) : e.isTag = false := by
  cases e <;> first | rfl | cases he

theorem Nested.matched (h : Nested es) : Matched Eq es := by
  induction h with
  | nil => exact .nil
  | plain he _ ih => exact .other (Event.isTag_of_isPlain he) ih
  | element name attributes _ _ ihc ih => exact .element attributes rfl ihc ih

theorem Matched.append (h : Matched related es) (h' : Matched related after) :
    Matched related (es ++ after) := by
  induction h with
  | nil => exact h'
  | other he _ ih => exact .other he ih
  | element attributes hn hc _ _ ih =>
    rw [List.append_assoc]
    exact .element attributes hn hc ih

/-- Every end tag closes a start tag before it, with whole elements between. -/
theorem Matched.closes (h : Matched related es) (hes : es = before ++ .closing m :: after) :
    ∃ outside n as content, before = outside ++ .opening n as :: content ∧
      Matched related content ∧ related n m := by
  induction h generalizing before after with
  | nil => simp at hes
  | @other e es he _ ih =>
    cases before with
    | nil =>
      obtain ⟨rfl, -⟩ := List.cons.inj hes
      cases he
    | cons b before =>
      obtain ⟨hb, htail⟩ := List.cons.inj hes
      obtain ⟨outside, n, as, content, rfl, hc, hn⟩ := ih htail
      exact ⟨b :: outside, n, as, content, rfl, hc, hn⟩
  | @element attributes name last content es hlast hcontent _ ihc ih =>
    cases before with
    | nil => cases hes
    | cons b before =>
      obtain ⟨hb, htail⟩ := List.cons.inj hes
      subst hb
      rcases List.append_eq_append_iff.1 htail with ⟨inner, rfl, hinner⟩ | ⟨inner, rfl, hinner⟩
      · cases inner with
        | nil =>
          cases hinner
          exact ⟨[], name, attributes, content, by simp, hcontent, hlast⟩
        | cons c inner =>
          -- The end tag comes after this element.
          obtain ⟨rfl, hes'⟩ := List.cons.inj hinner
          obtain ⟨outside, n, as, content', rfl, hc, hn⟩ := ih hes'
          exact ⟨.opening name attributes :: content ++ .closing last :: outside, n, as, content',
            by simp, hc, hn⟩
      · cases inner with
        | nil =>
          cases hinner
          rw [List.append_nil] at hcontent
          exact ⟨[], name, attributes, before, rfl, hcontent, hlast⟩
        | cons c inner =>
          -- The end tag stands within this element.
          obtain ⟨rfl, -⟩ := List.cons.inj hinner
          obtain ⟨outside, n, as, content', rfl, hc, hn⟩ := ihc rfl
          exact ⟨.opening name attributes :: outside, n, as, content', rfl, hc, hn⟩

theorem Unclosed.completed (h : Unclosed es names) : Nested (es ++ names.map .closing) := by
  induction names generalizing es with
  | nil => simpa using h.nested
  | cons name names ih => simpa using ih h.closing

end

/-! ## The outlet -/

/-- What happens apart from the sinks and the resolver is no call. -/
theorem Tracked.unheard {o : Outlet} (h : Tracked o) {x : Happening}
    (hcalls : ∀ d, Record.calls (x :: o.record) d = o.record.calls d)
    (hdocuments : Record.documents (x :: o.record) = o.record.documents) :
    Tracked (o.after x) := by
  refine
    { leaving := ?leaving, known := ?known, held := h.held, distinct := h.distinct,
      opened := ?opened, uncalled := ?uncalled, ended := ?ended }
  case leaving => exact fun d => (hcalls d).symm ▸ h.leaving d
  case known => exact fun t ht d hd => (hcalls d).symm ▸ h.known t ht d hd
  case opened => exact fun t ht i hi => hdocuments.symm ▸ h.opened t ht i hi
  case uncalled => exact fun i hi => (hcalls _).trans (h.uncalled i (hdocuments ▸ hi))
  case ended => exact fun d before after heq => h.ended d before after ((hcalls d).symm.trans heq)

theorem Tracked.noted {o : Outlet} (h : Tracked o) (n : Note) : Tracked (o.after (.noted n)) :=
  h.unheard (Record.calls_noted n _) (Record.documents_cons (by simp) _)

theorem Tracked.reported {o : Outlet} (h : Tracked o) (d : Diagnostic) (answer : Option Fault) :
    Tracked (o.after (.reported d answer)) :=
  h.unheard (Record.calls_reported d answer _) (Record.documents_cons (by simp) _)

theorem Writing.Comes.attempted {α : Type} {w : Writing α} {o : Outlet}
    (h : w.Comes o (Writing.Reaches o)) : w.Attempted o fun _ => Tracked :=
  h.mono (fun _ _ hr => hr.1) fun _ _ hr _ _ _ => hr.1.reported _ _

end Output

open Output

/-- Whatever a run writes, its outlet is tracked. -/
theorem lasting_tracked (env : Environment) : Lasting env Tracked where
  initial := tracked_initial
  noted _ n h := h.noted n
  reported _ d answer h := h.reported d answer
  written hw o h := by
    cases hw with
    | emit _ => exact (Writing.comes_emit h _).attempted
    | addAttribute a => exact (Writing.comes_addAttribute h a).attempted
    | openCapture owner context => exact (Writing.comes_openCapture h owner context).attempted
    | closeCapture owner => exact (Writing.comes_closeCapture h owner).attempted
    | openDocument owner href => exact (Writing.comes_openDocument h owner href).attempted
    | closeDocument owner => exact (Writing.comes_closeDocument h owner).attempted
  started _ _ h := (Writing.comes_emit h _).attempted

/-! ## Structured programs -/

theorem Output.Complete.matched {es : List Output.Event} (h : Complete es) : Matched Eq es := by
  obtain ⟨body, rfl, hbody⟩ := h
  exact .other rfl (hbody.matched.append (.other rfl .nil))

/-- What a sink has got is the beginning of events whose tags have the same names. -/
theorem FitsElements.matched {st : Stage} {o : Outlet} (h : FitsElements st o) (d : Destination) :
    ∃ rest, Matched Eq (o.record.taken d ++ rest) := by
  by_cases hd : ∃ t ∈ o.scopes, t.destination? = some d
  · obtain ⟨t, ht, hdest⟩ := hd
    have hprogress := h.underWay t ht d hdest
    cases st with
    | before =>
      have hnone : o.record.taken d = [] := hprogress
      exact ⟨[], by rw [hnone]; exact .nil⟩
    | within cs =>
      obtain ⟨body, hbody, hunclosed⟩ := hprogress
      exact ⟨_, by rw [hbody]; exact .other rfl hunclosed.completed.matched⟩
    | after =>
      have hcomplete : Complete (o.record.taken d) := hprogress
      exact ⟨[], by rw [List.append_nil]; exact hcomplete.matched⟩
  · refine ⟨[], ?_⟩
    rw [List.append_nil]
    rcases h.settled d fun t ht hdest => hd ⟨t, ht, hdest⟩ with hnone | hcomplete
    · rw [hnone]
      exact .nil
    · exact hcomplete.matched

/-- How the end tags of a run are spelled. -/
structure SpellsTags (env : Environment) : Prop where
  /-- Every end tag that a sink is called with closes a start tag that it was called with, of the
  same namespace and local name; they are shown alike exactly if their prefixes are. -/
  closes : ∀ fuel is d before m after,
    ((State.initial env.program).afterCalls env fuel is).record.calls d =
      before ++ .closing m :: after →
    ∃ outside n as content, before = outside ++ .opening n as :: content ∧
      Matched (fun n m => n.same m) content ∧ n.same m ∧
      (n.display = m.display ↔ n.shownPrefix = m.shownPrefix)
  /-- If no instruction writes single tags and sinks take everything, the names are the same. -/
  identical : ∀ ds, Script.build ds = .ok env.program → env.program.Structured →
    env.surroundings.Accepting → ∀ fuel is d before m after,
    ((State.initial env.program).afterCalls env fuel is).record.taken d =
      before ++ .closing m :: after →
    ∃ outside as content, before = outside ++ .opening m as :: content ∧ Matched Eq content

/-- Start tags and end tags fit in all but their prefixes, and in structured programs in all. -/
theorem spells_tags (env : Environment) : SpellsTags env where
  closes fuel is d before m after h := by
    obtain ⟨names, hleaving⟩ : ∃ names, Leaving (Record.calls _ d) names :=
      ((lasting_tracked env).afterCalls fuel is).leaving d
    rw [← State.record, h] at hleaving
    obtain ⟨outside, n, as, content, hbefore, hcontent, hsame⟩ :=
      hleaving.completed.matched.closes (List.append_assoc _ _ _)
    exact ⟨outside, n, as, content, hbefore, hcontent, hsame, QName.display_eq_iff hsame⟩
  identical ds hb hp ha fuel is d before m after h := by
    obtain ⟨st, hfits⟩ := (account_elements hp ha).accounted_afterCalls
      (Script.wellNested_of_build hb) fuel is
    obtain ⟨rest, hmatched⟩ := hfits.matched d
    rw [← State.record, h] at hmatched
    obtain ⟨outside, n, as, content, hbefore, hcontent, rfl⟩ :=
      hmatched.closes (List.append_assoc _ _ _)
    exact ⟨outside, as, content, hbefore, hcontent⟩

/-- The end tag of the element in which a text was gathered has the name of its start tag. -/
theorem spells_tags_gathering : ∃ before after,
    ((State.initial gathering.program).afterCalls gathering 40
      (.startDocument :: gatheringCalls ++ [.endDocument])).record.taken .main =
        before ++ .closing (.simple "r") :: after ∧
    ∃ outside as content, before = outside ++ .opening (.simple "r") as :: content ∧
      Matched Eq content := by
  have htaken : ((State.initial gathering.program).afterCalls gathering 40
      (.startDocument :: gatheringCalls ++ [.endDocument])).record.taken .main =
        [.startDocument, .opening (.simple "r") [], .characters "x"] ++
          .closing (.simple "r") :: [.endDocument] := by decide +kernel
  have haccepting : gathering.surroundings.Accepting := fun _ _ _ => rfl
  exact ⟨_, _, htaken, (spells_tags gathering).identical gatheringScript build_gathering
    structured_gathering haccepting 40 _ .main _ _ _ htaken⟩

/-- A start tag and an end tag with two prefixes for one namespace. -/
def prefixedScript : List Script.Declaration :=
  [.bind "a" "urn:u", .bind "b" "urn:u",
    .template "doc" {} [.startElement "a:x", .endElement "b:x"]]

def prefixed : Environment := ⟨(Script.draft prefixedScript).program, {}, .plain fun _ => none⟩

/-- The end tag is written with the prefix of its own. -/
example : render (((State.initial prefixed.program).receiveAll prefixed 40
    [.startDocument, .opening (.simple "doc") [], .closing (.simple "doc"),
      .endDocument]).2.record.taken .main) = "<a:x></b:x>" := by
  decide +kernel

end StreamTransform
