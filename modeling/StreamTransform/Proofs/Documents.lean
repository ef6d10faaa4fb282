import StreamTransform.Proofs.Writing

/-!
# Documents that are written

A document is complete if its tags pair up by their names between the marks of
its start and its end. While it is under way some elements are unclosed, and
what comes next either leaves them alone, adds one or closes the innermost one.
-/

namespace StreamTransform

namespace Output

/-- Output that neither opens nor closes anything. -/
def Event.isPlain : Event → Bool
  | .characters _ | .comment _ | .instruction .. | .startCdata | .endCdata => true
  | .startDocument | .endDocument | .opening .. | .closing _ => false

theorem Writing.emit_of_isPlain {s : Surroundings} {e : Event} (he : e.isPlain) :
    emit s e = (do flush s; let _ ← top; deliver s e) := by
  cases e <;> first | rfl | cases he

/-- Start tags and end tags pair up, with identical names. -/
inductive Nested : List Event → Prop
  | nil : Nested []
  | plain {e : Event} {es : List Event} : e.isPlain → Nested es → Nested (e :: es)
  | element (name : QName) (attributes : List Attribute) {content es : List Event} :
      Nested content → Nested es →
      Nested (.opening name attributes :: content ++ .closing name :: es)

/-- Events that leave elements unclosed, the innermost first. -/
inductive Unclosed : List Event → List QName → Prop
  | none {es : List Event} : Nested es → Unclosed es []
  | element {es : List Event} {names : List QName} (name : QName) (attributes : List Attribute)
      {content : List Event} : Unclosed es names → Nested content →
      Unclosed (es ++ .opening name attributes :: content) (name :: names)

section
variable {es content : List Event} {names : List QName} {name : QName} {e : Event}

theorem Nested.append (h : Nested es) (h' : Nested content) : Nested (es ++ content) := by
  induction h with
  | nil => exact h'
  | plain he _ ih => exact .plain he ih
  | element name attributes hc _ _ ih =>
    rw [List.append_assoc]
    exact .element name attributes hc ih

theorem Unclosed.append (h : Unclosed es names) (h' : Nested content) :
    Unclosed (es ++ content) names := by
  cases h with
  | none h => exact .none (h.append h')
  | element name attributes h hc =>
    rw [List.append_assoc]
    exact .element name attributes h (hc.append h')

theorem Unclosed.plain (h : Unclosed es names) (he : e.isPlain) : Unclosed (es ++ [e]) names :=
  h.append (.plain he .nil)

theorem Unclosed.opening (h : Unclosed es names) (name : QName) (attributes : List Attribute) :
    Unclosed (es ++ [.opening name attributes]) (name :: names) :=
  .element name attributes h .nil

/-- The end tag of the innermost element makes it part of the content around it. -/
theorem Unclosed.closing (h : Unclosed es (name :: names)) :
    Unclosed (es ++ [.closing name]) names := by
  cases h with
  | element _ attributes h hc =>
    rw [List.append_assoc]
    exact h.append (.element name attributes hc .nil)

theorem Unclosed.nested (h : Unclosed es []) : Nested es := by
  cases h with
  | none h => exact h

end

/-- A whole document, from the mark of its start to that of its end. -/
def Complete (es : List Event) : Prop :=
  ∃ body, es = .startDocument :: body ++ [.endDocument] ∧ Nested body

end Output

/-! ## What the record tells of them -/

namespace Record

open Output

variable {r : Record} {h : Happening} {d : Destination}

@[simp] theorem taken_nil (d : Destination) : taken [] d = [] := rfl

theorem taken_cons (h : Happening) (r : Record) (d : Destination) :
    taken (h :: r) d = taken r d ++ taken [h] d := by
  simp [taken, List.filterMap_append]

theorem taken_sent (r : Record) (d : Destination) (e : Output.Event) :
    taken (.sent d e none :: r) d = taken r d ++ [e] := by
  rw [taken_cons]
  simp [taken]

theorem taken_sent_of_ne {d' : Destination} (hd : d ≠ d') (r : Record) (e : Output.Event)
    (refusal : Option Fault) : taken (.sent d e refusal :: r) d' = taken r d' := by
  rw [taken_cons]
  cases refusal <;> simp [taken, hd]

@[simp] theorem taken_noted (n : Note) (r : Record) (d : Destination) :
    taken (.noted n :: r) d = taken r d := by
  rw [taken_cons]
  simp [taken]

@[simp] theorem taken_reported (diagnostic : Diagnostic) (answer : Option Fault) (r : Record)
    (d : Destination) : taken (.reported diagnostic answer :: r) d = taken r d := by
  rw [taken_cons]
  simp [taken]

@[simp] theorem taken_resolved (href : String) (refusal : Option Fault) (r : Record)
    (d : Destination) : taken (.resolved href refusal :: r) d = taken r d := by
  rw [taken_cons]
  simp [taken]

/-- Only a document that was had counts. -/
theorem documents_cons {h : Happening} (hh : ∀ href, h ≠ .resolved href none) (r : Record) :
    documents (h :: r) = documents r := by
  unfold documents
  rw [List.filterMap_cons_none]
  split
  · rename_i href
    exact absurd rfl (hh href)
  · rfl

theorem length_documents_le (h : Happening) (r : Record) :
    (documents r).length ≤ (documents (h :: r)).length := by
  unfold documents
  rw [List.filterMap_cons]
  split <;> simp

end Record

end StreamTransform
