import StreamTransform.Input

/-!
# Copies of documents

What the built-in rules are to make of a document: texts that follow one another
are joined, those that do not count are dropped, end tags take the names of
their start tags, and of the events that remain a level lets some through.
-/

namespace StreamTransform

namespace Input

/-- Below the open elements, the innermost first, nothing comes but content, and every end tag has
the namespace and the local part of its start tag. -/
def Balanced (names : List QName) : List Input → Prop
  | [] => names = []
  | i :: is =>
    match i with
    | .opening n _ => Balanced (n :: names) is
    | .closing m => ∃ n rest, names = n :: rest ∧ n.same m ∧ Balanced rest is
    | .characters _ | .comment _ | .instruction .. => Balanced names is
    | .startDocument | .endDocument | .parameter .. => False

/-- Puts an input before others; two texts become one. -/
def join : Input → List Input → List Input
  | .characters s, .characters t :: r => .characters (s ++ t) :: r
  | i, r => i :: r

/-- Texts that follow one another make up one text. -/
def coalesce (is : List Input) : List Input := is.foldr join []

/-- The input is a text. -/
def isText : Input → Bool
  | .characters _ => true
  | _ => false

/-- Empty texts do not count, nor texts of white space alone that are to be dropped. -/
def counts (c : Configuration) : Input → Bool
  | .characters s => !(s.isEmpty || (c.stripSpace && s.toList.all Text.isXmlSpace))
  | _ => true

/-- The elements that are open after an input. -/
def openAfter (names : List QName) : Input → List QName
  | .opening n _ => n :: names
  | .closing _ => names.tail
  | _ => names

/-- An input as output; an end tag takes the name of its start tag. -/
def event? (names : List QName) : Input → Option Output.Event
  | .opening n as => some (.opening n as)
  | .closing m => some (.closing (names.headD m))
  | .characters s => some (.characters s)
  | .comment s => some (.comment s)
  | .instruction t d => some (.instruction t d)
  | .startDocument | .endDocument | .parameter .. => none

/-- Inputs as output, below open elements. -/
def echo (names : List QName) : List Input → List Output.Event
  | [] => []
  | i :: is => (i.event? names).toList ++ echo (i.openAfter names) is

end Input

/-- Which output a level lets through. -/
def PassThrough.passes : PassThrough → Output.Event → Bool
  | .nothing, _ => false
  | .text, .characters _ => true
  | .text, _ => false
  | .markup, .characters _ | .markup, .opening .. | .markup, .closing _ => true
  | .markup, _ => false
  | .all, _ => true

namespace Configuration

/-- What a level lets through of the events that count. -/
def filtered (c : Configuration) (names : List QName) (is : List Input) : List Output.Event :=
  (Input.echo names (is.filter (Input.counts c))).filter c.passThrough.passes

/-- The copy of content below open elements. -/
def copy (c : Configuration) (names : List QName) (is : List Input) : List Output.Event :=
  c.filtered names (Input.coalesce is)

end Configuration

/-! ## How a copy begins -/

section
variable {c : Configuration} {names : List QName} {is r : List Input} {i : Input}

theorem join_characters (s t : String) (r : List Input) :
    Input.join (.characters s) (Input.join (.characters t) r) =
      Input.join (.characters (s ++ t)) r := by
  rcases r with - | ⟨i, r⟩
  · rfl
  · cases i with
    | characters u =>
      change [Input.characters (s ++ (t ++ u))] ++ r = [Input.characters (s ++ t ++ u)] ++ r
      rw [String.append_assoc]
    | _ => rfl

theorem join_of_isText (hi : i.isText = false) (r : List Input) : Input.join i r = i :: r := by
  cases i <;> first | rfl | cases hi

/-- Before something else a text remains by itself. -/
theorem join_before (s : String) (hi : i.isText = false) (r : List Input) :
    Input.join (.characters s) (i :: r) = .characters s :: i :: r := by
  cases i <;> first | rfl | cases hi

theorem coalesce_of_isText (hi : i.isText = false) (is : List Input) :
    Input.coalesce (i :: is) = i :: Input.coalesce is := join_of_isText hi _

namespace Configuration

theorem filtered_text (s : String) (r : List Input) :
    c.filtered names (.characters s :: r) =
      c.filtered names [.characters s] ++ c.filtered names r := by
  unfold filtered
  rw [← List.filter_append]
  cases hs : Input.counts c (.characters s) with
  | false => simp only [List.filter_cons, hs]; rfl
  | true => simp only [List.filter_cons, hs]; rfl

theorem copy_characters (s t : String) :
    c.copy names (.characters s :: .characters t :: is) =
      c.copy names (.characters (s ++ t) :: is) :=
  congrArg (c.filtered names) (join_characters s t _)

/-- What a text becomes that nothing can be joined with any more. -/
theorem copy_text_before (s : String) (hi : i.isText = false) :
    c.copy names (.characters s :: i :: is) =
      c.copy names [.characters s] ++ c.copy names (i :: is) := by
  have hjoin : Input.coalesce (.characters s :: i :: is) =
      .characters s :: Input.coalesce (i :: is) := by
    rw [coalesce_of_isText hi]
    change Input.join (.characters s) (Input.coalesce (i :: is)) = _
    rw [coalesce_of_isText hi]
    exact join_before s hi _
  rw [copy, hjoin]
  exact filtered_text s _

theorem copy_text (s : String) :
    c.copy names [.characters s] =
      if Input.counts c (.characters s) then [.characters s].filter c.passThrough.passes else [] := by
  change c.filtered names [.characters s] = _
  rw [filtered, List.filter_cons]
  split <;> rfl

theorem copy_empty : c.copy names (.characters "" :: is) = c.copy names is := by
  change c.filtered names (Input.join (.characters "") (Input.coalesce is)) =
    c.filtered names (Input.coalesce is)
  have hnone : c.filtered names [.characters ""] = [] := rfl
  rcases hr : Input.coalesce is with - | ⟨i, r⟩
  · exact hnone
  · cases i with
    | characters t =>
      change c.filtered names (.characters ("" ++ t) :: r) = _
      rw [String.empty_append]
    | _ =>
      change c.filtered names (.characters "" :: _ :: r) = _
      rw [filtered_text, hnone, List.nil_append]

theorem copy_cons (hi : i.isText = false) :
    c.copy names (i :: is) =
      (i.event? names).toList.filter c.passThrough.passes ++ c.copy (i.openAfter names) is := by
  have hcounts : Input.counts c i = true := by cases i <;> first | rfl | cases hi
  rw [copy, coalesce_of_isText hi, filtered, List.filter_cons_of_pos hcounts, Input.echo,
    List.filter_append]
  rfl

end Configuration

end

end StreamTransform
