import StreamTransform.Proofs.Copy
import StreamTransform.Output.Recorder

/-!
# What a recorder holds

A recorder joins texts that follow one another and leaves out empty ones. What
it holds is therefore determined from the front: a text joins a text behind it,
and in front of anything else it stands by itself unless it is empty. A list
that a recorder holds is one that it would hold again.
-/

namespace StreamTransform.Output

/-- The event is a text. -/
def Event.isText : Event → Bool
  | .characters _ => true
  | _ => false

section
variable {e : Event} {es r : List Event} {s t : String}

theorem record_of_isText (he : e.isText = false) (r : List Event) : record r e = e :: r := by
  cases e <;> first | rfl | cases he

theorem record_empty (r : List Event) : record r (.characters "") = r := by
  unfold record
  split <;> simp_all

/-- What was recorded before an event other than a text is out of reach. -/
theorem record_append_cons (he : e.isText = false) (x : Event) (a b : List Event) :
    record (a ++ e :: b) x = record a x ++ e :: b := by
  cases x with
  | characters t =>
    cases a with
    | nil =>
      cases e with
      | characters => cases he
      | _ =>
        simp only [List.nil_append, record]
        split <;> rfl
    | cons y a =>
      cases y <;>
      · simp only [List.cons_append, record]
        split <;> rfl
  | _ => rfl

theorem foldl_record_append_cons (he : e.isText = false) (es a b : List Event) :
    es.foldl record (a ++ e :: b) = es.foldl record a ++ e :: b := by
  induction es generalizing a with
  | nil => rfl
  | cons x es ih => rw [List.foldl_cons, List.foldl_cons, record_append_cons he, ih]

theorem recorded_cons (he : e.isText = false) : recorded (e :: es) = e :: recorded es := by
  have hfold := foldl_record_append_cons he es [] []
  rw [List.nil_append] at hfold
  rw [recorded, List.foldl_cons, record_of_isText he, hfold, recorded]
  simp

theorem recorded_text : recorded [.characters s] = if s.isEmpty then [] else [.characters s] := by
  simp only [recorded, List.foldl_cons, List.foldl_nil, record]
  split <;> rfl

/-- Texts that follow one another are recorded as one. -/
theorem recorded_characters :
    recorded (.characters s :: .characters t :: es) = recorded (.characters (s ++ t) :: es) := by
  have hjoin : record (record [] (.characters s)) (.characters t) =
      record [] (.characters (s ++ t)) := by
    by_cases hs : s = ""
    · rw [hs, String.empty_append]
      rfl
    · by_cases ht : t = ""
      · rw [ht, String.append_empty, record_empty]
      · simp [record, hs, ht]
  simp only [recorded, List.foldl_cons]
  rw [hjoin]

/-- In front of anything else a text stands by itself. -/
theorem recorded_text_before (he : e.isText = false) :
    recorded (.characters s :: e :: es) = recorded [.characters s] ++ recorded (e :: es) := by
  have hfold := foldl_record_append_cons he es [] (record [] (.characters s))
  rw [List.nil_append] at hfold
  rw [recorded_cons he]
  simp only [recorded, List.foldl_cons, List.foldl_nil]
  rw [record_of_isText he, hfold]
  simp

/-- Recording what is recorded changes nothing. -/
theorem recorded_recorded (es : List Event) : recorded (recorded es) = recorded es := by
  suffices h : ∀ s, recorded (recorded (.characters s :: es)) = recorded (.characters s :: es) from
    h ""
  induction es with
  | nil =>
    intro s
    rw [recorded_text]
    split
    · rfl
    · rename_i hs
      rw [recorded_text, if_neg hs]
  | cons e es ih =>
    intro s
    cases he : e.isText with
    | false =>
      have hes : recorded (recorded es) = recorded es := ih ""
      rw [recorded_text_before he, recorded_cons he, recorded_text]
      split
      · rw [List.nil_append, recorded_cons he, hes]
      · rename_i hs
        rw [List.singleton_append, recorded_text_before he, recorded_text, if_neg hs,
          recorded_cons he, hes, List.singleton_append]
    | true =>
      cases e with
      | characters t => rw [recorded_characters, ih]
      | _ => cases he

/-- The marks of a document stay around what is recorded between them. -/
theorem recorded_document (es : List Event) :
    recorded (.startDocument :: es ++ [.endDocument]) =
      .startDocument :: recorded es ++ [.endDocument] := by
  rw [List.cons_append, recorded_cons rfl, recorded, List.foldl_append]
  simp [recorded, record]

end

end StreamTransform.Output
