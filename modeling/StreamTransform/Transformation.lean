import StreamTransform.Markup.Document

/-!
# Transformation of documents

Feeds a whole document to a transformation, from the start of the document to
its end. Malformed markup ends it where it is met; what was written before
stays written.
-/

namespace StreamTransform

/-- Transforms a document, starting in a state that has not started one. -/
def State.transform (env : Environment) (fuel : Nat) (document : String) (s : State) :
    Outcome × State :=
  let (inputs, fault) := Markup.read document
  match s.receiveAll env fuel (.startDocument :: inputs) with
  | (.completed, s) =>
    match fault with
    | some f => s.abort env f
    | none => s.receive env fuel .endDocument
  | (outcome, s) => (outcome, s)

end StreamTransform
