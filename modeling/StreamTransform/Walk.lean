/-!
# Walks

The parts of the input that a template can ask to be processed. A walk over
attributes is over before its template goes on; the others suspend it.
-/

namespace StreamTransform

inductive Walk where
  | children | attributes | self | siblings
  deriving Repr, DecidableEq

namespace Walk

/-- The name of the instruction that asks for the walk. -/
def title : Walk → String
  | children => "process-children"
  | attributes => "process-attributes"
  | self => "process-self"
  | siblings => "process-siblings"

def suspends : Walk → Bool
  | attributes => false
  | children | self | siblings => true

end Walk

end StreamTransform
