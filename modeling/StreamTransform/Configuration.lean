/-!
# Options of a run
-/

namespace StreamTransform

/-- What the default rule copies where no template matches. Each level copies what the one
before it does, and more. -/
inductive PassThrough where
  | nothing
  | text
  /-- Elements and attributes too. -/
  | markup
  /-- Comments and processing instructions too. -/
  | all
  deriving Repr, DecidableEq

namespace PassThrough

def copiesText : PassThrough → Bool
  | nothing => false
  | text | markup | all => true

def copiesMarkup : PassThrough → Bool
  | nothing | text => false
  | markup | all => true

def copiesAll : PassThrough → Bool
  | nothing | text | markup => false
  | all => true

end PassThrough

structure Configuration where
  passThrough : PassThrough := .markup
  /-- Text nodes of white space only are dropped. -/
  stripSpace : Bool := false
  /-- Bodies in execution within one activation; one more call is fatal. -/
  recursionLimit : Nat := 512
  deriving Repr

end StreamTransform
