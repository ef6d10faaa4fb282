import StreamTransform.Fault
import StreamTransform.Program.Instruction

/-!
# Flat code

A body is laid out as consecutive nodes. What has content is followed by the
content and then by a closing node; the opening node knows where that is, and
the closing node knows where its opening node is. The node that follows in
execution is the next one, unless an instruction says otherwise.
-/

namespace StreamTransform

inductive Instruction where
  /-- The first node of a body. -/
  | body
  | act (action : Action)
  | container (container : Container)
  /-- A condition, and the alternative that is entered if the test fails. -/
  | condition (test : Path.Expr) (alternative : Option NodeId)
  | alternative
  | choice
  /-- A branch of the choice at a node. -/
  | when (test : Path.Expr) (choice : NodeId)
  | otherwise
  /-- The end of what starts at a node. -/
  | closing (start : NodeId)

structure Node where
  instruction : Instruction
  location : Location
  /-- The closing node of what starts here. -/
  close : Option NodeId

end StreamTransform
