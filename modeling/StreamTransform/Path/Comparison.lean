import StreamTransform.Value
import StreamTransform.Path.Fault

/-!
# Comparison and arithmetic of values

A comparison of two sequences holds when it holds of some pair of their items.
The kind of a pair decides how it is compared: booleans before numbers before
texts; order is always numeric. A NaN is equal to nothing and different from
everything. Arithmetic works on the first items.
-/

namespace StreamTransform.Path

/-- Whether two items are equal; with a NaN they are not. -/
def itemsEqual (l r : Item) : Bool :=
  if l.isBoolean || r.isBoolean then l.toBoolean == r.toBoolean
  else if l.isNumber || r.isNumber then l.toNumber == r.toNumber
  else l.toText == r.toText

def compareItems (op : BinaryOperator) (l r : Item) : Bool :=
  match op with
  | .equal => itemsEqual l r
  | .notEqual => !itemsEqual l r
  | .less => l.toNumber < r.toNumber
  | .lessOrEqual => l.toNumber ≤ r.toNumber
  | .greater => r.toNumber < l.toNumber
  | .greaterOrEqual => r.toNumber ≤ l.toNumber
  | _ => false

/-- Some item of the one side against some item of the other. -/
def compare (op : BinaryOperator) (l r : Value) : Bool :=
  l.items.any fun a => r.items.any fun b => compareItems op a b

/-- An arithmetic operator on the numbers of both sides; an empty side gives the empty sequence. -/
def arithmetic (op : BinaryOperator) (l r : Value) : Except Fault Value :=
  if l.isEmpty || r.isEmpty then .ok .empty
  else
    let x := l.toNumber
    let y := r.toNumber
    match op with
    | .plus => .ok (.number (x + y))
    | .minus => .ok (.number (x - y))
    | .times => .ok (.number (x * y))
    | .divide => .ok (.number (x / y))
    | .modulo => .ok (.number (Decimal.remainder x y))
    | op => .error (.notArithmetic op)

end StreamTransform.Path
