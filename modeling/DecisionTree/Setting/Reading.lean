import DecisionTree.Error

/-!
# Settings read as numbers

Reading a setting as a number is where its kind is checked.  A value of the wrong
kind, a text or float that stands for no such number, and a number that does not
fit are three different errors.
-/

namespace DecisionTree.Setting

/-- A setting read as a float. -/
def float? : Setting → Except Error Float
  | .atom (.float value) => .ok value
  | .atom (.bool value) => .ok (Decimal.floatOfInt (Atom.ofTruth value))
  | .atom (.int value) =>
      let nearest := Decimal.floatOfInt value
      if nearest.isFinite then .ok nearest else .error .tooLarge
  | .atom (.text value) =>
      match Decimal.Reading.float? value with
      | some value => .ok value
      | none => .error .badValue
  | _ => .error .wrongKind

/-- A setting read as an integer; floats lose their fraction. -/
def int? : Setting → Except Error Int
  | .atom (.int value) => .ok value
  | .atom (.bool value) => .ok (Atom.ofTruth value)
  | .atom (.float value) =>
      match (Binary64.ofFloat value).truncate? with
      | some value => .ok value
      | none => .error (if value.isNaN then .badValue else .tooLarge)
  | .atom (.text value) =>
      match Decimal.Reading.int? value with
      | some value => .ok value
      | none => .error .badValue
  | _ => .error .wrongKind

end DecisionTree.Setting
