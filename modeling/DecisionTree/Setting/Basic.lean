import DecisionTree.Atom.Basic

/-!
# Settings: values as a user gives them

The parameters of a classifier and the cells of a record arrive as values of any
kind.  A setting is an atom, a list of settings or a record with named fields.
-/

namespace DecisionTree

/-- A value of any kind. -/
inductive Setting where
  | atom (value : Atom)
  | list (items : List Setting)
  | record (fields : List (String × Setting))
  deriving Inhabited

namespace Setting

mutual

/-- A setting as it is shown inside messages. -/
def quoted : Setting → String
  | .atom value => value.quoted
  | .list items => "[" ++ ", ".intercalate (quotedItems items) ++ "]"
  | .record fields => "\x7b" ++ ", ".intercalate (quotedFields fields) ++ "\x7d"

/-- The items of a list, each as it is shown. -/
def quotedItems : List Setting → List String
  | [] => []
  | item :: rest => item.quoted :: quotedItems rest

/-- The fields of a record, each with its name before a colon. -/
def quotedFields : List (String × Setting) → List String
  | [] => []
  | (name, value) :: rest =>
      (Text.Quoted.text name ++ ": " ++ value.quoted) :: quotedFields rest

end

/-- A setting as plain text: a text is itself. -/
def plain : Setting → String
  | .atom value => value.plain
  | setting => setting.quoted

/-- Whether a setting is absent. -/
def isNull : Setting → Bool
  | .atom .null => true
  | _ => false

/-- Whether a setting equals zero as a number. -/
def isZero : Setting → Bool
  | .atom value => value.equal (.int 0)
  | _ => false

/-- The parts of a setting that can be gone through one by one: the items of a list,
the characters of a text, the names of a record's fields. -/
def items? : Setting → Option (List Setting)
  | .list items => some items
  | .atom (.text value) => some (value.toList.map fun char => .atom (.text char.toString))
  | .record fields => some (fields.map fun (name, _) => .atom (.text name))
  | _ => none

end Setting

end DecisionTree
