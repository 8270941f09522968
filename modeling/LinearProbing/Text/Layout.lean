-- SUMMARY: Structured text, written on one line or with one member per line.
/-! # Structured text

The text of a value is a tree of atoms and bracketed groups. It is written either on one line or
with one member per line, each level four columns further in.
-/

namespace LinearProbing

universe u

/-- A tree of texts. -/
inductive Layout
  /-- A text that is written as it is. -/
  | atom (text : String)
  /-- Members between brackets, each behind its label. On one line a spaced group has a space inside
  either bracket. -/
  | group (opening closing : String) (spaced : Bool) (members : List (String × Layout))

namespace Layout

/-- A named record with its fields. -/
def record (name : String) (fields : List (String × Layout)) : Layout :=
  .group (name ++ " \x7b") "\x7d" true (fields.map fun (label, value) => (label ++ ": ", value))

/-- Members in square brackets. -/
def list (members : List Layout) : Layout :=
  .group "[" "]" false (members.map fun value => ("", value))

/-- Members in braces. -/
def set (members : List Layout) : Layout :=
  .group "\x7b" "\x7d" false (members.map fun value => ("", value))

/-- Pairs of a key's text and a value in braces. -/
def map (pairs : List (String × Layout)) : Layout :=
  .group "\x7b" "\x7d" false (pairs.map fun (key, value) => (key ++ ": ", value))

/-! ## On one line -/

mutual

/-- The text on one line. -/
def inline : Layout → String
  | .atom text => text
  | .group opening closing spaced members =>
    let padding := if spaced && !members.isEmpty then " " else ""
    opening ++ padding ++ ", ".intercalate (inlineMembers members) ++ padding ++ closing

/-- The members of a group, each on one line behind its label. -/
def inlineMembers : List (String × Layout) → List String
  | [] => []
  | (label, value) :: rest => (label ++ value.inline) :: inlineMembers rest

end

/-! ## One member per line -/

mutual

/-- The text with one member per line, for a layout whose first line starts `columns` in. -/
def block (columns : Nat) : Layout → String
  | .atom text => text
  | .group opening closing _ members =>
    if members.isEmpty then opening ++ closing
    else
      opening ++ "\n" ++ blockMembers (columns + 4) members ++
        String.ofList (List.replicate columns ' ') ++ closing

/-- The members of a group, each followed by a comma and the end of its line. -/
def blockMembers (columns : Nat) : List (String × Layout) → String
  | [] => ""
  | (label, value) :: rest =>
    String.ofList (List.replicate columns ' ') ++ label ++ value.block columns ++ ",\n" ++
      blockMembers columns rest

end

/-- The text with one member per line. -/
def indented (layout : Layout) : String := layout.block 0

end Layout

/-- Types whose values have a structured text. -/
class Described (α : Type u) where
  describe : α → Layout

export Described (describe)

instance : Described Nat := ⟨fun n => .atom (toString n)⟩

end LinearProbing
