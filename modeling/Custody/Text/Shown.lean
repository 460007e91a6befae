/-
# Debug text

The debug text of a value is drawn from a tree that says what its parts are:
integers, quoted texts, lists, values with unnamed parts and values with named
ones. The tree is the same for every format. Flat, the parts stand in one line
with a comma between them; pretty, each part stands on a line of its own, four
spaces deeper than what it is part of, and ends in a comma.

Key definitions: `Shown`, `Shown.render`, `Text.quote`.
-/
import Custody.Text.Format
import Custody.Text.Hidden

namespace Custody

/-- A character inside a quoted text: what would end the text or cannot be seen
is written as an escape. -/
def Text.quoteChar (c : Char) : String :=
  match c with
  | '"' => "\\\""
  | '\\' => "\\\\"
  | '\n' => "\\n"
  | '\r' => "\\r"
  | '\t' => "\\t"
  | '\x00' => "\\0"
  | c =>
    if Text.isHidden c then
      "\\u" ++ "\x7b" ++ String.ofList (Nat.toDigits 16 c.toNat) ++ "\x7d"
    else String.singleton c

/-- A text between quotation marks. -/
def Text.quote (s : String) : String :=
  "\"" ++ String.join (s.toList.map Text.quoteChar) ++ "\""

/-- What a value shows of itself. -/
inductive Shown where
  /-- An integer, written as the format says. -/
  | int (i : Int64)
  /-- A text, quoted. -/
  | text (s : String)
  /-- Written as it is in every format. -/
  | atom (s : String)
  | list (items : List Shown)
  /-- A name with unnamed parts. -/
  | tuple (name : String) (parts : List Shown)
  /-- A name with named parts. -/
  | record (name : String) (parts : List (String × Shown))
  /-- A name with named parts, of which not all are shown. -/
  | partly (name : String) (parts : List (String × Shown))
  deriving Inhabited

namespace Shown

/-- The start of a line at that depth. -/
def indent (depth : Nat) : String :=
  Format.run (4 * depth) ' '

mutual

/-- The text in one line. -/
def flat (f : Format) : Shown → String
  | .int i => f.int i
  | .text s => Text.quote s
  | .atom s => s
  | .list items => "[" ++ ", ".intercalate (flatAll f items) ++ "]"
  | .tuple name parts => name ++ "(" ++ ", ".intercalate (flatAll f parts) ++ ")"
  | .record name parts => name ++ " \x7b " ++ ", ".intercalate (flatFields f parts) ++ " \x7d"
  | .partly name parts =>
    name ++ " \x7b " ++ ", ".intercalate (flatFields f parts ++ [".."]) ++ " \x7d"

/-- The texts of the parts, each in one line. -/
def flatAll (f : Format) : List Shown → List String
  | [] => []
  | s :: rest => flat f s :: flatAll f rest

/-- The texts of the named parts, each in one line. -/
def flatFields (f : Format) : List (String × Shown) → List String
  | [] => []
  | (name, s) :: rest => (name ++ ": " ++ flat f s) :: flatFields f rest

end

mutual

/-- The text over several lines, for a value that starts at that depth. -/
def tall (f : Format) (depth : Nat) : Shown → String
  | .int i => f.int i
  | .text s => Text.quote s
  | .atom s => s
  | .list [] => "[]"
  | .list items => "[\n" ++ tallAll f (depth + 1) items ++ indent depth ++ "]"
  | .tuple name parts => name ++ "(\n" ++ tallAll f (depth + 1) parts ++ indent depth ++ ")"
  | .record name parts =>
    name ++ " \x7b\n" ++ tallFields f (depth + 1) parts ++ indent depth ++ "\x7d"
  | .partly name parts =>
    name ++ " \x7b\n" ++ tallFields f (depth + 1) parts ++ indent (depth + 1) ++ "..\n" ++
      indent depth ++ "\x7d"

/-- The lines of the parts, at that depth. -/
def tallAll (f : Format) (depth : Nat) : List Shown → String
  | [] => ""
  | s :: rest => indent depth ++ tall f depth s ++ ",\n" ++ tallAll f depth rest

/-- The lines of the named parts, at that depth. -/
def tallFields (f : Format) (depth : Nat) : List (String × Shown) → String
  | [] => ""
  | (name, s) :: rest =>
    indent depth ++ name ++ ": " ++ tall f depth s ++ ",\n" ++ tallFields f depth rest

end

/-- The debug text in that format. -/
def render (f : Format) (s : Shown) : String :=
  if f.pretty then s.tall f 0 else s.flat f

end Shown

end Custody
