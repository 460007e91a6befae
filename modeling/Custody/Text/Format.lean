/-
# Formats of debug text

A format says how the integers inside a value are written, and whether the
value is laid out over several lines. Twelve formats have a name, `Format.named`
lists them. An integer is its sign, the mark of its base and its digits
(`Format.int`); a width fills up on the left, on the right or on both sides, or
with zeros between the mark and the digits.

Key definitions: `Format`, `Format.named`, `Format.int`.
-/

namespace Custody

/-- Where the filling goes when a text is shorter than its width. -/
inductive Align where
  | left
  | centre
  | right
  deriving DecidableEq

/-- The base in which integers are written. -/
inductive Radix where
  | decimal
  | hexLower
  | hexUpper
  deriving DecidableEq

/-- How a value is written. -/
structure Format where
  /-- The least number of characters of an integer. -/
  width : Nat := 0
  /-- The character that fills up to the width. -/
  fill : Char := ' '
  align : Align := .right
  /-- Whether zeros after the sign fill up to the width, and not `fill`. -/
  zeros : Bool := false
  /-- Whether an integer that is not negative has a plus sign. -/
  plus : Bool := false
  radix : Radix := .decimal
  /-- Whether each part of a value has a line of its own, and a hexadecimal
  integer its mark. -/
  pretty : Bool := false
  deriving DecidableEq

namespace Format

/-- The formats that can be asked for, by name. -/
def named : List (String × Format) :=
  [("?", {}),
   ("#?", { pretty := true }),
   ("6?", { width := 6 }),
   ("06?", { width := 6, zeros := true }),
   ("+?", { plus := true }),
   ("<6?", { width := 6, align := .left }),
   ("^7?", { width := 7, align := .centre }),
   ("*>8?", { width := 8, fill := '*' }),
   ("x?", { radix := .hexLower }),
   ("X?", { radix := .hexUpper }),
   ("#x?", { radix := .hexLower, pretty := true }),
   ("#06x?", { width := 6, zeros := true, radix := .hexLower, pretty := true })]

/-- The format of that name. -/
def ofName? (name : String) : Option Format :=
  named.lookup name

/-- `n` copies of a character. -/
def run (n : Nat) (c : Char) : String :=
  String.ofList (List.replicate n c)

/-- The text with filling around it, up to the width; where the filling goes on
both sides and is odd, the right side gets one more. -/
def pad (f : Format) (s : String) : String :=
  let missing := f.width - s.length
  match f.align with
  | .left => s ++ run missing f.fill
  | .right => run missing f.fill ++ s
  | .centre => run (missing / 2) f.fill ++ s ++ run (missing - missing / 2) f.fill

/-- The digits of an integer, without sign. A hexadecimal integer is read as the
64 bits of its two's complement. -/
def digits (f : Format) (i : Int64) : String :=
  match f.radix with
  | .decimal => toString i.toInt.natAbs
  | .hexLower => String.ofList (Nat.toDigits 16 i.toUInt64.toNat)
  | .hexUpper => (String.ofList (Nat.toDigits 16 i.toUInt64.toNat)).map Char.toUpper

/-- What stands before the digits: a sign, and the mark of the base. -/
def lead (f : Format) (i : Int64) : String :=
  let sign :=
    match f.radix with
    | .decimal => if i.toInt < 0 then "-" else if f.plus then "+" else ""
    | _ => if f.plus then "+" else ""
  let mark :=
    match f.radix with
    | .decimal => ""
    | _ => if f.pretty then "0x" else ""
  sign ++ mark

/-- An integer as the format writes it. -/
def int (f : Format) (i : Int64) : String :=
  let lead := f.lead i
  let digits := f.digits i
  if f.zeros then lead ++ run (f.width - lead.length - digits.length) '0' ++ digits
  else f.pad (lead ++ digits)

end Format

end Custody
