import KernelFootprint.Text.Digit

/-!
# Numerals

A literal of a token stream is an optional minus sign before digits. A numeral
in a table or an option is more liberal: blanks around it, a sign of either
kind, and single underscores between digits. Digits of every script count, and
a numeral may mix them. The number of digits is limited: a longer numeral is not
read, and an integer that needs more digits is not written.
-/

namespace KernelFootprint.Text

/-- Characters that may surround a numeral. -/
def blanks : List (Nat × Nat) :=
  [(0x09, 0x0D), (0x20, 0x20), (0x85, 0x85), (0xA0, 0xA0), (0x1680, 0x1680), (0x2000, 0x200A),
    (0x2028, 0x2029), (0x202F, 0x202F), (0x205F, 0x205F), (0x3000, 0x3000)]

def isBlank (character : Char) : Bool := isWithin blanks character

def trim (characters : List Char) : List Char :=
  ((characters.dropWhile isBlank).reverse.dropWhile isBlank).reverse

/-- Reads digits after `value`; `joined` tells whether an underscore may follow. -/
def readDigits (value : Nat) (joined : Bool) : List Char → Option Nat
  | [] => if joined then some value else none
  | first :: rest =>
      match decimalDigit? first with
      | some digit => readDigits (10 * value + digit) true rest
      | none => if first == '_' && joined then readDigits value false rest else none

/-- The number of digits that a numeral may have. -/
def longestNumeral : Nat := 4300

/-- The digits of a numeral, underscores not among them. -/
def countDigits (characters : List Char) : Nat := characters.countP (· != '_')

def readUnsigned (characters : List Char) : Option Nat :=
  if countDigits characters ≤ longestNumeral then readDigits 0 false characters else none

def readSigned : List Char → Option Int
  | '-' :: rest => (readUnsigned rest).map (fun value => -(value : Int))
  | '+' :: rest => (readUnsigned rest).map (fun value => (value : Int))
  | characters => (readUnsigned characters).map (fun value => (value : Int))

/-- The integer that a numeral writes. -/
def readInteger (text : String) : Option Int := readSigned (trim text.toList)

/-- Whether a number can be written with so many digits. -/
def hasDigits : Nat → Nat → Bool
  | 0, value => value == 0
  | digits + 1, value => if value < 10 then true else hasDigits digits (value / 10)

/-- Whether an integer can be written. A sign is no digit. -/
def hasNumeral (value : Int) : Bool := hasDigits longestNumeral value.natAbs

/-- Whether a text is digits only, at least one of them. -/
def isDigits (characters : List Char) : Bool :=
  !characters.isEmpty && characters.all isDigit

/-- Whether a token has the shape of a literal. -/
def isLiteral (text : String) : Bool :=
  match text.toList with
  | '-' :: rest => isDigits rest
  | characters => isDigits characters

end KernelFootprint.Text
