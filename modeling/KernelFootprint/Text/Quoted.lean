import KernelFootprint.Text.Printable

/-!
# Quoted text

A quoted text stands between single quotes, or between double quotes if it
holds a single quote and no double one. Backslashes, the enclosing quote and
characters without a printed form are escaped.
-/

namespace KernelFootprint.Text

def hexDigit (value : Nat) : Char :=
  Char.ofNat (if value < 10 then 48 + value else 87 + value)

/-- The last `width` hexadecimal digits of a number. -/
def hexadecimal (width : Nat) (value : Nat) : List Char :=
  match width with
  | 0 => []
  | width + 1 => hexadecimal width (value / 16) ++ [hexDigit (value % 16)]

def escapeCode (value : Nat) : List Char :=
  if value < 0x100 then '\\' :: 'x' :: hexadecimal 2 value
  else if value < 0x10000 then '\\' :: 'u' :: hexadecimal 4 value
  else '\\' :: 'U' :: hexadecimal 8 value

def escape (quote : Char) (character : Char) : List Char :=
  if character == quote || character == '\\' then ['\\', character]
  else if character == '\n' then ['\\', 'n']
  else if character == '\t' then ['\\', 't']
  else if character == '\r' then ['\\', 'r']
  else if isPrintable character then [character]
  else escapeCode character.toNat

def enclosingQuote (characters : List Char) : Char :=
  if characters.contains '\'' && !characters.contains '"' then '"' else '\''

def quoted (text : String) : String :=
  let characters := text.toList
  let quote := enclosingQuote characters
  String.ofList (quote :: characters.flatMap (escape quote) ++ [quote])

end KernelFootprint.Text
