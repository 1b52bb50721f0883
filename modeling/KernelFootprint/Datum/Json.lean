import KernelFootprint.Datum
import KernelFootprint.Register
import KernelFootprint.Text.Quoted

/-!
# Data in JSON

Data are exchanged as JSON. A number with a point or an exponent is a decimal,
and `Infinity`, `-Infinity` and `NaN` are decimals too; of entries with one name
the last counts. Reading first cuts a text into lexemes and then puts these
together. Lists and tables part way through are kept on a stack, and the
separators between their elements carry nothing. What is written has the same
numbers, with decimals in their shortest form.
-/

namespace KernelFootprint.Json

inductive Lexeme
  | openList
  | closeList
  | openTable
  | closeTable
  | separator
  | text (value : String)
  | word (spelling : List Char)

/-! ## Texts -/

def isHighSurrogate (code : Nat) : Bool := 0xD800 ≤ code && code < 0xDC00

def isLowSurrogate (code : Nat) : Bool := 0xDC00 ≤ code && code < 0xE000

/-- Stands for a surrogate that is not part of a pair. -/
def replacementCharacter : Char := Char.ofNat 0xFFFD

/-- The character of a code that is no part of a pair. -/
def characterOf (code : Nat) : Char :=
  if isHighSurrogate code || isLowSurrogate code then replacementCharacter else Char.ofNat code

/-- The characters of a sequence of codes, in which surrogates come in pairs. -/
def charactersOf : List Nat → List Char
  | high :: low :: rest =>
      if isHighSurrogate high && isLowSurrogate low then
        Char.ofNat (0x10000 + (high - 0xD800) * 0x400 + (low - 0xDC00)) :: charactersOf rest
      else characterOf high :: charactersOf (low :: rest)
  | [code] => [characterOf code]
  | [] => []

/-- The character that a letter stands for after a backslash. -/
def escaped? (letter : Char) : Option Char :=
  match letter with
  | '"' | '\\' | '/' => some letter
  | 'b' => some '\x08'
  | 'f' => some '\x0c'
  | 'n' => some '\n'
  | 'r' => some '\r'
  | 't' => some '\t'
  | _ => none

def hexValue? (digit : Char) : Option Nat :=
  if '0' ≤ digit ∧ digit ≤ '9' then some (digit.toNat - 48)
  else if 'a' ≤ digit ∧ digit ≤ 'f' then some (digit.toNat - 87)
  else if 'A' ≤ digit ∧ digit ≤ 'F' then some (digit.toNat - 55)
  else none

/-! ## Lexemes -/

/-- What a scan is in the middle of. Characters and codes are kept latest first. -/
inductive Mode
  | word (spelling : List Char)
  | text (codes : List Nat)
  | escape (codes : List Nat)
  /-- A code given in digits, `missing` more of which are to come. -/
  | code (codes : List Nat) (missing value : Nat)

structure Scan where
  /-- The lexemes so far, the latest first. -/
  lexemes : List Lexeme := []
  mode : Mode := .word []

def punctuation? (character : Char) : Option Lexeme :=
  match character with
  | '[' => some .openList
  | ']' => some .closeList
  | '\x7b' => some .openTable
  | '\x7d' => some .closeTable
  | ',' | ':' | ' ' | '\t' | '\n' | '\r' => some .separator
  | _ => none

namespace Scan

/-- Ends a word, if one has begun. -/
def endWord (lexemes : List Lexeme) (spelling : List Char) : List Lexeme :=
  if spelling.isEmpty then lexemes else .word spelling.reverse :: lexemes

def step (scan : Scan) (character : Char) : Option Scan :=
  match scan.mode with
  | .word spelling =>
      let ended := endWord scan.lexemes spelling
      match punctuation? character with
      | some .separator => some { lexemes := ended }
      | some lexeme => some { lexemes := lexeme :: ended }
      | none =>
          if character = '"' then some { lexemes := ended, mode := .text [] }
          else some { scan with mode := .word (character :: spelling) }
  | .text codes =>
      if character = '"' then
        some { lexemes := .text (String.ofList (charactersOf codes.reverse)) :: scan.lexemes }
      else if character = '\\' then some { scan with mode := .escape codes }
      else some { scan with mode := .text (character.toNat :: codes) }
  | .escape codes =>
      if character = 'u' then some { scan with mode := .code codes 3 0 }
      else (escaped? character).map (fun character =>
        { scan with mode := .text (character.toNat :: codes) })
  | .code codes missing value => do
      let value := 16 * value + (← hexValue? character)
      match missing with
      | 0 => return { scan with mode := .text (value :: codes) }
      | missing + 1 => return { scan with mode := .code codes missing value }

end Scan

def lexemes? (text : String) : Option (List Lexeme) := do
  let scan ← text.toList.foldlM Scan.step {}
  match scan.mode with
  | .word spelling => return (Scan.endWord scan.lexemes spelling).reverse
  | _ => none

/-! ## Numbers -/

def digitsValue (digits : List Char) : Nat :=
  digits.foldl (fun value digit => 10 * value + (digit.toNat - 48)) 0

/-- The digits at the start of a spelling, at least one, and what follows them. -/
def splitDigits? (spelling : List Char) : Option (List Char × List Char) :=
  match spelling.takeWhile Char.isDigit with
  | [] => none
  | digits => some (digits, spelling.dropWhile Char.isDigit)

/-- The digits after the point, none if there is no point, and what follows them. -/
def splitFraction? : List Char → Option (List Char × List Char)
  | '.' :: rest => splitDigits? rest
  | rest => some ([], rest)

def exponentValue? (spelling : List Char) : Option Int := do
  match ← splitDigits? spelling with
  | (digits, []) => return digitsValue digits
  | _ => none

def exponent? : List Char → Option Int
  | [] => some 0
  | mark :: '-' :: rest => if mark.toLower = 'e' then (exponentValue? rest).map (- ·) else none
  | mark :: '+' :: rest => if mark.toLower = 'e' then exponentValue? rest else none
  | mark :: rest => if mark.toLower = 'e' then exponentValue? rest else none

def unsigned? (negative : Bool) (spelling : List Char) : Option Datum := do
  let (whole, rest) ← splitDigits? spelling
  let (fraction, tail) ← splitFraction? rest
  let exponent ← exponent? tail
  let mantissa := digitsValue (whole ++ fraction)
  if rest.isEmpty then return .integer (if negative then -mantissa else mantissa)
  return .decimal (.scaled negative mantissa fraction.length exponent)

def word? (spelling : List Char) : Option Datum :=
  match String.ofList spelling with
  | "null" => some .null
  | "true" => some (.flag true)
  | "false" => some (.flag false)
  | "Infinity" => some (.decimal (.infinite false))
  | "-Infinity" => some (.decimal (.infinite true))
  | "NaN" => some (.decimal .undefined)
  | _ =>
      match spelling with
      | '-' :: rest => unsigned? true rest
      | _ => unsigned? false spelling

/-! ## Lists and tables -/

/-- A list or a table part way through, its latest element first. A table may be
waiting for the entry of a name. -/
inductive Frame
  | list (items : List Datum)
  | table (entries : List (String × Datum)) (name : Option String)

structure Assembly where
  /-- What has been opened, the innermost first. -/
  frames : List Frame := []
  result : Option Datum := none

namespace Assembly

def add (assembly : Assembly) (datum : Datum) : Option Assembly :=
  match assembly.frames, datum with
  | [], datum => if assembly.result.isSome then none else some { result := some datum }
  | .list items :: rest, datum =>
      some { assembly with frames := .list (datum :: items) :: rest }
  | .table entries (some name) :: rest, datum =>
      some { assembly with frames := .table ((name, datum) :: entries) none :: rest }
  | .table entries none :: rest, .text name =>
      some { assembly with frames := .table entries (some name) :: rest }
  | .table _ none :: _, _ => none

def push (assembly : Assembly) (frame : Frame) : Assembly :=
  { assembly with frames := frame :: assembly.frames }

def step (assembly : Assembly) : Lexeme → Option Assembly
  | .openList => some (assembly.push (.list []))
  | .openTable => some (assembly.push (.table [] none))
  | .closeList =>
      match assembly.frames with
      | .list items :: rest => { assembly with frames := rest }.add (.list items.reverse)
      | _ => none
  | .closeTable =>
      match assembly.frames with
      | .table entries none :: rest =>
          { assembly with frames := rest }.add (.table (Register.ofList entries.reverse))
      | _ => none
  | .separator => some assembly
  | .text value => assembly.add (.text value)
  | .word spelling => do assembly.add (← word? spelling)

end Assembly

/-- The datum that a text writes. -/
def read? (text : String) : Option Datum := do
  let assembly ← (← lexemes? text).foldlM Assembly.step {}
  if assembly.frames.isEmpty then assembly.result else none

/-! ## Writing -/

def escapedCharacter (character : Char) : List Char :=
  if character == '"' || character == '\\' then ['\\', character]
  else if character.toNat < 0x20 then '\\' :: 'u' :: Text.hexadecimal 4 character.toNat
  else [character]

def writeText (text : String) : String :=
  String.ofList ('"' :: text.toList.flatMap escapedCharacter ++ ['"'])

def writeDecimal : Number.Decimal → String
  | .infinite negative => if negative then "-Infinity" else "Infinity"
  | .undefined => "NaN"
  | decimal => decimal.written

mutual

def write : Datum → String
  | .null => "null"
  | .flag value => if value then "true" else "false"
  | .integer value => toString value
  | .decimal value => writeDecimal value
  | .text value => writeText value
  | .list items => "[" ++ ",".intercalate (writeItems items) ++ "]"
  | .table entries => "\x7b" ++ ",".intercalate (writeEntries entries) ++ "\x7d"

def writeItems : List Datum → List String
  | [] => []
  | first :: rest => write first :: writeItems rest

def writeEntries : List (String × Datum) → List String
  | [] => []
  | (name, entry) :: rest => (writeText name ++ ":" ++ write entry) :: writeEntries rest

end

end KernelFootprint.Json
