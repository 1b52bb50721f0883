import KernelFootprint.Datum.Reading

/-!
# Settings

Settings are loose data with defaults. Nothing is checked when they are given:
a setting of an unsuitable type fails where it is first used. They can be
given as a table or as a text of comma-separated parts. In the text, a part
`name=value` gives a value, which is read as a numeral if it is one, and any
other part switches the setting of that name on. No entry may be named `self`,
the name that the settings themselves go by.
-/

namespace KernelFootprint

structure Settings where
  maxPostfixTokens : Datum := .integer 50
  maxPrefixTerms : Datum := .integer 100
  argumentMark : Datum := .text "ARG"
  phiMark : Datum := .text "PHI"
  incompleteMark : Datum := .text "INCOMP"
  strict : Datum := .flag false
  clampNegativeCounts : Datum := .flag true
  silencedWarnings : Datum := .list []

namespace Settings

/-- Settings from named entries; unknown names are ignored. -/
def ofEntries (strictByDefault : Bool) (entries : List (String × Datum)) : Settings :=
  let entry (name : String) (otherwise : Datum) := (Datum.field? name entries).getD otherwise
  { maxPostfixTokens := entry "max_postfix_tokens" (.integer 50)
    maxPrefixTerms := entry "max_prefix_terms" (.integer 100)
    argumentMark := entry "arg_token_prefix" (.text "ARG")
    phiMark := entry "phi_token_prefix" (.text "PHI")
    incompleteMark := entry "incomplete_token" (.text "INCOMP")
    strict := entry "strict" (.flag strictByDefault)
    clampNegativeCounts := entry "clamp_negative_trip_counts" (.flag true)
    silencedWarnings := entry "silenced_warnings" (.list []) }

/-- Pieces of a text between separators, at least one. -/
def pieces (separator : Char) : List Char → List (List Char)
  | [] => [[]]
  | first :: rest =>
      if first = separator then [] :: pieces separator rest
      else
        match pieces separator rest with
        | [] => [[first]]
        | piece :: others => (first :: piece) :: others

def isNameCharacter (character : Char) : Bool :=
  character.isAlphanum || character == '_'

/-- The value of a part extends to its end; one line break there is left out, and
a part with any other line break gives no value. -/
def valueText (characters : List Char) : Option (List Char) :=
  let line := characters.takeWhile (· != '\n')
  match characters.dropWhile (· != '\n') with
  | [] => some line
  | ['\n'] => some line
  | _ => none

def readPart (part : List Char) : String × Datum :=
  let name := part.takeWhile isNameCharacter
  let given :=
    match part.dropWhile isNameCharacter with
    | '=' :: rest => if name.isEmpty then none else valueText rest
    | _ => none
  match given with
  | some value =>
      let text := String.ofList value
      (String.ofList name,
        match Text.readInteger text with
        | some number => .integer number
        | none => .text text)
  | none => (String.ofList part, .flag true)

/-- The last part of a name decides, so parts are looked up from the end. -/
def readParts (text : String) : List (String × Datum) :=
  ((pieces ',' text.toList).map readPart).reverse

def ofNamed (strictByDefault : Bool) (entries : List (String × Datum)) : Except Misuse Settings :=
  if (Datum.field? "self" entries).isSome then .error .wrongType
  else .ok (ofEntries strictByDefault entries)

def ofDatum (strictByDefault : Bool) : Datum → Except Misuse Settings
  | .null => .ok (ofEntries strictByDefault [])
  | .text text => ofNamed strictByDefault (readParts text)
  | .table entries => ofNamed strictByDefault entries
  | _ => .error .invalidOptions

end Settings

end KernelFootprint
