import KernelFootprint.Settings

/-!
# Classification of tokens

A token is the incomplete marker, an operator word, a literal, or an argument
or phi mark with a number after it. A phi may go without a number. The order
of these readings decides where several apply. Streams are lists of loose data:
an element that is no text has no reading unless it is the incomplete marker.
-/

namespace KernelFootprint

/-- The operator words and what they stand for. -/
def operatorWords : List (String × Symbol) :=
  [("TIDX", .terminal (.thread .x)), ("TIDY", .terminal (.thread .y)),
    ("BIDX", .terminal (.block .x)), ("BIDY", .terminal (.block .y)),
    ("BDIMX", .terminal (.blockSize .x)), ("BDIMY", .terminal (.blockSize .y)),
    ("INCOMP", .terminal .incomplete)] ++
  ((Operation.all.filter (· != .phi)).map (fun op => (op.name, .operation op none))) ++
  Structural.all.map (fun node => (node.token, .structural node))

def operatorWord? (text : String) : Option Symbol := operatorWords.lookup text

/-- What follows a mark at the start of a text, if the mark is there. -/
def afterMark (mark : Datum) (text : String) : Except Misuse (Option (List Char)) := do
  let mark := (← mark.toText).toList
  if mark.isPrefixOf text.toList then return some (text.toList.drop mark.length)
  return none

/-- The number after a mark, unreadable if a digit has no decimal value or there are too many. -/
def readIndex (digits : List Char) : Except Misuse Nat :=
  match Text.readUnsigned digits with
  | some index => .ok index
  | none => .error .unreadableNumeral

/-- The value of a literal, which is unreadable for the same reasons. -/
def readLiteral (text : String) : Except Misuse (Option Int) :=
  if Text.isLiteral text then
    match Text.readInteger text with
    | some value => .ok (some value)
    | none => .error .unreadableNumeral
  else .ok none

/-- The value of a literal given as loose data, which only a text can be. -/
def readLiteralElement : Datum → Except Misuse (Option Int)
  | .text text => readLiteral text
  | _ => .error .unsupported

def literalToken? (text : String) : Except Misuse (Option Symbol) :=
  (readLiteral text).map (fun value? => value?.map (fun value => .terminal (.constant value)))

def argumentToken? (settings : Settings) (text : String) : Except Misuse (Option Symbol) :=
  match afterMark settings.argumentMark text with
  | .error misuse => .error misuse
  | .ok none => .ok none
  | .ok (some rest) =>
      if Text.isDigits rest then
        (readIndex rest).map (fun index => some (.terminal (.argument index)))
      else .ok none

def phiToken? (settings : Settings) (text : String) : Except Misuse (Option Symbol) :=
  match afterMark settings.phiMark text with
  | .error misuse => .error misuse
  | .ok none => .ok none
  | .ok (some rest) =>
      if Text.isDigits rest then
        (readIndex rest).map (fun index => some (.operation .phi (some index)))
      else if rest.isEmpty then .ok (some (.operation .phi none))
      else .ok none

/-- The first reading that applies. -/
def firstReading (readings : List (Except Misuse (Option Symbol))) :
    Except Misuse (Option Symbol) :=
  match readings with
  | [] => .ok none
  | .ok none :: rest => firstReading rest
  | found :: _ => found

def isIncompleteMark (settings : Settings) (token : Datum) : Bool :=
  token.isSame settings.incompleteMark

def classify (settings : Settings) (text : String) : Except Fault Symbol :=
  if isIncompleteMark settings (.text text) then .ok (.terminal .incomplete)
  else
    match operatorWord? text with
    | some symbol => .ok symbol
    | none =>
        match firstReading
            [literalToken? text, argumentToken? settings text, phiToken? settings text] with
        | .ok (some symbol) => .ok symbol
        | .ok none => .error (Malformation.unknownToken text)
        | .error misuse => .error misuse

/-- The misuse of an element that is no text as a token. -/
def strayToken (token : Datum) : Misuse := if token.isKey then .unsupported else .wrongType

def classifyElement (settings : Settings) : Datum → Except Fault Symbol
  | .text text => classify settings text
  | token =>
      if isIncompleteMark settings token then .ok (.terminal .incomplete)
      else .error (strayToken token)

@[simp] theorem classifyElement_text (settings : Settings) (text : String) :
    classifyElement settings (.text text) = classify settings text := rfl

/-- A malformation that quotes its stream, which only a stream of texts allows. -/
def inStream (tokens : List Datum) (cause : List String → Malformation) : Fault :=
  match Datum.texts? tokens with
  | some texts => cause texts
  | none => Misuse.wrongType

theorem inStream_map_text (texts : List String) (cause : List String → Malformation) :
    inStream (texts.map .text) cause = cause texts := by
  simp [inStream]

end KernelFootprint
