import KernelFootprint.Value.Evaluation
import KernelFootprint.Word.Folding

/-!
# Folding of loose operands

Operands of a fold may be given as values of any type. Flags count as zero and
one, and the second operand must lie in the domain of the operation before the
first one is looked at. Unsigned division and the logical shift also read
numerals. With a decimal the other operations are those of limited precision,
and the result is cut off. Addition joins texts, multiplication repeats one and
the extrema compare them; the result is then read as a numeral. All other
combinations are misuses.
-/

namespace KernelFootprint.WordOp

/-- Fails if a shift amount does not lie below the width. -/
def checkAmount (width : Width) (second : Value) (amount : Operand) : Except Fault Unit :=
  if amount.isWithin width.bits then .ok () else .error (shiftFault width second.describe)

/-- Fails for a divisor zero. -/
def checkDivisor (first : Value) (divisor : Operand) : Except Fault Unit :=
  if divisor.isZero then .error (divisionFault first.describe) else .ok ()

/-- Fails if the second operand is a number outside the domain of the operation. -/
def checkDomain (op : WordOp) (width : Width) (first second : Value) : Except Fault Unit :=
  match second.operand? with
  | none => .ok ()
  | some operand =>
      match op with
      | .shl | .lshr => checkAmount width second operand
      | .udiv | .sdiv | .srem => checkDivisor first operand
      | _ => .ok ()

/-- What an operation makes of numbers one of which is no integer. -/
def ofNumbers (op : WordOp) (first second : Operand) : Except Misuse Operand :=
  match op with
  | .add => first.add second
  | .sub => first.sub second
  | .mul => first.mul second
  | .sdiv => first.truncatingDiv second
  | .srem => do first.sub (← second.mul (← first.truncatingDiv second))
  | .max => .ok (first.max second)
  | .min => .ok (first.min second)
  | .and | .shl | .lshr | .udiv => .error .wrongType

def foldNumbers (op : WordOp) (width : Width) (first second : Operand) : Except Misuse Int := do
  return width.format.wrap (← (← op.ofNumbers first second).toInteger)

/-- The count from which on nothing can be repeated. -/
def boundlessCount : Int := 1 <<< 63

/-- The length from which on a text without blanks is no numeral: it has a sign, digits and
fewer underscores than digits. -/
def endlessNumeral : Int := 2 * Text.longestNumeral + 1

/-- A text repeated as often as a count says, unless it would be no numeral for its length. Only
a text on its own can be a numeral with blanks around it. -/
def repeated (text : String) (count : Int) : Except Misuse String :=
  let length := text.length * count
  if count < -boundlessCount ∨ boundlessCount ≤ Max.max count length then .error .countTooLarge
  else if Value.storableShift ≤ length then .error .resultTooLarge
  else if count ≠ 1 ∧ endlessNumeral ≤ length then .error .unreadableNumeral
  else if text.isEmpty then .ok ""
  else .ok (String.join (List.replicate count.toNat text))

/-- What an operation makes of operands one of which is a text. -/
def ofTexts (op : WordOp) (first second : Value) : Except Misuse String :=
  match op, first, second with
  | .add, .datum (.text first), .datum (.text second) => .ok (first ++ second)
  | .max, .datum (.text first), .datum (.text second) =>
      .ok (if first < second then second else first)
  | .min, .datum (.text first), .datum (.text second) =>
      .ok (if second < first then second else first)
  | .mul, .datum (.text text), count =>
      match count.operand? with
      | some (.exact count) => repeated text count
      | _ => .error .wrongType
  | .mul, count, .datum (.text text) =>
      match count.operand? with
      | some (.exact count) => repeated text count
      | _ => .error .wrongType
  | _, _, _ => .error .wrongType

def foldTexts (op : WordOp) (width : Width) (first second : Value) : Except Misuse Int := do
  let text ← op.ofTexts first second
  return width.format.wrap (← (Datum.text text).toInteger)

/-- The result if a second operand that is a number lies in the domain of the operation. -/
def foldInDomain (op : WordOp) (width : Width) (first second : Value) : Except Fault Int :=
  match op, first.operand?, second.operand? with
  | op, some (.exact first), some (.exact second) => op.fold width first second
  | .lshr, _, some amount => do
      let first ← first.toInteger.mapError Fault.misuse
      match amount with
      | .exact amount => op.fold width first amount
      | .rounded _ => throw (Misuse.wrongType : Fault)
  | .udiv, _, _ => do
      let first ← first.toInteger.mapError Fault.misuse
      let second ← second.toInteger.mapError Fault.misuse
      if second = 0 then throw (Misuse.zeroDivision : Fault)
      op.fold width first second
  | op, some first, some second => (op.foldNumbers width first second).mapError Fault.misuse
  | op, _, _ => (op.foldTexts width first second).mapError Fault.misuse

def foldLoose (op : WordOp) (width : Width) (first second : Value) : Except Fault Int := do
  op.checkDomain width first second
  op.foldInDomain width first second

theorem checkAmount_int (width : Width) (amount : Int) :
    checkAmount width (.int amount) (.exact amount) =
      if 0 ≤ amount ∧ amount < width.bits then .ok ()
      else .error (shiftFault width (Text.writeInteger amount)) := by
  rw [checkAmount, Value.describe_int]
  by_cases inside : 0 ≤ amount ∧ amount < width.bits
  · rw [if_pos inside, if_pos ((Operand.isWithin_exact _ _).mpr inside)]
  · rw [if_neg inside, if_neg (fun within => inside ((Operand.isWithin_exact _ _).mp within))]

theorem checkDivisor_int (dividend divisor : Int) :
    checkDivisor (.int dividend) (.exact divisor) =
      if divisor = 0 then .error (divisionFault (Text.writeInteger dividend))
      else .ok () := by
  rw [checkDivisor, Value.describe_int]
  by_cases isZero : divisor = 0
  · rw [if_pos isZero, if_pos ((Operand.isZero_exact _).mpr isZero)]
  · rw [if_neg isZero, if_neg (fun same => isZero ((Operand.isZero_exact _).mp same))]

theorem fold_eq_error_of_checkDomain {op : WordOp} {width : Width} {first second : Int}
    {fault : Fault} (outside : op.checkDomain width (.int first) (.int second) = .error fault) :
    op.fold width first second = .error fault := by
  cases op with
  | add | sub | mul | and | max | min => cases outside
  | shl | lshr =>
      change checkAmount width (.int second) (.exact second) = .error fault at outside
      rw [checkAmount_int] at outside
      by_cases inside : 0 ≤ second ∧ second < width.bits
      · rw [if_pos inside] at outside
        cases outside
      · rw [if_neg inside] at outside
        cases outside
        rw [fold, exact, if_neg inside]
        rfl
  | udiv | sdiv | srem =>
      change checkDivisor (.int first) (.exact second) = .error fault at outside
      rw [checkDivisor_int] at outside
      by_cases isZero : second = 0
      · rw [if_pos isZero] at outside
        cases outside
        rw [fold, exact, if_pos isZero]
        rfl
      · rw [if_neg isZero] at outside
        cases outside

/-- On integers this is the fold of immediate operands. -/
theorem foldLoose_int (op : WordOp) (width : Width) (first second : Int) :
    op.foldLoose width (.int first) (.int second) = op.fold width first second := by
  change (op.checkDomain width (.int first) (.int second) >>=
    fun _ => op.fold width first second) = _
  cases domain : op.checkDomain width (.int first) (.int second) with
  | error fault => exact (fold_eq_error_of_checkDomain domain).symm
  | ok => rfl

/-- A quotient as loose data. A quotient of limited precision is a whole number, too. -/
def ofQuotient (negative : Bool) : Operand → Datum
  | .exact value => .integer (if negative then -value else value)
  | .rounded (.finite value) => .decimal (.finite negative value.num.natAbs 0)
  | .rounded (.infinite _) => .decimal (.infinite negative)
  | .rounded .undefined => .decimal .undefined

/-- The quotient of operands that must be numbers, rounded toward zero. -/
def truncatingDivLoose (first second : Value) : Except Misuse Datum :=
  match first.operand?, second.operand? with
  | some first, some second => do
      let (negative, quotient) ← first.signedQuotient second
      return ofQuotient negative quotient
  | _, _ => .error .wrongType

end KernelFootprint.WordOp
