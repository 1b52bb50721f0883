import KernelFootprint.Proofs.Numerals
import KernelFootprint.Word.Folding
import Mathlib.Data.Int.ModEq

/-!
# Folding on bit vectors

Wrapping a number is reading its low bits as a signed word. An operation that is carried
out without bound and wrapped is therefore an operation on words, provided that the bits
of its result depend on the bits of its operands only. This holds of sums, products,
conjunctions, shifts and unsigned quotients. Signed quotients and extrema look at the
operands themselves, which must then be words to begin with.
-/

namespace KernelFootprint

namespace Width

theorem wrap_eq_toInt (width : Width) (value : Int) :
    width.format.wrap value = (BitVec.ofInt width.bits value).toInt := by
  rw [BitVec.toInt_ofInt, Int.bmod]
  cases width with
  | narrow =>
      change (value + 2 ^ 31) % 2 ^ 32 - 2 ^ 31 = _
      simp only [bits]
      omega
  | wide =>
      change (value + 2 ^ 63) % 2 ^ 64 - 2 ^ 63 = _
      simp only [bits]
      omega

theorem unsigned_eq_toNat (width : Width) (value : Int) :
    width.format.unsigned value = (BitVec.ofInt width.bits value).toNat := by
  rw [BitVec.toNat_ofInt]
  cases width with
  | narrow =>
      change value % 2 ^ 32 = _
      simp only [bits]
      omega
  | wide =>
      change value % 2 ^ 64 = _
      simp only [bits]
      omega

end Width

/-- What is left of a word outside another one. -/
theorem ofNat_xor_and (bits first second : Nat) :
    BitVec.ofNat bits (first ^^^ (first &&& second)) =
      BitVec.ofNat bits first &&& ~~~BitVec.ofNat bits second := by
  ext index
  simp only [BitVec.ofNat_xor, BitVec.ofNat_and, BitVec.getElem_xor, BitVec.getElem_and,
    BitVec.getElem_not]
  cases (BitVec.ofNat bits first)[index] <;> cases (BitVec.ofNat bits second)[index] <;> rfl

/-- Conjunction of two's complement of unbounded length, cut off to a width. -/
theorem ofInt_bitAnd (bits : Nat) (first second : Int) :
    BitVec.ofInt bits (bitAnd first second) =
      BitVec.ofInt bits first &&& BitVec.ofInt bits second := by
  cases first with
  | ofNat first =>
      cases second with
      | ofNat second => exact BitVec.ofNat_and
      | negSucc second =>
          rw [BitVec.ofInt_negSucc_eq_not_ofNat]
          exact ofNat_xor_and bits first second
  | negSucc first =>
      cases second with
      | ofNat second =>
          rw [BitVec.ofInt_negSucc_eq_not_ofNat, BitVec.and_comm]
          exact ofNat_xor_and bits second first
      | negSucc second =>
          rw [bitAnd, BitVec.ofInt_negSucc_eq_not_ofNat, BitVec.ofInt_negSucc_eq_not_ofNat,
            BitVec.ofInt_negSucc_eq_not_ofNat, BitVec.ofNat_or, BitVec.not_or]

namespace WordOp

/-- The operation on words. -/
def onWords {bits : Nat} (op : WordOp) (first second : BitVec bits) : BitVec bits :=
  match op with
  | .add => first + second
  | .sub => first - second
  | .mul => first * second
  | .and => first &&& second
  | .shl => first <<< second.toNat
  | .lshr => first >>> second.toNat
  | .udiv => first / second
  | .sdiv => first.sdiv second
  | .srem => first.srem second
  | .max => if first.slt second then second else first
  | .min => if first.slt second then first else second

/-- Whether a second operand lies outside the domain of an operation. -/
def IsOutside (op : WordOp) (width : Width) (second : Int) : Prop :=
  match op with
  | .shl | .lshr => ¬ (0 ≤ second ∧ second < width.bits)
  | .udiv | .sdiv | .srem => second = 0
  | _ => False

instance (op : WordOp) (width : Width) (second : Int) : Decidable (op.IsOutside width second) :=
  match op with
  | .shl | .lshr => inferInstanceAs (Decidable ¬ (0 ≤ second ∧ second < width.bits))
  | .udiv | .sdiv | .srem => inferInstanceAs (Decidable (second = 0))
  | .add | .sub | .mul | .and | .max | .min => inferInstanceAs (Decidable False)

/-- What is wrong with operands outside the domain of an operation. -/
def domainError (op : WordOp) (width : Width) (first second : Int) : Indeterminate :=
  match op with
  | .shl | .lshr => .shiftOutOfRange (toString second) width.bits
  | _ => .divisionByZero (toString first)

theorem isDomainError_domainError (op : WordOp) (width : Width) (first second : Int) :
    (op.domainError width first second).isDomainError = true := by
  cases op <;> rfl

/-- The operand that is quoted where an operation has no result. -/
def quoted (op : WordOp) (first second : Int) : Int :=
  match op with
  | .shl | .lshr => second
  | _ => first

/-- Outside its domain an operation fails with an error that quotes an operand. -/
theorem fold_of_isOutside {op : WordOp} {width : Width} {first second : Int}
    (outside : op.IsOutside width second) :
    op.fold width first second = .error (.quoting
      ((Text.writeInteger (op.quoted first second)).map (fun _ =>
        .indeterminate (op.domainError width first second)))) := by
  have raised {operand : Int} (cause : String → Indeterminate) :
      Fault.quoting (do return .indeterminate (cause (← Text.writeInteger operand))) =
        .quoting ((Text.writeInteger operand).map (fun _ =>
          .indeterminate (cause (toString operand)))) := by
    rw [Text.writeInteger]
    split <;> rfl
  cases op with
  | shl | lshr =>
      rw [fold, exact, if_neg outside, shiftFault, raised (.shiftOutOfRange · width.bits)]
      rfl
  | udiv | sdiv | srem =>
      have isZero : second = 0 := outside
      rw [fold, exact, if_pos isZero, divisionFault, raised .divisionByZero]
      rfl
  | _ => cases outside

theorem fold_of_hasNumeral {op : WordOp} {width : Width} {first second : Int}
    (outside : op.IsOutside width second)
    (short : Text.hasNumeral (op.quoted first second) = true) :
    op.fold width first second = .error (op.domainError width first second) := by
  rw [fold_of_isOutside outside, Text.writeInteger_of_hasNumeral short]
  rfl

/-- An operand without a numeral cannot be quoted. -/
theorem fold_of_not_hasNumeral {op : WordOp} {width : Width} {first second : Int}
    (outside : op.IsOutside width second)
    (long : Text.hasNumeral (op.quoted first second) = false) :
    op.fold width first second = .error Misuse.unreadableNumeral := by
  rw [fold_of_isOutside outside, Text.writeInteger_of_not_hasNumeral long]
  rfl

variable {width : Width} {first second : BitVec width.bits}

theorem toNat_of_inside {amount : BitVec width.bits}
    (inside : 0 ≤ amount.toInt ∧ amount.toInt < width.bits) :
    amount.toInt.toNat = amount.toNat := by
  have bound := inside.1
  rw [BitVec.toInt_eq_toNat_cond] at bound ⊢
  split <;> omega

theorem unsigned_toInt (word : BitVec width.bits) :
    width.format.unsigned word.toInt = word.toNat := by
  rw [width.unsigned_eq_toNat, BitVec.ofInt_toInt]

theorem ofInt_toNat {bits : Nat} (word : BitVec bits) :
    BitVec.ofInt bits word.toNat = word := by
  rw [BitVec.ofInt_natCast, BitVec.ofNat_toNat, BitVec.setWidth_eq]

/-- Inside its domain the exact result of an operation on signed words has the bits of
the operation on the words themselves. -/
theorem exists_exact {op : WordOp} (inside : ¬ op.IsOutside width second.toInt) :
    ∃ value, op.exact width first.toInt second.toInt = .ok value ∧
      BitVec.ofInt width.bits value = op.onWords first second := by
  cases op with
  | add =>
      refine ⟨_, rfl, ?_⟩
      rw [BitVec.ofInt_add, BitVec.ofInt_toInt, BitVec.ofInt_toInt, onWords]
  | sub =>
      refine ⟨_, rfl, ?_⟩
      rw [Int.sub_eq_add_neg, BitVec.ofInt_add, BitVec.ofInt_neg, BitVec.ofInt_toInt,
        BitVec.ofInt_toInt, onWords, BitVec.sub_eq_add_neg]
  | mul =>
      refine ⟨_, rfl, ?_⟩
      rw [BitVec.ofInt_mul, BitVec.ofInt_toInt, BitVec.ofInt_toInt, onWords]
  | and =>
      refine ⟨_, rfl, ?_⟩
      rw [ofInt_bitAnd, BitVec.ofInt_toInt, BitVec.ofInt_toInt, onWords]
  | shl =>
      have accepted := not_not.mp inside
      refine ⟨first.toInt <<< second.toInt.toNat, by rw [exact, if_pos accepted], ?_⟩
      apply BitVec.eq_of_toInt_eq
      rw [toNat_of_inside accepted, BitVec.toInt_ofInt, onWords, BitVec.toInt_shiftLeft,
        Int.shiftLeft_eq, BitVec.toInt_eq_toNat_bmod, Int.bmod_mul_bmod, Nat.shiftLeft_eq,
        Int.natCast_mul, Int.natCast_pow]
      rfl
  | lshr =>
      have accepted := not_not.mp inside
      refine ⟨first.toNat >>> second.toNat, ?_, ?_⟩
      · rw [exact, if_pos accepted, unsigned_toInt, toNat_of_inside accepted]
        rfl
      · rw [← BitVec.toNat_ushiftRight, ofInt_toNat, onWords]
  | udiv =>
      have nonzero : second.toInt ≠ 0 := inside
      have bitsNonzero : width.format.unsigned second.toInt ≠ 0 := by
        intro zero
        rw [unsigned_toInt] at zero
        rw [BitVec.toInt_eq_toNat_bmod, zero] at nonzero
        exact nonzero Int.zero_bmod
      refine ⟨first.toNat / second.toNat, ?_, ?_⟩
      · rw [exact, if_neg nonzero, if_neg bitsNonzero, unsigned_toInt, unsigned_toInt]
      · rw [← Int.natCast_ediv, ← BitVec.toNat_udiv, ofInt_toNat, onWords]
  | sdiv =>
      have nonzero : second.toInt ≠ 0 := inside
      refine ⟨first.toInt.tdiv second.toInt, by rw [exact, if_neg nonzero], ?_⟩
      apply BitVec.eq_of_toInt_eq
      rw [BitVec.toInt_ofInt, onWords, BitVec.toInt_sdiv]
  | srem =>
      have nonzero : second.toInt ≠ 0 := inside
      refine ⟨first.toInt.tmod second.toInt, by rw [exact, if_neg nonzero], ?_⟩
      rw [← BitVec.toInt_srem, BitVec.ofInt_toInt, onWords]
  | max =>
      refine ⟨_, rfl, ?_⟩
      by_cases less : first.toInt < second.toInt
      · rw [max_def_lt, if_pos less, onWords, if_pos (BitVec.slt_iff_toInt_lt.mpr less),
          BitVec.ofInt_toInt]
      · rw [max_def_lt, if_neg less, onWords, if_neg (mt BitVec.slt_iff_toInt_lt.mp less),
          BitVec.ofInt_toInt]
  | min =>
      refine ⟨_, rfl, ?_⟩
      by_cases less : first.toInt < second.toInt
      · rw [min_def_lt, if_pos less, onWords, if_pos (BitVec.slt_iff_toInt_lt.mpr less),
          BitVec.ofInt_toInt]
      · rw [min_def_lt, if_neg less, onWords, if_neg (mt BitVec.slt_iff_toInt_lt.mp less),
          BitVec.ofInt_toInt]

theorem fold_toInt {op : WordOp} (inside : ¬ op.IsOutside width second.toInt) :
    op.fold width first.toInt second.toInt = .ok (op.onWords first second).toInt := by
  obtain ⟨value, computed, bits⟩ := @exists_exact width first second op inside
  rw [fold, computed]
  change Except.ok (width.format.wrap value) = _
  rw [width.wrap_eq_toInt, bits]

theorem toInt_ofInt_of_fits {width : Width} {value : Int} (low : -2 ^ (width.bits - 1) ≤ value)
    (high : value < 2 ^ (width.bits - 1)) : (BitVec.ofInt width.bits value).toInt = value :=
  BitVec.toInt_ofInt_eq_self (by cases width <;> decide) low high

/-- On integers that are words folding fails exactly outside the domain of an operation, and
its result is that of the operation on words. -/
theorem fold_eq_onWords (op : WordOp) (width : Width) {first second : Int}
    (firstLow : -2 ^ (width.bits - 1) ≤ first) (firstHigh : first < 2 ^ (width.bits - 1))
    (secondLow : -2 ^ (width.bits - 1) ≤ second) (secondHigh : second < 2 ^ (width.bits - 1)) :
    ((∃ cause : Indeterminate, cause.isDomainError = true ∧
        op.fold width first second = .error cause) ↔ op.IsOutside width second) ∧
      (¬ op.IsOutside width second → op.fold width first second =
        .ok (op.onWords (.ofInt width.bits first) (.ofInt width.bits second)).toInt) := by
  have folded (inside : ¬ op.IsOutside width second) : op.fold width first second =
      .ok (op.onWords (.ofInt width.bits first) (.ofInt width.bits second)).toInt := by
    have onWords := @fold_toInt width (.ofInt _ first) (.ofInt _ second) op
    rw [toInt_ofInt_of_fits firstLow firstHigh, toInt_ofInt_of_fits secondLow secondHigh] at onWords
    exact onWords inside
  refine ⟨⟨?_, fun outside => ?_⟩, folded⟩
  · rintro ⟨cause, _, failed⟩
    by_contra inside
    rw [folded inside] at failed
    cases failed
  · have short : Text.hasNumeral (op.quoted first second) = true := by
      refine Text.hasNumeral_of_natAbs_le ?_
      rw [quoted.eq_def]
      cases width <;> dsimp only [Width.bits] at * <;> split <;> omega
    exact ⟨_, op.isDomainError_domainError width first second, fold_of_hasNumeral outside short⟩

/-- The least word divided by minus one is itself again. -/
theorem fold_sdiv_least :
    WordOp.sdiv.fold .narrow (-2 ^ 31) (-1) = .ok (-2 ^ 31) ∧
      ∃ cause : Indeterminate, cause.isDomainError = true ∧
        WordOp.lshr.fold .narrow (-2 ^ 31) 32 = .error cause := by
  have divided := @fold_eq_onWords .sdiv .narrow (-2 ^ 31) (-1) (by decide) (by decide)
    (by decide) (by decide)
  have shifted := @fold_eq_onWords .lshr .narrow (-2 ^ 31) 32 (by decide) (by decide)
    (by decide) (by decide)
  exact ⟨divided.2 (by decide), shifted.1.mpr (by decide)⟩

end WordOp

end KernelFootprint
