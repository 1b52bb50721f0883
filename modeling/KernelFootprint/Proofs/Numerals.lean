import KernelFootprint.Text.Numeral
import Mathlib.Data.Int.ModEq
import Mathlib.Data.List.TakeWhile

/-!
# Numerals

Integers are written with a limited number of digits, so those below a power of ten have a
numeral and no others. Digits are read unless they are stray: one of them has no decimal value
or there are more than a numeral may have. Neither a blank nor a sign is a digit, so that
literals are read as they stand.
-/

namespace KernelFootprint.Text

theorem hasDigits_iff {digits value : Nat} :
    hasDigits digits value = true ↔ value < 10 ^ digits := by
  induction digits generalizing value with
  | zero => simp [hasDigits]
  | succ digits ih =>
      have fewer : value / 10 < 10 ^ digits ↔ value < 10 ^ (digits + 1) := by
        rw [Nat.div_lt_iff_lt_mul (by decide), Nat.pow_succ]
      have least : 10 ≤ 10 ^ (digits + 1) := by
        rw [Nat.pow_succ]
        exact Nat.le_mul_of_pos_left 10 (Nat.pow_pos (by decide))
      rw [hasDigits]
      split
      · exact iff_of_true rfl (by omega)
      · exact ih.trans fewer

theorem hasNumeral_iff {value : Int} :
    hasNumeral value = true ↔ value.natAbs < 10 ^ longestNumeral := hasDigits_iff

/-- An integer of at most 64 bits can be written. -/
theorem hasNumeral_of_natAbs_le {value : Int} (short : value.natAbs ≤ 2 ^ 64) :
    hasNumeral value = true := by
  have enough : 10 ^ 20 ≤ 10 ^ longestNumeral := Nat.pow_le_pow_right (by decide) (by decide)
  exact hasNumeral_iff.mpr (by omega)

/-- Digits only, one of which has no decimal value or which are too many for a numeral. -/
def IsStray (characters : List Char) : Prop :=
  isDigits characters = true ∧
    ((∃ character ∈ characters, decimalDigit? character = none) ∨
      longestNumeral < characters.length)

theorem exists_readDigits {characters : List Char}
    (decimal : ∀ character ∈ characters, decimalDigit? character ≠ none) (value : Nat)
    {joined : Bool} (started : joined = true ∨ characters ≠ []) :
    ∃ number, readDigits value joined characters = some number := by
  induction characters generalizing value joined with
  | nil =>
      obtain rfl := started.resolve_right (not_not_intro rfl)
      exact ⟨value, rfl⟩
  | cons first rest ih =>
      obtain ⟨onFirst, onRest⟩ := List.forall_mem_cons.mp decimal
      obtain ⟨digit, found⟩ := Option.ne_none_iff_exists'.mp onFirst
      rw [readDigits, found]
      exact ih onRest (10 * value + digit) (.inl rfl)

theorem ne_underscore_of_isDigit {character : Char} (digit : isDigit character = true) :
    character ≠ '_' := by
  rintro rfl
  revert digit
  decide

theorem readDigits_eq_none {characters : List Char}
    (digits : ∀ character ∈ characters, isDigit character = true)
    (stray : ∃ character ∈ characters, decimalDigit? character = none) (value : Nat)
    (joined : Bool) : readDigits value joined characters = none := by
  induction characters generalizing value joined with
  | nil =>
      obtain ⟨_, member, _⟩ := stray
      cases member
  | cons first rest ih =>
      obtain ⟨onFirst, onRest⟩ := List.forall_mem_cons.mp digits
      rw [readDigits]
      cases found : decimalDigit? first with
      | some digit =>
          obtain ⟨character, member, absent⟩ := stray
          rcases List.mem_cons.mp member with rfl | inRest
          · cases absent.symm.trans found
          · exact ih onRest ⟨character, inRest, absent⟩ _ _
      | none => simp [ne_underscore_of_isDigit onFirst]

theorem forall_of_isDigits {characters : List Char} (digits : isDigits characters = true) :
    characters ≠ [] ∧ ∀ character ∈ characters, isDigit character = true := by
  rw [isDigits, Bool.and_eq_true, List.all_eq_true] at digits
  refine ⟨?_, digits.2⟩
  rintro rfl
  cases digits.1

theorem countDigits_of_isDigits {characters : List Char} (digits : isDigits characters = true) :
    countDigits characters = characters.length :=
  List.countP_eq_length.mpr (fun character member =>
    bne_iff_ne.mpr (ne_underscore_of_isDigit ((forall_of_isDigits digits).2 character member)))

/-- Digits are read unless they are stray. -/
theorem readUnsigned_eq_none_iff {characters : List Char} (digits : isDigits characters = true) :
    readUnsigned characters = none ↔ IsStray characters := by
  obtain ⟨nonempty, each⟩ := forall_of_isDigits digits
  rw [readUnsigned, countDigits_of_isDigits digits]
  constructor
  · intro unread
    refine ⟨digits, Decidable.or_iff_not_imp_right.mpr (fun few => ?_)⟩
    rw [if_pos (Nat.le_of_not_lt few)] at unread
    refine Classical.byContradiction (fun decimal => ?_)
    obtain ⟨number, found⟩ := exists_readDigits
      (fun character member absent => decimal ⟨character, member, absent⟩) 0 (.inr nonempty)
    cases found.symm.trans unread
  · rintro ⟨_, stray | many⟩
    · split
      · exact readDigits_eq_none each stray 0 false
      · rfl
    · rw [if_neg (Nat.not_le_of_lt many)]

theorem exists_readUnsigned {characters : List Char} (digits : isDigits characters = true)
    (proper : ¬ IsStray characters) : ∃ number, readUnsigned characters = some number :=
  Option.ne_none_iff_exists'.mp (mt (readUnsigned_eq_none_iff digits).mp proper)

/-- The decimal digits and the others are in runs that no blank is in. -/
theorem isBlank_of_isDigit {character : Char} (digit : isDigit character = true) :
    isBlank character = false := by
  have apart : ∀ run ∈ decimalZeros.map (fun first => (first, first + 9)) ++ nonDecimalDigits,
      ∀ blank ∈ blanks, run.2 < blank.1 ∨ blank.2 < run.1 := by
    decide
  have within : ∃ run ∈ decimalZeros.map (fun first => (first, first + 9)) ++ nonDecimalDigits,
      run.1 ≤ character.toNat ∧ character.toNat ≤ run.2 := by
    rw [isDigit, Bool.or_eq_true, decimalDigit?, Option.isSome_map, List.find?_isSome, isWithin,
      List.any_eq_true] at digit
    rcases digit with ⟨first, member, inside⟩ | ⟨run, member, inside⟩
    · rw [Bool.and_eq_true, decide_eq_true_iff, decide_eq_true_iff] at inside
      exact ⟨(first, first + 9), List.mem_append_left _ (List.mem_map_of_mem member), inside.1,
        Nat.le_of_lt_succ inside.2⟩
    · rw [Bool.and_eq_true, decide_eq_true_iff, decide_eq_true_iff] at inside
      exact ⟨run, List.mem_append_right _ member, inside⟩
  obtain ⟨run, listed, inside⟩ := within
  rw [isBlank, isWithin, List.any_eq_false]
  intro blank member within
  have separate := apart run listed blank member
  simp only [Bool.and_eq_true, decide_eq_true_eq] at within
  omega

theorem trim_eq_self {characters : List Char}
    (solid : ∀ character ∈ characters, isBlank character = false) :
    trim characters = characters := by
  have kept {characters : List Char}
      (solid : ∀ character ∈ characters, isBlank character = false) :
      characters.dropWhile isBlank = characters :=
    List.dropWhile_eq_self_iff.mpr (fun nonempty =>
      Bool.eq_false_iff.mp (solid _ (List.getElem_mem nonempty)))
  rw [trim, kept solid, kept, List.reverse_reverse]
  exact fun character member => solid character (List.mem_reverse.mp member)

/-- Digits alone are read as they are, as neither a blank nor a sign is one. -/
theorem readInteger_of_isDigits {text : String} (digits : isDigits text.toList = true) :
    readInteger text = (readUnsigned text.toList).map (fun value => (value : Int)) := by
  obtain ⟨_, each⟩ := forall_of_isDigits digits
  have signs : isDigit '-' = false ∧ isDigit '+' = false := by decide
  have solid := fun character member => isBlank_of_isDigit (each character member)
  rw [readInteger, trim_eq_self solid, readSigned.eq_def]
  split
  · next rest written =>
      cases signs.1.symm.trans (each '-' (by rw [written]; exact List.mem_cons_self ..))
  · next rest written =>
      cases signs.2.symm.trans (each '+' (by rw [written]; exact List.mem_cons_self ..))
  · rfl

theorem readInteger_of_negative {text : String} {rest : List Char}
    (written : text.toList = '-' :: rest) (digits : isDigits rest = true) :
    readInteger text = (readUnsigned rest).map (fun value => -(value : Int)) := by
  obtain ⟨_, each⟩ := forall_of_isDigits digits
  have solid : ∀ character ∈ '-' :: rest, isBlank character = false :=
    List.forall_mem_cons.mpr
      ⟨by decide, fun character member => isBlank_of_isDigit (each character member)⟩
  rw [readInteger, written, trim_eq_self solid, readSigned]

/-- Whether a text is no longer than a numeral and all its digits have a decimal value. -/
def isPlain (text : String) : Bool :=
  text.toList.length ≤ longestNumeral &&
    text.toList.all (fun character => (decimalDigit? character).isSome || !isDigit character)

theorem not_isStray_of_isPlain {text : String} (plain : isPlain text = true) {part : List Char}
    (inside : part.Sublist text.toList) : ¬ IsStray part := by
  rw [isPlain, Bool.and_eq_true, decide_eq_true_iff, List.all_eq_true] at plain
  rintro ⟨digits, ⟨character, member, absent⟩ | many⟩
  · rw [isDigits, Bool.and_eq_true, List.all_eq_true] at digits
    have either := plain.2 character (inside.subset member)
    rw [absent, digits.2 character member] at either
    cases either
  · exact absurd (Nat.le_trans inside.length_le plain.1) (Nat.not_le_of_lt many)

end KernelFootprint.Text
