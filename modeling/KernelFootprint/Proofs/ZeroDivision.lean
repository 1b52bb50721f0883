import KernelFootprint.Proofs.BitVectors
import KernelFootprint.Proofs.Index
import KernelFootprint.Proofs.Recurrence

/-!
# Misuse in evaluations

Outside its domain an operation fails with an error of the analysis that quotes an operand.
Divisors are compared with zero as unbounded numbers, but unsigned division is taken of bit
patterns: a multiple of the modulus passes the comparison, and dividing by its bits, which are
all zero, is a misuse. It is a misuse, too, to quote an operand of too many digits. Everything
else comes to a word. Evaluations of trees over known integers fail in the same ways, or with
an error about a loop whose number is too long. A word is no multiple of the modulus unless it
is zero, and every word can be quoted, so that only a terminal of any size leads to misuse.
-/

namespace KernelFootprint

namespace Width

/-- Whether a word of some width stands for an integer. -/
def Holds (width : Width) (value : Int) : Prop :=
  width.format.lowest ≤ value ∧ value < width.format.lowest + width.format.modulus

/-- Whether an integer other than zero has low bits that are all zero. -/
def Vanishes (width : Width) (value : Int) : Prop :=
  value ≠ 0 ∧ width.format.modulus ∣ value

instance (width : Width) (value : Int) : Decidable (width.Vanishes value) :=
  inferInstanceAs (Decidable (value ≠ 0 ∧ width.format.modulus ∣ value))

theorem holds_wrap (width : Width) (value : Int) : width.Holds (width.format.wrap value) :=
  ⟨width.format.lowest_le_wrap value, width.format.wrap_lt value⟩

theorem not_vanishes_of_holds {width : Width} {value : Int} (holds : width.Holds value) :
    ¬ width.Vanishes value := by
  rintro ⟨nonzero, divides⟩
  obtain ⟨low, high⟩ := holds
  cases width with
  | narrow =>
      change -2 ^ 31 ≤ value at low
      change value < -2 ^ 31 + 2 ^ 32 at high
      change (2 ^ 32 : Int) ∣ value at divides
      omega
  | wide =>
      change -2 ^ 63 ≤ value at low
      change value < -2 ^ 63 + 2 ^ 64 at high
      change (2 ^ 64 : Int) ∣ value at divides
      omega

theorem hasNumeral_of_holds {value : Int} (holds : Width.wide.Holds value) :
    Text.hasNumeral value = true := by
  have low : -2 ^ 63 ≤ value := holds.1
  have high : value < -2 ^ 63 + 2 ^ 64 := holds.2
  exact Text.hasNumeral_of_natAbs_le (by omega)

end Width

namespace WordOp

variable {op : WordOp} {width : Width} {second : Int}

theorem fold_udiv_of_vanishes (vanishes : width.Vanishes second) (first : Int) :
    WordOp.udiv.fold width first second = .error Misuse.zeroDivision := by
  have noBits : width.format.unsigned second = 0 := Int.emod_eq_zero_of_dvd vanishes.2
  rw [fold, exact, if_neg vanishes.1, if_pos noBits]
  rfl

/-- Inside its domain an operation has a result, unless it divides by bits that are all zero. -/
theorem exists_fold (inside : ¬ op.IsOutside width second)
    (divides : ¬ (op = .udiv ∧ width.Vanishes second)) (first : Int) :
    ∃ value, op.fold width first second = .ok value ∧ width.Holds value := by
  have computed : ∃ value, op.exact width first second = .ok value := by
    cases op with
    | shl | lshr => exact ⟨_, if_pos (not_not.mp inside)⟩
    | udiv =>
        have nonzero : second ≠ 0 := inside
        have bits : width.format.unsigned second ≠ 0 := fun noBits =>
          divides ⟨rfl, nonzero, Int.dvd_of_emod_eq_zero noBits⟩
        exact ⟨_, by rw [exact, if_neg nonzero, if_neg bits]⟩
    | sdiv | srem => exact ⟨_, if_neg inside⟩
    | _ => exact ⟨_, rfl⟩
  obtain ⟨value, computed⟩ := computed
  exact ⟨_, by rw [fold, computed]; rfl, width.holds_wrap value⟩

end WordOp

/-- Whether an integer with a property can be one that vanishes. -/
def MayVanish (number : Int → Prop) : Prop := ∃ value, number value ∧ Width.wide.Vanishes value

/-- Whether an integer with a property can be one without a numeral. -/
def MayLackNumeral (number : Int → Prop) : Prop :=
  ∃ value, number value ∧ Text.hasNumeral value = false

/-- Whether an operation has no result for some second operand. -/
def WordOp.IsPartial (op : WordOp) : Prop := ∃ second, op.IsOutside .wide second

/-- Whether the misuses that an operation can run into are allowed for: a division by bits that
are all zero, and an operand that its domain error cannot quote. -/
structure WordOp.Admits (number : Int → Prop) (allowed : Misuse → Prop) (op : WordOp) : Prop where
  division : op = .udiv → MayVanish number → allowed .zeroDivision
  quotation : op.IsPartial → MayLackNumeral number → allowed .unreadableNumeral

/-- The same of the word operation that an operation computes. -/
def Operation.Admits (number : Int → Prop) (allowed : Misuse → Prop) (operation : Operation) :
    Prop :=
  ∀ op, operation.wordOp? = some op → op.Admits number allowed

/-- A known integer with a property. -/
def Value.IsKnown (number : Int → Prop) : Value → Prop
  | .int value => number value
  | _ => False

/-- An error of the analysis, or a misuse that is allowed for. -/
def Fault.IsDue (allowed : Misuse → Prop) : Fault → Prop
  | .analysis _ => True
  | .misuse cause => allowed cause

theorem Fault.IsDue.mono {fault : Fault} {allowed other : Misuse → Prop}
    (due : fault.IsDue allowed) (weaker : ∀ cause, allowed cause → other cause) :
    fault.IsDue other := by
  cases fault with
  | analysis error => trivial
  | misuse cause => exact weaker cause due

namespace Analysis

variable {First Second : Type} {returned : First → Prop} {goal : Second → Prop}
  {allowed : Misuse → Prop}

/-- Whatever the ledger holds, an analysis comes to a result of one kind or is due to fail. -/
def Finishes (returned : First → Prop) (allowed : Misuse → Prop) (analysis : Analysis First) :
    Prop :=
  ∀ ledger, match (analysis.outcome ledger).1 with
    | .ok result => returned result
    | .error fault => fault.IsDue allowed

/-- An analysis that comes to a known integer with a property. -/
abbrev Calculates (number : Int → Prop) (allowed : Misuse → Prop) (analysis : Analysis Value) :
    Prop :=
  Finishes (Value.IsKnown number) allowed analysis

theorem finishes_pure {result : First} (holds : returned result) :
    Finishes returned allowed (pure result) := fun _ => holds

theorem finishes_fail {fault : Fault} (due : fault.IsDue allowed) :
    Finishes returned allowed (fail fault : Analysis First) := fun _ => due

theorem Finishes.mono {analysis : Analysis First} {other : Misuse → Prop}
    (finished : Finishes returned allowed analysis)
    (weaker : ∀ cause, allowed cause → other cause) :
    Finishes returned other analysis := by
  intro ledger
  have comes := finished ledger
  rcases found : (analysis.outcome ledger).1 with fault | result
  · rw [found] at comes
    exact Fault.IsDue.mono comes weaker
  · rw [found] at comes
    exact comes

theorem Finishes.bind {first : Analysis First} {next : First → Analysis Second}
    (onFirst : Finishes returned allowed first)
    (onNext : ∀ result, returned result → Finishes goal allowed (next result)) :
    Finishes goal allowed (first >>= next) := by
  intro ledger
  have finished := onFirst ledger
  rw [outcome_bind]
  rcases found : first.outcome ledger with ⟨fault | result, middle⟩
  · rw [found] at finished
    exact finished
  · rw [found] at finished
    exact onNext result finished middle

theorem finishes_mapM {analyses : List (Analysis First)}
    (each : ∀ analysis ∈ analyses, Finishes returned allowed analysis) :
    Finishes (fun results => ∀ result ∈ results, returned result) allowed (analyses.mapM id) := by
  induction analyses with
  | nil => exact finishes_pure nofun
  | cons first rest ih =>
      obtain ⟨onFirst, onRest⟩ := List.forall_mem_cons.mp each
      rw [List.mapM_cons]
      refine onFirst.bind (fun result holds => ?_)
      refine (ih onRest).bind (fun results all => ?_)
      exact finishes_pure (List.forall_mem_cons.mpr ⟨holds, all⟩)

theorem finishes_foldlM {step : First → Second → Analysis First} (items : List Second)
    (each : ∀ item ∈ items, ∀ total, returned total → Finishes returned allowed (step total item))
    {total : First} (holds : returned total) :
    Finishes returned allowed (items.foldlM step total) := by
  induction items generalizing total with
  | nil => exact finishes_pure holds
  | cons first rest ih =>
      obtain ⟨onFirst, onRest⟩ := List.forall_mem_cons.mp each
      rw [List.foldlM_cons]
      exact (onFirst total holds).bind (fun _ next => ih onRest next)

end Analysis

open Analysis

/-- Whether all words have a property of integers. -/
def HoldsOfWords (number : Int → Prop) : Prop := ∀ value, Width.wide.Holds value → number value

variable {number : Int → Prop} {allowed : Misuse → Prop}

theorem HoldsOfWords.zero (words : HoldsOfWords number) : number 0 :=
  words 0 ⟨by decide, by decide⟩

/-- An operation that always has a result runs into nothing. -/
theorem WordOp.admits_of_total {op : WordOp} (total : ∀ second, ¬ op.IsOutside .wide second) :
    op.Admits number allowed where
  division := by
    rintro rfl
    exact absurd rfl (total 0)
  quotation := fun ⟨second, outside⟩ => absurd outside (total second)

theorem WordOp.admits_add : WordOp.add.Admits number allowed :=
  admits_of_total (fun _ outside => outside)

theorem WordOp.admits_mul : WordOp.mul.Admits number allowed :=
  admits_of_total (fun _ outside => outside)

theorem Mode.admits_extremum (mode : Mode) : mode.extremum.Admits number allowed := by
  cases mode <;> exact WordOp.admits_of_total (fun _ outside => outside)

namespace Emitter

variable {emitter : Emitter} {op : WordOp} {first second : Value}

/-- Known integers are combined to a word, or the operation fails on them. -/
theorem calculates_combine (words : HoldsOfWords number) (admitted : op.Admits number allowed)
    (onFirst : first.IsKnown number) (onSecond : second.IsKnown number) :
    Calculates number allowed (emitter.combine op first second) := by
  cases first with
  | int first =>
      cases second with
      | int second =>
          rw [combine_int]
          by_cases outside : op.IsOutside .wide second
          · cases written : Text.hasNumeral (op.quoted first second) with
            | true =>
                rw [WordOp.fold_of_hasNumeral outside written]
                exact finishes_fail trivial
            | false =>
                have quoted : number (op.quoted first second) := by
                  cases op <;> assumption
                have due : allowed .unreadableNumeral :=
                  admitted.quotation ⟨second, outside⟩ ⟨_, quoted, written⟩
                rw [WordOp.fold_of_not_hasNumeral outside written]
                exact finishes_fail due
          by_cases vanishes : op = .udiv ∧ Width.wide.Vanishes second
          · obtain ⟨rfl, vanishes⟩ := vanishes
            rw [WordOp.fold_udiv_of_vanishes vanishes]
            have due : allowed .zeroDivision := admitted.division rfl ⟨second, onSecond, vanishes⟩
            exact finishes_fail due
          · obtain ⟨value, folded, word⟩ := WordOp.exists_fold outside vanishes first
            rw [folded]
            have holds : number value := words value word
            exact finishes_pure holds
      | _ => cases onSecond
  | _ => cases onFirst

end Emitter

namespace BinaryTree

/-- Whether all terminals and all operations of a tree have some properties. -/
def IsMadeOf (terminals : Datum → Terminal → Prop) (operations : Operation → Prop)
    (tree : BinaryTree) : Prop :=
  (∀ text node, (text, node) ∈ tree.terminals → terminals text node) ∧
    ∀ operation ∈ tree.operations, operations operation

variable {terminals : Datum → Terminal → Prop} {operations : Operation → Prop}

theorem IsMadeOf.mono {tree : BinaryTree} {otherTerminals : Datum → Terminal → Prop}
    {otherOperations : Operation → Prop} (made : tree.IsMadeOf terminals operations)
    (onTerminals : ∀ text node, terminals text node → otherTerminals text node)
    (onOperations : ∀ operation, operations operation → otherOperations operation) :
    tree.IsMadeOf otherTerminals otherOperations :=
  ⟨fun text node member => onTerminals text node (made.1 text node member),
    fun operation member => onOperations operation (made.2 operation member)⟩

theorem IsMadeOf.of_branch {text : String} {operation : Operation} {left right : BinaryTree}
    (made : (branch text operation left right).IsMadeOf terminals operations) :
    operations operation ∧ left.IsMadeOf terminals operations ∧
      right.IsMadeOf terminals operations := by
  obtain ⟨onTerminals, onOperations⟩ := made
  obtain ⟨own, below⟩ := List.forall_mem_cons.mp onOperations
  exact ⟨own,
    ⟨fun text node member => onTerminals text node (List.mem_append_left _ member),
      fun other member => below other (List.mem_append_left _ member)⟩,
    ⟨fun text node member => onTerminals text node (List.mem_append_right _ member),
      fun other member => below other (List.mem_append_right _ member)⟩⟩

/-- Whether an operand is a known integer with a property, unless it has no value at all. -/
def Operand.IsKnown (number : Int → Prop) : Operand → Prop
  | .known value => value.IsKnown number
  | .irreducible _ => True

variable {valuation : Valuation}

theorem Operand.IsKnown.calculates_asOperandOf {operand : Operand} (known : operand.IsKnown number)
    (text : String) : Calculates number allowed (operand.asOperandOf text) := by
  cases operand with
  | known value => exact finishes_pure known
  | irreducible leaf => exact finishes_fail trivial

theorem Operand.IsKnown.calculates_asResult {operand : Operand} (known : operand.IsKnown number) :
    Calculates number allowed operand.asResult := by
  cases operand with
  | known value => exact finishes_pure known
  | irreducible leaf => exact finishes_fail trivial

theorem calculates_apply (words : HoldsOfWords number)
    (merges : ∀ text first second, Value.IsKnown number first → Value.IsKnown number second →
      Calculates number allowed (valuation.merge text first second))
    {operation : Operation} (admitted : operation.Admits number allowed) (text : String)
    {first second : Value} (onFirst : first.IsKnown number) (onSecond : second.IsKnown number) :
    Calculates number allowed (valuation.apply text operation first second) := by
  unfold Valuation.apply
  split
  · exact merges text first second onFirst onSecond
  · split
    · next op read => exact Emitter.calculates_combine words (admitted op read) onFirst onSecond
    · exact finishes_fail trivial

/-- Where terminals and merges come to known integers, so do trees. -/
theorem calculates_evaluateWith (words : HoldsOfWords number)
    (merges : ∀ text first second, Value.IsKnown number first → Value.IsKnown number second →
      Calculates number allowed (valuation.merge text first second))
    {tree : BinaryTree}
    (made : tree.IsMadeOf
      (fun text node => Calculates number allowed (valuation.terminal text node))
      (Operation.Admits number allowed)) :
    Calculates number allowed (tree.evaluateWith valuation) := by
  have reduced : Finishes (Operand.IsKnown number) allowed (tree.operand valuation) := by
    induction tree with
    | leaf text symbol =>
        cases symbol with
        | terminal node =>
            have onTerminal := made.1 text node (List.mem_singleton_self _)
            exact onTerminal.bind (fun _ known => finishes_pure known)
        | structural node => exact finishes_pure trivial
    | branch text operation left right leftIH rightIH =>
        obtain ⟨admitted, onLeft, onRight⟩ := made.of_branch
        rw [operand]
        refine (leftIH onLeft).bind (fun first firstKnown => ?_)
        refine (rightIH onRight).bind (fun second secondKnown => ?_)
        refine (firstKnown.calculates_asOperandOf text).bind (fun first firstKnown => ?_)
        refine (secondKnown.calculates_asOperandOf text).bind (fun second secondKnown => ?_)
        refine (calculates_apply words merges admitted text firstKnown secondKnown).bind ?_
        exact fun _ known => finishes_pure known
  exact reduced.bind (fun _ known => known.calculates_asResult)

end BinaryTree

namespace NaryTree

variable {setting : RangeSetting} {terminals : Datum → Terminal → Prop}
  {operations : Operation → Prop}

/-- Trees all of whose terminals and operations have some properties, with operands for
every merge. -/
inductive IsMadeOf (terminals : Datum → Terminal → Prop) (operations : Operation → Prop) :
    NaryTree → Prop
  | terminal {text : Datum} {node : Terminal} {children : List NaryTree} : terminals text node →
      (∀ child ∈ children, IsMadeOf terminals operations child) →
      IsMadeOf terminals operations (.node text (.terminal node) children)
  | operation {text : Datum} {operation : Operation} {id : Option Nat}
      {operands : List NaryTree} : operations operation → (operation = .phi → operands ≠ []) →
      (∀ operand ∈ operands, IsMadeOf terminals operations operand) →
      IsMadeOf terminals operations (.node text (.operation operation id) operands)
  | structural {text : Datum} {kind : Structural} {operands : List NaryTree} :
      (∀ operand ∈ operands, IsMadeOf terminals operations operand) →
      IsMadeOf terminals operations (.node text (.structural kind) operands)

theorem IsMadeOf.childless {text : Datum} {node : Terminal} (holds : terminals text node) :
    IsMadeOf terminals operations (.node text (.terminal node) []) :=
  .terminal holds (fun _ absent => absurd absent List.not_mem_nil)

theorem IsMadeOf.mono {tree : NaryTree} {otherTerminals : Datum → Terminal → Prop}
    {otherOperations : Operation → Prop} (made : tree.IsMadeOf terminals operations)
    (onTerminals : ∀ text node, terminals text node → otherTerminals text node)
    (onOperations : ∀ operation, operations operation → otherOperations operation) :
    tree.IsMadeOf otherTerminals otherOperations := by
  induction made with
  | terminal holds _ each => exact .terminal (onTerminals _ _ holds) each
  | operation holds merges _ each => exact .operation (onOperations _ holds) merges each
  | structural _ each => exact .structural each

theorem calculates_combineAll (words : HoldsOfWords number) {op : WordOp}
    (admitted : op.Admits number allowed) {values : List (Analysis Value)}
    (nonempty : values ≠ []) (each : ∀ value ∈ values, Calculates number allowed value) :
    Calculates number allowed (combineAll setting op values) := by
  cases values with
  | nil => exact absurd rfl nonempty
  | cons first rest =>
      obtain ⟨onFirst, onRest⟩ := List.forall_mem_cons.mp each
      rw [combineAll, List.mapM_cons, bind_assoc]
      refine onFirst.bind (fun first firstKnown => ?_)
      rw [bind_assoc]
      refine (finishes_mapM onRest).bind (fun rest restKnown => ?_)
      rw [pure_bind]
      exact finishes_foldlM rest (fun next member total known =>
        Emitter.calculates_combine words admitted known (restKnown next member)) firstKnown

/-- Whether a misuse is allowed for where the loop of a merge cannot be quoted. -/
def AdmitsLoops (setting : RangeSetting) (allowed : Misuse → Prop) : Prop :=
  ∀ id, (setting.context.loopOf id).isWritable = false → allowed .unreadableNumeral

theorem AdmitsLoops.finishes_outsideLoop (loops : AdmitsLoops setting allowed) (text : String)
    (id : Option Nat) :
    Calculates number allowed (Analysis.fail (outsideLoop text (setting.context.loopOf id))) := by
  refine finishes_fail ?_
  rw [outsideLoop, Datum.describe]
  cases written : (setting.context.loopOf id).isWritable with
  | true => trivial
  | false => exact loops id written

theorem calculates_recurrenceValue (words : HoldsOfWords number)
    (loops : AdmitsLoops setting allowed)
    (counts : ∀ iterationCount, setting.iterationCount = some iterationCount →
      ∀ loop, Calculates number allowed (iterationCount loop))
    {addends entries : List (Analysis Value)} (nonempty : entries ≠ [])
    (onAddends : ∀ addend ∈ addends, Calculates number allowed addend)
    (onEntries : ∀ entry ∈ entries, Calculates number allowed entry) (text : String)
    (id : Option Nat) :
    Calculates number allowed (recurrenceValue setting text id addends entries) := by
  have combines (op : WordOp) (admitted : op.Admits number allowed) {first second : Value}
      (onFirst : first.IsKnown number) (onSecond : second.IsKnown number) :
      Calculates number allowed (setting.context.emitter.combine op first second) :=
    Emitter.calculates_combine words admitted onFirst onSecond
  have onExtremum := @Mode.admits_extremum number allowed setting.context.mode
  have zero : Value.IsKnown number (.int 0) := words.zero
  have increment : Calculates number allowed (addends.foldlM (addOne setting) 0) :=
    finishes_foldlM addends (fun addend member total totalKnown =>
      (onAddends addend member).bind (fun _ addendKnown =>
        combines .add WordOp.admits_add totalKnown addendKnown)) zero
  refine (calculates_combineAll words onExtremum nonempty onEntries).bind (fun entry known => ?_)
  refine increment.bind (fun increment incrementKnown => ?_)
  dsimp only
  split
  · next iterationCount found =>
      split
      · exact loops.finishes_outsideLoop text id
      · refine (counts iterationCount found _).bind (fun count countKnown => ?_)
        refine (combines .mul WordOp.admits_mul incrementKnown countKnown).bind
          (fun drift driftKnown => ?_)
        refine (combines .add WordOp.admits_add known driftKnown).bind
          (fun moved movedKnown => ?_)
        exact combines _ onExtremum known movedKnown
  · exact loops.finishes_outsideLoop text id

theorem calculates_structuralValue (words : HoldsOfWords number) {values : List (Analysis Value)}
    (each : ∀ value ∈ values, Calculates number allowed value) (text : String)
    (kind : Structural) : Calculates number allowed (structuralValue setting text kind values) := by
  have others {first : Analysis Value} {rest : List (Analysis Value)}
      (each : ∀ value ∈ first :: rest, Calculates number allowed value) :
      ∀ value ∈ rest, Calculates number allowed value := (List.forall_mem_cons.mp each).2
  have onExtremum := @Mode.admits_extremum number allowed setting.context.mode
  unfold structuralValue
  dsimp only
  split
  · exact finishes_pure words.zero
  · next several =>
      exact calculates_combineAll words WordOp.admits_add several (others each)
  · exact each _ (List.getLast_mem _)
  · exact calculates_combineAll words onExtremum (List.cons_ne_nil _ _) (others each)
  · exact calculates_combineAll words onExtremum (List.cons_ne_nil _ _) each
  · split
    · exact each _ (List.mem_cons_self ..)
    · exact finishes_fail trivial
  · exact finishes_fail trivial

/-- What a tree is worth is a known integer, and so is all that is added to its open terms. -/
structure IsCalculated (setting : RangeSetting) (number : Int → Prop) (allowed : Misuse → Prop)
    (tree : NaryTree) : Prop where
  value : Calculates number allowed (rangeValue setting tree)
  addends : ∀ term ∈ tree.openTerms, ∀ addend ∈ term.addends,
    Calculates number allowed (rangeValue setting addend)

variable {operands : List NaryTree}

theorem calculates_addends
    (each : ∀ operand ∈ operands, operand.IsCalculated setting number allowed) {text : Datum}
    {symbol : Symbol} {term : OpenTerm NaryTree}
    (isOpen : term ∈ (node text symbol operands).openTerms) {addend : NaryTree}
    (added : addend ∈ term.addends) : Calculates number allowed (rangeValue setting addend) := by
  rcases mem_addends_openTerms isOpen added with beside | ⟨child, within, below, inside, early⟩
  · exact (each addend beside).value
  · exact (each child within).addends below inside addend early

theorem calculates_merge (words : HoldsOfWords number) (loops : AdmitsLoops setting allowed)
    (counts : ∀ iterationCount, setting.iterationCount = some iterationCount →
      ∀ loop, Calculates number allowed (iterationCount loop)) (nonempty : operands ≠ [])
    (each : ∀ operand ∈ operands, operand.IsCalculated setting number allowed) (text : Datum)
    (id : Option Nat) :
    Calculates number allowed (rangeValue setting (.node text (.operation .phi id) operands)) := by
  have values : ∀ operand ∈ operands, Calculates number allowed (rangeValue setting operand) :=
    fun operand member => (each operand member).value
  cases claimed : claimedTerms operands with
  | nil =>
      rw [rangeValue_merge claimed]
      exact calculates_combineAll words (Mode.admits_extremum _)
        (mt List.map_eq_nil_iff.mp nonempty) (List.forall_mem_map.mpr values)
  | cons first rest =>
      obtain ⟨term, entries⟩ := first
      obtain ⟨⟨child, within, isOpen⟩, others⟩ :=
        mem_termsAmong (claimed ▸ List.mem_cons_self .. : (term, entries) ∈ claimedTerms operands)
      have onAddends := (each child within).addends term isOpen
      have onEntries : ∀ entry ∈ entries, Calculates number allowed (rangeValue setting entry) :=
        fun entry member => values entry ((others entry member).resolve_left List.not_mem_nil)
      rw [rangeValue_recurrence claimed]
      split
      · exact finishes_fail trivial
      · split
        · exact finishes_fail trivial
        · next several =>
            have entered : entries ≠ [] := fun empty => several (List.isEmpty_iff.mpr empty)
            exact calculates_recurrenceValue words loops counts (mt List.map_eq_nil_iff.mp entered)
              (List.forall_mem_map.mpr onAddends) (List.forall_mem_map.mpr onEntries) _ _

/-- Where terminals and counts of iterations come to known integers, so do trees. -/
theorem isCalculated_of_isMadeOf (words : HoldsOfWords number)
    (counts : ∀ iterationCount, setting.iterationCount = some iterationCount →
      ∀ loop, Calculates number allowed (iterationCount loop)) {tree : NaryTree}
    (made : tree.IsMadeOf
      (fun text node => Calculates number allowed (setting.context.terminal text node))
      (fun operation => operation.Admits number allowed ∧
        (operation = .phi → AdmitsLoops setting allowed))) :
    tree.IsCalculated setting number allowed := by
  -- A recurrence values what is added to its term far below the merge. Hence the addends of
  -- all open terms are carried along beside the value of the tree.
  induction made with
  | @terminal text node children onTerminal _ each =>
      refine ⟨?_, fun _ isOpen _ added => calculates_addends each isOpen added⟩
      rw [rangeValue_terminal]
      exact onTerminal
  | @operation text operation id operands admitted merges _ each =>
      refine ⟨?_, fun _ isOpen _ added => calculates_addends each isOpen added⟩
      by_cases isMerge : operation = .phi
      · subst isMerge
        exact calculates_merge words (admitted.2 rfl) counts (merges rfl) each text id
      · rw [rangeValue_operation isMerge, operationValue]
        split
        · exact finishes_fail trivial
        · next op read =>
            split
            · exact finishes_fail trivial
            · next several =>
                exact calculates_combineAll words (admitted.1 op read)
                  (fun empty => several (List.isEmpty_iff.mpr empty))
                  (List.forall_mem_map.mpr (fun operand member => (each operand member).value))
  | @structural text kind operands _ each =>
      refine ⟨?_, fun _ isOpen _ added => calculates_addends each isOpen added⟩
      rw [rangeValue_structural]
      exact calculates_structuralValue words
        (List.forall_mem_map.mpr (fun operand member => (each operand member).value)) _ _

end NaryTree

def AddressTree.IsMadeOf (terminals : Datum → Terminal → Prop) (operations : Operation → Prop) :
    AddressTree → Prop
  | .binary tree => tree.IsMadeOf terminals operations
  | .nary tree => tree.IsMadeOf terminals operations

theorem AddressTree.IsMadeOf.mono {tree : AddressTree}
    {terminals otherTerminals : Datum → Terminal → Prop}
    {operations otherOperations : Operation → Prop} (made : tree.IsMadeOf terminals operations)
    (onTerminals : ∀ text node, terminals text node → otherTerminals text node)
    (onOperations : ∀ operation, operations operation → otherOperations operation) :
    tree.IsMadeOf otherTerminals otherOperations := by
  cases tree with
  | binary tree => exact BinaryTree.IsMadeOf.mono made onTerminals onOperations
  | nary tree => exact NaryTree.IsMadeOf.mono made onTerminals onOperations

theorem Resolver.calculates_evaluate (words : HoldsOfWords number) {resolver : Resolver}
    {tree : BinaryTree}
    (made : tree.IsMadeOf
      (fun text node => Calculates number allowed (resolver.concrete.terminal text node))
      (Operation.Admits number allowed)) :
    Calculates number allowed (resolver.evaluate tree) :=
  @BinaryTree.calculates_evaluateWith _ _ resolver.concrete words
    (fun _ _ _ _ _ => finishes_fail trivial) _ made

theorem AddressTree.calculates_extremeValue (words : HoldsOfWords number) {setting : RangeSetting}
    (counts : ∀ iterationCount, setting.iterationCount = some iterationCount →
      ∀ loop, Calculates number allowed (iterationCount loop)) {tree : AddressTree}
    (made : tree.IsMadeOf
      (fun text node => Calculates number allowed (setting.context.terminal text node))
      (fun operation => operation.Admits number allowed ∧
        (operation = .phi → NaryTree.AdmitsLoops setting allowed))) :
    Calculates number allowed (tree.extremeValue setting) := by
  cases tree with
  | binary tree =>
      refine BinaryTree.calculates_evaluateWith words (fun _ _ _ onFirst onSecond => ?_)
        (made.mono (fun _ _ holds => holds) (fun _ admitted => admitted.1))
      exact Emitter.calculates_combine words (Mode.admits_extremum _) onFirst onSecond
  | nary tree => exact (NaryTree.isCalculated_of_isMadeOf words counts made).value

/-- The misuses that trees of some operations over some integers can run into: an unsigned
division by an integer whose low bits are all zero, an integer that a domain error cannot quote,
and a loop that the error of a merge cannot quote. -/
def Misuse.IsDueTo (number : Int → Prop) (operations : Operation → Prop) (mergesUnquoted : Prop) :
    Misuse → Prop
  | .zeroDivision =>
      (∃ operation, operations operation ∧ operation.wordOp? = some .udiv) ∧ MayVanish number
  | .unreadableNumeral =>
      (∃ operation op, operations operation ∧ operation.wordOp? = some op ∧ op.IsPartial) ∧
          MayLackNumeral number ∨
        operations .phi ∧ mergesUnquoted
  | _ => False

variable {operations : Operation → Prop} {mergesUnquoted : Prop}

theorem Operation.admits_of_isDueTo {operation : Operation} (occurs : operations operation) :
    operation.Admits number (Misuse.IsDueTo number operations mergesUnquoted) := fun _ read =>
  { division := fun same mayVanish => ⟨⟨operation, occurs, same ▸ read⟩, mayVanish⟩
    quotation := fun isPartial mayLack => .inl ⟨⟨operation, _, occurs, read, isPartial⟩, mayLack⟩ }

/-- An operation on integers comes to a word or fails with a domain error, unless it divides by
bits that are all zero or the error would quote an operand without a numeral. Trees over integers
come to integers or fail with errors of the analysis, unless they have such a division and one of
the integers can be its divisor, or an error would quote an integer or a loop without a numeral. -/
theorem misuse_only_where_due {number : Int → Prop} (words : HoldsOfWords number)
    (operations : Operation → Prop) :
    (∀ (op : WordOp) (width : Width) (first second : Int),
      (op = .udiv ∧ width.Vanishes second →
        op.fold width first second = .error Misuse.zeroDivision) ∧
      (op.IsOutside width second ∧ Text.hasNumeral (op.quoted first second) = false →
        op.fold width first second = .error Misuse.unreadableNumeral) ∧
      (¬ (op = .udiv ∧ width.Vanishes second) →
        ¬ (op.IsOutside width second ∧ Text.hasNumeral (op.quoted first second) = false) →
          (∃ cause : Indeterminate, cause.isDomainError = true ∧
            op.fold width first second = .error cause) ∨
          ∃ value, op.fold width first second = .ok value ∧ width.Holds value)) ∧
    (∀ (resolver : Resolver) (tree : BinaryTree),
      tree.IsMadeOf (fun text node =>
        Calculates number (fun _ => False) (resolver.concrete.terminal text node)) operations →
      Calculates number (Misuse.IsDueTo number operations False) (resolver.evaluate tree)) ∧
    (∀ (setting : RangeSetting) (tree : AddressTree),
      (∀ iterationCount, setting.iterationCount = some iterationCount →
        ∀ loop, Calculates number (fun _ => False) (iterationCount loop)) →
      tree.IsMadeOf (fun text node =>
        Calculates number (fun _ => False) (setting.context.terminal text node)) operations →
      Calculates number
        (Misuse.IsDueTo number operations
          (∃ id, (setting.context.loopOf id).isWritable = false))
        (tree.extremeValue setting)) := by
  refine ⟨fun op width first second => ⟨?_, ?_, fun divisible quotable => ?_⟩,
    fun resolver tree made => ?_, fun setting tree counts made => ?_⟩
  · rintro ⟨rfl, vanishes⟩
    exact WordOp.fold_udiv_of_vanishes vanishes first
  · rintro ⟨outside, long⟩
    exact WordOp.fold_of_not_hasNumeral outside long
  · by_cases outside : op.IsOutside width second
    · have short : Text.hasNumeral (op.quoted first second) = true :=
        Bool.of_not_eq_false (fun long => quotable ⟨outside, long⟩)
      exact .inl ⟨_, op.isDomainError_domainError width first second,
        WordOp.fold_of_hasNumeral outside short⟩
    · exact .inr (WordOp.exists_fold outside divisible first)
  · exact Resolver.calculates_evaluate words
      (made.mono (fun _ _ calculates => calculates.mono (fun _ => False.elim))
        (fun _ => Operation.admits_of_isDueTo))
  · refine AddressTree.calculates_extremeValue words
      (fun _ found loop => (counts _ found loop).mono (fun _ => False.elim))
      (made.mono (fun _ _ calculates => calculates.mono (fun _ => False.elim)) ?_)
    intro operation occurs
    refine ⟨Operation.admits_of_isDueTo occurs, ?_⟩
    rintro rfl id unwritable
    exact .inr ⟨occurs, id, unwritable⟩

/-- Unsigned division of one constant by another. -/
def quotient (dividend divisor : Int) : BinaryTree :=
  .branch "UDIV" .udiv (.constant dividend) (.constant divisor)

/-- Where the divisor is beyond 64 bits but no multiple of the modulus, nothing is out of order. -/
theorem calculates_quotient :
    Calculates (fun value => ¬ Width.wide.Vanishes value ∧ Text.hasNumeral value = true)
        (fun _ => False) ((Resolver.sample (.constant 0)).evaluate (quotient 8 (2 ^ 64 + 2))) ∧
      Calculates (fun value => ¬ Width.wide.Vanishes value ∧ Text.hasNumeral value = true)
        (fun _ => False)
        (AddressTree.extremeValue (.of (.sample (.constant 0)) .greatest none (.integer 0))
          (.nary (.ofBinary (quotient 8 (2 ^ 64 + 2))))) := by
  let number (value : Int) : Prop := ¬ Width.wide.Vanishes value ∧ Text.hasNumeral value = true
  have words : HoldsOfWords number := fun _ holds =>
    ⟨Width.not_vanishes_of_holds holds, Width.hasNumeral_of_holds holds⟩
  have sound {mergesUnquoted : Prop} (cause : Misuse) :
      ¬ cause.IsDueTo number (fun operation => operation = .udiv) mergesUnquoted := by
    intro due
    cases cause with
    | zeroDivision =>
        obtain ⟨_, value, proper, vanishes⟩ := due
        exact proper.1 vanishes
    | unreadableNumeral =>
        rcases due with ⟨_, value, proper, long⟩ | ⟨isMerge, _⟩
        · cases long.symm.trans proper.2
        · cases isMerge
    | _ => exact due
  have dividend : number 8 := by decide
  have divisor : number (2 ^ 64 + 2) := by decide
  obtain ⟨_, onEvaluation, onRange⟩ :=
    misuse_only_where_due words (fun operation => operation = .udiv)
  constructor
  · refine (onEvaluation (.sample (.constant 0)) (quotient 8 (2 ^ 64 + 2)) ⟨?_, ?_⟩).mono sound
    · intro text node member
      simp only [quotient, BinaryTree.constant, BinaryTree.terminals, List.cons_append,
        List.nil_append, List.mem_cons, List.not_mem_nil, or_false, Prod.mk.injEq] at member
      obtain ⟨rfl, rfl⟩ | ⟨rfl, rfl⟩ := member
      · exact finishes_pure dividend
      · exact finishes_pure divisor
    · exact List.forall_mem_singleton.mpr rfl
  · refine (onRange (.of (.sample (.constant 0)) .greatest none (.integer 0))
      (.nary (.ofBinary (quotient 8 (2 ^ 64 + 2)))) ?_
      (NaryTree.IsMadeOf.operation rfl ?_ ?_)).mono sound
    · intro iterationCount absent
      cases absent
    · intro isMerge
      cases isMerge
    · intro operand member
      simp only [List.mem_cons, List.not_mem_nil, or_false] at member
      obtain rfl | rfl := member
      · exact .childless (finishes_pure dividend)
      · exact .childless (finishes_pure divisor)

/-- Eight divided by the modulus fails, and not with an error of the analysis. A dividend of more
than 4300 digits makes a proper division by zero fail in another such way. -/
theorem misuse_quotient :
    (¬ ((∃ cause : Indeterminate, cause.isDomainError = true ∧
          WordOp.udiv.fold .wide 8 (2 ^ 64) = .error cause) ∨
        ∃ value, WordOp.udiv.fold .wide 8 (2 ^ 64) = .ok value ∧ Width.wide.Holds value)) ∧
      (∀ ledger, ((Resolver.sample (.constant 0)).evaluate (quotient 8 (2 ^ 64))).outcome ledger =
        (.error Misuse.zeroDivision, ledger)) ∧
      WordOp.udiv.fold .wide (10 ^ 4300) 0 = .error Misuse.unreadableNumeral := by
  have failed := @WordOp.fold_udiv_of_vanishes .wide (2 ^ 64) ⟨by decide, by decide⟩ 8
  refine ⟨?_, fun ledger => rfl, WordOp.fold_of_not_hasNumeral rfl (by decide +kernel)⟩
  rintro (⟨cause, _, other⟩ | ⟨value, returned, _⟩)
  · rw [failed] at other
    cases other
  · rw [failed] at returned
    cases returned

end KernelFootprint
