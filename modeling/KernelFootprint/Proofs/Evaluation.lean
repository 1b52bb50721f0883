import KernelFootprint.Address.Evaluation
import KernelFootprint.Proofs.Outcome
import KernelFootprint.Proofs.Unbounded

/-!
# Evaluation as a recursion over trees

A binary tree has a value exactly if both operands of its root have one and the
operation at the root has one on them. The value depends on what its terminals
are worth and on nothing else. Where terminals are known integers, so is the
value of the tree, and the ledger plays no part. Beside the value of a tree
stands the exact one, which is computed without any wrapping.
-/

namespace KernelFootprint.BinaryTree

/-- The terminals with their tokens, from left to right. -/
def terminals : BinaryTree → List (Datum × Terminal)
  | .leaf text (.terminal node) => [(text, node)]
  | .leaf _ (.structural _) => []
  | .branch _ _ left right => left.terminals ++ right.terminals

def operations : BinaryTree → List Operation
  | .leaf _ _ => []
  | .branch _ operation left right => operation :: (left.operations ++ right.operations)

/-- Whether a property holds of a tree and of all trees below it. -/
def Everywhere (property : BinaryTree → Prop) : BinaryTree → Prop
  | .leaf text symbol => property (.leaf text symbol)
  | .branch text operation left right =>
      property (.branch text operation left right) ∧
        left.Everywhere property ∧ right.Everywhere property

theorem Everywhere.self {property : BinaryTree → Prop} {tree : BinaryTree}
    (holds : tree.Everywhere property) : property tree := by
  cases tree with
  | leaf text symbol => exact holds
  | branch text operation left right => exact holds.1

instance Everywhere.decidable (property : BinaryTree → Prop) [DecidablePred property] :
    (tree : BinaryTree) → Decidable (tree.Everywhere property)
  | .leaf text symbol => inferInstanceAs (Decidable (property (.leaf text symbol)))
  | .branch text operation left right =>
      have := decidable property left
      have := decidable property right
      inferInstanceAs (Decidable (property (.branch text operation left right) ∧
        left.Everywhere property ∧ right.Everywhere property))

/-- The value of a tree over unbounded integers. What has no value counts as zero. -/
def exact (reading : Operation → Option WordOp) (terminal : Datum → Terminal → Int) :
    BinaryTree → Int
  | .leaf text (.terminal node) => terminal text node
  | .leaf _ (.structural _) => 0
  | .branch _ operation left right =>
      match reading operation with
      | some op => op.unbounded (left.exact reading terminal) (right.exact reading terminal)
      | none => 0

theorem exact_branch {reading : Operation → Option WordOp} {operation : Operation} {op : WordOp}
    (read : reading operation = some op) (terminal : Datum → Terminal → Int) (text : String)
    (left right : BinaryTree) :
    (branch text operation left right).exact reading terminal =
      op.unbounded (left.exact reading terminal) (right.exact reading terminal) := by
  rw [exact, read]

theorem exact_congr {reading : Operation → Option WordOp} {first second : Datum → Terminal → Int}
    {tree : BinaryTree}
    (same : ∀ text node, (text, node) ∈ tree.terminals → first text node = second text node) :
    tree.exact reading first = tree.exact reading second := by
  induction tree with
  | leaf text symbol =>
      cases symbol with
      | terminal node => exact same text node (List.mem_singleton.mpr rfl)
      | structural node => rfl
  | branch text operation left right leftIH rightIH =>
      have onLeft := leftIH (fun text node member =>
        same text node (List.mem_append_left _ member))
      have onRight := rightIH (fun text node member =>
        same text node (List.mem_append_right _ member))
      rw [exact, exact, onLeft, onRight]

variable {valuation : Valuation}

theorem apply_of_wordOp? {operation : Operation} {op : WordOp}
    (read : operation.wordOp? = some op) (text : String) (first second : Value) :
    valuation.apply text operation first second =
      valuation.emitter.combine op first second := by
  cases operation with
  | phi => cases read
  | _ => simp only [Valuation.apply, read]

theorem apply_of_wordOp?_none {operation : Operation} (isOther : operation ≠ .phi)
    (read : operation.wordOp? = none) (text : String) (first second : Value) :
    valuation.apply text operation first second =
      Analysis.fail (Misshape.noIntegerValue text) := by
  cases operation with
  | phi => exact absurd rfl isOther
  | _ => simp only [Valuation.apply, read]

/-- A valuation applies an operation as the word operation that it is read as, or fails. -/
def Valuation.Reads (valuation : Valuation) (reading : Operation → Option WordOp) : Prop :=
  ∀ text operation first second,
    match reading operation with
    | some op =>
        valuation.apply text operation first second = valuation.emitter.combine op first second
    | none => ∃ fault, valuation.apply text operation first second = Analysis.fail fault

theorem Valuation.Reads.merge {reading : Operation → Option WordOp}
    (reads : valuation.Reads reading) (text : String) (first second : Int) :
    (valuation.merge text (.int first) (.int second)).IsImmediate := by
  have applied := reads text .phi (.int first) (.int second)
  change (valuation.apply text .phi (.int first) (.int second)).IsImmediate
  split at applied
  · rw [applied]
    exact valuation.emitter.isImmediate_combine _ first second
  · obtain ⟨fault, failed⟩ := applied
    rw [failed]
    exact Analysis.isImmediate_fail fault

theorem evaluateWith_terminal (text : Datum) (node : Terminal) :
    (leaf text (.terminal node)).evaluateWith valuation = valuation.terminal text node := by
  change (valuation.terminal text node >>= fun value => pure (Operand.known value)) >>=
    Operand.asResult = _
  rw [bind_assoc]
  simp only [pure_bind, Operand.asResult, bind_pure]

theorem evaluate_terminal (resolver : Resolver) (text : Datum) (node : Terminal) :
    resolver.evaluate (leaf text (.terminal node)) =
      Analysis.ofExcept (resolver.resolve text (.terminal node)) :=
  evaluateWith_terminal text node

theorem evaluate_of_resolve {resolver : Resolver} {text : Datum} {node : Terminal} {value : Value}
    (resolved : resolver.resolve text (.terminal node) = .ok value) :
    resolver.evaluate (leaf text (.terminal node)) = pure value := by
  rw [evaluate_terminal, resolved]
  rfl

/-- A tree has a value exactly if it is reduced to that value for the node above. -/
theorem evaluateWith_eq_ok {tree : BinaryTree} {ledger after : Ledger} {value : Value} :
    (tree.evaluateWith valuation).outcome ledger = (.ok value, after) ↔
      (tree.operand valuation).outcome ledger = (.ok (.known value), after) := by
  rw [evaluateWith, Analysis.outcome_bind_eq_ok]
  constructor
  · rintro ⟨operand, middle, reduced, result⟩
    cases operand with
    | known other =>
        cases result
        exact reduced
    | irreducible text => cases result
  · intro reduced
    exact ⟨_, _, reduced, rfl⟩

theorem evaluateWith_branch_eq_ok {text : String} {operation : Operation}
    {left right : BinaryTree} {ledger after : Ledger} {value : Value} :
    ((branch text operation left right).evaluateWith valuation).outcome ledger =
        (.ok value, after) ↔
      ∃ first middle second last,
        (left.evaluateWith valuation).outcome ledger = (.ok first, middle) ∧
          (right.evaluateWith valuation).outcome middle = (.ok second, last) ∧
            (valuation.apply text operation first second).outcome last = (.ok value, after) := by
  rw [evaluateWith_eq_ok, operand]
  simp only [Analysis.outcome_bind_eq_ok, evaluateWith_eq_ok]
  constructor
  · rintro ⟨first, middle, reduced, second, last, otherReduced, firstValue, _, firstKnown,
      secondValue, _, secondKnown, result, _, applied, returned⟩
    cases first with
    | irreducible text => cases firstKnown
    | known first =>
        cases second with
        | irreducible text => cases secondKnown
        | known second =>
            cases firstKnown
            cases secondKnown
            cases returned
            exact ⟨_, _, _, _, reduced, otherReduced, applied⟩
  · rintro ⟨first, middle, second, last, reduced, otherReduced, applied⟩
    exact ⟨_, _, reduced, _, _, otherReduced, _, _, rfl, _, _, rfl, _, _, applied, rfl⟩

theorem evaluateWith_branch {text : String} {operation : Operation} {left right : BinaryTree}
    {first second : Value} (onLeft : left.evaluateWith valuation = pure first)
    (onRight : right.evaluateWith valuation = pure second) :
    (branch text operation left right).evaluateWith valuation =
      valuation.apply text operation first second := by
  have reduced {tree : BinaryTree} {value : Value}
      (returned : tree.evaluateWith valuation = pure value) :
      tree.operand valuation = pure (.known value) := by
    funext ledger
    exact evaluateWith_eq_ok.mp (congrFun returned ledger)
  rw [evaluateWith, operand, reduced onLeft, reduced onRight]
  simp only [pure_bind, Operand.asOperandOf, bind_assoc, Operand.asResult, bind_pure]

/-- The value of a tree depends on what its terminals and merges are worth only. -/
theorem evaluateWith_congr {first second : Valuation} {tree : BinaryTree}
    (emitters : first.emitter = second.emitter)
    (terminals : ∀ text node, (text, node) ∈ tree.terminals →
      first.terminal text node = second.terminal text node)
    (merges : .phi ∈ tree.operations → first.merge = second.merge) :
    tree.evaluateWith first = tree.evaluateWith second := by
  have reduced : tree.operand first = tree.operand second := by
    induction tree with
    | leaf text symbol =>
        cases symbol with
        | terminal node =>
            rw [operand, operand, terminals text node (List.mem_singleton.mpr rfl)]
        | structural node => rfl
    | branch text operation left right leftIH rightIH =>
        have onLeft := leftIH
          (fun text node member => terminals text node (List.mem_append_left _ member))
          (fun member => merges (List.mem_cons_of_mem _ (List.mem_append_left _ member)))
        have onRight := rightIH
          (fun text node member => terminals text node (List.mem_append_right _ member))
          (fun member => merges (List.mem_cons_of_mem _ (List.mem_append_right _ member)))
        have applied : first.apply text operation = second.apply text operation := by
          funext left right
          cases operation with
          | phi =>
              change first.merge text left right = second.merge text left right
              rw [merges (List.mem_cons_self ..)]
          | _ => simp only [Valuation.apply, emitters]
        rw [operand, operand, onLeft, onRight, applied]
  rw [evaluateWith, evaluateWith, reduced]

/-- Whether a tree is reduced to a known integer, to no value or to a fault, whatever
the ledger holds. -/
def IsImmediateOperand (valuation : Valuation) (tree : BinaryTree) : Prop :=
  ∃ outcome : Except Fault Operand, tree.operand valuation = Analysis.ofExcept outcome ∧
    ∀ value, outcome = .ok (.known value) → ∃ number, value = .int number

theorem isImmediateOperand_terminal {text : Datum} {node : Terminal}
    (terminal : (valuation.terminal text node).IsImmediate) :
    IsImmediateOperand valuation (leaf text (.terminal node)) := by
  obtain ⟨outcome, eq⟩ := terminal
  unfold IsImmediateOperand
  rw [operand, eq]
  cases outcome with
  | ok number =>
      refine ⟨.ok (.known (.int number)), rfl, ?_⟩
      intro value same
      cases same
      exact ⟨number, rfl⟩
  | error fault =>
      refine ⟨.error fault, rfl, ?_⟩
      intro value same
      cases same

/-- An operation on two known integers comes to an integer or to a fault. -/
theorem isImmediate_apply
    (merges : ∀ text (first second : Int),
      (valuation.merge text (.int first) (.int second)).IsImmediate)
    (text : String) (operation : Operation) (first second : Int) :
    (valuation.apply text operation (.int first) (.int second)).IsImmediate := by
  by_cases isMerge : operation = .phi
  · subst isMerge
    exact merges text first second
  · cases read : operation.wordOp? with
    | some op =>
        rw [apply_of_wordOp? read]
        exact valuation.emitter.isImmediate_combine op first second
    | none =>
        rw [apply_of_wordOp?_none isMerge read]
        exact Analysis.isImmediate_fail _

theorem isImmediateOperand_branch
    (merges : ∀ text (first second : Int),
      (valuation.merge text (.int first) (.int second)).IsImmediate)
    {left right : BinaryTree} (onLeft : IsImmediateOperand valuation left)
    (onRight : IsImmediateOperand valuation right) (text : String) (operation : Operation) :
    IsImmediateOperand valuation (branch text operation left right) := by
  obtain ⟨leftOutcome, leftEq, leftInteger⟩ := onLeft
  obtain ⟨rightOutcome, rightEq, rightInteger⟩ := onRight
  have failed (fault : Fault)
      (eq : (branch text operation left right).operand valuation = Analysis.fail fault) :
      IsImmediateOperand valuation (branch text operation left right) := by
    refine ⟨.error fault, eq, ?_⟩
    intro value same
    cases same
  rcases leftOutcome with fault | left'
  · exact failed fault (by rw [operand, leftEq]; rfl)
  rcases rightOutcome with fault | right'
  · exact failed fault (by rw [operand, leftEq, rightEq]; rfl)
  rcases left' with first | leaf'
  · rcases right' with second | leaf'
    · obtain ⟨first, rfl⟩ := leftInteger first rfl
      obtain ⟨second, rfl⟩ := rightInteger second rfl
      obtain ⟨outcome, eq⟩ := isImmediate_apply merges text operation first second
      rcases outcome with fault | number
      · refine failed fault ?_
        rw [operand, leftEq, rightEq]
        change (valuation.apply text operation (.int first) (.int second)) >>= _ = _
        rw [eq]
        rfl
      · refine ⟨.ok (.known (.int number)), ?_, ?_⟩
        · rw [operand, leftEq, rightEq]
          change (valuation.apply text operation (.int first) (.int second)) >>= _ = _
          rw [eq]
          rfl
        · intro value same
          cases same
          exact ⟨number, rfl⟩
    · exact failed _ (by rw [operand, leftEq, rightEq]; rfl)
  · exact failed _ (by rw [operand, leftEq, rightEq]; rfl)

/-- Where terminals and merges are immediate, so are whole trees. -/
theorem isImmediate_evaluateWith {tree : BinaryTree}
    (terminals : ∀ text node, (text, node) ∈ tree.terminals →
      (valuation.terminal text node).IsImmediate)
    (merges : ∀ text (first second : Int),
      (valuation.merge text (.int first) (.int second)).IsImmediate) :
    (tree.evaluateWith valuation).IsImmediate := by
  have reduced : IsImmediateOperand valuation tree := by
    induction tree with
    | leaf text symbol =>
        cases symbol with
        | terminal node =>
            exact isImmediateOperand_terminal (terminals text node (List.mem_singleton.mpr rfl))
        | structural node =>
            refine ⟨.ok (.irreducible text.shown), rfl, ?_⟩
            intro value same
            cases same
    | branch text operation left right leftIH rightIH =>
        have onLeft := leftIH (fun text node member =>
          terminals text node (List.mem_append_left _ member))
        have onRight := rightIH (fun text node member =>
          terminals text node (List.mem_append_right _ member))
        exact isImmediateOperand_branch merges onLeft onRight text operation
  obtain ⟨outcome, eq, integer⟩ := reduced
  rw [evaluateWith, eq]
  rcases outcome with fault | ⟨value⟩ | ⟨text⟩
  · exact Analysis.isImmediate_fail fault
  · obtain ⟨number, rfl⟩ := integer value rfl
    exact Analysis.isImmediate_pure number
  · exact Analysis.isImmediate_fail _

end KernelFootprint.BinaryTree
