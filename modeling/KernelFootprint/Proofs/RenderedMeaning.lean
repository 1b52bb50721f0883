import KernelFootprint.Proofs.LateBinding
import KernelFootprint.Proofs.Residues
import KernelFootprint.Tree.Rendering
import Std.Data.String.ToNat

/-!
# What renderings mean

A tree is rendered as an expression over variables that are named for its terminals.
Different terminals have different variables, so that all of them can be set at once to
what their terminals are worth. Apart from disjunctions, an operation is rendered as the
one that is requested for it when its operands are deferred. On natural numbers that are
never wrapped the rendering of a tree is therefore evaluated to the value of the tree.
-/

namespace KernelFootprint

/-- The variable that stands for a terminal; a constant stands for itself. -/
def Terminal.readName (node : Terminal) : Option String :=
  match node.rendered with
  | .var name => some name
  | _ => none

/-- Names of terminals differ in their letters or in the numbers after these. -/
theorem Terminal.rendered_injective {first second : Terminal}
    (same : first.rendered = second.rendered) : first = second := by
  have digits {number other : Nat} (same : Nat.toDigits 10 number = Nat.toDigits 10 other) :
      number = other := by
    refine Nat.repr_inj.mp ?_
    simp [← String.toList_inj, same]
  rcases first with _ | _ | (_ | _) | (_ | _) | (_ | _) | (_ | _) | _ <;>
    rcases second with _ | _ | (_ | _) | (_ | _) | (_ | _) | (_ | _) | _ <;>
      simp_all [rendered, ← String.toList_inj]
  all_goals exact digits same

theorem Terminal.rendered_of_readName {node : Terminal} {name : String}
    (named : node.readName = some name) : node.rendered = .var name := by
  cases node with
  | constant value => cases named
  | phiTerm id => cases id <;> cases named <;> rfl
  | thread axis | block axis | blockSize axis => cases axis <;> cases named <;> rfl
  | _ =>
      cases named
      rfl

/-- An operation on integers is rendered as the one that is deferred, unless it packs an
offset into an aligned address. -/
theorem Operation.rendered_eq_deferred {operation : Operation} {op : WordOp}
    (read : operation.wordOp? = some op) (arithmetic : operation ≠ .or) (first second : Value) :
    operation.rendered [first, second] = op.deferred first second := by
  cases operation with
  | or => exact absurd rfl arithmetic
  | phi | icmp | fcmp | fmul | fdiv => cases read
  | _ =>
      cases read
      rfl

namespace BinaryTree

variable {resolver : Resolver} {number : Terminal → Int} {environment : String → Int}
  {tree : BinaryTree}

/-- The variables of a tree have the numbers of the terminals that they stand for. -/
def Sets (environment : String → Int) (number : Terminal → Int) (tree : BinaryTree) : Prop :=
  ∀ text node, (text, node) ∈ tree.terminals → ∀ name, node.readName = some name →
    environment name = number node

/-- The number of the terminal that a variable stands for, zero if it stands for none. -/
def variableNumber (number : Terminal → Int) (tree : BinaryTree) (name : String) : Int :=
  match tree.terminals.find? (fun entry => entry.2.readName == some name) with
  | some entry => number entry.2
  | none => 0

/-- No two terminals get in each other's way. -/
theorem sets_variableNumber (number : Terminal → Int) (tree : BinaryTree) :
    tree.Sets (tree.variableNumber number) number := by
  intro text node member name named
  unfold variableNumber
  cases found : tree.terminals.find? (fun entry => entry.2.readName == some name) with
  | none =>
      have other := List.find?_eq_none.mp found (text, node) member
      simp [named] at other
  | some entry =>
      have alsoNamed : entry.2.readName = some name := by simpa using List.find?_some found
      have same := (Terminal.rendered_of_readName alsoNamed).trans
        (Terminal.rendered_of_readName named).symm
      exact congrArg number (Terminal.rendered_injective same)

theorem Sets.left {text : String} {operation : Operation} {left right : BinaryTree}
    (sets : (branch text operation left right).Sets environment number) :
    left.Sets environment number :=
  fun text node member => sets text node (List.mem_append_left _ member)

theorem Sets.right {text : String} {operation : Operation} {left right : BinaryTree}
    (sets : (branch text operation left right).Sets environment number) :
    right.Sets environment number :=
  fun text node member => sets text node (List.mem_append_right _ member)

/-- A terminal is rendered as what it is worth. -/
theorem Sets.means_terminal {text : Datum} {node : Terminal}
    (sets : (leaf text (.terminal node)).Sets environment number)
    (literal : ∀ value, number (.constant value) = value) :
    node.rendered.Means environment (number node) := by
  cases named : node.readName with
  | none =>
      cases node with
      | constant value =>
          rw [literal]
          exact Value.means_int environment value
      | phiTerm id => cases id <;> cases named
      | thread axis | block axis | blockSize axis => cases axis <;> cases named
      | _ => cases named
  | some name =>
      rw [Terminal.rendered_of_readName named,
        ← sets text node (List.mem_singleton_self _) name named]
      exact Value.means_var environment name

theorem reads_concrete (resolver : Resolver) : resolver.concrete.Reads Operation.wordOp? :=
  Evaluator.concrete.reads resolver none (.integer 0)

theorem IsWorth.isImmediate (resolved : tree.IsWorth resolver (fun _ node => number node))
    (text : Datum) (node : Terminal) (member : (text, node) ∈ tree.terminals) :
    (resolver.concrete.terminal text node).IsImmediate := by
  change (Analysis.ofExcept (resolver.resolve text (.terminal node))).IsImmediate
  rw [resolved text node member]
  exact Analysis.isImmediate_pure (number node)

/-- The value of a tree over unbounded integers. -/
def unboundedValue (number : Terminal → Int) (tree : BinaryTree) : Int :=
  tree.exact Operation.wordOp? (fun _ node => number node)

/-- Whether a tree has no value but its exact one, a natural number below 2 ^ 63. -/
def IsExactFor (resolver : Resolver) (number : Terminal → Int) (tree : BinaryTree) : Prop :=
  IsExact resolver.concrete Operation.wordOp? (fun _ node => number node) tree

/-- A tree that has a value then has the exact one. -/
theorem eq_exact_of_evaluate (resolved : tree.IsWorth resolver (fun _ node => number node))
    (exactly : tree.Everywhere (IsExactFor resolver number)) {before after : Ledger} {value : Value}
    (returned : (resolver.evaluate tree).outcome before = (.ok value, after)) :
    value = .int (tree.unboundedValue number) ∧ 0 ≤ tree.unboundedValue number ∧
      tree.unboundedValue number < 2 ^ 63 := by
  obtain ⟨same, _, low, high⟩ :=
    evaluateWith_settled (reads_concrete resolver) resolved.isImmediate exactly.self returned
  exact ⟨same, low, high⟩

/-- The rendering of a tree means the exact value of the tree if all parts of the tree are
natural numbers that are never wrapped. -/
theorem means_rendered (arithmetic : .or ∉ tree.operations)
    (literal : ∀ value, number (.constant value) = value)
    (resolved : tree.IsWorth resolver (fun _ node => number node))
    (exactly : tree.Everywhere (IsExactFor resolver number))
    (sets : tree.Sets environment number) {before after : Ledger} {value : Value}
    (returned : (resolver.evaluate tree).outcome before = (.ok value, after)) :
    tree.rendered.Means environment (tree.unboundedValue number) := by
  induction tree generalizing before after value with
  | leaf text symbol =>
      cases symbol with
      | terminal node => exact sets.means_terminal literal
      | structural node => cases returned
  | branch text operation left right leftIH rightIH =>
      rw [operations, List.mem_cons, List.mem_append, not_or, not_or] at arithmetic
      obtain ⟨own, onLeft, onRight⟩ := arithmetic
      obtain ⟨_, leftExactly, rightExactly⟩ := exactly
      obtain ⟨first, middle, second, last, leftReturned, rightReturned, applied⟩ :=
        evaluateWith_branch_eq_ok.mp returned
      have leftMeans := leftIH onLeft resolved.left leftExactly sets.left leftReturned
      have rightMeans := rightIH onRight resolved.right rightExactly sets.right rightReturned
      obtain ⟨rfl, leftLow, _⟩ := eq_exact_of_evaluate resolved.left leftExactly leftReturned
      obtain ⟨rfl, rightLow, _⟩ := eq_exact_of_evaluate resolved.right rightExactly rightReturned
      -- An operation that is not read as one on words has no value.
      have applies := reads_concrete resolver text operation
        (.int (left.unboundedValue number)) (.int (right.unboundedValue number))
      cases read : operation.wordOp? with
      | none =>
          rw [read] at applies
          obtain ⟨fault, failed⟩ := applies
          rw [failed] at applied
          cases applied
      | some op =>
          rw [read] at applies
          rw [applies] at applied
          obtain ⟨result, folded, _, _⟩ := Emitter.fold_of_combine applied
          rw [unboundedValue, exact_branch read, rendered,
            Operation.rendered_eq_deferred read (fun same => own same.symm)]
          exact Value.means_deferred leftMeans rightMeans (WordOp.accepts_of_fold folded)
            leftLow rightLow

/-- Rendering preserves meaning. Where a tree without disjunctions has a value, and all its
parts are natural numbers below 2 ^ 63 that are never wrapped, its rendering is evaluated to
this value, whichever way its variables are set to what their terminals are worth. There is
such a way for all worths of the terminals. -/
theorem evaluate_rendered (arithmetic : .or ∉ tree.operations)
    (literal : ∀ value, number (.constant value) = value)
    (resolved : tree.IsWorth resolver (fun _ node => number node))
    (exactly : tree.Everywhere (IsExactFor resolver number)) {before after : Ledger} {value : Value}
    (returned : (resolver.evaluate tree).outcome before = (.ok value, after)) :
    tree.Sets (tree.variableNumber number) number ∧
      ∃ result : Int, value = .int result ∧
        ∀ environment : String → Int, tree.Sets environment number →
          tree.rendered.evaluate (fun name => some (environment name)) = .ok result := by
  obtain ⟨same, _⟩ := eq_exact_of_evaluate resolved exactly returned
  refine ⟨sets_variableNumber number tree, _, same, ?_⟩
  intro environment sets
  exact (means_rendered arithmetic literal resolved exactly sets returned).evaluate

/-- A quarter of what an argument exceeds an index by, and four bytes for every iteration. -/
def quartered : BinaryTree :=
  .branch "ADD" .add
    (.branch "SDIV" .sdiv
      (.branch "SUB" .sub (.leaf (.text "ARG0") (.terminal (.argument 0)))
        (.leaf (.text "TIDX") (.terminal (.thread .x))))
      (constant 4))
    (.branch "SHL" .shl (.leaf (.text "PHI1") (.terminal (.phiTerm (some 1)))) (constant 2))

def quarteredNumber : Terminal → Int
  | .constant value => value
  | .argument _ => 128
  | .thread _ => 5
  | _ => 3

/-- The rendering of 123 quartered and 12 is evaluated to 42. -/
theorem evaluate_rendered_quartered :
    quartered.rendered.evaluate (fun name =>
      some (if name = "arg0" then 128 else if name = "tidx" then 5 else 3)) = .ok 42 := by
  let resolver := (Resolver.sample (.constant 128)).given [(.text "TIDX", 5), (.text "PHI1", 3)]
  have listed : quartered.terminals = [(.text "ARG0", .argument 0), (.text "TIDX", .thread .x),
      (.text "4", .constant 4), (.text "PHI1", .phiTerm (some 1)), (.text "2", .constant 2)] := rfl
  have resolved : quartered.IsWorth resolver (fun _ node => quarteredNumber node) := by
    intro text node member
    simp only [listed, List.mem_cons, List.not_mem_nil, or_false, Prod.mk.injEq] at member
    obtain ⟨rfl, rfl⟩ | ⟨rfl, rfl⟩ | ⟨rfl, rfl⟩ | ⟨rfl, rfl⟩ | ⟨rfl, rfl⟩ := member <;> rfl
  have exact {tree : BinaryTree} (value : Int)
      (computed : ∀ ledger, (resolver.evaluate tree).outcome ledger = (.ok (.int value), ledger))
      (bounded : 0 ≤ value ∧ value < 2 ^ 63 ∧ value = tree.unboundedValue quarteredNumber) :
      IsExactFor resolver quarteredNumber tree :=
    isExact_of_outcome computed bounded.1 bounded.2.1 bounded.2.2
  have exactly : quartered.Everywhere (IsExactFor resolver quarteredNumber) :=
    ⟨exact 42 (by intro ledger; cbv) (by decide),
      ⟨exact 30 (by intro ledger; cbv) (by decide),
        ⟨exact 123 (by intro ledger; cbv) (by decide), exact 128 (by intro ledger; cbv) (by decide),
          exact 5 (by intro ledger; cbv) (by decide)⟩,
        exact 4 (by intro ledger; cbv) (by decide)⟩,
      exact 12 (by intro ledger; cbv) (by decide), exact 3 (by intro ledger; cbv) (by decide),
      exact 2 (by intro ledger; cbv) (by decide)⟩
  have returned : (resolver.evaluate quartered).outcome {} = (.ok (.int 42), {}) := by cbv
  obtain ⟨_, result, same, evaluated⟩ :=
    evaluate_rendered (by decide) (fun _ => rfl) resolved exactly returned
  cases same
  refine evaluated _ ?_
  intro text node member name named
  simp only [listed, List.mem_cons, List.not_mem_nil, or_false, Prod.mk.injEq] at member
  obtain ⟨rfl, rfl⟩ | ⟨rfl, rfl⟩ | ⟨rfl, rfl⟩ | ⟨rfl, rfl⟩ | ⟨rfl, rfl⟩ := member <;>
    cases named <;> decide

end BinaryTree

end KernelFootprint
