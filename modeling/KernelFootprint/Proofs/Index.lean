import KernelFootprint.Address.Extremum
import KernelFootprint.Proofs.Evaluation

/-!
# Thread and block indices

Four terminals tell the threads of a grid apart. An index runs from zero to one
less than a dimension of the launch. Values for indices are given by their
tokens; a tree spells an index if that token stands at its terminals and
nowhere else, so that nothing but the index is replaced by a value.
-/

namespace KernelFootprint

inductive Index
  | thread (axis : Axis)
  | block (axis : Axis)
  deriving DecidableEq

namespace Index

def terminal : Index → Terminal
  | .thread axis => .thread axis
  | .block axis => .block axis

def kind (index : Index) : Kind := index.terminal.kind

def token (index : Index) : Datum := .text index.kind.token

def all : List Index := [.thread .x, .thread .y, .block .x, .block .y]

theorem mem_all (index : Index) : index ∈ all := by
  cases index with
  | thread axis => cases axis <;> decide
  | block axis => cases axis <;> decide

theorem terminal_injective {first second : Index} (same : first.terminal = second.terminal) :
    first = second := by
  cases first <;> cases second <;> simp_all [terminal]

end Index

/-- Whether a terminal stands for an index. -/
def Terminal.IsIndex (node : Terminal) : Prop := ∃ index : Index, node = index.terminal

theorem Terminal.eq_of_kind_eq {node : Terminal} {index : Index} (same : node.kind = index.kind) :
    node = index.terminal := by
  cases index with
  | thread axis =>
      cases node with
      | thread other =>
          cases same
          rfl
      | _ => cases same
  | block axis =>
      cases node with
      | block other =>
          cases same
          rfl
      | _ => cases same

namespace BinaryTree

/-- The token of an index stands at the terminals of the index and nowhere else. -/
def Spells (index : Index) (tree : BinaryTree) : Prop :=
  ∀ text node, (text, node) ∈ tree.terminals → (text = index.token ↔ node = index.terminal)

def Mentions (index : Index) (tree : BinaryTree) : Prop :=
  ∃ text, (text, index.terminal) ∈ tree.terminals

instance (index : Index) (tree : BinaryTree) : Decidable (tree.Mentions index) :=
  decidable_of_iff (index.terminal ∈ tree.terminals.map Prod.snd) (by
    simp [Mentions, List.mem_map])

variable {index : Index} {text : String} {operation : Operation} {left right : BinaryTree}

theorem spells_branch :
    (branch text operation left right).Spells index ↔
      left.Spells index ∧ right.Spells index := by
  simp only [Spells, terminals, List.mem_append]
  constructor
  · intro spelled
    exact ⟨fun text node member => spelled text node (.inl member),
      fun text node member => spelled text node (.inr member)⟩
  · rintro ⟨onLeft, onRight⟩ text node (member | member)
    · exact onLeft text node member
    · exact onRight text node member

theorem mentions_branch :
    (branch text operation left right).Mentions index ↔
      left.Mentions index ∨ right.Mentions index := by
  simp only [Mentions, terminals, List.mem_append, exists_or]

/-- Which indices a tree over texts spells can be read off the list of its terminals. -/
theorem spells_of_texts {tree : BinaryTree} {texts : List (String × Terminal)}
    (listed : tree.terminals = texts.map (fun entry => (.text entry.1, entry.2)))
    (spelled : ∀ entry ∈ texts,
      (entry.1 = index.kind.token ↔ entry.2 = index.terminal)) : tree.Spells index := by
  intro text node member
  rw [listed] at member
  obtain ⟨entry, inside, same⟩ := List.mem_map.mp member
  cases same
  rw [Index.token, Datum.text.injEq]
  exact spelled entry inside

/-- Four bytes for every thread of a block, and 128 bytes for every block. -/
def rowMajor : BinaryTree :=
  .branch "ADD" .add
    (.branch "MUL" .mul (.leaf (.text "BIDX") (.terminal (.block .x)))
      (.leaf (.text "ARG0") (.terminal (.argument 0))))
    (.branch "SHL" .shl (.leaf (.text "TIDX") (.terminal (.thread .x)))
      (.leaf (.text "2") (.terminal (.constant 2))))

theorem spells_rowMajor (index : Index) : rowMajor.Spells index := by
  have listed : rowMajor.terminals =
      [("BIDX", Terminal.block .x), ("ARG0", .argument 0), ("TIDX", .thread .x),
        ("2", .constant 2)].map (fun entry => (.text entry.1, entry.2)) := rfl
  refine spells_of_texts listed ?_
  cases index with
  | thread axis => cases axis <;> decide
  | block axis => cases axis <;> decide

end BinaryTree

theorem Datum.text_beq_iff {name : String} {other : Datum} :
    (Datum.text name == other) = true ↔ other = .text name := by
  cases other with
  | text value => rw [Datum.beq_text, beq_iff_eq, Datum.text.injEq, eq_comm]
  | _ => simp [BEq.beq, Datum.same, Datum.number?]

namespace Register

variable {Key Entry : Type} [BEq Key]

theorem find_append (key : Key) (first second : List (Key × Entry)) :
    find key (first ++ second) = (find key first).or (find key second) := by
  induction first with
  | nil => rfl
  | cons entry rest ih =>
      rw [List.cons_append, find, find]
      cases entry.1 == key with
      | true => rfl
      | false => exact ih

end Register

namespace Resolver

/-- The resolver with further values for tokens, in front of those it has. -/
def given (resolver : Resolver) (values : List (Datum × Value)) : Resolver :=
  { resolver with unknowns := values ++ resolver.unknowns }

/-- A value for every index. -/
def indexValues (assignment : Index → Int) : List (Datum × Value) :=
  Index.all.map (fun index => (index.token, .int (assignment index)))

/-- The dimension that an index runs through. -/
def dimension (resolver : Resolver) : Index → Value
  | .thread axis => resolver.invocation.blockDim.along axis
  | .block axis => resolver.invocation.gridDim.along axis

/-- All dimensions are positive integers. -/
def HasExtents (resolver : Resolver) (extent : Index → Int) : Prop :=
  ∀ index, resolver.dimension index = .int (extent index) ∧ 0 < extent index

/-- A grid of four blocks of 32 by 2 threads, with one argument. -/
def sample (argument : Binding) : Resolver where
  invocation :=
    { kernel := .text "kernel"
      id := .integer 0
      blockDim := ⟨32, 2⟩
      gridDim := ⟨4, 1⟩
      bindings := [(0, argument)]
      allocations := [] }
  emitter := .symbolic
  unknowns := []

def sampleExtent : Index → Int
  | .thread .x => 32
  | .thread .y => 2
  | .block .x => 4
  | .block .y => 1

theorem hasExtents_sample (argument : Binding) : (sample argument).HasExtents sampleExtent := by
  intro index
  cases index with
  | thread axis => cases axis <;> exact ⟨rfl, by decide⟩
  | block axis => cases axis <;> exact ⟨rfl, by decide⟩

variable {resolver : Resolver}

theorem resolve_of_unknown {text : Datum} {value : Value}
    (found : resolver.unknown? text = .ok (some value)) (symbol : Symbol) :
    resolver.resolve text symbol = .ok value := by
  rw [resolve, found]
  rfl

theorem resolve_congr {other : Resolver} {text : Datum}
    (unknowns : resolver.unknown? text = other.unknown? text)
    (invocations : resolver.invocation = other.invocation) (symbol : Symbol) :
    resolver.resolve text symbol = other.resolve text symbol := by
  have intrinsics : resolver.intrinsic text symbol = other.intrinsic text symbol := by
    unfold intrinsic resolveArgument noValue
    rw [invocations]
  rw [resolve, resolve, unknowns, intrinsics]

theorem token_beq (index : Index) (text : Datum) :
    (index.token == text) = true ↔ text = index.token := Datum.text_beq_iff

theorem unknown?_given_self (index : Index) (value : Value) :
    (resolver.given [(index.token, value)]).unknown? index.token = .ok (some value) := by
  change Except.ok (Register.find index.token ((index.token, value) :: resolver.unknowns)) = _
  rw [Register.find, if_pos ((token_beq index _).mpr rfl)]

theorem unknown?_given_of_ne {index : Index} {text : Datum} (different : text ≠ index.token)
    (value : Value) :
    (resolver.given [(index.token, value)]).unknown? text = resolver.unknown? text := by
  have other : ¬ (index.token == text) = true :=
    fun same => different ((token_beq index text).mp same)
  change (if text.isKey then
    Except.ok (Register.find text ((index.token, value) :: resolver.unknowns)) else _) = _
  rw [Register.find, if_neg other]
  rfl

theorem find_indexValues (assignment : Index → Int) (index : Index) :
    Register.find index.token (indexValues assignment) = some (.int (assignment index)) := by
  cases index with
  | thread axis => cases axis <;> rfl
  | block axis => cases axis <;> rfl

theorem find_indexValues_of_ne {text : Datum} (different : ∀ index : Index, text ≠ index.token)
    (assignment : Index → Int) : Register.find text (indexValues assignment) = none := by
  have other (index : Index) : ¬ (index.token == text) = true :=
    fun same => different index ((token_beq index text).mp same)
  simp [indexValues, Index.all, Register.find, other]

theorem unknown?_indexValues (assignment : Index → Int) (index : Index) :
    (resolver.given (indexValues assignment)).unknown? index.token =
      .ok (some (.int (assignment index))) := by
  change Except.ok (Register.find index.token (indexValues assignment ++ resolver.unknowns)) = _
  rw [Register.find_append, find_indexValues]
  rfl

theorem unknown?_indexValues_of_ne {text : Datum} (different : ∀ index : Index, text ≠ index.token)
    (assignment : Index → Int) :
    (resolver.given (indexValues assignment)).unknown? text = resolver.unknown? text := by
  change (if text.isKey then
    Except.ok (Register.find text (indexValues assignment ++ resolver.unknowns)) else _) = _
  rw [Register.find_append, find_indexValues_of_ne different]
  rfl

end Resolver

theorem Resolver.unknown?_of_free {resolver : Resolver} (free : resolver.unknowns = [])
    (text : Datum) :
    resolver.unknown? text = if text.isKey then .ok none else .error Misuse.wrongType := by
  rw [unknown?, free]
  rfl

/-- The extreme indices of a grid. -/
def Mode.indices (mode : Mode) (extent : Index → Int) (index : Index) : Int :=
  match mode with
  | .least => 0
  | .greatest => extent index - 1

/-- The integer that a terminal resolves to, zero if it resolves to none. -/
def Resolver.number (resolver : Resolver) (text : Datum) (node : Terminal) : Int :=
  match resolver.resolve text (.terminal node) with
  | .ok (.int value) => value
  | _ => 0

theorem Resolver.gridDimAtIterationZero_of_int {resolver : Resolver} {axis : Axis} {extent : Int}
    (known : resolver.dimension (.block axis) = .int extent) :
    resolver.gridDimAtIterationZero axis = .ok (.int extent) := by
  change resolver.atIterationZero (resolver.dimension (.block axis)) = _
  rw [known]
  rfl

/-- An index is worth zero or one less than its dimension. -/
theorem RangeContext.intrinsic_index {context : RangeContext} {index : Index} {text : Datum}
    (fixed : ∀ axis, context.resolver.gridDimAtIterationZero axis =
      .ok (context.resolver.dimension (.block axis))) :
    context.intrinsic text index.terminal =
      match context.mode with
      | .least => pure (.int 0)
      | .greatest => context.emitter.combine .sub (context.resolver.dimension index) (.int 1) := by
  cases index with
  | thread axis => rfl
  | block axis =>
      change context.lastIndex (fun _ => context.resolver.gridDimAtIterationZero axis) = _
      rw [fixed]
      rfl

/-- Where all dimensions are known an index is worth the extreme one. -/
theorem RangeContext.intrinsic_index_of_int {context : RangeContext} {extent : Index → Int}
    (known : ∀ index, context.resolver.dimension index = .int (extent index)) (text : Datum)
    (index : Index) :
    context.intrinsic text index.terminal =
      pure (.int (wrapWide (context.mode.indices extent index))) := by
  have fixed (axis : Axis) : context.resolver.gridDimAtIterationZero axis =
      .ok (context.resolver.dimension (.block axis)) := by
    rw [known]
    exact Resolver.gridDimAtIterationZero_of_int (known (.block axis))
  rw [RangeContext.intrinsic_index fixed, known]
  cases context.mode with
  | least => rfl
  | greatest => exact Emitter.combine_of_fold _ (WordOp.fold_sub (extent index) 1)

theorem RangeContext.terminal_of_given {context : RangeContext} {text : Datum} {value : Value}
    (given : context.resolver.unknown? text = .ok (some value)) (node : Terminal) :
    context.terminal text node = pure value := by
  rw [terminal, given]
  rfl

theorem RangeContext.terminal_of_not_given {context : RangeContext} {text : Datum}
    (given : context.resolver.unknown? text = .ok none) (node : Terminal) :
    context.terminal text node = context.intrinsic text node := by
  rw [terminal, given]
  rfl

theorem RangeContext.terminal_of_error {context : RangeContext} {text : Datum} {fault : Fault}
    (given : context.resolver.unknown? text = .error fault) (node : Terminal) :
    context.terminal text node = Analysis.fail fault := by
  rw [terminal, given]
  rfl

/-- Without values for tokens a terminal that resolves is worth what it resolves to. -/
theorem RangeContext.terminal_of_resolve {context : RangeContext}
    (free : context.resolver.unknowns = []) {text : Datum} {node : Terminal} {value : Value}
    (resolved : context.resolver.resolve text (.terminal node) = .ok value) :
    context.terminal text node = pure value := by
  have unknown := context.resolver.unknown?_of_free free text
  by_cases serves : text.isKey = true
  · rw [if_pos serves] at unknown
    rw [terminal_of_not_given unknown]
    cases node with
    | constant _ | argument _ | blockSize _ =>
        change Analysis.ofExcept (context.resolver.resolve text _) = _
        rw [resolved]
        rfl
    | phiTerm _ | thread _ | block _ | incomplete =>
        rw [Resolver.resolve, unknown] at resolved
        cases resolved
  · rw [if_neg serves] at unknown
    rw [Resolver.resolve, unknown] at resolved
    cases resolved

theorem RangeContext.terminal_of_not_isKey {context : RangeContext}
    (free : context.resolver.unknowns = []) {text : Datum} (unserved : ¬ text.isKey = true)
    (node : Terminal) : context.terminal text node = Analysis.fail Misuse.wrongType := by
  refine terminal_of_error ?_ node
  rw [context.resolver.unknown?_of_free free, if_neg unserved]

theorem RangeContext.terminal_of_free {context : RangeContext}
    (free : context.resolver.unknowns = []) {text : Datum} (serves : text.isKey = true)
    (node : Terminal) : context.terminal text node = context.intrinsic text node := by
  refine terminal_of_not_given ?_ node
  rw [context.resolver.unknown?_of_free free, if_pos serves]

end KernelFootprint
