import KernelFootprint.Proofs.PostfixLanguage
import KernelFootprint.Proofs.RootedTrees

/-!
# What nodes keep of their tokens

Every node of a tree that is built from a stream has the kind, the value and the number
of what its token is read as, where a phi may have become a term. Steps and openings keep
this for all trees that are finished so far. The one exception is that a merge in a binary
tree has no number. A search for nodes by kind and number therefore finds the nodes whose
tokens have this number, but no merge of a binary tree.
-/

namespace KernelFootprint

/-- Whether nodes of a kind keep the number of their token. -/
def TreeForm.keeps (form : TreeForm) (kind : Kind) : Bool :=
  !(form == .binary && kind == .operation .phi)

/-- Whether a node is what its token is read as, where a phi may have become a term. -/
structure NodeRow.IsReadAs (form : TreeForm) (symbol : Symbol) (row : NodeRow) : Prop where
  kind : row.kind = symbol.kind ∨ symbol.kind = .operation .phi ∧ row.kind = .phiTerm
  value : row.value = symbol.value?.map .int
  arg : row.arg = if form.keeps row.kind then symbol.arg else .null

/-- Only phis have a number among operations. -/
theorem arg?_of_classify {settings : Settings} {text : String} {operation : Operation}
    {id : Option Nat} (found : classify settings text = .ok (.operation operation id))
    (isOther : operation ≠ .phi) : id = none := by
  rcases classify_cases found with same | word | ⟨value, same⟩ | ⟨formal, same⟩ | ⟨number, same⟩
  · cases same
  · have words : ∀ entry ∈ operatorWords, entry.2.arg? = none := by decide
    exact words _ word
  · cases same
  · cases same
  · cases same
    exact absurd rfl isOther

theorem exists_text_of_classifyElement {settings : Settings} {token : Datum}
    {operation : Operation} {id : Option Nat}
    (found : classifyElement settings token = .ok (.operation operation id)) :
    ∃ text, token = .text text := by
  cases token with
  | text text => exact ⟨text, rfl⟩
  | _ =>
      simp only [classifyElement] at found
      split at found
      · cases found
      · cases found

namespace BinaryTree

/-- Whether every node of a binary tree is labelled by a token that is read as the node. -/
inductive IsLabelled (settings : Settings) : BinaryTree → Prop
  | leaf {text : Datum} {symbol : Leaf}
      (read : classifyElement settings text = .ok symbol.symbol) :
      IsLabelled settings (.leaf text symbol)
  | term {text : Datum} {id : Option Nat}
      (read : classifyElement settings text = .ok (.operation .phi id)) :
      IsLabelled settings (.leaf text (.terminal (.phiTerm id)))
  | branch {text : String} {operation : Operation} {id : Option Nat} {left right : BinaryTree}
      (read : classify settings text = .ok (.operation operation id))
      (onLeft : IsLabelled settings left) (onRight : IsLabelled settings right) :
      IsLabelled settings (.branch text operation left right)

variable {settings : Settings} {tree : BinaryTree}

theorem isReadAs_operation {text : String} {operation : Operation} {id : Option Nat}
    (read : classify settings text = .ok (.operation operation id)) (index : Int)
    (children : List Int) (parent : Option Int) :
    NodeRow.IsReadAs .binary (.operation operation id)
      { index := index, kind := .operation operation, text := .text text
        children := children, parent := parent } where
  kind := .inl rfl
  value := rfl
  arg := by
    by_cases isMerge : operation = .phi
    · subst isMerge
      rfl
    · rw [arg?_of_classify read isMerge]
      change Datum.null = if TreeForm.keeps .binary (.operation operation) then Datum.null else _
      rw [ite_self]

theorem IsLabelled.isReadAs (labelled : tree.IsLabelled settings) (first : Nat)
    (parent : Option Int) :
    ∀ row ∈ tree.rowsFrom first parent, ∃ symbol,
      classifyElement settings row.text = .ok symbol ∧ row.IsReadAs .binary symbol := by
  induction labelled generalizing first parent with
  | @leaf text symbol read =>
      refine List.forall_mem_singleton.mpr ⟨symbol.symbol, read, .inl rfl, rfl, ?_⟩
      have keeps : TreeForm.keeps .binary symbol.symbol.kind = true := by
        cases symbol with
        | terminal node => cases node <;> rfl
        | structural node => rfl
      rw [keeps]
      rfl
  | term read =>
      exact List.forall_mem_singleton.mpr ⟨_, read, .inr ⟨rfl, rfl⟩, rfl, rfl⟩
  | branch read onLeft onRight leftIH rightIH =>
      intro row member
      rw [rowsFrom, List.mem_append, List.mem_append] at member
      rcases member with (inLeft | inRight) | atRoot
      · exact leftIH first _ row inLeft
      · exact rightIH _ _ row inRight
      · cases List.mem_singleton.mp atRoot
        exact ⟨_, read, isReadAs_operation read _ _ _⟩

end BinaryTree

namespace Postfix

/-- Whether the finished trees are labelled, and hold the tokens read so far in their order. -/
structure State.Labels (settings : Settings) (consumed : List Datum) (state : State) : Prop where
  labelled : ∀ tree ∈ state.stack, tree.IsLabelled settings
  texts : state.stack.reverse.flatMap (fun tree => tree.listing.map Item.text) = consumed

variable {settings : Settings} {consumed : List Datum} {state next : State}

theorem State.Labels.push (labels : state.Labels settings consumed) {tree : BinaryTree}
    (labelled : tree.IsLabelled settings) {token : Datum}
    (listed : tree.listing.map Item.text = [token]) :
    (state.push tree).Labels settings (consumed ++ [token]) where
  labelled := List.forall_mem_cons.mpr ⟨labelled, labels.labelled⟩
  texts := by simp [State.push, labels.texts, listed]

theorem labels_reduce {tokens : List Datum} {text : String} {operation : Operation}
    {id : Option Nat} (labels : state.Labels settings consumed)
    (read : classify settings text = .ok (.operation operation id))
    (reduced : reduce tokens text operation state = .ok next) :
    next.Labels settings (consumed ++ [.text text]) := by
  rcases state with ⟨_ | ⟨right, _ | ⟨left, rest⟩⟩, awaitsTerm⟩
  · cases reduced
  · cases reduced
  · cases reduced
    obtain ⟨onRight, others⟩ := List.forall_mem_cons.mp labels.labelled
    obtain ⟨onLeft, below⟩ := List.forall_mem_cons.mp others
    refine ⟨List.forall_mem_cons.mpr ⟨.branch read onLeft onRight, below⟩, ?_⟩
    have texts := labels.texts
    simp only [List.reverse_cons, List.flatMap_append, List.flatMap_singleton,
      List.append_assoc] at texts ⊢
    rw [← texts]
    simp [BinaryTree.listing, Item.text]

theorem labels_step {tokens : List Datum} {token : Datum} {symbol : Symbol}
    (labels : state.Labels settings consumed)
    (read : classifyElement settings token = .ok symbol)
    (stepped : step tokens token state symbol = .ok next) :
    next.Labels settings (consumed ++ [token]) := by
  cases symbol with
  | terminal node =>
      cases stepped
      exact labels.push (.leaf read) rfl
  | structural node =>
      cases stepped
      exact labels.push (.leaf read) rfl
  | operation operation id =>
      obtain ⟨text, rfl⟩ := exists_text_of_classifyElement read
      cases operation with
      | phi =>
          by_cases awaits : state.awaitsTerm = true
          · rw [step, if_pos awaits] at stepped
            cases stepped
            have pushed := labels.push (.term read) rfl
            exact ⟨pushed.labelled, pushed.texts⟩
          · rw [step, if_neg awaits] at stepped
            have awaiting : State.Labels settings consumed { state with awaitsTerm := true } :=
              ⟨labels.labelled, labels.texts⟩
            exact labels_reduce awaiting read stepped
      | _ => exact labels_reduce labels read stepped

/-- A tree that is built is labelled by the tokens of its stream, unless it is a sentinel. -/
theorem isLabelled_of_build {tokens : List Datum} {tree : BinaryTree}
    (built : build settings tokens = .ok (some tree))
    (proper : tree.table.isSentinel = false) :
    tree.IsLabelled settings ∧ tree.table.rows.map NodeRow.text = tokens := by
  rcases build_cases built with rfl | rfl | ⟨last, ran, single⟩
  · cases proper
  · cases proper
  · have labels : last.Labels settings tokens :=
      @holds_of_run settings (State.Labels settings) tokens [] tokens {} last labels_step
        ⟨nofun, rfl⟩ ran
    refine ⟨labels.labelled tree (single ▸ List.mem_singleton_self tree), ?_⟩
    have texts := labels.texts
    rw [single, List.reverse_singleton, List.flatMap_singleton] at texts
    rw [BinaryTree.table, BinaryTree.map_text_rowsFrom, texts]

end Postfix

namespace Bracketed

open NaryTree

/-- Whether every node of a tree is labelled by a token that is read as the node. -/
inductive IsLabelled (settings : Settings) : NaryTree → Prop
  | node {text : Datum} {symbol : Symbol} {children : List NaryTree}
      (read : classifyElement settings text = .ok symbol)
      (below : ∀ child ∈ children, IsLabelled settings child) :
      IsLabelled settings (.node text (closedSymbol symbol children) children)

theorem value?_closedSymbol (symbol : Symbol) (children : List NaryTree) :
    (closedSymbol symbol children).value? = symbol.value? := by
  cases symbol with
  | operation operation id => cases operation <;> cases children <;> rfl
  | _ => rfl

theorem arg_closedSymbol (symbol : Symbol) (children : List NaryTree) :
    (closedSymbol symbol children).arg = symbol.arg := by
  cases symbol with
  | operation operation id => cases operation <;> cases children <;> rfl
  | _ => rfl

variable {settings : Settings} {tree : NaryTree}

theorem isReadAs_of_isLabelled (labelled : IsLabelled settings tree) (first : Nat)
    (parent : Option Int) :
    ∀ row ∈ tree.rowsFrom first parent, ∃ symbol,
      classifyElement settings row.text = .ok symbol ∧ row.IsReadAs .nary symbol := by
  induction labelled generalizing first parent with
  | @node text symbol children read below ih =>
      rw [rowsFrom]
      refine List.forall_mem_cons.mpr ⟨⟨symbol, read, ?_, ?_, ?_⟩, forall_rowsOfAll ih _ _⟩
      · rw [kind_closedSymbol]
        split
        · next closed => exact .inr ⟨closed.1, rfl⟩
        · exact .inl rfl
      · rw [value?_closedSymbol]
      · exact arg_closedSymbol symbol children

structure State.IsLabelled (settings : Settings) (state : State) : Prop where
  root : ∀ tree ∈ state.root, Bracketed.IsLabelled settings tree
  heads : ∀ node ∈ state.spine, classifyElement settings node.text = .ok node.symbol
  operands : ∀ node ∈ state.spine, ∀ operand ∈ node.operands,
    Bracketed.IsLabelled settings operand

theorem isLabelled_close {node : OpenNode}
    (read : classifyElement settings node.text = .ok node.symbol)
    (operands : ∀ operand ∈ node.operands, IsLabelled settings operand) :
    IsLabelled settings node.close := by
  have closed : closedSymbol node.symbol node.operands =
      closedSymbol node.symbol node.operands.reverse := by
    cases empty : node.operands with
    | nil => rfl
    | cons first rest =>
        obtain ⟨last, others, same⟩ :=
          List.exists_cons_of_ne_nil (List.reverse_ne_nil_iff.mpr (List.cons_ne_nil first rest))
        rw [same]
        cases node.symbol with
        | operation operation id => cases operation <;> rfl
        | _ => rfl
  rw [OpenNode.close, closed]
  exact .node read (fun child member => operands child (List.mem_reverse.mp member))

theorem State.IsLabelled.close {state next : State} (labelled : state.IsLabelled settings)
    (closed : state.close = some next) : next.IsLabelled settings := by
  obtain ⟨opened, spine, root⟩ := state
  cases spine with
  | nil => cases closed
  | cons innermost outer =>
      obtain ⟨head, heads⟩ := List.forall_mem_cons.mp labelled.heads
      obtain ⟨inside, operands⟩ := List.forall_mem_cons.mp labelled.operands
      have below := isLabelled_close head inside
      cases outer with
      | nil =>
          cases closed
          exact ⟨fun tree member => by cases member; exact below, nofun, nofun⟩
      | cons enclosing outer =>
          cases closed
          obtain ⟨taking, remaining⟩ := List.forall_mem_cons.mp operands
          exact ⟨labelled.root, List.forall_mem_cons.mpr (List.forall_mem_cons.mp heads),
            List.forall_mem_cons.mpr ⟨List.forall_mem_cons.mpr ⟨below, taking⟩, remaining⟩⟩

/-- A tree that is built is labelled by tokens, unless it is a sentinel. -/
theorem isLabelled_of_build {tokens : List Datum}
    (built : build settings tokens = .ok (some tree))
    (proper : tree.table.isSentinel = false) : IsLabelled settings tree := by
  rcases build_cases built with rfl | ran
  · cases proper
  · have opens {state : State} {head : Datum} {symbol : Symbol}
        (labelled : state.IsLabelled settings)
        (read : classifyElement settings head = .ok symbol) :
        State.IsLabelled settings
          { state with
            opened := state.opened + 1
            spine := { text := head, symbol := symbol } :: state.spine } :=
      ⟨labelled.root, List.forall_mem_cons.mpr ⟨read, labelled.heads⟩,
        List.forall_mem_cons.mpr ⟨List.forall_mem_nil _, labelled.operands⟩⟩
    have start : State.IsLabelled settings {} := ⟨nofun, nofun, nofun⟩
    rcases exists_final_of_run opens State.IsLabelled.close start ran with
      rfl | ⟨last, labelled, isRoot⟩
    · cases proper
    · exact labelled.root tree isRoot

end Bracketed

/-- A filter whose tests succeed. -/
theorem filterAuxM_eq_ok {Fault Element : Type} {test : Element → Except Fault Bool}
    {passes : Element → Bool} {elements : List Element}
    (each : ∀ element ∈ elements, test element = .ok (passes element)) (before : List Element) :
    elements.filterAuxM test before = .ok ((elements.filter passes).reverse ++ before) := by
  induction elements generalizing before with
  | nil => rfl
  | cons first rest ih =>
      obtain ⟨onFirst, others⟩ := List.forall_mem_cons.mp each
      change (test first >>= fun passed => rest.filterAuxM test (cond passed (first :: before)
        before)) = _
      rw [onFirst]
      change rest.filterAuxM test (cond (passes first) (first :: before) before) = _
      rw [ih others]
      cases passed : passes first with
      | true => simp [passed]
      | false => simp [passed]

namespace NodeTable

variable {table : NodeTable}

/-- Whether the node with a number is one of those that are searched for. -/
def isSought (table : NodeTable) (kind : Kind) (arg : Datum) (number : Int) : Bool :=
  match table.row? number with
  | .ok row => isFound kind arg row
  | .error _ => false

theorem IsLinked.isSought_index (linked : table.IsLinked) {row : NodeRow}
    (inside : row ∈ table.rows) (kind : Kind) (arg : Datum) :
    table.isSought kind arg row.index = isFound kind arg row := by
  rw [isSought, linked.row?_index inside]

/-- A search that reaches all nodes of a linked table finds those that it looks for. -/
theorem IsLinked.findAll (linked : table.IsLinked) {start : Int} {order : List Int}
    (listed : table.preorder start = .ok order)
    (all : order.Perm (table.rows.map NodeRow.index)) (kind : Kind) (arg : Datum) :
    ∃ found, table.findAll kind arg start = .ok found ∧ found.Nodup ∧
      ∀ number, number ∈ found ↔
        ∃ row ∈ table.rows, row.index = number ∧ isFound kind arg row = true := by
  have member {number : Int} :
      number ∈ order ↔ ∃ row ∈ table.rows, row.index = number := by
    rw [all.mem_iff, List.mem_map]
  have tested : ∀ number ∈ order,
      (table.row? number >>= fun row => pure (isFound kind arg row)) =
        .ok (table.isSought kind arg number) := by
    intro number among
    obtain ⟨row, inside, rfl⟩ := member.mp among
    rw [linked.isSought_index inside, linked.row?_index inside]
    rfl
  refine ⟨order.filter (table.isSought kind arg), ?_, ?_, ?_⟩
  · rw [NodeTable.findAll, listed]
    change (order.filterAuxM (fun number => table.row? number >>= fun row =>
      pure (isFound kind arg row)) [] >>= fun found => pure found.reverse) = _
    rw [filterAuxM_eq_ok tested, List.append_nil]
    change Except.ok (order.filter (table.isSought kind arg)).reverse.reverse = _
    rw [List.reverse_reverse]
  · exact (all.nodup_iff.mpr linked.numbered.distinct).filter _
  · intro number
    rw [List.mem_filter, member]
    constructor
    · rintro ⟨⟨row, inside, rfl⟩, sought⟩
      exact ⟨row, inside, rfl, (linked.isSought_index inside kind arg).symm.trans sought⟩
    · rintro ⟨row, inside, rfl, found⟩
      exact ⟨⟨row, inside, rfl⟩, (linked.isSought_index inside kind arg).trans found⟩

end NodeTable

namespace AddressTree

variable {settings : Settings} {form : TreeForm} {tokens : List Datum} {tree : AddressTree}

theorem exists_preorder (tree : AddressTree) :
    ∃ order, tree.table.preorder tree.table.root = .ok order ∧
      order.Perm (tree.table.rows.map NodeRow.index) := by
  cases tree with
  | binary tree =>
      refine ⟨_, tree.preorder_table, ?_⟩
      change (tree.preorderFrom 0).Perm ((tree.rowsFrom 0 none).map NodeRow.index)
      rw [tree.map_index_rowsFrom]
      exact tree.preorderFrom_perm 0
  | nary tree =>
      refine ⟨_, tree.preorder_table, ?_⟩
      change (numbersFrom 0 tree.size).Perm ((tree.rowsFrom 0 none).map NodeRow.index)
      rw [tree.map_index_rowsFrom]

theorem isReadAs_of_build (built : AddressTree.build settings form tokens = .ok (some tree))
    (proper : tree.table.isSentinel = false) :
    ∀ row ∈ tree.table.rows, ∃ symbol,
      classifyElement settings row.text = .ok symbol ∧ row.IsReadAs form symbol := by
  cases form with
  | binary =>
      rw [AddressTree.build] at built
      rcases found : Postfix.build settings tokens with fault | _ | binary
      · rw [found] at built
        cases built
      · rw [found] at built
        cases built
      · rw [found] at built
        cases built
        exact (Postfix.isLabelled_of_build found proper).1.isReadAs 0 none
  | nary =>
      rw [AddressTree.build] at built
      rcases found : Bracketed.build settings tokens with fault | _ | nary
      · rw [found] at built
        cases built
      · rw [found] at built
        cases built
      · rw [found] at built
        cases built
        exact Bracketed.isReadAs_of_isLabelled (Bracketed.isLabelled_of_build found proper) 0 none

end AddressTree

theorem Datum.null_beq_eq_false {arg : Datum} (given : (arg == .null) = false) :
    (Datum.null == arg) = false := by
  cases arg with
  | null => cases given
  | _ => rfl

/-- What is found of a kind, by what the tokens are read as. -/
theorem NodeRow.IsReadAs.isFound_iff {form : TreeForm} {symbol : Symbol} {row : NodeRow}
    (isReadAs : row.IsReadAs form symbol) (kind : Kind) (arg : Datum) :
    NodeTable.isFound kind arg row = true ↔ row.kind = kind ∧
      ((arg == .null) = true ∨ form.keeps kind = true ∧ (symbol.arg == arg) = true) := by
  rw [NodeTable.isFound, Bool.and_eq_true, beq_iff_eq, Bool.or_eq_true, isReadAs.arg]
  refine and_congr_right (fun same => ?_)
  subst same
  cases form.keeps row.kind with
  | true => simp
  | false =>
      cases given : arg == .null with
      | true => simp
      | false => simp [Datum.null_beq_eq_false given]

/-- Nodes keep what their tokens are read as, of either form of trees: the kind, the literal
of a constant, and the number of an argument or of a phi. Merges of binary trees are the
exception, and have no number. A search for a number finds every node of the kind whose
token has it, and no merge of a binary tree. -/
theorem keepsTokens_of_build {settings : Settings} {form : TreeForm} {tokens : List Datum}
    {tree : AddressTree} (built : AddressTree.build settings form tokens = .ok (some tree))
    (proper : tree.table.isSentinel = false) :
    (∀ row ∈ tree.table.rows, ∃ symbol,
      classifyElement settings row.text = .ok symbol ∧ row.IsReadAs form symbol) ∧
    ∀ (kind : Kind) (arg : Datum), ∃ found,
      tree.table.findAll kind arg tree.table.root = .ok found ∧ found.Nodup ∧
        ∀ number, number ∈ found ↔ ∃ row ∈ tree.table.rows,
          row.index = number ∧ row.kind = kind ∧
            ((arg == .null) = true ∨ form.keeps kind = true ∧ ∃ symbol,
              classifyElement settings row.text = .ok symbol ∧ (symbol.arg == arg) = true) := by
  have read := AddressTree.isReadAs_of_build built proper
  refine ⟨read, fun kind arg => ?_⟩
  obtain ⟨order, listed, all⟩ := tree.exists_preorder
  obtain ⟨found, searched, distinct, member⟩ := tree.isLinked_table.findAll listed all kind arg
  refine ⟨found, searched, distinct, fun number => ?_⟩
  rw [member]
  refine exists_congr (fun row => and_congr_right (fun inside => and_congr_right (fun _ => ?_)))
  obtain ⟨symbol, classified, isReadAs⟩ := read row inside
  rw [isReadAs.isFound_iff kind arg, classified]
  simp

/-- A recurrence from zero in steps of four. -/
def recurrenceTokens : List Datum :=
  [.text "0", .text "PHI1", .text "4", .text "ADD", .text "PHI1"]

def recurrenceTree : AddressTree :=
  .binary (.branch "PHI1" .phi (.leaf (.text "0") (.terminal (.constant 0)))
    (.branch "ADD" .add (.leaf (.text "PHI1") (.terminal (.phiTerm (some 1))))
      (.leaf (.text "4") (.terminal (.constant 4)))))

/-- The carried value of a recurrence is found by the number of its phi. -/
theorem keepsTokens_recurrence :
    AddressTree.build {} .binary recurrenceTokens = .ok (some recurrenceTree) ∧
      recurrenceTree.table.isSentinel = false ∧
      ∃ found, recurrenceTree.table.findAll .phiTerm (.integer 1) recurrenceTree.table.root =
        .ok found ∧ (1 : Int) ∈ found := by
  have built : AddressTree.build {} .binary recurrenceTokens = .ok (some recurrenceTree) := rfl
  have proper : recurrenceTree.table.isSentinel = false := rfl
  obtain ⟨found, searched, _, member⟩ :=
    (keepsTokens_of_build built proper).2 .phiTerm (.integer 1)
  refine ⟨built, proper, found, searched, (member 1).mpr ?_⟩
  refine ⟨⟨1, .phiTerm, .text "PHI1", none, .integer 1, [], some 3⟩, ?_, rfl, rfl, .inr ?_⟩
  · exact .tail _ (.head _)
  · exact ⟨rfl, .operation .phi (some 1), rfl, rfl⟩

/-- The merge of the recurrence has no number, though its token is read with one, and is not
found by it. -/
theorem merge_number_lost :
    AddressTree.build {} .binary recurrenceTokens = .ok (some recurrenceTree) ∧
      recurrenceTree.table.isSentinel = false ∧
      (∃ row ∈ recurrenceTree.table.rows, row.kind = .operation .phi ∧
        classifyElement {} row.text = .ok (.operation .phi (some 1)) ∧ row.arg = .null) ∧
      recurrenceTree.table.findAll (.operation .phi) (.integer 1) recurrenceTree.table.root =
        .ok [] :=
  ⟨rfl, rfl, ⟨⟨4, .operation .phi, .text "PHI1", none, .null, [0, 3], none⟩,
    .tail _ (.tail _ (.tail _ (.tail _ (.head _)))), rfl, rfl, rfl⟩, rfl⟩

end KernelFootprint
