import KernelFootprint.Proofs.Traversal
import KernelFootprint.Tree.Postfix

/-!
# The language of postfix streams

The items of a tree in postorder are its listing. A stream of tokens is read as a
list of items first, where phi tokens are terms and merges by turns, and the
builder returns a tree exactly if its listing is this list. Whether there is such a
tree can be told by counting: every operation must find two values before it, and
one value must remain in the end. What the builder returns keeps all tokens: the
table of the tree has one row for each token, in the order of the stream.
-/

namespace KernelFootprint

namespace Postfix

/-- A node of a binary tree without its operands. -/
inductive Item
  | leaf (text : Datum) (symbol : Leaf)
  | operation (text : String) (operation : Operation)

def isPhi : Symbol → Bool
  | .operation .phi _ => true
  | _ => false

/-- What a token stands for in a stream, where a phi may have the turn of a term. -/
def Item.ofSymbol (token : String) (isTerm : Bool) : Symbol → Item
  | .terminal node => .leaf (.text token) (.terminal node)
  | .structural node => .leaf (.text token) (.structural node)
  | .operation .phi id =>
      if isTerm then .leaf (.text token) (.terminal (.phiTerm id)) else .operation token .phi
  | .operation op _ => .operation token op

/-- The items of tokens that come after a number of phi tokens. Of all phi tokens the first
is a term, the second a merge, the third a term, and so on. -/
def itemsAfter (settings : Settings) (phis : Nat) : List String → Except Fault (List Item)
  | [] => .ok []
  | token :: rest => do
      let symbol ← classify settings token
      let others ← itemsAfter settings (if isPhi symbol then phis + 1 else phis) rest
      return Item.ofSymbol token (phis % 2 == 0) symbol :: others

def itemsOf (settings : Settings) (tokens : List String) : Except Fault (List Item) :=
  itemsAfter settings 0 tokens

/-- The number of values after some items, given the number of values before them. An
operation that finds fewer than two values leaves none. -/
def valuesAfter : Nat → List Item → Option Nat
  | values, [] => some values
  | values, .leaf _ _ :: rest => valuesAfter (values + 1) rest
  | values + 2, .operation _ _ :: rest => valuesAfter (values + 1) rest
  | _, .operation _ _ :: _ => none

/-- The stack of finished trees after some items. -/
def assemble : List Item → List BinaryTree → Option (List BinaryTree)
  | [], stack => some stack
  | .leaf text symbol :: rest, stack => assemble rest (.leaf text symbol :: stack)
  | .operation text operation :: rest, right :: left :: stack =>
      assemble rest (.branch text operation left right :: stack)
  | .operation _ _ :: _, _ => none

end Postfix

namespace BinaryTree

open Postfix

/-- The nodes of a tree in postorder. -/
def listing : BinaryTree → List Item
  | .leaf text symbol => [.leaf text symbol]
  | .branch text operation left right =>
      left.listing ++ right.listing ++ [.operation text operation]

end BinaryTree

namespace Postfix

open KernelFootprint.BinaryTree

theorem assemble_listing (tree : BinaryTree) (rest : List Item) (stack : List BinaryTree) :
    assemble (tree.listing ++ rest) stack = assemble rest (tree :: stack) := by
  induction tree generalizing rest stack with
  | leaf text symbol => rfl
  | branch text operation left right leftIH rightIH =>
      rw [listing, List.append_assoc, List.append_assoc, leftIH, rightIH]
      rfl

/-- Nothing is lost: the listings of the finished trees are the items read so far. -/
theorem listing_of_assemble {items : List Item} {stack final : List BinaryTree}
    (assembled : assemble items stack = some final) :
    final.reverse.flatMap listing = stack.reverse.flatMap listing ++ items := by
  fun_induction assemble items stack with
  | case1 stack =>
      cases assembled
      rw [List.append_nil]
  | case2 text symbol rest stack ih => simpa [listing] using ih assembled
  | case3 text operation rest right left stack ih => simpa [listing] using ih assembled
  | case4 text operation rest stack few => cases assembled

theorem length_assemble (items : List Item) (stack : List BinaryTree) :
    (assemble items stack).map List.length = valuesAfter stack.length items := by
  fun_induction assemble items stack with
  | case1 stack => rfl
  | case2 text symbol rest stack ih => exact ih
  | case3 text operation rest right left stack ih => exact ih
  | case4 text operation rest stack few =>
      rcases stack with _ | ⟨first, _ | ⟨second, stack⟩⟩
      · rfl
      · rfl
      · exact absurd rfl (few first second stack)

/-- Items are assembled to a single tree exactly if they are its listing. -/
theorem assemble_eq_singleton {items : List Item} {tree : BinaryTree} :
    assemble items [] = some [tree] ↔ tree.listing = items := by
  constructor
  · intro assembled
    simpa using listing_of_assemble assembled
  · intro listed
    rw [← listed, ← List.append_nil tree.listing, assemble_listing]
    rfl

/-- Counting values tells whether items are the listing of a tree. -/
theorem exists_listing_iff (items : List Item) :
    (∃ tree : BinaryTree, tree.listing = items) ↔ valuesAfter 0 items = some 1 := by
  have counted := length_assemble items []
  constructor
  · rintro ⟨tree, listed⟩
    rw [assemble_eq_singleton.mpr listed] at counted
    exact counted.symm
  · intro single
    rw [List.length_nil, single] at counted
    obtain ⟨stack, assembled, length⟩ := Option.map_eq_some_iff.mp counted
    obtain ⟨tree, rfl⟩ := List.length_eq_one_iff.mp length
    exact ⟨tree, assemble_eq_singleton.mp assembled⟩

theorem shown_text (text : String) : (Datum.text text).shown = text := rfl

/-- A step does with the stack what its item says, and keeps count of the turns of phis. -/
theorem step_eq (tokens : List Datum) (token : String) (state : State) (symbol : Symbol) :
    step tokens (.text token) state symbol =
      match assemble [Item.ofSymbol token state.awaitsTerm symbol] state.stack with
      | some stack => .ok { stack, awaitsTerm := state.awaitsTerm ^^ isPhi symbol }
      | none => .error (inStream tokens (.missingOperands token state.stack.length)) := by
  obtain ⟨stack, awaitsTerm⟩ := state
  have reduced (operation : Operation) (turn : Bool) :
      reduce tokens token operation ⟨stack, turn⟩ =
        match assemble [.operation token operation] stack with
        | some stack => .ok ⟨stack, turn⟩
        | none => .error (inStream tokens (.missingOperands token stack.length)) := by
    rcases stack with _ | ⟨right, _ | ⟨left, rest⟩⟩ <;> rfl
  cases symbol with
  | terminal node => simp [step, State.push, Item.ofSymbol, assemble, isPhi]
  | structural node => simp [step, State.push, Item.ofSymbol, assemble, isPhi]
  | operation operation id =>
      cases operation with
      | phi =>
          cases awaitsTerm with
          | true => rfl
          | false => exact reduced .phi true
      | _ =>
          simpa [step, Item.ofSymbol, isPhi, shown_text] using reduced _ awaitsTerm

theorem assemble_cons (item : Item) (rest : List Item) (stack : List BinaryTree) :
    assemble (item :: rest) stack = (assemble [item] stack).bind (assemble rest) := by
  cases item with
  | leaf text symbol => rfl
  | operation text operation =>
      rcases stack with _ | ⟨right, _ | ⟨left, stack⟩⟩ <;> rfl

theorem turn_after (phis : Nat) (symbol : Symbol) :
    ((phis % 2 == 0) ^^ isPhi symbol) =
      ((if isPhi symbol then phis + 1 else phis) % 2 == 0) := by
  cases isPhi symbol with
  | false => simp
  | true =>
      have alternating : (phis + 1) % 2 = 1 - phis % 2 := by omega
      rcases Nat.mod_two_eq_zero_or_one phis with even | odd
      · simp [alternating, even]
      · simp [alternating, odd]

/-- Of a sequence that succeeds both parts do. -/
theorem bind_eq_ok {Error First Second : Type} {first : Except Error First}
    {next : First → Except Error Second} {result : Second} :
    first >>= next = .ok result ↔ ∃ value, first = .ok value ∧ next value = .ok result := by
  cases first with
  | error fault => simp [bind, Except.bind]
  | ok value => simp [bind, Except.bind]

theorem itemsAfter_cons_eq_ok {settings : Settings} {phis : Nat} {token : String}
    {rest : List String} {items : List Item} :
    itemsAfter settings phis (token :: rest) = .ok items ↔
      ∃ symbol others, classify settings token = .ok symbol ∧
        itemsAfter settings (if isPhi symbol then phis + 1 else phis) rest = .ok others ∧
          items = Item.ofSymbol token (phis % 2 == 0) symbol :: others := by
  rw [itemsAfter, bind_eq_ok]
  constructor
  · rintro ⟨symbol, classified, read⟩
    obtain ⟨others, further, same⟩ := bind_eq_ok.mp read
    cases same
    exact ⟨symbol, others, classified, further, rfl⟩
  · rintro ⟨symbol, others, classified, further, rfl⟩
    exact ⟨symbol, classified, bind_eq_ok.mpr ⟨others, further, rfl⟩⟩

/-- Running through tokens does with the stack what their items say. -/
theorem run_eq {settings : Settings} (tokens : List Datum) {rest : List String} {phis : Nat}
    {items : List Item} (read : itemsAfter settings phis rest = .ok items)
    (stack : List BinaryTree) :
    (∃ final turn, assemble items stack = some final ∧
        run settings tokens (rest.map .text) ⟨stack, phis % 2 == 0⟩ = .ok ⟨final, turn⟩) ∨
      (∃ token available, assemble items stack = none ∧
        run settings tokens (rest.map .text) ⟨stack, phis % 2 == 0⟩ =
          .error (inStream tokens (.missingOperands token available))) := by
  induction rest generalizing phis items stack with
  | nil =>
      cases read
      exact .inl ⟨stack, _, rfl, rfl⟩
  | cons token rest ih =>
      obtain ⟨symbol, others, classified, further, rfl⟩ := itemsAfter_cons_eq_ok.mp read
      have ran : run settings tokens ((token :: rest).map .text) ⟨stack, phis % 2 == 0⟩ =
          step tokens (.text token) ⟨stack, phis % 2 == 0⟩ symbol >>=
            run settings tokens (rest.map .text) := by
        rw [List.map_cons, run, classifyElement_text, classified]
        rfl
      rw [ran, step_eq, assemble_cons]
      cases assemble [Item.ofSymbol token (phis % 2 == 0) symbol] stack with
      | none => exact .inr ⟨token, stack.length, rfl, rfl⟩
      | some middle =>
          have after := ih further middle
          rw [← turn_after] at after
          exact after

theorem exists_items {settings : Settings} {tokens : List String}
    (classified : ∀ token ∈ tokens, ∃ symbol, classify settings token = .ok symbol) (phis : Nat) :
    ∃ items, itemsAfter settings phis tokens = .ok items := by
  induction tokens generalizing phis with
  | nil => exact ⟨[], rfl⟩
  | cons token rest ih =>
      obtain ⟨symbol, found⟩ := classified token (List.mem_cons_self ..)
      obtain ⟨others, further⟩ :=
        ih (fun other member => classified other (List.mem_cons_of_mem _ member))
          (if isPhi symbol then phis + 1 else phis)
      exact ⟨_, itemsAfter_cons_eq_ok.mpr ⟨symbol, others, found, further, rfl⟩⟩

def Item.text : Item → Datum
  | .leaf text _ => text
  | .operation text _ => .text text

theorem text_ofSymbol (token : String) (isTerm : Bool) (symbol : Symbol) :
    (Item.ofSymbol token isTerm symbol).text = .text token := by
  cases symbol with
  | operation operation id => cases operation <;> cases isTerm <;> rfl
  | _ => rfl

theorem map_text_of_itemsAfter {settings : Settings} {tokens : List String} {phis : Nat}
    {items : List Item} (read : itemsAfter settings phis tokens = .ok items) :
    items.map Item.text = tokens.map .text := by
  induction tokens generalizing phis items with
  | nil =>
      cases read
      rfl
  | cons token rest ih =>
      obtain ⟨symbol, others, _, further, rfl⟩ := itemsAfter_cons_eq_ok.mp read
      rw [List.map_cons, List.map_cons, text_ofSymbol, ih further]

end Postfix

/-- Whether a row of a binary tree has the operands it needs: an operation has two, both
built before it and the first one before the second, and any other node has none. -/
def NodeRow.HasOperands (index : Nat) (row : NodeRow) : Prop :=
  if row.kind.isOperation then
    ∃ earlier later : Nat, row.children = [(earlier : Int), (later : Int)] ∧
      earlier < later ∧ later < index
  else row.children = []

theorem Leaf.isOperation_kind (symbol : Leaf) : symbol.symbol.kind.isOperation = false := by
  cases symbol with
  | terminal node => cases node <;> rfl
  | structural node => rfl

namespace BinaryTree

open Postfix

theorem map_text_rowsFrom (tree : BinaryTree) (first : Nat) (parent : Option Int) :
    (tree.rowsFrom first parent).map NodeRow.text = tree.listing.map Item.text := by
  induction tree generalizing first parent with
  | leaf text symbol => rfl
  | branch text operation left right leftIH rightIH =>
      simp [rowsFrom, listing, leftIH, rightIH, Item.text]

theorem hasOperands_rowsFrom (tree : BinaryTree) {first index : Nat} {parent : Option Int}
    {row : NodeRow} (found : (tree.rowsFrom first parent)[index]? = some row) :
    row.HasOperands (first + index) := by
  induction tree generalizing first index parent with
  | leaf text symbol =>
      obtain ⟨_, rfl⟩ := List.getElem?_eq_some_iff.mp found
      rw [NodeRow.HasOperands]
      simp [rowsFrom, symbol.isOperation_kind]
  | branch text operation left right leftIH rightIH =>
      rw [rowsFrom, List.append_assoc] at found
      by_cases inLeft : index < left.size
      · rw [List.getElem?_append_left (by rwa [length_rowsFrom])] at found
        exact leftIH found
      · rw [List.getElem?_append_right (by rw [length_rowsFrom]; omega), length_rowsFrom] at found
        by_cases inRight : index - left.size < right.size
        · rw [List.getElem?_append_left (by rwa [length_rowsFrom])] at found
          have operands := rightIH found
          rwa [Nat.add_assoc, Nat.add_sub_cancel' (Nat.le_of_not_lt inLeft)] at operands
        · rw [List.getElem?_append_right (by rw [length_rowsFrom]; omega), length_rowsFrom] at found
          obtain ⟨atRoot, rfl⟩ := List.getElem?_eq_some_iff.mp found
          have last : index - left.size - right.size = 0 := Nat.lt_one_iff.mp atRoot
          have leftSome := left.size_pos
          have rightSome := right.size_pos
          rw [NodeRow.HasOperands]
          simp only [last, List.getElem_cons_zero]
          refine ⟨first + left.size - 1, first + left.size + right.size - 1, ?_, by omega, by omega⟩
          simp only [List.cons.injEq, and_true]
          omega

end BinaryTree

namespace Postfix

/-- A stream that is neither too long nor marked as incomplete is reduced. -/
theorem build_eq {settings : Settings} {first : Datum} {rest : List Datum}
    (bounded : settings.maxPostfixTokens.isExceededBy (first :: rest).length = .ok false)
    (unmarked : isIncompleteMark settings first = false) :
    build settings (first :: rest) = (reduceAll settings (first :: rest)).map some := by
  rw [build]
  simp only [bounded, unmarked]
  change (reduceAll settings (first :: rest) >>= _) = _
  cases reduceAll settings (first :: rest) <;> rfl

/-- A stream is reduced to the only tree that its run leaves. -/
theorem reduceAll_of_run {settings : Settings} {tokens : List Datum} {final : State}
    (ran : run settings tokens tokens {} = .ok final) :
    reduceAll settings tokens =
      match final.stack with
      | [tree] => .ok tree
      | stack => .error (inStream tokens (.leftoverValues stack.length)) := by
  rw [reduceAll, ran]
  obtain ⟨stack, turn⟩ := final
  rcases stack with _ | ⟨tree, _ | ⟨below, rest⟩⟩ <;> rfl

/-- A stream is reduced to a tree if its items are assembled to that tree alone. -/
theorem reduceAll_eq {settings : Settings} {tokens : List String} {items : List Item}
    (read : itemsOf settings tokens = .ok items) :
    (∃ tree, assemble items [] = some [tree] ∧
        reduceAll settings (tokens.map .text) = .ok tree) ∨
      ((∀ tree, assemble items [] ≠ some [tree]) ∧
        ∃ cause : Malformation, reduceAll settings (tokens.map .text) = .error cause) := by
  rcases run_eq (tokens.map .text) read [] with
    ⟨final, turn, assembled, ran⟩ | ⟨token, available, stuck, ran⟩
  · rw [assembled, reduceAll_of_run ran]
    rcases final with _ | ⟨tree, _ | ⟨below, rest⟩⟩
    · exact .inr ⟨nofun, _, congrArg Except.error (inStream_map_text tokens _)⟩
    · exact .inl ⟨tree, rfl, rfl⟩
    · exact .inr ⟨nofun, _, congrArg Except.error (inStream_map_text tokens _)⟩
  · refine .inr ⟨fun tree assembled => ?_, .missingOperands token available tokens, ?_⟩
    · rw [stuck] at assembled
      cases assembled
    · rw [inStream_map_text] at ran
      rw [reduceAll]
      change (run settings (tokens.map .text) (tokens.map .text) ⟨[], 0 % 2 == 0⟩ >>= _) = _
      rw [ran]
      rfl

/-- The nodes of a tree are the tokens of a stream, in their order, and give the tree again. -/
structure IsFaithful (settings : Settings) (tokens : List String) (tree : BinaryTree) : Prop where
  texts : tree.table.rows.map NodeRow.text = tokens.map .text
  root : tree.table.root = (tokens.length : Int) - 1
  postorder : tree.table.postorder tree.table.root = .ok (numbersFrom 0 tokens.length)
  operands : ∀ (index : Nat) (row : NodeRow),
    tree.table.rows[index]? = some row → row.HasOperands index
  rebuilt : ∃ texts,
    (tree.table.postorder tree.table.root >>= tree.table.textsOf) = .ok texts ∧
      texts = tokens.map .text ∧ build settings texts = .ok (some tree)

theorem isFaithful_of_listing {settings : Settings} {tokens : List String} {items : List Item}
    {tree : BinaryTree} (read : itemsOf settings tokens = .ok items)
    (listed : tree.listing = items)
    (built : build settings (tokens.map .text) = .ok (some tree)) :
    IsFaithful settings tokens tree := by
  have texts : tree.table.rows.map NodeRow.text = tokens.map .text := by
    rw [BinaryTree.table, BinaryTree.map_text_rowsFrom, listed, map_text_of_itemsAfter read]
  have counted : tree.table.rows.length = tokens.length := by
    simpa using congrArg List.length texts
  have size : tree.size = tokens.length := by
    rwa [BinaryTree.table, BinaryTree.length_rowsFrom] at counted
  have ordered : tree.table.postorder tree.table.root = .ok (numbersFrom 0 tokens.length) := by
    rw [BinaryTree.postorder_table, size]
  refine ⟨texts, congrArg (fun count : Nat => (count : Int) - 1) size, ordered, ?_, ?_⟩
  · intro index row found
    simpa using BinaryTree.hasOperands_rowsFrom tree found
  · refine ⟨tokens.map .text, ?_, rfl, built⟩
    have listedTexts := NodeTable.textsOf_numbersFrom (NodeTable.hasRows_all tree.table)
    rw [counted, texts] at listedTexts
    rw [ordered]
    exact listedTexts

/-- A stream that is neither empty, too long nor marked as incomplete is built to a tree
exactly if it lists the nodes of that tree in postorder, which can be told by counting
values, and is malformed otherwise. A tree keeps all tokens of its stream. -/
theorem build_iff_listing {settings : Settings} {first : String} {rest : List String}
    (bounded : settings.maxPostfixTokens.isExceededBy (first :: rest).length = .ok false)
    (unmarked : isIncompleteMark settings (.text first) = false)
    (classified : ∀ token ∈ first :: rest, ∃ symbol, classify settings token = .ok symbol) :
    ∃ items, itemsOf settings (first :: rest) = .ok items ∧
      (∀ tree : BinaryTree,
        build settings ((first :: rest).map .text) = .ok (some tree) ↔ tree.listing = items) ∧
      ((∃ tree : BinaryTree, tree.listing = items) ↔ valuesAfter 0 items = some 1) ∧
      ((¬∃ tree : BinaryTree, tree.listing = items) →
        ∃ cause : Malformation, build settings ((first :: rest).map .text) = .error cause) ∧
      ∀ tree, build settings ((first :: rest).map .text) = .ok (some tree) →
        IsFaithful settings (first :: rest) tree := by
  obtain ⟨items, read⟩ := exists_items classified 0
  have reduced : build settings ((first :: rest).map .text) =
      (reduceAll settings ((first :: rest).map .text)).map some :=
    build_eq (by rwa [← List.map_cons, List.length_map]) unmarked
  have accepted (tree : BinaryTree) :
      build settings ((first :: rest).map .text) = .ok (some tree) ↔ tree.listing = items := by
    rw [reduced, ← assemble_eq_singleton]
    rcases reduceAll_eq read with ⟨found, assembled, ran⟩ | ⟨stuck, cause, ran⟩
    · rw [ran, assembled]
      simp [Except.map]
    · rw [ran]
      exact ⟨nofun, fun assembled => absurd assembled (stuck tree)⟩
  refine ⟨items, read, accepted, exists_listing_iff items, ?_, ?_⟩
  · intro unlisted
    rcases reduceAll_eq read with ⟨found, assembled, ran⟩ | ⟨stuck, cause, ran⟩
    · exact absurd ⟨found, assemble_eq_singleton.mp assembled⟩ unlisted
    · exact ⟨cause, by rw [reduced, ran]; rfl⟩
  · intro tree built
    exact isFaithful_of_listing read ((accepted tree).mp built) built

/-- Of two phi tokens the first is the term and the second the merge. -/
theorem build_recurrence :
    itemsOf {} ["0", "PHI0", "1", "ADD", "PHI0"] = .ok
        [.leaf (.text "0") (.terminal (.constant 0)),
          .leaf (.text "PHI0") (.terminal (.phiTerm (some 0))),
          .leaf (.text "1") (.terminal (.constant 1)),
          .operation "ADD" .add, .operation "PHI0" .phi] ∧
      ∃ tree : BinaryTree,
        build {} (["0", "PHI0", "1", "ADD", "PHI0"].map .text) = .ok (some tree) ∧
          IsFaithful {} ["0", "PHI0", "1", "ADD", "PHI0"] tree := by
  have classified : ∀ token ∈ ["0", "PHI0", "1", "ADD", "PHI0"],
      ∃ symbol, classify {} token = .ok symbol := by
    simp only [List.forall_mem_cons]
    exact ⟨⟨_, rfl⟩, ⟨_, rfl⟩, ⟨_, rfl⟩, ⟨_, rfl⟩, ⟨_, rfl⟩, nofun⟩
  obtain ⟨items, read, accepted, counted, _, faithful⟩ :=
    @build_iff_listing {} _ _ (by rfl) (by rfl) classified
  cases read
  obtain ⟨tree, listed⟩ := counted.mpr rfl
  have built := (accepted tree).mpr listed
  exact ⟨rfl, tree, built, faithful tree built⟩

end Postfix

end KernelFootprint
