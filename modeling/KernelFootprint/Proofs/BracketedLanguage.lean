import KernelFootprint.Proofs.Traversal
import KernelFootprint.Tree.Bracketed

/-!
# The language of parenthesized streams

A term is written as an opening parenthesis, a head, the terms of its operands and a
closing parenthesis. The builder returns a tree exactly for the streams that are one
term, and the tree is written as the stream it is built from. Two invariants carry
this. A tree whose heads are read as they should be is accepted wherever its written
form stands in a stream. Conversely, what the builder has read so far is the written
form of its finished tree or of its open nodes.
-/

namespace KernelFootprint

namespace NaryTree

mutual

/-- A tree with parentheses around every node. -/
def written : NaryTree → List Datum
  | .node text _ children => .text "(" :: text :: (writtenAll children ++ [.text ")"])

def writtenAll : List NaryTree → List Datum
  | [] => []
  | tree :: rest => tree.written ++ writtenAll rest

end

theorem writtenAll_append (trees others : List NaryTree) :
    writtenAll (trees ++ others) = writtenAll trees ++ writtenAll others := by
  induction trees with
  | nil => rfl
  | cons tree rest ih =>
      rw [List.cons_append, writtenAll, writtenAll, ih, List.append_assoc]

end NaryTree

namespace NodeTable

variable {table : NodeTable} {first : Nat}

/-- Pending nodes are written with their operands, and a parenthesis is pending after them. -/
def writtenWithin (table : NodeTable) : Nat → List (Option Int) → Except Misuse (List Datum)
  | _, [] => .ok []
  | 0, _ :: _ => .error .unfinished
  | steps + 1, none :: pending => (table.writtenWithin steps pending).map ([.text ")"] ++ ·)
  | steps + 1, some index :: pending => do
      let row ← table.row? index
      (table.writtenWithin steps (row.children.map some ++ none :: pending)).map
        ([.text "(", row.text] ++ ·)

/-- The nodes from the root on with parentheses around every node. -/
def written (table : NodeTable) : Except Misuse (List Datum) :=
  table.writtenWithin (2 * table.rows.length + 1) [some table.root]

theorem lists_closing : Lists table.writtenWithin 1 [none] [.text ")"] := by
  intro further pending
  rw [Nat.add_comm]
  rfl

/-- A node is written around what is written below it. -/
theorem lists_written_of_children {index : Int} {row : NodeRow} {steps : Nat}
    {below : List Datum} (found : table.row? index = .ok row)
    (lists : Lists table.writtenWithin steps (row.children.map some) below) :
    Lists table.writtenWithin (steps + 2) [some index]
      (.text "(" :: row.text :: (below ++ [.text ")"])) := by
  intro further pending
  have enough : steps + 2 + further = steps + 1 + further + 1 := by omega
  have inner := lists.append lists_closing further pending
  rw [List.append_assoc] at inner
  rw [enough]
  change table.writtenWithin (steps + 1 + further + 1) (some index :: pending) = _
  rw [writtenWithin, found]
  change (table.writtenWithin (steps + 1 + further)
    (row.children.map some ++ ([none] ++ pending))).map _ = _
  rw [inner, Except.map_map_append]
  rfl

end NodeTable

namespace NaryTree

open NodeTable

variable {table : NodeTable}

mutual

theorem lists_written (tree : NaryTree) {first : Nat} {parent : Option Int}
    (standing : table.HasRows first (tree.rowsFrom first parent)) :
    Lists table.writtenWithin (2 * tree.size) [some (first : Int)] tree.written := by
  cases tree with
  | node text symbol children =>
      have enough : 2 * (node text symbol children).size = 2 * sizeAll children + 2 := by
        rw [size]
        omega
      have below : table.HasRows (first + 1) (rowsOfAll (first + 1) (some first) children) := by
        rw [rowsFrom, ← List.singleton_append] at standing
        exact standing.right rfl
      rw [enough, written]
      exact lists_written_of_children (row?_of_hasRows standing) (lists_writtenAll children below)

theorem lists_writtenAll (trees : List NaryTree) {first : Nat} {parent : Option Int}
    (standing : table.HasRows first (rowsOfAll first parent trees)) :
    Lists table.writtenWithin (2 * sizeAll trees)
      (((rootsFrom first trees).map Int.ofNat).map some) (writtenAll trees) := by
  cases trees with
  | nil => exact lists_nil
  | cons tree rest =>
      have others := standing.right (congrArg (first + ·) (length_rowsFrom first parent tree))
      rw [sizeAll, Nat.mul_add, writtenAll]
      exact (lists_written tree standing.left).append (lists_writtenAll rest others)

end

/-- Writing a tree from its table gives its written form. -/
theorem written_table (tree : NaryTree) : tree.table.written = .ok tree.written := by
  refine (lists_written tree (hasRows_all tree.table)).eq_ok
    (fun further => by cases further <;> rfl) ?_
  rw [table, length_rowsFrom]
  omega

end NaryTree

/-- Whether a row of a tree is what its token is classified as, where a phi without
children is a term. -/
def NodeRow.IsRead (settings : Settings) (row : NodeRow) : Prop :=
  ∃ head found, row.text = .text head ∧ classify settings head = .ok found ∧
    row.kind = if found.kind = .operation .phi ∧ row.children = [] then .phiTerm else found.kind

namespace Bracketed

open NaryTree

/-- Whether a token can be the head of a term. -/
def IsHead (token : String) : Prop := token ≠ "(" ∧ token ≠ ")"

/-- The terms of the language. -/
inductive IsTerm : List String → Prop
  | node {head : String} {operands : List (List String)} (proper : IsHead head)
      (below : ∀ operand ∈ operands, IsTerm operand) :
      IsTerm ("(" :: head :: (operands.flatten ++ [")"]))

/-- Whether every node of a tree is what its head is classified as, a phi without
operands being a term. -/
inductive IsRead (settings : Settings) : NaryTree → Prop
  | node {head : String} {found : Symbol} {children : List NaryTree} (proper : IsHead head)
      (classified : classify settings head = .ok found)
      (below : ∀ child ∈ children, IsRead settings child) :
      IsRead settings (.node (.text head) (closedSymbol found children) children)

theorem exists_operands {children : List NaryTree}
    (terms : ∀ child ∈ children, ∃ tokens, child.written = tokens.map .text ∧ IsTerm tokens) :
    ∃ operands : List (List String), writtenAll children = operands.flatten.map .text ∧
      ∀ operand ∈ operands, IsTerm operand := by
  induction children with
  | nil => exact ⟨[], rfl, nofun⟩
  | cons child rest ih =>
      obtain ⟨⟨tokens, written, term⟩, further⟩ := List.forall_mem_cons.mp terms
      obtain ⟨operands, writtenRest, others⟩ := ih further
      refine ⟨tokens :: operands, ?_, List.forall_mem_cons.mpr ⟨term, others⟩⟩
      rw [writtenAll, written, writtenRest, List.flatten_cons, List.map_append]

/-- What a tree is written as is a term. -/
theorem isTerm_of_isRead {settings : Settings} {tree : NaryTree} (read : IsRead settings tree) :
    ∃ tokens, tree.written = tokens.map .text ∧ IsTerm tokens := by
  induction read with
  | node proper classified below ih =>
      obtain ⟨operands, written, terms⟩ := exists_operands ih
      exact ⟨_, by simp [NaryTree.written, written], .node proper terms⟩

theorem exists_children {settings : Settings} {operands : List (List String)}
    (trees : ∀ operand ∈ operands, ∃ tree, IsRead settings tree ∧
      tree.written = operand.map .text) :
    ∃ children : List NaryTree, (∀ child ∈ children, IsRead settings child) ∧
      writtenAll children = operands.flatten.map .text := by
  induction operands with
  | nil => exact ⟨[], nofun, rfl⟩
  | cons operand rest ih =>
      obtain ⟨⟨tree, read, written⟩, further⟩ := List.forall_mem_cons.mp trees
      obtain ⟨children, reads, writtenRest⟩ := ih further
      refine ⟨tree :: children, List.forall_mem_cons.mpr ⟨read, reads⟩, ?_⟩
      rw [writtenAll, written, writtenRest, List.flatten_cons, List.map_append]

/-- Every term of tokens that can be classified is what a tree is written as. -/
theorem exists_isRead {settings : Settings} {tokens : List String} (term : IsTerm tokens)
    (classified : ∀ token ∈ tokens, IsHead token → ∃ symbol, classify settings token = .ok symbol) :
    ∃ tree, IsRead settings tree ∧ tree.written = tokens.map .text := by
  induction term with
  | @node head operands proper below ih =>
      have inside : ∀ operand ∈ operands, ∃ tree, IsRead settings tree ∧
          tree.written = operand.map .text := by
        intro operand member
        refine ih operand member (fun token inOperand => classified token ?_)
        simp only [List.mem_cons, List.mem_append, List.mem_flatten]
        exact .inr (.inr (.inl ⟨operand, member, inOperand⟩))
      obtain ⟨found, foundHead⟩ := classified head (by simp) proper
      obtain ⟨children, reads, written⟩ := exists_children inside
      refine ⟨_, .node proper foundHead reads, ?_⟩
      simp [NaryTree.written, written]

/-- A limit that a count does not exceed is not reached by a smaller count. -/
theorem isReachedBy_eq_false {limit : Datum} {count : Nat}
    (bounded : limit.isExceededBy count = .ok false) {opened : Nat} (fewer : opened < count) :
    limit.isReachedBy opened = .ok false := by
  unfold Datum.isExceededBy at bounded
  unfold Datum.isReachedBy
  cases given : limit.number? with
  | none =>
      rw [given] at bounded
      cases bounded
  | some bound =>
      rw [given] at bounded
      have within : bound.isBelow (.finite count) = false := Except.ok.inj bounded
      refine congrArg Except.ok ?_
      cases bound with
      | finite value =>
          have enough : ¬value < (count : Rat) := of_decide_eq_false within
          have below : (opened : Rat) < (count : Rat) := Rat.natCast_lt_natCast.mpr fewer
          have above : ¬value < (opened : Rat) ∧ value ≠ (opened : Rat) := by grind
          simp [Number.Extended.isAtMost, Number.Extended.isBelow, above]
      | infinite negative =>
          cases negative with
          | true => cases within
          | false => rfl
      | undefined => rfl

variable {settings : Settings} {tokens : List Datum} {rest : List Datum} {state : State}

/-- Opens a node below the innermost one. -/
def State.opening (state : State) (head : String) (found : Symbol) : State :=
  { state with
    opened := state.opened + 1
    spine := { text := .text head, symbol := found } :: state.spine }

/-- Takes a closed node as an operand of the innermost one, or as the root. -/
def State.accept (state : State) (tree : NaryTree) : State :=
  match state.spine with
  | [] => { state with root := some tree }
  | innermost :: outer =>
      { state with spine := { innermost with operands := tree :: innermost.operands } :: outer }

/-- Whether there is a node to take further operands or no root yet. -/
def State.HasRoom (state : State) : Prop := state.spine ≠ [] ∨ state.root = none

theorem opened_accept (state : State) (tree : NaryTree) :
    (state.accept tree).opened = state.opened := by
  rw [State.accept]
  split <;> rfl

theorem isMissing_text {head : String} (proper : IsHead head) : isMissing (.text head) = false := by
  have given : (Datum.text head == Datum.null) = false := rfl
  simp [isMissing, isParenthesis, given, proper.1, proper.2]

theorem run_opening {head : String} {found : Symbol} (proper : IsHead head)
    (classified : classify settings head = .ok found)
    (unreached : settings.maxPrefixTerms.isReachedBy state.opened = .ok false)
    (room : state.HasRoom) :
    run settings tokens (.text "(" :: .text head :: rest) state =
      run settings tokens rest (state.opening head found) := by
  have single : (state.spine.isEmpty && state.root.isSome) = false := by
    rcases room with below | unrooted
    · simp [below]
    · simp [unrooted]
  rw [run]
  simp only [isOpening_text, isMissing_text proper, unreached, classifyElement_text, classified,
    single]
  rfl

theorem run_closing {innermost : OpenNode} {outer : List OpenNode}
    (standing : state.spine = innermost :: outer) :
    run settings tokens (.text ")" :: rest) state =
      run settings tokens rest ({ state with spine := outer }.accept innermost.close) := by
  obtain ⟨opened, spine, root⟩ := state
  cases standing
  rw [run.eq_def]
  cases outer <;> rfl

/-- Whether a tree is accepted wherever its written form stands and there is room for it. -/
def IsAccepted (settings : Settings) (tokens : List Datum) (tree : NaryTree) : Prop :=
  ∀ (rest : List Datum) (state : State),
    (∀ opened < state.opened + tree.size,
      settings.maxPrefixTerms.isReachedBy opened = .ok false) → state.HasRoom →
      run settings tokens (tree.written ++ rest) state =
        run settings tokens rest
          ({ state with opened := state.opened + tree.size }.accept tree)

/-- Written operands are taken by the innermost node, one after the other. -/
theorem run_writtenAll {children : List NaryTree}
    (accepted : ∀ child ∈ children, IsAccepted settings tokens child)
    {opened : Nat} {innermost : OpenNode} {outer : List OpenNode} {root : Option NaryTree}
    (unreached : ∀ count < opened + sizeAll children,
      settings.maxPrefixTerms.isReachedBy count = .ok false) :
    run settings tokens (writtenAll children ++ rest) ⟨opened, innermost :: outer, root⟩ =
      run settings tokens rest
        ⟨opened + sizeAll children,
          { innermost with operands := children.reverse ++ innermost.operands } :: outer, root⟩ := by
  induction children generalizing opened innermost with
  | nil => rfl
  | cons child others ih =>
      obtain ⟨first, further⟩ := List.forall_mem_cons.mp accepted
      rw [sizeAll] at unreached ⊢
      rw [writtenAll, List.append_assoc,
        first _ _ (fun count below => unreached count (by grind)) (.inl (List.cons_ne_nil _ _))]
      change run settings tokens (writtenAll others ++ rest)
        ⟨opened + child.size, { innermost with operands := child :: innermost.operands } :: outer,
          root⟩ = _
      rw [ih further (fun count below => unreached count (by omega))]
      simp [Nat.add_assoc]

theorem closedSymbol_reverse (symbol : Symbol) (operands : List NaryTree) :
    closedSymbol symbol operands.reverse = closedSymbol symbol operands := by
  cases operands with
  | nil => rfl
  | cons first rest =>
      obtain ⟨last, others, same⟩ :=
        List.exists_cons_of_ne_nil (l := (first :: rest).reverse) (by simp)
      rw [same]
      cases symbol with
      | operation operation id => cases operation <;> rfl
      | _ => rfl

theorem isAccepted_of_isRead {tree : NaryTree} (read : IsRead settings tree) :
    IsAccepted settings tokens tree := by
  induction read with
  | @node head found children proper classified below ih =>
      intro rest state unreached room
      rw [size] at unreached ⊢
      have written : (NaryTree.node (.text head) (closedSymbol found children) children).written ++
          rest = .text "(" :: .text head :: (writtenAll children ++ .text ")" :: rest) := by
        simp [NaryTree.written]
      rw [written, run_opening proper classified (unreached _ (by omega)) room, State.opening,
        run_writtenAll ih (fun count below => unreached count (by omega)), run_closing rfl]
      simp [OpenNode.close, closedSymbol_reverse, Nat.add_assoc, Nat.add_comm 1]

def OpenNode.written (innermost : OpenNode) : List Datum :=
  .text "(" :: innermost.text :: writtenAll innermost.operands.reverse

/-- All tokens read so far. -/
def State.written (state : State) : List Datum :=
  state.root.toList.flatMap NaryTree.written ++ state.spine.reverse.flatMap OpenNode.written

structure OpenNode.IsSound (settings : Settings) (innermost : OpenNode) : Prop where
  head : ∃ head, innermost.text = .text head ∧ IsHead head ∧
    classify settings head = .ok innermost.symbol
  operands : ∀ operand ∈ innermost.operands, IsRead settings operand

structure State.IsSound (settings : Settings) (state : State) : Prop where
  single : state.root = none ∨ state.spine = []
  root : ∀ tree ∈ state.root, IsRead settings tree
  spine : ∀ element ∈ state.spine, element.IsSound settings

theorem isSound_opening {head : String} {found : Symbol} (sound : state.IsSound settings)
    (proper : IsHead head) (classified : classify settings head = .ok found)
    (room : state.HasRoom) : (state.opening head found).IsSound settings := by
  have unrooted : state.root = none := by
    rcases sound.single with unrooted | unopened
    · exact unrooted
    · exact room.resolve_left (absurd unopened)
  refine ⟨.inl unrooted, sound.root, List.forall_mem_cons.mpr ⟨?_, sound.spine⟩⟩
  exact ⟨⟨head, rfl, proper, classified⟩, nofun⟩

theorem written_opening (state : State) (head : String) (found : Symbol) :
    (state.opening head found).written = state.written ++ [.text "(", .text head] := by
  simp [State.written, State.opening, OpenNode.written, writtenAll]

theorem isRead_close {innermost : OpenNode} (sound : innermost.IsSound settings) :
    IsRead settings innermost.close := by
  obtain ⟨head, text, proper, classified⟩ := sound.head
  rw [OpenNode.close, text, ← closedSymbol_reverse]
  refine .node proper classified (fun operand member => sound.operands operand ?_)
  exact List.mem_reverse.mp member

theorem written_close (innermost : OpenNode) :
    innermost.close.written = innermost.written ++ [.text ")"] := by
  simp [OpenNode.close, OpenNode.written, NaryTree.written]

theorem isSound_accept {innermost : OpenNode} {outer : List OpenNode}
    (sound : state.IsSound settings) (standing : state.spine = innermost :: outer) :
    ({ state with spine := outer }.accept innermost.close).IsSound settings := by
  have unrooted : state.root = none := sound.single.resolve_right (by simp [standing])
  have spine := sound.spine
  rw [standing] at spine
  obtain ⟨closing, others⟩ := List.forall_mem_cons.mp spine
  have closed := isRead_close closing
  cases outer with
  | nil =>
      refine ⟨.inr rfl, ?_, nofun⟩
      intro tree member
      cases member
      exact closed
  | cons next outer =>
      obtain ⟨taking, remaining⟩ := List.forall_mem_cons.mp others
      refine ⟨.inl unrooted, sound.root, List.forall_mem_cons.mpr ⟨⟨taking.head, ?_⟩, remaining⟩⟩
      exact List.forall_mem_cons.mpr ⟨closed, taking.operands⟩

theorem written_accept {innermost : OpenNode} {outer : List OpenNode}
    (sound : state.IsSound settings) (standing : state.spine = innermost :: outer) :
    ({ state with spine := outer }.accept innermost.close).written =
      state.written ++ [.text ")"] := by
  have unrooted : state.root = none := sound.single.resolve_right (by simp [standing])
  cases outer with
  | nil => simp [State.written, State.accept, standing, unrooted, written_close]
  | cons next outer =>
      simp [State.written, State.accept, standing, unrooted, OpenNode.written, writtenAll_append,
        writtenAll, written_close]

/-- Whether an outcome is a tree that is written as the given tokens, or a malformation. -/
def IsOutcome (settings : Settings) (texts : List String) : Except Fault NaryTree → Prop
  | .ok tree => IsRead settings tree ∧ tree.written = texts.map .text
  | .error fault => ∃ cause : Malformation, fault = cause

theorem isOutcome_inStream (settings : Settings) (texts : List String)
    (cause : List String → Malformation) :
    IsOutcome settings texts (.error (inStream (texts.map .text) cause)) :=
  ⟨cause texts, inStream_map_text texts cause⟩

theorem isOutcome_nil {texts : List String} (nonempty : texts ≠ [])
    (sound : state.IsSound settings) (written : state.written = texts.map .text) :
    IsOutcome settings texts (run settings (texts.map .text) [] state) := by
  obtain ⟨opened, spine, root⟩ := state
  cases spine with
  | cons innermost outer => exact isOutcome_inStream settings texts .unclosedOpen
  | nil =>
      cases root with
      | none => exact absurd (List.map_eq_nil_iff.mp written.symm) nonempty
      | some tree =>
          refine ⟨sound.root tree rfl, ?_⟩
          simpa [State.written] using written

theorem isOutcome_unheaded {texts : List String} {head : String} (improper : ¬IsHead head) :
    IsOutcome settings texts
      (run settings (texts.map .text) (.text "(" :: .text head :: rest) state) := by
  have missing : isMissing (.text head) = true := by
    by_cases opening : head = "(" <;> simp_all [isMissing, isParenthesis, IsHead]
  rw [run]
  simp only [isOpening_text, missing]
  exact isOutcome_inStream settings texts .missingOperator

theorem isOutcome_roomless {texts : List String} {head : String} {found : Symbol}
    (proper : IsHead head) (classified : classify settings head = .ok found)
    (unreached : settings.maxPrefixTerms.isReachedBy state.opened = .ok false)
    (full : ¬state.HasRoom) :
    IsOutcome settings texts
      (run settings (texts.map .text) (.text "(" :: .text head :: rest) state) := by
  have several : (state.spine.isEmpty && state.root.isSome) = true := by
    simpa [State.HasRoom, Option.ne_none_iff_isSome] using full
  rw [run]
  simp only [isOpening_text, isMissing_text proper, unreached, classifyElement_text, classified,
    several]
  exact isOutcome_inStream settings texts .severalRoots

theorem isOutcome_unopened {texts : List String} (unopened : state.spine = []) :
    IsOutcome settings texts (run settings (texts.map .text) (.text ")" :: rest) state) := by
  obtain ⟨opened, spine, root⟩ := state
  cases unopened
  rw [run.eq_def]
  exact isOutcome_inStream settings texts .unbalancedClose

theorem isOutcome_outside {texts : List String} {token : String} (stray : IsHead token) :
    IsOutcome settings texts (run settings (texts.map .text) (.text token :: rest) state) := by
  rw [run.eq_def]
  simp only [isOpening_text, isClosing_text, beq_false_of_ne stray.1, beq_false_of_ne stray.2]
  exact isOutcome_inStream settings texts (.outsideParentheses token)

/-- Wherever the run stands, what it has read is written in front of what remains. -/
theorem isOutcome_run {texts : List String} (nonempty : texts ≠ []) {count : Nat}
    (unreached : ∀ opened < count, settings.maxPrefixTerms.isReachedBy opened = .ok false)
    (classified : ∀ token ∈ texts, IsHead token → ∃ symbol, classify settings token = .ok symbol)
    (remaining : List String) (state : State) (inside : remaining ⊆ texts)
    (bounded : state.opened + remaining.count "(" ≤ count) (sound : state.IsSound settings)
    (written : state.written ++ remaining.map .text = texts.map .text) :
    IsOutcome settings texts
      (run settings (texts.map .text) (remaining.map .text) state) := by
  -- An opening parenthesis takes its head along, so the induction is on the length.
  induction length : remaining.length using Nat.strongRecOn generalizing remaining state with
  | ind total ih =>
      subst length
      cases remaining with
      | nil => exact isOutcome_nil nonempty sound (by simpa using written)
      | cons token rest =>
          obtain ⟨_, insideRest⟩ := List.cons_subset.mp inside
          by_cases closing : token = ")"
          · subst closing
            cases standing : state.spine with
            | nil => exact isOutcome_unopened standing
            | cons innermost outer =>
                rw [List.map_cons, run_closing standing]
                refine ih _ (Nat.lt_succ_self _) rest _ insideRest ?_
                  (isSound_accept sound standing) ?_ rfl
                · rw [opened_accept]
                  simpa using bounded
                · rw [written_accept sound standing, List.append_assoc]
                  exact written
          · by_cases opening : token = "("
            · subst opening
              cases rest with
              | nil => exact isOutcome_inStream settings texts .missingOperator
              | cons head others =>
                  by_cases proper : IsHead head
                  · obtain ⟨headInside, insideOthers⟩ := List.cons_subset.mp insideRest
                    obtain ⟨found, foundHead⟩ := classified head headInside proper
                    have counted : state.opened + 1 + others.count "(" ≤ count := by
                      rw [List.count_cons_self, List.count_cons_of_ne proper.1] at bounded
                      omega
                    have next := unreached state.opened (by omega)
                    by_cases room : state.HasRoom
                    · rw [List.map_cons, List.map_cons, run_opening proper foundHead next room]
                      refine ih _ (by simp only [List.length_cons]; omega) others _ insideOthers
                        counted (isSound_opening sound proper foundHead room) ?_ rfl
                      rw [written_opening, List.append_assoc]
                      exact written
                    · exact isOutcome_roomless proper foundHead next room
                  · exact isOutcome_unheaded proper
            · exact isOutcome_outside ⟨opening, closing⟩

theorem countP_writtenAll {children : List NaryTree}
    (counted : ∀ child ∈ children, child.written.countP isOpening = child.size) :
    (writtenAll children).countP isOpening = sizeAll children := by
  induction children with
  | nil => rfl
  | cons child rest ih =>
      obtain ⟨first, others⟩ := List.forall_mem_cons.mp counted
      rw [writtenAll, List.countP_append, first, ih others, sizeAll]

/-- Every node is opened once. -/
theorem countP_written {tree : NaryTree} (read : IsRead settings tree) :
    tree.written.countP isOpening = tree.size := by
  induction read with
  | @node head found children proper classified below ih =>
      simp [NaryTree.written, countP_writtenAll ih, size, proper.1]

theorem run_eq_ok {texts : List String}
    (unreached : ∀ opened < texts.count "(",
      settings.maxPrefixTerms.isReachedBy opened = .ok false)
    {tree : NaryTree} (read : IsRead settings tree) (written : tree.written = texts.map .text) :
    run settings (texts.map .text) (texts.map .text) {} = .ok tree := by
  have size : 0 + tree.size = texts.count "(" := by
    rw [Nat.zero_add, ← countP_written read, written, List.countP_map]
    exact List.countP_congr (by simp)
  have accepted : IsAccepted settings (texts.map .text) tree := isAccepted_of_isRead read
  have accepting := accepted [] {} (by rwa [size]) (.inr rfl)
  rw [List.append_nil, written] at accepting
  exact accepting

theorem build_eq {texts : List String} (nonempty : texts ≠ [])
    (unmarked : ∀ head, (texts.map Datum.text).find? (fun token => !isParenthesis token) =
      some head → isIncompleteMark settings head = false) :
    build settings (texts.map .text) =
      (run settings (texts.map .text) (texts.map .text) {}).map some := by
  rw [build, if_neg (by simpa using nonempty)]
  split
  · next head found => rw [unmarked head found]; rfl
  · rfl

theorem kind_closedSymbol (found : Symbol) (children : List NaryTree) :
    (closedSymbol found children).kind =
      if found.kind = .operation .phi ∧ children = [] then .phiTerm else found.kind := by
  cases found with
  | operation operation id => cases operation <;> cases children <;> rfl
  | terminal leaf => cases leaf <;> rfl
  | structural other => rfl

/-- What holds of the rows of every operand holds of their rows together. -/
theorem forall_rowsOfAll {property : NodeRow → Prop} {children : List NaryTree}
    (each : ∀ child ∈ children, ∀ (first : Nat) (parent : Option Int),
      ∀ row ∈ child.rowsFrom first parent, property row)
    (first : Nat) (parent : Option Int) :
    ∀ row ∈ rowsOfAll first parent children, property row := by
  induction children generalizing first with
  | nil => exact nofun
  | cons child rest ih =>
      obtain ⟨onFirst, others⟩ := List.forall_mem_cons.mp each
      intro row member
      rw [rowsOfAll, List.mem_append] at member
      exact member.elim (onFirst first parent row) (ih others (first + child.size) row)

theorem isRead_rowsFrom {tree : NaryTree} (read : IsRead settings tree) (first : Nat)
    (parent : Option Int) : ∀ row ∈ tree.rowsFrom first parent, row.IsRead settings := by
  induction read generalizing first parent with
  | @node head found children proper classified below ih =>
      rw [rowsFrom]
      refine List.forall_mem_cons.mpr ⟨?_, forall_rowsOfAll ih _ _⟩
      refine ⟨head, found, rfl, classified, ?_⟩
      rw [kind_closedSymbol]
      cases children <;> simp [rootsFrom]

/-- The nodes of a tree are those of a stream, in its order, and are written as the stream. -/
structure IsFaithful (settings : Settings) (texts : List String) (tree : NaryTree) : Prop where
  root : tree.table.root = 0
  preorder : tree.table.preorder tree.table.root = .ok (numbersFrom 0 tree.table.rows.length)
  written : tree.table.written = .ok (texts.map .text)
  rows : ∀ row ∈ tree.table.rows, row.IsRead settings

theorem isFaithful_of_isRead {texts : List String} {tree : NaryTree}
    (read : IsRead settings tree) (written : tree.written = texts.map .text) :
    IsFaithful settings texts tree where
  root := rfl
  preorder := by rw [preorder_table, table, length_rowsFrom]
  written := by rw [written_table, written]
  rows := isRead_rowsFrom read 0 none

/-- A stream that is neither empty, too long nor marked as incomplete is built to a tree
exactly if it is a term, and is malformed otherwise. The tree is the only one that is
written as the stream with its heads read as they should be. -/
theorem build_iff_isTerm {texts : List String} (nonempty : texts ≠ [])
    (unmarked : ∀ head, (texts.map Datum.text).find? (fun token => !isParenthesis token) =
      some head → isIncompleteMark settings head = false)
    (bounded : settings.maxPrefixTerms.isExceededBy (texts.count "(") = .ok false)
    (classified : ∀ token ∈ texts, IsHead token →
      ∃ symbol, classify settings token = .ok symbol) :
    ((∃ tree, build settings (texts.map .text) = .ok (some tree)) ↔ IsTerm texts) ∧
      (¬IsTerm texts →
        ∃ cause : Malformation, build settings (texts.map .text) = .error cause) ∧
      (∀ tree, build settings (texts.map .text) = .ok (some tree) ↔
        IsRead settings tree ∧ tree.written = texts.map .text) ∧
      ∀ tree, build settings (texts.map .text) = .ok (some tree) →
        IsFaithful settings texts tree := by
  have unreached (opened : Nat) (below : opened < texts.count "(") :
      settings.maxPrefixTerms.isReachedBy opened = .ok false :=
    isReachedBy_eq_false bounded below
  have outcome : IsOutcome settings texts (run settings (texts.map .text) (texts.map .text) {}) :=
    isOutcome_run nonempty unreached classified texts {} (fun _ member => member)
      (Nat.le_of_eq (Nat.zero_add _)) ⟨.inl rfl, nofun, nofun⟩ rfl
  have built (tree : NaryTree) : build settings (texts.map .text) = .ok (some tree) ↔
      IsRead settings tree ∧ tree.written = texts.map .text := by
    rw [build_eq nonempty unmarked]
    constructor
    · intro mapped
      cases ran : run settings (texts.map .text) (texts.map .text) {} with
      | error fault =>
          rw [ran] at mapped
          cases mapped
      | ok found =>
          rw [ran] at mapped outcome
          cases mapped
          exact outcome
    · rintro ⟨read, written⟩
      rw [run_eq_ok unreached read written]
      rfl
  have accepted : (∃ tree, build settings (texts.map .text) = .ok (some tree)) ↔ IsTerm texts := by
    constructor
    · rintro ⟨tree, found⟩
      obtain ⟨read, written⟩ := (built tree).mp found
      obtain ⟨tokens, same, term⟩ := isTerm_of_isRead read
      have equal : tokens = texts :=
        (List.map_inj_right (fun _ _ => Datum.text.inj)).mp (same.symm.trans written)
      rwa [← equal]
    · intro term
      obtain ⟨tree, found⟩ := exists_isRead term classified
      exact ⟨tree, (built tree).mpr found⟩
  refine ⟨accepted, ?_, built, ?_⟩
  · intro ungrammatical
    rw [build_eq nonempty unmarked]
    cases ran : run settings (texts.map .text) (texts.map .text) {} with
    | error fault =>
        rw [ran] at outcome
        obtain ⟨cause, rfl⟩ := outcome
        exact ⟨cause, rfl⟩
    | ok tree =>
        refine absurd (accepted.mp ⟨tree, ?_⟩) ungrammatical
        rw [build_eq nonempty unmarked, ran]
        rfl
  · intro tree found
    obtain ⟨read, written⟩ := (built tree).mp found
    exact isFaithful_of_isRead read written

/-- A phi without operands is a term. -/
theorem build_sum :
    ∃ tree : NaryTree,
      tree = .node (.text "ADD") (.operation .add none)
        [.node (.text "PHI0") (.terminal (.phiTerm (some 0))) [],
          .node (.text "4") (.terminal (.constant 4)) []] ∧
      IsTerm ["(", "ADD", "(", "PHI0", ")", "(", "4", ")", ")"] ∧
      IsFaithful {} ["(", "ADD", "(", "PHI0", ")", "(", "4", ")", ")"] tree := by
  have unmarked : ∀ head, (["(", "ADD", "(", "PHI0", ")", "(", "4", ")", ")"].map Datum.text).find?
      (fun token => !isParenthesis token) = some head → isIncompleteMark {} head = false := by
    intro head found
    cases found
    rfl
  have classified : ∀ token ∈ ["(", "ADD", "(", "PHI0", ")", "(", "4", ")", ")"],
      IsHead token → ∃ symbol, classify {} token = .ok symbol := by
    simp only [List.forall_mem_cons]
    refine ⟨fun head => absurd rfl head.1, fun _ => ⟨_, rfl⟩, fun head => absurd rfl head.1,
      fun _ => ⟨_, rfl⟩, fun head => absurd rfl head.2, fun head => absurd rfl head.1,
      fun _ => ⟨_, rfl⟩, fun head => absurd rfl head.2, fun head => absurd rfl head.2, nofun⟩
  obtain ⟨accepted, _, _, faithful⟩ :=
    build_iff_isTerm (List.cons_ne_nil _ _) unmarked (by rfl) classified
  exact ⟨_, rfl, accepted.mp ⟨_, rfl⟩, faithful _ rfl⟩

end Bracketed

end KernelFootprint
