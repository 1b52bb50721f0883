import KernelFootprint.Address.Query
import KernelFootprint.Proofs.BracketedLanguage
import KernelFootprint.Proofs.Joining
import KernelFootprint.Proofs.Spelling

/-!
# Every tree that is built is rooted

Trees come from token streams, as single nodes, and as operations on trees that were built
before. Reading a stream gives the table of a tree, a single node has no links, and an
operation joins two tables. All of these are linked, and hence rooted. A parenthesized
stream has its phis without operands relabelled as terms when they are closed, and no token
is read as a term.
-/

namespace KernelFootprint

theorem classify_cases {settings : Settings} {text : String} {symbol : Symbol}
    (found : classify settings text = .ok symbol) :
    symbol = .terminal .incomplete ∨ (text, symbol) ∈ operatorWords ∨
      (∃ value, symbol = .terminal (.constant value)) ∨
      (∃ formal, symbol = .terminal (.argument formal)) ∨ ∃ id, symbol = .operation .phi id := by
  rw [classify] at found
  split at found
  · cases found
    exact .inl rfl
  · split at found
    · next word =>
        cases found
        obtain ⟨before, after, split, _⟩ := List.lookup_eq_some_iff.mp word
        refine .inr (.inl ?_)
        rw [split]
        exact List.mem_append_right _ List.mem_cons_self
    · split at found
      · next read =>
          cases found
          have readings := mem_of_firstReading read
          simp only [List.mem_cons, List.not_mem_nil, or_false] at readings
          rcases readings with literal | argument | phi
          · exact .inr (.inr (.inl (literalToken?_eq_ok literal.symm)))
          · exact .inr (.inr (.inr (.inl (argumentToken?_eq_ok argument.symm))))
          · exact .inr (.inr (.inr (.inr (phiToken?_eq_ok phi.symm))))
      · cases found
      · cases found

/-- No token is read as the term of a recurrence. -/
theorem kind_ne_phiTerm_of_classifyElement {settings : Settings} {token : Datum}
    {symbol : Symbol} (found : classifyElement settings token = .ok symbol) :
    symbol.kind ≠ .phiTerm := by
  cases token with
  | text text =>
      rcases classify_cases found with rfl | word | ⟨value, rfl⟩ | ⟨formal, rfl⟩ | ⟨id, rfl⟩
      · nofun
      · have words : ∀ entry ∈ operatorWords, entry.2.kind ≠ .phiTerm := by decide
        exact words _ word
      · nofun
      · nofun
      · nofun
  | _ =>
      simp only [classifyElement] at found
      split at found
      · cases found
        nofun
      · cases found

/-- Whether a node is a merge only with children and a term only without. -/
structure NodeRow.HasProperPhi (row : NodeRow) : Prop where
  merge : row.kind = .operation .phi → row.children ≠ []
  term : row.kind = .phiTerm → row.children = []

namespace Bracketed

open NaryTree

/-- Whether every merge in a tree has operands and no term has any. -/
inductive HasProperPhis : NaryTree → Prop
  | node {text : Datum} {symbol : Symbol} {children : List NaryTree}
      (merge : symbol.kind = .operation .phi → children ≠ [])
      (term : symbol.kind = .phiTerm → children = [])
      (below : ∀ child ∈ children, HasProperPhis child) :
      HasProperPhis (.node text symbol children)

theorem hasProperPhi_rowsFrom {tree : NaryTree} (proper : HasProperPhis tree) (first : Nat)
    (parent : Option Int) : ∀ row ∈ tree.rowsFrom first parent, row.HasProperPhi := by
  induction proper generalizing first parent with
  | @node text symbol children merge term below ih =>
      rw [rowsFrom]
      refine List.forall_mem_cons.mpr ⟨?_, forall_rowsOfAll ih _ _⟩
      constructor
      · intro isMerge
        obtain ⟨child, rest, rfl⟩ := List.exists_cons_of_ne_nil (merge isMerge)
        exact List.cons_ne_nil _ _
      · intro isTerm
        cases term isTerm
        rfl

variable {settings : Settings} {tokens : List Datum} {rest : List Datum} {state : State}

structure OpenNode.HasProperPhis (node : OpenNode) : Prop where
  head : node.symbol.kind ≠ .phiTerm
  operands : ∀ operand ∈ node.operands, Bracketed.HasProperPhis operand

structure State.HasProperPhis (state : State) : Prop where
  root : ∀ tree ∈ state.root, Bracketed.HasProperPhis tree
  spine : ∀ node ∈ state.spine, node.HasProperPhis

theorem hasProperPhis_close {node : OpenNode} (proper : node.HasProperPhis) :
    HasProperPhis node.close := by
  refine .node ?_ ?_ (fun child member => proper.operands child (List.mem_reverse.mp member))
  · rw [kind_closedSymbol]
    split
    · nofun
    · next operated =>
        intro isMerge empty
        exact operated ⟨isMerge, List.reverse_eq_nil_iff.mp empty⟩
  · rw [kind_closedSymbol]
    split
    · next unoperated =>
        intro _
        rw [unoperated.2]
        rfl
    · exact fun isTerm => absurd isTerm proper.head

/-- Closing the innermost node keeps the invariant. -/
theorem State.HasProperPhis.close {next : State} (proper : state.HasProperPhis)
    (closed : state.close = some next) : next.HasProperPhis := by
  obtain ⟨opened, spine, root⟩ := state
  cases spine with
  | nil => cases closed
  | cons innermost outer =>
      obtain ⟨closing, others⟩ := List.forall_mem_cons.mp proper.spine
      have below := hasProperPhis_close closing
      cases outer with
      | nil =>
          cases closed
          exact ⟨fun tree member => by cases member; exact below, nofun⟩
      | cons enclosing outer =>
          cases closed
          obtain ⟨taking, remaining⟩ := List.forall_mem_cons.mp others
          refine ⟨proper.root, List.forall_mem_cons.mpr ⟨⟨taking.head, ?_⟩, remaining⟩⟩
          exact List.forall_mem_cons.mpr ⟨below, taking.operands⟩

/-- What has been read goes on with a node opened, if the stream is not too long for that. -/
theorem run_opening_eq_ok {token head : Datum} {tree : NaryTree} (opening : isOpening token = true)
    (returned : run settings tokens (token :: head :: rest) state = .ok tree) :
    tree = .pointerChase ∨ ∃ symbol, classifyElement settings head = .ok symbol ∧
      run settings tokens rest
        { state with
          opened := state.opened + 1
          spine := { text := head, symbol := symbol } :: state.spine } = .ok tree := by
  rw [run, if_pos opening] at returned
  change (if isMissing head = true then _ else _) = _ at returned
  by_cases missing : isMissing head = true
  · rw [if_pos missing] at returned
    cases returned
  · rw [if_neg missing] at returned
    cases reached : settings.maxPrefixTerms.isReachedBy state.opened with
    | error misuse =>
        rw [reached] at returned
        cases returned
    | ok stopped =>
        rw [reached] at returned
        cases stopped with
        | true =>
            cases returned
            exact .inl rfl
        | false =>
            change (classifyElement settings head >>= _) = _ at returned
            cases found : classifyElement settings head with
            | error fault =>
                rw [found] at returned
                cases returned
            | ok symbol =>
                rw [found] at returned
                change (if (state.spine.isEmpty && state.root.isSome) = true then _ else _) = _
                  at returned
                split at returned
                · cases returned
                · exact .inr ⟨symbol, rfl, returned⟩

/-- What opens no node has to close one. -/
theorem run_closing_eq_ok {token : Datum} {tree : NaryTree} (unopening : ¬isOpening token = true)
    (returned : run settings tokens (token :: rest) state = .ok tree) :
    ∃ next, state.close = some next ∧ run settings tokens rest next = .ok tree := by
  rw [run.eq_def] at returned
  simp only at returned
  rw [if_neg unopening] at returned
  split at returned
  · split at returned
    · next closed => exact ⟨_, closed, returned⟩
    · cases returned
  · cases returned

/-- What opening and closing nodes keeps holds when the last node is closed. -/
theorem exists_final_of_run {holds : State → Prop}
    (opens : ∀ {state : State} {head : Datum} {symbol : Symbol}, holds state →
      classifyElement settings head = .ok symbol →
        holds
          { state with
            opened := state.opened + 1
            spine := { text := head, symbol := symbol } :: state.spine })
    (closes : ∀ {state next : State}, holds state → state.close = some next → holds next)
    {remaining : List Datum} {tree : NaryTree} (start : holds state)
    (returned : run settings tokens remaining state = .ok tree) :
    tree = .pointerChase ∨ ∃ final, holds final ∧ final.root = some tree := by
  -- An opening parenthesis takes its head along, so the induction is on the length.
  induction length : remaining.length using Nat.strongRecOn generalizing remaining state with
  | ind total ih =>
      subst length
      cases remaining with
      | nil =>
          obtain ⟨opened, spine, root⟩ := state
          rw [run.eq_def] at returned
          cases spine with
          | nil =>
              cases root with
              | none => cases returned
              | some found =>
                  cases returned
                  exact .inr ⟨_, start, rfl⟩
          | cons innermost outer => cases returned
      | cons token rest =>
          by_cases opening : isOpening token = true
          · cases rest with
            | nil =>
                rw [run, if_pos opening] at returned
                cases returned
            | cons head rest =>
                rcases run_opening_eq_ok opening returned with rfl | ⟨symbol, found, further⟩
                · exact .inl rfl
                · exact ih rest.length (by simp only [List.length_cons]; omega)
                    (opens start found) further rfl
          · obtain ⟨next, closed, further⟩ := run_closing_eq_ok opening returned
            exact ih rest.length (Nat.lt_succ_self _) (closes start closed) further rfl

theorem hasProperPhis_pointerChase : HasProperPhis .pointerChase := .node nofun nofun nofun

theorem hasProperPhis_incomplete : HasProperPhis .incomplete := .node nofun nofun nofun

theorem hasProperPhis_run {remaining : List Datum} {tree : NaryTree}
    (proper : state.HasProperPhis)
    (returned : run settings tokens remaining state = .ok tree) : HasProperPhis tree := by
  have opens {state : State} {head : Datum} {symbol : Symbol} (proper : state.HasProperPhis)
      (found : classifyElement settings head = .ok symbol) :
      State.HasProperPhis
        { state with
          opened := state.opened + 1
          spine := { text := head, symbol := symbol } :: state.spine } := by
    have opened : OpenNode.HasProperPhis { text := head, symbol := symbol } :=
      ⟨kind_ne_phiTerm_of_classifyElement found, List.forall_mem_nil _⟩
    exact ⟨proper.root, List.forall_mem_cons.mpr ⟨opened, proper.spine⟩⟩
  rcases exists_final_of_run opens State.HasProperPhis.close proper returned with
    rfl | ⟨final, last, isRoot⟩
  · exact hasProperPhis_pointerChase
  · exact last.root tree isRoot

/-- A tree that is built stands for one that was not, or is returned by a run. -/
theorem build_cases {tree : NaryTree} (built : build settings tokens = .ok (some tree)) :
    tree = .incomplete ∨ run settings tokens tokens {} = .ok tree := by
  have ran (returned : (run settings tokens tokens {}).map some = .ok (some tree)) :
      run settings tokens tokens {} = .ok tree := by
    cases found : run settings tokens tokens {} with
    | error fault =>
        rw [found] at returned
        cases returned
    | ok other =>
        rw [found] at returned
        cases returned
        rfl
  rw [build] at built
  split at built
  · cases built
  · split at built
    · split at built
      · cases built
        exact .inl rfl
      · exact .inr (ran built)
    · exact .inr (ran built)

theorem hasProperPhis_build {tree : NaryTree} (built : build settings tokens = .ok (some tree)) :
    HasProperPhis tree := by
  rcases build_cases built with rfl | ran
  · exact hasProperPhis_incomplete
  · have start : State.HasProperPhis {} := ⟨nofun, nofun⟩
    exact hasProperPhis_run start ran

end Bracketed

open NodeTable

/-- The trees of either form that are read, made or combined. -/
inductive IsBuilt : TreeForm → NodeTable → Prop
  | read {settings : Settings} {form : TreeForm} {tokens : List Datum} {tree : AddressTree}
      (built : AddressTree.build settings form tokens = .ok (some tree)) : IsBuilt form tree.table
  | single {form : TreeForm} {kind : Kind} {table : NodeTable}
      (made : Arena.single form kind = .ok table) : IsBuilt form table
  | constant {value : Value} {table : NodeTable} (made : Arena.constant value = .ok table) :
      IsBuilt .binary table
  | combined {kind : Kind} {left right table : NodeTable} (onLeft : IsBuilt .binary left)
      (onRight : IsBuilt .binary right) (made : Arena.combine kind left right = .ok table) :
      IsBuilt .binary table

theorem AddressTree.isLinked_table (tree : AddressTree) : tree.table.IsLinked := by
  cases tree with
  | binary tree => exact tree.isLinked_table
  | nary tree => exact tree.isLinked_table

theorem AddressTree.hasArities_build {settings : Settings} {tokens : List Datum}
    {tree : AddressTree} (built : AddressTree.build settings .binary tokens = .ok (some tree)) :
    HasArities tree.table.rows := by
  rw [AddressTree.build] at built
  cases read : Postfix.build settings tokens with
  | error fault =>
      rw [read] at built
      cases built
  | ok found =>
      rw [read] at built
      cases found with
      | none => cases built
      | some tree =>
          cases built
          exact tree.hasArities_rowsFrom 0 none

/-- A node without links is a linked table of its own. -/
theorem isLinked_singleton {row : NodeRow} (index : row.index = 0) (childless : row.children = [])
    (parentless : row.parent = none) : IsLinked ⟨[row], 0⟩ where
  numbered := by
    rw [IsNumbered, List.map_singleton, index]
    rfl
  linked := by
    rw [parentLinks_cons, childLinks_cons, childless, parentless]
    exact .refl _
  root := ⟨row, List.mem_singleton_self row, index, parentless⟩
  nearer := by
    refine ⟨fun _ => 0, fun other member => ?_⟩
    cases List.mem_singleton.mp member
    exact ⟨Nat.zero_lt_one, .inl index⟩

theorem isLinked_of_build_add {form : TreeForm} {draft : Draft} {table : NodeTable}
    (made : Arena.build form (Arena.add draft []) = .ok table) :
    table.IsLinked ∧ (form = .binary → HasArities table.rows) := by
  let row : NodeRow := ⟨0, draft.kind, draft.text, draft.value, draft.arg, [], none⟩
  have frozen : (Arena.holding [row]).freeze form 0 = .ok table := made
  have linked : IsLinked ⟨[row], 0⟩ := isLinked_singleton rfl rfl rfl
  obtain ⟨rfl, arities⟩ := Arena.eq_of_freeze linked.numbered frozen
  exact ⟨linked, arities⟩

theorem isLinked_of_isBuilt {form : TreeForm} {table : NodeTable} (built : IsBuilt form table) :
    table.IsLinked ∧ (form = .binary → HasArities table.rows) := by
  induction built with
  | @read settings form tokens tree built =>
      refine ⟨tree.isLinked_table, ?_⟩
      rintro rfl
      exact AddressTree.hasArities_build built
  | single made => exact isLinked_of_build_add made
  | @constant value table made =>
      rw [Arena.constant] at made
      cases described : value.describe with
      | error misuse =>
          rw [described] at made
          cases made
      | ok text =>
          rw [described] at made
          have built : Arena.build .binary (Arena.add
              { kind := .constant, text := .text text, value := some value } []) = .ok table := made
          exact isLinked_of_build_add built
  | @combined kind left right table _ _ made onLeft onRight =>
      by_cases isOperation : kind.isOperation = true
      · rw [Arena.combine_eq isOperation onLeft.1 onRight.1 (onLeft.2 rfl) (onRight.2 rfl)] at made
        cases made
        exact ⟨isLinked_joined kind onLeft.1 onRight.1,
          fun _ => hasArities_joined isOperation (onLeft.2 rfl) (onRight.2 rfl)⟩
      · rw [Arena.combine, if_neg isOperation] at made
        cases made

/-- Every tree that is built is a rooted tree. A binary one has two operands below every
operation and none below other nodes, and can be an operand of every operation. One that is
read from a parenthesized stream has its merges apart from its terms. -/
theorem isRooted_of_isBuilt {form : TreeForm} {table : NodeTable} (built : IsBuilt form table) :
    table.IsRooted ∧
      (form = .binary → ∀ row ∈ table.rows,
        row.children.length = if row.kind.isOperation then 2 else 0) ∧
      (form = .binary → ∀ (kind : Kind) (right : NodeTable), kind.isOperation = true →
        IsBuilt .binary right → ∃ joined, Arena.combine kind table right = .ok joined ∧
          IsBuilt .binary joined) ∧
      ∀ (settings : Settings) (tokens : List Datum) (tree : NaryTree),
        Bracketed.build settings tokens = .ok (some tree) → table = tree.table →
          ∀ row ∈ table.rows, row.HasProperPhi := by
  obtain ⟨linked, arities⟩ := isLinked_of_isBuilt built
  refine ⟨linked.isRooted, arities, ?_, ?_⟩
  · rintro rfl kind right isOperation rightBuilt
    obtain ⟨rightLinked, rightArities⟩ := isLinked_of_isBuilt rightBuilt
    have combined :=
      Arena.combine_eq isOperation linked rightLinked (arities rfl) (rightArities rfl)
    exact ⟨_, combined, .combined built rightBuilt combined⟩
  · rintro settings tokens tree read rfl
    exact Bracketed.hasProperPhi_rowsFrom (Bracketed.hasProperPhis_build read) 0 none

/-- A difference of a sum and one of its terms, which are copied into it. -/
theorem isRooted_difference :
    ∃ product : BinaryTree,
      Postfix.build {} [.text "TIDX", .text "4", .text "MUL"] = .ok (some product) ∧
      Arena.constant (.int 7) = .ok (BinaryTree.constant 7).table ∧
      IsBuilt .binary
        (BinaryTree.combine .sub (.combine .add product (.constant 7)) product).table ∧
      (BinaryTree.combine .sub (.combine .add product (.constant 7)) product).table.IsRooted := by
  let product : BinaryTree := .branch "MUL" .mul (.leaf (.text "TIDX") (.terminal (.thread .x)))
    (.leaf (.text "4") (.terminal (.constant 4)))
  have read : AddressTree.build {} .binary [.text "TIDX", .text "4", .text "MUL"] =
      .ok (some (.binary product)) := rfl
  have made : Arena.constant (.int 7) = .ok (BinaryTree.constant 7).table := rfl
  have sum : IsBuilt .binary (BinaryTree.combine .add product (.constant 7)).table :=
    .combined (.read read) (.constant made) (BinaryTree.combine_table .add _ _)
  have difference :
      IsBuilt .binary
        (BinaryTree.combine .sub (.combine .add product (.constant 7)) product).table :=
    .combined sum (.read read) (BinaryTree.combine_table .sub _ _)
  exact ⟨product, rfl, made, difference, (isRooted_of_isBuilt difference).1⟩

end KernelFootprint
