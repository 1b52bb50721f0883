import KernelFootprint.Proofs.Findings
import KernelFootprint.Proofs.TokenData

/-!
# Accesses without a tree of their own

The working set of an access without a tree of any arity is that of its postfix expression.
A tree that is evaluated has no structural node, so that an expression with an address
computation has no extreme value, and one without it is a single location. What a stream
is built to contains every token of the stream. Hence the working set of such an access is
missing or one, whatever is estimated.
-/

namespace KernelFootprint

open Analysis Estimation

namespace BinaryTree

variable {valuation : Valuation} {tree : BinaryTree}

/-- A tree with a value has no structural node. -/
theorem family_ne_structural {before after : Ledger} {value : Value}
    (returned : (tree.evaluateWith valuation).outcome before = (.ok value, after)) (first : Nat)
    (parent : Option Int) :
    ∀ row ∈ tree.rowsFrom first parent, row.kind.family ≠ .structural := by
  induction tree generalizing before after value first parent with
  | leaf text symbol =>
      refine List.forall_mem_singleton.mpr (fun same => ?_)
      cases symbol with
      | terminal node => cases node <;> cases same
      | structural node => cases returned
  | branch text operation left right leftIH rightIH =>
      obtain ⟨_, _, _, _, leftReturned, rightReturned, _⟩ :=
        evaluateWith_branch_eq_ok.mp returned
      intro row member same
      rw [rowsFrom, List.mem_append, List.mem_append] at member
      rcases member with (inLeft | inRight) | atRoot
      · exact leftIH leftReturned first _ row inLeft same
      · exact rightIH rightReturned _ _ row inRight same
      · cases List.mem_singleton.mp atRoot
        cases same

/-- Whether a tree cannot be evaluated, however its terminals are valued. -/
def HasNoValue (tree : BinaryTree) : Prop :=
  ∀ valuation ledger, ∃ fault,
    ((tree.evaluateWith valuation).outcome ledger).1 = .error fault

/-- A structural node keeps a tree from having a value. -/
theorem hasNoValue_of_contains {node : Structural}
    (contains : tree.table.contains (.structural node) = true) : tree.HasNoValue := by
  intro valuation ledger
  rcases returned : (tree.evaluateWith valuation).outcome ledger with ⟨fault | value, after⟩
  · exact ⟨fault, rfl⟩
  · obtain ⟨row, member, same⟩ := List.any_eq_true.mp contains
    have other := family_ne_structural returned 0 none row member
    rw [beq_iff_eq.mp same] at other
    exact absurd rfl other

/-- A single leaf stands for a tree that was not built. -/
theorem eq_leaf_of_isSentinel (sentinel : tree.table.isSentinel = true) :
    ∃ text symbol, tree = .leaf text symbol ∧
      (symbol = .structural .pointerChase ∨ symbol = .terminal .incomplete) := by
  rw [NodeTable.isSentinel, Bool.and_eq_true, beq_iff_eq] at sentinel
  obtain ⟨single, mark⟩ := sentinel
  cases tree with
  | leaf text symbol =>
      refine ⟨text, symbol, rfl, ?_⟩
      cases symbol with
      | terminal node =>
          cases node with
          | incomplete => exact .inr rfl
          | _ => cases mark
      | structural node =>
          cases node with
          | pointerChase => exact .inl rfl
          | _ => cases mark
  | branch text operation left right =>
      have large := left.size_pos
      rw [table, length_rowsFrom, size] at single
      omega

end BinaryTree

theorem Symbol.eq_structural_of_kind {symbol : Symbol} {node : Structural}
    (same : symbol.kind = .structural node) : symbol = .structural node := by
  cases symbol with
  | terminal leaf => cases leaf <;> cases same
  | operation operation id => cases same
  | structural other =>
      cases same
      rfl

namespace Postfix

/-- Whether a token of a stream is read as an address computation. -/
def Addresses (settings : Settings) (tokens : List Datum) : Prop :=
  ∃ token ∈ tokens, classifyElement settings token = .ok (.structural .gep)

variable {settings : Settings} {tokens : List Datum} {tree : BinaryTree}

/-- A structural node is in a tree exactly if a token of the stream is read as it. -/
theorem contains_structural_iff (built : build settings tokens = .ok (some tree))
    (proper : tree.table.isSentinel = false) (node : Structural) :
    tree.table.contains (.structural node) = true ↔
      ∃ token ∈ tokens, classifyElement settings token = .ok (.structural node) := by
  obtain ⟨labelled, texts⟩ := isLabelled_of_build built proper
  have read := labelled.isReadAs 0 none
  rw [NodeTable.contains, List.any_eq_true]
  constructor
  · rintro ⟨row, member, same⟩
    obtain ⟨symbol, classified, isReadAs⟩ := read row member
    refine ⟨row.text, texts ▸ List.mem_map_of_mem member, ?_⟩
    rcases isReadAs.kind with kind | ⟨_, kind⟩
    · rw [beq_iff_eq.mp same] at kind
      rw [classified, Symbol.eq_structural_of_kind kind.symm]
    · rw [beq_iff_eq.mp same] at kind
      cases kind
  · rintro ⟨token, member, classified⟩
    rw [← texts] at member
    obtain ⟨row, inside, rfl⟩ := List.mem_map.mp member
    obtain ⟨symbol, found, isReadAs⟩ := read row inside
    cases classified.symm.trans found
    rcases isReadAs.kind with kind | ⟨isPhi, _⟩
    · exact ⟨row, inside, beq_iff_eq.mpr kind⟩
    · cases isPhi

/-- What a stream settles about the address that it is built to. -/
structure Settles (settings : Settings) (tokens : List Datum) (tree : BinaryTree) : Prop where
  built : build settings tokens = .ok (some tree)
  onNode : tree.table.contains (.structural .gep) = true → tree.HasNoValue
  /-- Of a stream that is marked as incomplete nothing is built but the mark. -/
  onAddress : Addresses settings tokens → tree.isIncomplete = true ∨ tree.HasNoValue
  onTrivial : ¬ Addresses settings tokens → (AddressTree.binary tree).isTrivial = true

theorem settles_of_build (built : build settings tokens = .ok (some tree)) :
    Settles settings tokens tree := by
  have onNode := @BinaryTree.hasNoValue_of_contains tree .gep
  cases sentinel : tree.table.isSentinel with
  | false =>
      have contains := contains_structural_iff built sentinel .gep
      refine ⟨built, onNode, fun addresses => .inr (onNode (contains.mpr addresses)),
        fun unaddressed => ?_⟩
      rw [AddressTree.isTrivial, Bool.not_eq_true']
      exact Bool.eq_false_iff.mpr (mt contains.mp unaddressed)
  | true =>
      obtain ⟨text, symbol, rfl, rfl | rfl⟩ := BinaryTree.eq_leaf_of_isSentinel sentinel
      · have contains : (BinaryTree.leaf text (.structural .pointerChase)).table.contains
            (.structural .pointerChase) = true := rfl
        exact ⟨built, onNode, fun _ => .inr (BinaryTree.hasNoValue_of_contains contains),
          fun _ => rfl⟩
      · exact ⟨built, onNode, fun _ => .inl rfl, fun _ => rfl⟩

end Postfix

/-- What follows a failure does not return. -/
theorem Analysis.exists_fault_bind {First Second : Type} {first : Analysis First} {ledger : Ledger}
    (fails : ∃ fault, (first.outcome ledger).1 = .error fault) (next : First → Analysis Second) :
    ∃ fault, ((first >>= next).outcome ledger).1 = .error fault := by
  rw [outcome_bind]
  rcases found : first.outcome ledger with ⟨fault | value, after⟩
  · exact ⟨fault, rfl⟩
  · obtain ⟨fault, failed⟩ := fails
    rw [found] at failed
    cases failed

/-- Whether a working set is missing or that of a single location. -/
def IsAtMostSingle (workingSet : Option Value) : Prop :=
  workingSet = none ∨ workingSet = some 1

namespace Estimator

variable {estimator : Estimator} {access : AccessRecord} {expression : BinaryTree}
  {turn after : Progress}

/-- What settles a working set without any computation. -/
theorem isAtMostSingle_of_settled {tree : AddressTree}
    {found : Option Value × List Flag × List String} (settled : tree.settled? = some found) :
    IsAtMostSingle found.1 := by
  unfold AddressTree.settled? at settled
  split at settled
  · cases settled
    exact .inl rfl
  · split at settled
    · cases settled
      exact .inl rfl
    · split at settled
      · cases settled
        exact .inr rfl
      · cases settled

theorem contains_gep_of_unsettled {tree : AddressTree} (unsettled : tree.settled? = none) :
    tree.table.contains (.structural .gep) = true := by
  unfold AddressTree.settled? at unsettled
  split at unsettled
  · cases unsettled
  · split at unsettled
    · cases unsettled
    · split at unsettled
      · cases unsettled
      · next nontrivial => simpa [AddressTree.isTrivial] using nontrivial

/-- A computation that fails leaves no working set. -/
theorem spreadOf_of_fails {compute : Analysis Value}
    (fails : ∀ ledger, ∃ fault, (compute.outcome ledger).1 = .error fault)
    {found : Option Value × List Flag × List String}
    (returned : (estimator.spreadOf access compute).outcome turn = (.ok found, after)) :
    found.1 = none := by
  obtain ⟨outcome, middle, attempted, onward⟩ := outcome_bind_eq_ok.mp returned
  rw [outcome_attemptAnalysis] at attempted
  obtain ⟨fault, failed⟩ := fails turn.ledger
  rcases computed : compute.outcome turn.ledger with ⟨(error | cause) | value, ledger⟩
  · rw [computed] at attempted
    cases attempted
    cases error with
    | incomputable loop obstacle =>
        cases onward
        rfl
    | _ =>
        obtain ⟨text, _, _, same⟩ := outcome_bind_eq_ok.mp onward
        cases same
        rfl
  · rw [computed] at attempted
    cases attempted
  · rw [computed] at failed
    cases failed

/-- Without a tree of its own an access has no working set but that of a single location. -/
theorem Comes.isAtMostSingle (treeless : access.tree = none) {estimate : Estimate}
    (comes : estimator.Comes access turn estimate after) :
    IsAtMostSingle estimate.workingSet := by
  cases comes with
  | unanalyzable _ => exact .inl rfl
  | incomputable _ _ _ => exact .inl rfl
  | @computable expression _ _ _ _ _ _ computed =>
      obtain ⟨⟨_, _, _, workingSet, flags, remarks, _, moved, _, _, spread, rfl⟩⟩ :=
        computes_of_quantities computed
      have fallback : addressTree access expression = .binary expression := by
        rw [addressTree, treeless]
      rw [spread_eq, fallback] at spread
      cases settles : (AddressTree.binary expression).settled? with
      | some found =>
          rw [settles] at spread
          cases spread
          exact isAtMostSingle_of_settled settles
      | none =>
          -- What is left to compute has an address computation, which has no value.
          rw [settles] at spread
          have fails := BinaryTree.hasNoValue_of_contains (contains_gep_of_unsettled settles)
          refine .inl (spreadOf_of_fails (fun ledger => ?_) spread)
          rw [workingSetSize]
          exact Analysis.exists_fault_bind (fails _ ledger) _

end Estimator

namespace Catalogue

variable {settings : Settings} {tables : Tables} {catalogue : Catalogue} {row : Row}
  {treeTokens : Datum} {access : AccessRecord}

/-- The tokens of the address expression in a row of the table of accesses. -/
def expressionTokens (row : Row) : Datum :=
  (Datum.field? "expression_tokens" row).getD (.list [])

/-- Whether an access is what a row of the table of accesses is read as. -/
structure IsReadFrom (settings : Settings) (tables : Tables) (row : Row) (access : AccessRecord) :
    Prop where
  among : ∃ data, tables.accessRows.elements = .ok data ∧
    ∃ datum ∈ data, datum.entries = .ok row
  read : ∃ treeTokens, accessRecord settings row treeTokens = .ok access

theorem build_of_attempt {Tree : Type} {build : List Datum → Except Fault (Option Tree)}
    {subject : String} {tokens : Datum} {tree : Tree} {errors : List String}
    (attempted : attempt build subject tokens = .ok (some tree, errors)) :
    ∃ elements, tokens.elements = .ok elements ∧ build elements = .ok (some tree) := by
  unfold attempt at attempted
  split at attempted
  · obtain ⟨elements, listed, attempted⟩ := Postfix.bind_eq_ok.mp attempted
    refine ⟨elements, reading_eq_ok.mp listed, ?_⟩
    split at attempted
    · next built =>
        cases attempted
        exact built
    · cases attempted
    · cases attempted
  · cases attempted

/-- The expression of an access is built from the tokens in its row. -/
theorem build_of_accessRecord (read : accessRecord settings row treeTokens = .ok access)
    {expression : BinaryTree} (given : access.expression = some expression) :
    ∃ tokens, (expressionTokens row).elements = .ok tokens ∧
      Postfix.build settings tokens = .ok (some expression) := by
  obtain ⟨_, _, read⟩ := Postfix.bind_eq_ok.mp read
  obtain ⟨_, _, read⟩ := Postfix.bind_eq_ok.mp read
  obtain ⟨_, _, read⟩ := Postfix.bind_eq_ok.mp read
  obtain ⟨_, _, read⟩ := Postfix.bind_eq_ok.mp read
  obtain ⟨_, _, read⟩ := Postfix.bind_eq_ok.mp read
  obtain ⟨_, _, read⟩ := Postfix.bind_eq_ok.mp read
  obtain ⟨⟨found, _⟩, attempted, read⟩ := Postfix.bind_eq_ok.mp read
  obtain ⟨_, _, same⟩ := Postfix.bind_eq_ok.mp read
  cases same
  cases given
  exact build_of_attempt attempted

/-- A record that is read from a list is what one of its elements is read as. -/
theorem exists_of_mem_mapM {Element Record : Type} {read : Element → Reading Record}
    {elements : List Element} {records : List Record} (all : elements.mapM read = .ok records)
    {record : Record} (member : record ∈ records) :
    ∃ element ∈ elements, read element = .ok record := by
  induction elements generalizing records with
  | nil =>
      cases all
      cases member
  | cons first rest ih =>
      rw [List.mapM_cons] at all
      obtain ⟨head, onFirst, all⟩ := Postfix.bind_eq_ok.mp all
      obtain ⟨others, onRest, same⟩ := Postfix.bind_eq_ok.mp all
      cases same
      rcases List.mem_cons.mp member with rfl | among
      · exact ⟨first, List.mem_cons_self .., onFirst⟩
      · obtain ⟨element, inside, found⟩ := ih onRest among
        exact ⟨element, List.mem_cons_of_mem _ inside, found⟩

/-- Every access of a catalogue was read from a row. -/
theorem exists_isReadFrom (built : ofTables settings tables = .ok catalogue)
    {entry : Datum.Key × KernelRecord} (catalogued : entry ∈ catalogue) {number : Int}
    (member : (number, access) ∈ entry.2.accesses) :
    ∃ row, IsReadFrom settings tables row access := by
  obtain ⟨data, separate, loops, accesses, phis, listed, read, made⟩ :=
    exists_records_of_ofTables built
  have among := @isGroup_accesses loops accesses phis catalogue made
    (fun _ access => access ∈ accesses) (fun _ inside => inside) entry catalogued
  obtain ⟨datum, inside, found⟩ := exists_of_mem_mapM read (among.belong _ member)
  obtain ⟨row, entries, found⟩ := Postfix.bind_eq_ok.mp found
  obtain ⟨treeTokens, _, found⟩ := Postfix.bind_eq_ok.mp found
  obtain ⟨record, made, found⟩ := Postfix.bind_eq_ok.mp found
  obtain ⟨_, _, same⟩ := Postfix.bind_eq_ok.mp found
  cases same
  exact ⟨row, ⟨data, reading_eq_ok.mp listed, datum, inside, reading_eq_ok.mp entries⟩,
    treeTokens, made⟩

end Catalogue

/-- An access without a tree of its own has no working set but that of a single location. The
stream in its row settles why: its expression cannot be evaluated if the stream has an address
computation, and is a single location otherwise. -/
theorem isAtMostSingle_of_estimateInvocation {settings options : Settings}
    {tables : Catalogue.Tables} {catalogue : Catalogue} {resolver : Resolver}
    {start last : Progress} {map : EstimateMap}
    (built : Catalogue.ofTables settings tables = .ok catalogue)
    (returned : (estimateInvocation catalogue options resolver).outcome start = (.ok map, last))
    {kernel : KernelRecord}
    (launched : catalogue.find? resolver.invocation.kernel = .ok (some kernel)) {number : Int}
    {access : AccessRecord} (member : (number, access) ∈ kernel.accesses)
    (treeless : access.tree = none) :
    (∃ estimate ∈ map.estimates, estimate.key.access = number) ∧
      (∀ estimate ∈ map.estimates, estimate.key.access = number →
        IsAtMostSingle estimate.workingSet) ∧
      ∃ row, Catalogue.IsReadFrom settings tables row access ∧
        ∀ expression, access.expression = some expression →
          ∃ tokens, (Catalogue.expressionTokens row).elements = .ok tokens ∧
            Postfix.Settles settings tokens expression := by
  have filed := (Catalogue.isFiled_ofTables built).find? launched
  have numbered : access.id = number := filed.numbered _ member
  obtain ⟨key, catalogued⟩ := Catalogue.exists_mem_of_find? launched
  rw [outcome_estimateInvocation launched] at returned
  obtain ⟨onAccesses, onEstimates⟩ := LoopNest.estimates_of_estimateKernel returned
  refine ⟨?_, fun estimate among named => ?_, ?_⟩
  · obtain ⟨estimate, among, named⟩ := onAccesses access (LoopNest.mem_accesses.mpr ⟨_, member⟩)
    exact ⟨estimate, among, named.trans numbered⟩
  · obtain ⟨other, inside, estimator, turn, after, _, comes⟩ := onEstimates estimate among
    obtain ⟨otherNumber, otherMember⟩ := LoopNest.mem_accesses.mp inside
    have sameId : other.id = access.id := by
      rw [comes.key_eq] at named
      exact named.trans numbered.symm
    cases filed.eq_of_id otherMember member sameId
    exact comes.isAtMostSingle treeless
  · obtain ⟨row, isReadFrom⟩ := Catalogue.exists_isReadFrom built catalogued member
    refine ⟨row, isReadFrom, fun expression given => ?_⟩
    obtain ⟨treeTokens, read⟩ := isReadFrom.read
    obtain ⟨tokens, listed, reduces⟩ := Catalogue.build_of_accessRecord read given
    exact ⟨tokens, listed, Postfix.settles_of_build reduces⟩

/-- A row of the table of accesses without a tree. -/
def treelessRow (number : Int) (tokens : List String) : Datum :=
  .table [("kernel_name", .text "kernel"), ("access_id", .integer number),
    ("allocation_arg", .integer 0), ("expression_tokens", .list (tokens.map .text))]

def treelessTables : Catalogue.Tables where
  accessRows := .list [treelessRow 1 ["TIDX", "GEP", "ADD"], treelessRow 2 ["TIDX"]]

/-- The kernel of these tables, with an access to a computed address and one to a thread index. -/
def treeless : KernelRecord where
  name := .text "kernel"
  accesses :=
    [(1, LoopNest.accessAt 1 0 (.branch "ADD" .add LoopNest.threadIndex
        (.leaf (.text "GEP") (.structural .gep)))),
      (2, LoopNest.accessAt 2 0 LoopNest.threadIndex)]

/-- The working set at the computed address is missing, the other one is a single location. -/
theorem isAtMostSingle_treeless :
    ∃ map last, Catalogue.ofTables {} treelessTables = .ok [(.text "kernel", treeless)] ∧
      (estimateInvocation [(.text "kernel", treeless)] {} (.sample (.constant 128))).outcome
        { sink := .absent } = (.ok map, last) ∧
      map.estimates.map (fun estimate => (estimate.key.access, estimate.workingSet.isSome)) =
        [(1, false), (2, true)] ∧
      ∀ entry ∈ treeless.accesses, ∀ estimate ∈ map.estimates, estimate.key.access = entry.1 →
        IsAtMostSingle estimate.workingSet := by
  have built : Catalogue.ofTables {} treelessTables = .ok [(.text "kernel", treeless)] := rfl
  have results : ((estimateInvocation [(.text "kernel", treeless)] {}
      (.sample (.constant 128))).outcome { sink := .absent }).1.toOption.map (fun map =>
        map.estimates.map (fun estimate => (estimate.key.access, estimate.workingSet.isSome))) =
      some [(1, false), (2, true)] := by decide +kernel
  rcases returned : (estimateInvocation [(.text "kernel", treeless)] {}
      (.sample (.constant 128))).outcome { sink := .absent } with ⟨fault | map, last⟩
  · rw [returned] at results
    cases results
  · rw [returned] at results
    refine ⟨map, last, built, rfl, Option.some.inj results, ?_⟩
    have unbuilt : ∀ entry ∈ treeless.accesses, entry.2.tree = none := by decide +kernel
    exact fun entry member => (isAtMostSingle_of_estimateInvocation built returned rfl
      member (unbuilt entry member)).2.1

end KernelFootprint
