import KernelFootprint.Address.Range

/-!
# Phi terms and the merges that claim them

The open phi terms of a tree can be read off the tree itself, with subtrees in the place
of their values. What a merge is worth then depends on the values of its operands, or
on those of the operands beside its own phi term and of what is added to the term.
-/

namespace KernelFootprint

namespace OpenTerm

variable {First Second : Type}

def map (change : First → Second) (term : OpenTerm First) : OpenTerm Second where
  addends := term.addends.map change
  obstacle := term.obstacle

theorem map_lift (change : First → Second) (text : String) (additive : Bool)
    (siblings : List First) (term : OpenTerm First) :
    (term.lift text additive siblings).map change =
      (term.map change).lift text additive (siblings.map change) := by
  obtain ⟨addends, obstacle⟩ := term
  cases obstacle with
  | some name => rfl
  | none =>
      cases additive with
      | true =>
          change OpenTerm.mk ((addends ++ siblings).map change) none = _
          rw [List.map_append]
          rfl
      | false => rfl

theorem mem_addends_lift {text : String} {additive : Bool} {siblings : List First}
    {term : OpenTerm First} {addend : First}
    (member : addend ∈ (term.lift text additive siblings).addends) :
    addend ∈ term.addends ∨ addend ∈ siblings := by
  obtain ⟨addends, obstacle⟩ := term
  cases obstacle with
  | some name => exact .inl member
  | none =>
      cases additive with
      | true => exact List.mem_append.mp member
      | false => exact .inl member

end OpenTerm

namespace NaryTree

mutual

/-- The phi terms of a tree that no merge in it claims, with the subtrees that are added
to them. -/
def openTerms : NaryTree → List (OpenTerm NaryTree)
  | .node text symbol children =>
      let lifted := (termsAmong [] children).map
        (fun entry => entry.1.lift text.shown symbol.isAdditive entry.2)
      match symbol with
      | .terminal (.phiTerm _) => {} :: lifted
      | .operation .phi _ => []
      | _ => lifted

/-- The open terms of neighbouring trees, each with the trees that it does not stand in. -/
def termsAmong (before : List NaryTree) :
    List NaryTree → List (OpenTerm NaryTree × List NaryTree)
  | [] => []
  | tree :: rest =>
      tree.openTerms.map (fun term => (term, before ++ rest)) ++
        termsAmong (before ++ [tree]) rest

end

/-- The phi terms that a merge of some operands claims. -/
def claimedTerms (operands : List NaryTree) : List (OpenTerm NaryTree × List NaryTree) :=
  termsAmong [] operands

theorem mem_termsAmong {before trees : List NaryTree}
    {entry : OpenTerm NaryTree × List NaryTree} (member : entry ∈ termsAmong before trees) :
    (∃ tree ∈ trees, entry.1 ∈ tree.openTerms) ∧
      ∀ other ∈ entry.2, other ∈ before ∨ other ∈ trees := by
  induction trees generalizing before with
  | nil => cases member
  | cons first rest ih =>
      rw [termsAmong, List.mem_append] at member
      rcases member with onFirst | onRest
      · obtain ⟨term, inside, rfl⟩ := List.mem_map.mp onFirst
        refine ⟨⟨first, List.mem_cons_self .., inside⟩, fun other among => ?_⟩
        exact (List.mem_append.mp among).imp_right (List.mem_cons_of_mem _)
      · obtain ⟨⟨tree, within, inside⟩, others⟩ := ih onRest
        refine ⟨⟨tree, List.mem_cons_of_mem _ within, inside⟩, fun other among => ?_⟩
        rcases others other among with early | late
        · rcases List.mem_append.mp early with before | own
          · exact .inl before
          · exact .inr (List.mem_singleton.mp own ▸ List.mem_cons_self ..)
        · exact .inr (List.mem_cons_of_mem _ late)

/-- What is added to an open term stands beside it or was added to it further below. -/
theorem mem_addends_openTerms {text : Datum} {symbol : Symbol} {children : List NaryTree}
    {term : OpenTerm NaryTree} (isOpen : term ∈ (node text symbol children).openTerms)
    {addend : NaryTree} (added : addend ∈ term.addends) :
    addend ∈ children ∨ ∃ child ∈ children, ∃ below ∈ child.openTerms, addend ∈ below.addends := by
  have lifted (among : term ∈ (termsAmong [] children).map
      (fun entry => entry.1.lift text.shown symbol.isAdditive entry.2)) :
      addend ∈ children ∨
        ∃ child ∈ children, ∃ below ∈ child.openTerms, addend ∈ below.addends := by
    obtain ⟨entry, inside, rfl⟩ := List.mem_map.mp among
    obtain ⟨⟨child, within, below⟩, others⟩ := mem_termsAmong inside
    rcases OpenTerm.mem_addends_lift added with early | beside
    · exact .inr ⟨child, within, entry.1, below, early⟩
    · exact .inl ((others addend beside).resolve_left List.not_mem_nil)
  unfold openTerms at isOpen
  split at isOpen
  · rcases List.mem_cons.mp isOpen with rfl | among
    · cases added
    · exact lifted among
  · cases isOpen
  · exact lifted isOpen

variable (setting : RangeSetting)

theorem meanings_eq_map (trees : List NaryTree) :
    meanings setting trees = trees.map (meaning setting) := by
  induction trees with
  | nil => rfl
  | cons tree rest ih => rw [meanings, ih, List.map_cons]

theorem map_value_meanings (trees : List NaryTree) :
    (meanings setting trees).map Meaning.value = trees.map (rangeValue setting) := by
  rw [meanings_eq_map, List.map_map]
  rfl

/-- An open term with the values of subtrees in place of the subtrees. -/
def valued (entry : OpenTerm NaryTree × List NaryTree) :
    OpenTerm (Analysis Value) × List (Analysis Value) :=
  (entry.1.map (rangeValue setting), entry.2.map (rangeValue setting))

/-- The open terms of operands seen from the node above, read off the terms among them. -/
theorem liftedTerms_eq (text : String) (symbol : Symbol) (operands : List Meaning) :
    liftedTerms text symbol operands =
      ((withSiblings [] operands).flatMap
        (fun entry => entry.1.terms.map (fun term => (term, entry.2)))).map
          (fun entry => entry.1.lift text symbol.isAdditive entry.2) := by
  rw [liftedTerms, List.map_flatMap]
  simp only [List.map_map, Function.comp_def]

mutual

/-- The terms in the meaning of a tree are its open terms with values for subtrees. -/
theorem terms_meaning (tree : NaryTree) :
    (meaning setting tree).terms =
      tree.openTerms.map (OpenTerm.map (rangeValue setting)) := by
  cases tree with
  | node text symbol children =>
      have lifted : liftedTerms text.shown symbol (meanings setting children) =
          ((termsAmong [] children).map
            (fun entry => entry.1.lift text.shown symbol.isAdditive entry.2)).map
              (OpenTerm.map (rangeValue setting)) := by
        have among := terms_meanings [] children
        rw [List.map_nil] at among
        rw [liftedTerms_eq, among, List.map_map, List.map_map]
        refine List.map_congr_left ?_
        intro entry _
        exact (OpenTerm.map_lift _ _ _ entry.2 entry.1).symm
      cases symbol with
      | terminal node =>
          cases node with
          | phiTerm id => exact congrArg (List.cons {}) lifted
          | _ => exact lifted
      | operation operation id =>
          cases operation with
          | phi => rfl
          | _ => exact lifted
      | structural kind => exact lifted

theorem terms_meanings (before trees : List NaryTree) :
    (withSiblings (before.map (rangeValue setting)) (meanings setting trees)).flatMap
        (fun entry => entry.1.terms.map (fun term => (term, entry.2))) =
      (termsAmong before trees).map (valued setting) := by
  cases trees with
  | nil => rfl
  | cons tree rest =>
      have onTree := terms_meaning tree
      have onRest := terms_meanings (before ++ [tree]) rest
      rw [List.map_append] at onRest
      rw [meanings, withSiblings, List.flatMap_cons, termsAmong, List.map_append, onTree,
        map_value_meanings]
      congr 1
      · rw [List.map_map, List.map_map]
        refine List.map_congr_left ?_
        intro term _
        rw [Function.comp, Function.comp, valued, List.map_append]
end

variable {setting}

theorem rangeValue_terminal (text : Datum) (node : Terminal) (children : List NaryTree) :
    rangeValue setting (.node text (.terminal node) children) =
      setting.context.terminal text node := by
  cases node <;> rfl

theorem rangeValue_operation {operation : Operation} (isOther : operation ≠ .phi) (text : Datum)
    (id : Option Nat) (operands : List NaryTree) :
    rangeValue setting (.node text (.operation operation id) operands) =
      operationValue setting text.shown operation (operands.map (rangeValue setting)) := by
  rw [← map_value_meanings]
  cases operation with
  | phi => exact absurd rfl isOther
  | _ => rfl

theorem rangeValue_structural (text : Datum) (kind : Structural) (operands : List NaryTree) :
    rangeValue setting (.node text (.structural kind) operands) =
      structuralValue setting text.shown kind (operands.map (rangeValue setting)) := by
  rw [← map_value_meanings]
  rfl

/-- A merge without a term of its own is worth the extremum of its operands. -/
theorem rangeValue_merge {operands : List NaryTree} (unclaimed : claimedTerms operands = [])
    (text : Datum) (id : Option Nat) :
    rangeValue setting (.node text (.operation .phi id) operands) =
      combineAll setting setting.context.mode.extremum
        (operands.map (rangeValue setting)) := by
  have first : firstTerm (meanings setting operands) = none := by
    have among := terms_meanings setting [] operands
    rw [List.map_nil] at among
    rw [firstTerm, among, ← claimedTerms, unclaimed]
    rfl
  change mergeValue setting text.shown id (meanings setting operands) = _
  rw [mergeValue, first, ← map_value_meanings]

/-- A merge with a term of its own is worth its entry value moved by its drift. -/
theorem rangeValue_recurrence {operands entries : List NaryTree} {term : OpenTerm NaryTree}
    {rest : List (OpenTerm NaryTree × List NaryTree)}
    (claimed : claimedTerms operands = (term, entries) :: rest) (text : Datum) (id : Option Nat) :
    rangeValue setting (.node text (.operation .phi id) operands) =
      match term.obstacle with
      | some obstacle => Analysis.fail (Misshape.brokenRecurrence obstacle text.shown)
      | none =>
          if entries.isEmpty then Analysis.fail (Misshape.noEntryValue text.shown)
          else
            recurrenceValue setting text.shown id (term.addends.map (rangeValue setting))
              (entries.map (rangeValue setting)) := by
  have first : firstTerm (meanings setting operands) = some (valued setting (term, entries)) := by
    have among := terms_meanings setting [] operands
    rw [List.map_nil] at among
    rw [firstTerm, among, ← claimedTerms, claimed]
    rfl
  change mergeValue setting text.shown id (meanings setting operands) = _
  rw [mergeValue, first]
  cases entries <;> rfl

end NaryTree

end KernelFootprint
