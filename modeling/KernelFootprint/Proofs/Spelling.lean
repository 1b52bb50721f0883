import KernelFootprint.Proofs.Index
import KernelFootprint.Tree.Postfix

/-!
# Indices in token streams

A token is read as an index exactly if it is the token of that index, unless the
token serves as the incomplete marker. Reducing a stream keeps this for every
tree on the stack, so that every tree built from a stream spells its indices.
-/

namespace KernelFootprint

theorem operatorWord?_token (index : Index) :
    operatorWord? index.kind.token = some (.terminal index.terminal) := by
  cases index with
  | thread axis => cases axis <;> decide
  | block axis => cases axis <;> decide

theorem eq_token_of_operatorWord? {text : String} {index : Index}
    (found : operatorWord? text = some (.terminal index.terminal)) :
    text = index.kind.token := by
  obtain ⟨before, after, split, _⟩ := List.lookup_eq_some_iff.mp found
  have member : (text, Symbol.terminal index.terminal) ∈ operatorWords := by
    rw [split]
    exact List.mem_append_right _ (List.mem_cons_self ..)
  have distinct : ∀ index ∈ Index.all, ∀ entry ∈ operatorWords,
      entry.2 = .terminal index.terminal → entry.1 = index.kind.token := by decide
  exact distinct index index.mem_all _ member rfl

theorem mem_of_firstReading {readings : List (Except Misuse (Option Symbol))} {symbol : Symbol}
    (found : firstReading readings = .ok (some symbol)) : .ok (some symbol) ∈ readings := by
  induction readings with
  | nil => cases found
  | cons first rest ih =>
      rcases first with misuse | reading
      · cases found
      · cases reading with
        | none => exact List.mem_cons_of_mem _ (ih found)
        | some other =>
            cases found
            exact List.mem_cons_self ..

theorem literalToken?_eq_ok {text : String} {symbol : Symbol}
    (found : literalToken? text = .ok (some symbol)) :
    ∃ value, symbol = .terminal (.constant value) := by
  rw [literalToken?] at found
  rcases read : readLiteral text with misuse | value
  · rw [read] at found
    cases found
  · rw [read] at found
    cases value with
    | none => cases found
    | some value =>
        cases found
        exact ⟨value, rfl⟩

theorem argumentToken?_eq_ok {settings : Settings} {text : String} {symbol : Symbol}
    (found : argumentToken? settings text = .ok (some symbol)) :
    ∃ formal, symbol = .terminal (.argument formal) := by
  unfold argumentToken? at found
  split at found
  · cases found
  · cases found
  · split at found
    · rename_i rest _ _
      rcases read : readIndex rest with misuse | formal
      · rw [read] at found
        cases found
      · rw [read] at found
        cases found
        exact ⟨formal, rfl⟩
    · cases found

theorem phiToken?_eq_ok {settings : Settings} {text : String} {symbol : Symbol}
    (found : phiToken? settings text = .ok (some symbol)) :
    ∃ id, symbol = .operation .phi id := by
  unfold phiToken? at found
  split at found
  · cases found
  · cases found
  · split at found
    · rename_i rest _ _
      rcases read : readIndex rest with misuse | id
      · rw [read] at found
        cases found
      · rw [read] at found
        cases found
        exact ⟨some id, rfl⟩
    · split at found
      · cases found
        exact ⟨none, rfl⟩
      · cases found

/-- Only the token of an index is read as the index. -/
theorem eq_token_of_classify {settings : Settings} {text : String} {index : Index}
    (found : classify settings text = .ok (.terminal index.terminal)) :
    text = index.kind.token := by
  rw [classify] at found
  by_cases marked : isIncompleteMark settings (.text text) = true
  · rw [if_pos marked] at found
    cases index <;> cases found
  · rw [if_neg marked] at found
    cases word : operatorWord? text with
    | some symbol =>
        rw [word] at found
        cases found
        exact eq_token_of_operatorWord? word
    | none =>
        rw [word] at found
        rcases read : firstReading
            [literalToken? text, argumentToken? settings text, phiToken? settings text] with
          misuse | reading
        · simp only [read] at found
          cases found
        · cases reading with
          | none =>
              simp only [read] at found
              cases found
          | some symbol =>
              simp only [read] at found
              cases found
              have readings := mem_of_firstReading read
              simp only [List.mem_cons, List.not_mem_nil, or_false] at readings
              rcases readings with literal | argument | phi
              · obtain ⟨value, same⟩ := literalToken?_eq_ok literal.symm
                cases index <;> cases same
              · obtain ⟨formal, same⟩ := argumentToken?_eq_ok argument.symm
                cases index <;> cases same
              · obtain ⟨id, same⟩ := phiToken?_eq_ok phi.symm
                cases same

/-- A token that is no incomplete marker is read as an index exactly if it is its token. -/
theorem classifyElement_eq_index {settings : Settings} {token : Datum} {symbol : Symbol}
    {index : Index} (unmarked : isIncompleteMark settings index.token = false)
    (read : classifyElement settings token = .ok symbol) :
    token = index.token ↔ symbol = .terminal index.terminal := by
  constructor
  · intro same
    subst same
    have word : classify settings index.kind.token = .ok (.terminal index.terminal) := by
      have other : ¬ isIncompleteMark settings (.text index.kind.token) = true := by
        rw [show isIncompleteMark settings (.text index.kind.token) = false from unmarked]
        decide
      rw [classify, if_neg other, operatorWord?_token]
    rw [Index.token, classifyElement_text, word] at read
    cases read
    rfl
  · intro same
    subst same
    cases token with
    | text text =>
        rw [classifyElement_text] at read
        rw [eq_token_of_classify read, Index.token]
    | _ =>
        simp only [classifyElement] at read
        split at read
        · cases index <;> cases read
        · cases read

namespace Postfix

/-- What every step keeps for the tokens read so far holds when all tokens are read. -/
theorem holds_of_run {settings : Settings} {holds : List Datum → State → Prop}
    {tokens consumed rest : List Datum} {state last : State}
    (steps : ∀ {consumed : List Datum} {token : Datum} {symbol : Symbol} {state next : State},
      holds consumed state → classifyElement settings token = .ok symbol →
        step tokens token state symbol = .ok next → holds (consumed ++ [token]) next)
    (start : holds consumed state) (ran : run settings tokens rest state = .ok last) :
    holds (consumed ++ rest) last := by
  induction rest generalizing consumed state with
  | nil =>
      cases ran
      rw [List.append_nil]
      exact start
  | cons token rest ih =>
      rw [run] at ran
      rcases read : classifyElement settings token with fault | symbol
      · rw [read] at ran
        cases ran
      · rcases stepped : step tokens token state symbol with fault | middle
        · rw [read] at ran
          change (step tokens token state symbol >>= _) = _ at ran
          rw [stepped] at ran
          cases ran
        · rw [read] at ran
          change (step tokens token state symbol >>= _) = _ at ran
          rw [stepped] at ran
          rw [List.append_cons]
          exact ih (steps start read stepped) ran

/-- A tree that is built stands for one that was not, or is all that a run leaves. -/
theorem build_cases {settings : Settings} {tokens : List Datum} {tree : BinaryTree}
    (built : build settings tokens = .ok (some tree)) :
    tree = .pointerChase ∨ tree = .incomplete ∨
      ∃ last, run settings tokens tokens {} = .ok last ∧ last.stack = [tree] := by
  cases tokens with
  | nil => cases built
  | cons first rest =>
      rcases measured : (settings.maxPostfixTokens.isExceededBy (first :: rest).length).mapError
        Fault.misuse with fault | exceeded
      · rw [build] at built
        simp only [measured] at built
        cases built
      · rw [build] at built
        simp only [measured] at built
        change (if exceeded = true then _ else _) = _ at built
        split at built
        · cases built
          exact .inl rfl
        · change (if isIncompleteMark settings first = true then _ else _) = _ at built
          split at built
          · cases built
            exact .inr (.inl rfl)
          · change (reduceAll settings (first :: rest) >>= _) = _ at built
            rw [reduceAll] at built
            rcases ran : run settings (first :: rest) (first :: rest) {} with fault | last
            · rw [ran] at built
              cases built
            · rw [ran] at built
              rcases last with ⟨_ | ⟨top, _ | ⟨below, others⟩⟩, awaitsTerm⟩
              · cases built
              · cases built
                exact .inr (.inr ⟨_, rfl, rfl⟩)
              · cases built

/-- Every finished tree spells an index. -/
def State.Spells (index : Index) (state : State) : Prop :=
  ∀ tree ∈ state.stack, tree.Spells index

variable {index : Index} {state next : State}

theorem State.Spells.push {tree : BinaryTree} (spelled : state.Spells index)
    (treeSpelled : tree.Spells index) : (state.push tree).Spells index := by
  intro other member
  rcases List.mem_cons.mp member with same | below
  · rw [same]
    exact treeSpelled
  · exact spelled other below

theorem spells_reduce {tokens : List Datum} {text : String} {operation : Operation}
    (spelled : state.Spells index) (reduced : reduce tokens text operation state = .ok next) :
    next.Spells index := by
  rcases state with ⟨_ | ⟨right, _ | ⟨left, rest⟩⟩, awaitsTerm⟩
  · cases reduced
  · cases reduced
  · cases reduced
    intro tree member
    rcases List.mem_cons.mp member with root | below
    · rw [root, BinaryTree.spells_branch]
      exact ⟨spelled left (List.mem_cons_of_mem _ (List.mem_cons_self ..)),
        spelled right (List.mem_cons_self ..)⟩
    · exact spelled tree (List.mem_cons_of_mem _ (List.mem_cons_of_mem _ below))

theorem spells_step {tokens : List Datum} {token : Datum} {symbol : Symbol}
    (named : token = index.token ↔ symbol = .terminal index.terminal)
    (spelled : state.Spells index) (stepped : step tokens token state symbol = .ok next) :
    next.Spells index := by
  cases symbol with
  | terminal node =>
      cases stepped
      refine spelled.push ?_
      intro text other member
      cases List.mem_singleton.mp member
      rwa [Symbol.terminal.injEq] at named
  | structural node =>
      cases stepped
      refine spelled.push ?_
      intro text other member
      cases member
  | operation operation id =>
      cases operation with
      | phi =>
          by_cases awaits : state.awaitsTerm = true
          · rw [step, if_pos awaits] at stepped
            cases stepped
            have pushed : (state.push (.leaf token (.terminal (.phiTerm id)))).Spells index := by
              refine spelled.push ?_
              intro text other member
              cases List.mem_singleton.mp member
              constructor
              · intro same
                cases named.mp same
              · intro same
                cases index <;> cases same
            exact pushed
          · rw [step, if_neg awaits] at stepped
            have awaiting : State.Spells index { state with awaitsTerm := true } := spelled
            exact spells_reduce awaiting stepped
      | _ => exact spells_reduce spelled stepped

theorem spells_incomplete (index : Index) : BinaryTree.incomplete.Spells index := by
  intro text node member
  cases List.mem_singleton.mp member
  rw [Index.token, Datum.text.injEq]
  cases index with
  | thread axis => cases axis <;> decide
  | block axis => cases axis <;> decide

/-- A tree that is built from a stream spells every index that is no incomplete marker. -/
theorem spells_build {settings : Settings} {tokens : List Datum} {tree : BinaryTree}
    (unmarked : isIncompleteMark settings index.token = false)
    (built : build settings tokens = .ok (some tree)) : tree.Spells index := by
  rcases build_cases built with rfl | rfl | ⟨last, ran, single⟩
  · exact fun text node member => absurd member List.not_mem_nil
  · exact spells_incomplete index
  · have empty : State.Spells index {} := fun other member => absurd member List.not_mem_nil
    have spelled : last.Spells index :=
      @holds_of_run settings (fun _ state => state.Spells index) tokens [] tokens {} last
        (fun spelled read stepped =>
          spells_step (classifyElement_eq_index unmarked read) spelled stepped) empty ran
    exact spelled tree (single ▸ List.mem_singleton_self tree)

end Postfix

end KernelFootprint
