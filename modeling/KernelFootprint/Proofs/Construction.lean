import KernelFootprint.Catalogue
import KernelFootprint.Proofs.BoundSections
import KernelFootprint.Proofs.Groups
import KernelFootprint.Proofs.Legibility
import Mathlib.Data.List.Forall2

/-!
# Catalogues from tables with malformed streams

The rows of the tables are read one by one, and every stream of a row is built by itself.
A stream that is malformed leaves a message in the record of its row and no tree. Hence a
catalogue is made of any tables whose streams are legible, the last row of every loop and
of every access gives its record, and emptying malformed streams changes nothing but
messages.
-/

namespace KernelFootprint.Catalogue

/-- The tokens of a loop row, in one entry or in three. -/
inductive BoundTokens
  | separate (initial final step : List String)
  | combined (tokens : List String)

/-- What a loop row says. -/
structure LoopRow where
  kernel : String
  id : Int
  parent : Int
  known : Datum
  tokens : BoundTokens

/-- What an access row says. -/
structure AccessRow where
  kernel : String
  id : Int
  allocationArg : Int
  loop : Int
  condition : Int
  conditionKind : Datum
  expression : List String
  tree : List String

/-- What a row about the tree of an access says. -/
structure TreeRow where
  kernel : String
  id : Int
  tokens : List String

/-- A list of texts under a name, which may be left out if it is empty. -/
def HasTexts (row : Row) (name : String) (texts : List String) : Prop :=
  (Datum.field? name row).getD (.list []) = .list (texts.map .text)

def HasInteger (row : Row) (name : String) (number : Int) : Prop :=
  Datum.field? name row = some (.integer number)

/-- A number under a name, which may be left out if it is zero. -/
def HasOptionalInteger (row : Row) (name : String) (number : Int) : Prop :=
  (Datum.field? name row).getD (.integer 0) = .integer number

def BoundTokens.AreIn (row : Row) : BoundTokens → Prop
  | .separate initial final step =>
      Datum.field? "bound_tokens" row = none ∧ HasTexts row "init_tokens" initial ∧
        HasTexts row "final_tokens" final ∧ HasTexts row "step_tokens" step
  | .combined tokens => Datum.field? "bound_tokens" row = some (.list (tokens.map .text))

structure LoopRow.IsIn (loop : LoopRow) (row : Row) : Prop where
  kernel : Datum.field? "kernel_name" row = some (.text loop.kernel)
  id : HasInteger row "loop_id" loop.id
  parent : HasOptionalInteger row "parent_loop_id" loop.parent
  known : (Datum.field? "known_iteration_count" row).getD .null = loop.known
  tokens : loop.tokens.AreIn row

structure AccessRow.IsIn (access : AccessRow) (row : Row) : Prop where
  kernel : Datum.field? "kernel_name" row = some (.text access.kernel)
  id : HasInteger row "access_id" access.id
  allocationArg : HasInteger row "allocation_arg" access.allocationArg
  loop : HasOptionalInteger row "loop_id" access.loop
  condition : HasOptionalInteger row "cond_id" access.condition
  conditionKind : (Datum.field? "cond_kind" row).getD .null = access.conditionKind
  expression : HasTexts row "expression_tokens" access.expression
  tree : HasTexts row "tree_tokens" access.tree

structure TreeRow.IsIn (tree : TreeRow) (row : Row) : Prop where
  kernel : Datum.field? "kernel_name" row = some (.text tree.kernel)
  id : HasInteger row "access_id" tree.id
  tokens : Datum.field? "tree_tokens" row = some (.list (tree.tokens.map .text))

structure PhiRow.IsIn (phi : PhiRow) (row : Row) : Prop where
  kernel : phi.kernel = none ∧ (Datum.field? "kernel_name" row).getD .null = .null ∨
    ∃ name, phi.kernel = some (.text name) ∧ Datum.field? "kernel_name" row = some (.text name)
  id : HasInteger row "phi_id" phi.phi
  loop : HasInteger row "loop_id" phi.loop

/-- A table of rows, each of which is about one of the given entries. -/
def Lists {Entry : Type} (isIn : Entry → Row → Prop) (table : Datum) (entries : List Entry) :
    Prop :=
  ∃ rows, table = .list (rows.map .table) ∧ List.Forall₂ isIn entries rows

/-- What the rows of all tables say. -/
structure Content where
  loops : List LoopRow := []
  accesses : List AccessRow := []
  trees : List TreeRow := []
  phis : List PhiRow := []

structure Content.IsIn (content : Content) (tables : Tables) : Prop where
  loops : Lists LoopRow.IsIn tables.loopRows content.loops
  accesses : Lists AccessRow.IsIn tables.accessRows content.accesses
  trees : Lists TreeRow.IsIn tables.accessTreeRows content.trees
  phis : Lists PhiRow.IsIn tables.phiLoopRows content.phis

/-- Whether every marker of a known iteration count has a literal after it. -/
def CountsAreGiven : List String → Prop
  | [] => True
  | [token] => token ≠ "IT"
  | token :: next :: rest =>
      if token = "IT" then (∃ count, readLiteral next = .ok (some count)) ∧ CountsAreGiven rest
      else CountsAreGiven (next :: rest)

/-- The streams of a loop row. -/
def BoundTokens.bounds : BoundTokens → LoopBounds
  | .separate initial final step =>
      { initial := initial.map .text, final := final.map .text, step := step.map .text }
  | .combined tokens =>
      match splitBounds (tokens.map .text) with
      | .ok bounds => bounds
      | .error _ => {}

def AreLegible (settings : Settings) (tokens : List String) : Prop :=
  ∀ token ∈ tokens, IsLegible settings token

def BoundTokens.AreLegible (settings : Settings) : BoundTokens → Prop
  | .separate initial final step =>
      Catalogue.AreLegible settings initial ∧ Catalogue.AreLegible settings final ∧
        Catalogue.AreLegible settings step
  | .combined tokens => CountsAreGiven tokens ∧ Catalogue.AreLegible settings tokens

/-- No stream has stray digits for a number, and none of bounds ends or goes on without the
number of a known iteration count. The numbers of loops and accesses, which messages are about,
can be written. -/
structure Content.IsLegible (settings : Settings) (content : Content) : Prop where
  loopNumbers : ∀ loop ∈ content.loops, Text.hasNumeral loop.id = true
  accessNumbers : ∀ access ∈ content.accesses, Text.hasNumeral access.id = true
  loops : ∀ loop ∈ content.loops, loop.tokens.AreLegible settings
  expressions : ∀ access ∈ content.accesses, AreLegible settings access.expression
  ownTrees : ∀ access ∈ content.accesses, AreLegible settings access.tree
  trees : ∀ tree ∈ content.trees, AreLegible settings tree.tokens

/-- The tree of a stream, if there is one. -/
def built {Tree : Type} : Except Fault (Option Tree) → Option Tree
  | .ok tree => tree
  | .error _ => none

/-- The message of a stream that is malformed. -/
def complaints {Tree : Type} (subject : String) : Except Fault (Option Tree) → List String
  | .error (.analysis (.malformed cause)) => [subject ++ ": " ++ cause.message]
  | _ => []

def LoopRow.knownCount (loop : LoopRow) : Datum :=
  match loop.known, loop.tokens.bounds.knownCount with
  | .null, some count => .integer count
  | known, _ => known

/-- The record of a loop row: every tree and every message comes from one stream. -/
def LoopRow.record (settings : Settings) (loop : LoopRow) : LoopRecord :=
  let subject := loop.kernel ++ ": loop " ++ toString loop.id
  let bounds := loop.tokens.bounds
  { kernel := .text loop.kernel
    id := loop.id
    parent := loop.parent
    initial := built (Postfix.build settings bounds.initial)
    final := built (Postfix.build settings bounds.final)
    step := built (Postfix.build settings bounds.step)
    knownCount := loop.knownCount
    buildErrors :=
      complaints (subject ++ " initial value") (Postfix.build settings bounds.initial) ++
        complaints (subject ++ " final value") (Postfix.build settings bounds.final) ++
        complaints (subject ++ " step") (Postfix.build settings bounds.step) }

/-- The separate trees by their accesses. -/
def Content.separateTrees (content : Content) : List (AccessName × List String) :=
  Register.ofList
    (content.trees.map (fun tree => ((.text tree.kernel, tree.id), tree.tokens)))

/-- The tree tokens of an access: its own, or else separate ones. -/
def Content.treeTokens (content : Content) (access : AccessRow) : List String :=
  if access.tree.isEmpty then
    (Register.find (.text access.kernel, access.id) content.separateTrees).getD []
  else access.tree

/-- The record of an access row. -/
def Content.accessRecord (content : Content) (settings : Settings) (access : AccessRow) :
    AccessRecord :=
  let subject := access.kernel ++ ": access " ++ toString access.id
  let expressionTokens := access.expression.map Datum.text
  let treeTokens := (content.treeTokens access).map Datum.text
  { kernel := .text access.kernel
    id := access.id
    allocationArg := access.allocationArg
    loop := access.loop
    condition := access.condition
    conditionKind := access.conditionKind
    expression := built (Postfix.build settings expressionTokens)
    tree := built (Bracketed.build settings treeTokens)
    buildErrors :=
      complaints (subject ++ " expression") (Postfix.build settings expressionTokens) ++
        complaints (subject ++ " tree") (Bracketed.build settings treeTokens) }

variable {settings : Settings} {row : Row}

theorem ok_bind {First Second : Type} (value : First) (next : First → Except Fault Second) :
    (Except.ok value >>= next) = next value := rfl

/-- Trying to build a stream that is built or malformed returns. -/
theorem attempt_of_isContained {Tree : Type}
    {build : List Datum → Except Fault (Option Tree)} (nothing : build [] = .ok none)
    {tokens : List Datum} (contained : IsContained (build tokens)) (subject : String) :
    attempt build subject (.list tokens) =
      .ok (built (build tokens), complaints subject (build tokens)) := by
  cases tokens with
  | nil =>
      rw [nothing]
      rfl
  | cons first rest =>
      rw [attempt]
      change (Except.ok (first :: rest) >>= _) = _
      rw [ok_bind]
      cases outcome : build (first :: rest) with
      | ok tree => rfl
      | error fault =>
          obtain ⟨cause, rfl⟩ := contained fault outcome
          rfl

/-- A stream that is made of some of the given tokens. -/
def IsFrom (tokens : List String) (stream : List Datum) : Prop :=
  ∃ texts, stream = texts.map .text ∧ texts ⊆ tokens

theorem IsFrom.mono {tokens others : List String} {stream : List Datum}
    (made : IsFrom tokens stream) (within : tokens ⊆ others) : IsFrom others stream := by
  obtain ⟨texts, rfl, inside⟩ := made
  exact ⟨texts, rfl, List.Subset.trans inside within⟩

theorem IsFrom.cons {tokens : List String} {stream : List Datum} (made : IsFrom tokens stream)
    (token : String) : IsFrom (token :: tokens) (.text token :: stream) := by
  obtain ⟨texts, rfl, inside⟩ := made
  exact ⟨token :: texts, rfl, List.cons_subset_cons token inside⟩

/-- Bounds that are made of some of the given tokens. -/
structure AreFrom (tokens : List String) (bounds : LoopBounds) : Prop where
  initial : IsFrom tokens bounds.initial
  final : IsFrom tokens bounds.final
  step : IsFrom tokens bounds.step

theorem AreFrom.mono {tokens others : List String} {bounds : LoopBounds}
    (made : AreFrom tokens bounds) (within : tokens ⊆ others) : AreFrom others bounds :=
  ⟨made.initial.mono within, made.final.mono within, made.step.mono within⟩

theorem areFrom_nil : AreFrom [] {} := ⟨⟨[], rfl, nofun⟩, ⟨[], rfl, nofun⟩, ⟨[], rfl, nofun⟩⟩

theorem AreFrom.prepend {tokens : List String} {bounds : LoopBounds}
    (made : AreFrom tokens bounds) (token : String) (current : BoundSection) :
    AreFrom (token :: tokens) (bounds.prepend (.text token) current) := by
  have within : tokens ⊆ token :: tokens := List.subset_cons_self token tokens
  cases current with
  | initial => exact ⟨made.initial.cons token, made.final.mono within, made.step.mono within⟩
  | final => exact ⟨made.initial.mono within, made.final.cons token, made.step.mono within⟩
  | step => exact ⟨made.initial.mono within, made.final.mono within, made.step.cons token⟩

/-- Tokens that are split into sections made of them. -/
def AreSplit (tokens : List String) (current : BoundSection) : Prop :=
  ∃ bounds, splitFrom current (tokens.map .text) = .ok bounds ∧ AreFrom tokens bounds

theorem areSplit_cons {token : String} {rest : List String} (other : token ≠ "IT")
    (split : ∀ current, AreSplit rest current) (current : BoundSection) :
    AreSplit (token :: rest) current := by
  have uncounted : isCountMarker (.text token) = false := by simp [isCountMarker, other]
  rw [AreSplit, List.map_cons]
  cases marked : boundMarker? (.text token) with
  | some marker =>
      obtain ⟨bounds, split, made⟩ := split marker
      rw [LoopBounds.splitFrom_marker marked]
      exact ⟨bounds, split, made.mono (List.subset_cons_self token rest)⟩
  | none =>
      obtain ⟨bounds, split, made⟩ := split current
      rw [LoopBounds.splitFrom_token (isUnmarked_iff.mpr ⟨rfl, marked, uncounted⟩)]
      exact ⟨_, by rw [split]; rfl, made.prepend token current⟩

/-- The sections of a combined row are made of its tokens. -/
theorem areSplit_of_countsAreGiven {tokens : List String} (given : CountsAreGiven tokens)
    (current : BoundSection) : AreSplit tokens current := by
  induction tokens using CountsAreGiven.induct generalizing current with
  | case1 => exact ⟨{}, rfl, areFrom_nil⟩
  | case2 token => exact areSplit_cons given (fun _ => ⟨{}, rfl, areFrom_nil⟩) current
  | case3 next rest ih =>
      rw [CountsAreGiven, if_pos rfl] at given
      obtain ⟨⟨count, read⟩, given⟩ := given
      obtain ⟨bounds, split, made⟩ := ih given current
      refine ⟨bounds.withCount count, ?_, ?_⟩
      · rw [List.map_cons, List.map_cons, LoopBounds.splitFrom_count read, split]
        rfl
      · have within : rest ⊆ "IT" :: next :: rest :=
          List.subset_cons_of_subset _ (List.subset_cons_self next rest)
        obtain ⟨initial, final, step⟩ := made.mono within
        exact ⟨initial, final, step⟩
  | case4 token next rest unmarked ih =>
      rw [CountsAreGiven, if_neg unmarked] at given
      exact areSplit_cons unmarked (ih given) current

/-- The streams of a legible row are lists of legible texts. -/
def IsLegibleStream (settings : Settings) (stream : List Datum) : Prop :=
  ∃ tokens, stream = tokens.map .text ∧ AreLegible settings tokens

theorem IsFrom.isLegibleStream {tokens : List String} {stream : List Datum}
    (made : IsFrom tokens stream) (legible : AreLegible settings tokens) :
    IsLegibleStream settings stream := by
  obtain ⟨texts, rfl, inside⟩ := made
  exact ⟨texts, rfl, fun token member => legible token (inside member)⟩

/-- Bounds with legible streams only. -/
structure HasLegibleBounds (settings : Settings) (bounds : LoopBounds) : Prop where
  initial : IsLegibleStream settings bounds.initial
  final : IsLegibleStream settings bounds.final
  step : IsLegibleStream settings bounds.step

theorem splitBounds_eq {tokens : List String} (given : CountsAreGiven tokens) :
    splitBounds (tokens.map .text) = .ok (BoundTokens.combined tokens).bounds := by
  obtain ⟨bounds, split, _⟩ := areSplit_of_countsAreGiven given .initial
  change splitBounds (tokens.map .text) = .ok bounds at split
  rw [split, BoundTokens.bounds, split]

theorem BoundTokens.AreLegible.hasLegibleBounds {tokens : BoundTokens}
    (legible : tokens.AreLegible settings) : HasLegibleBounds settings tokens.bounds := by
  cases tokens with
  | separate initial final step =>
      obtain ⟨onInitial, onFinal, onStep⟩ := legible
      exact ⟨⟨initial, rfl, onInitial⟩, ⟨final, rfl, onFinal⟩, ⟨step, rfl, onStep⟩⟩
  | combined tokens =>
      obtain ⟨given, legible⟩ := legible
      obtain ⟨bounds, split, made⟩ := areSplit_of_countsAreGiven given .initial
      cases (splitBounds_eq given).symm.trans split
      exact ⟨made.initial.isLegibleStream legible, made.final.isLegibleStream legible,
        made.step.isLegibleStream legible⟩

theorem attempt_postfix (usable : settings.AreUsable) {stream : List Datum}
    (legible : IsLegibleStream settings stream) (subject : String) :
    attempt (Postfix.build settings) subject (.list stream) =
      .ok (built (Postfix.build settings stream),
        complaints subject (Postfix.build settings stream)) := by
  obtain ⟨tokens, rfl, each⟩ := legible
  exact attempt_of_isContained rfl (Postfix.isContained_build usable each) subject

theorem attempt_bracketed (usable : settings.AreUsable) {stream : List Datum}
    (legible : IsLegibleStream settings stream) (subject : String) :
    attempt (Bracketed.build settings) subject (.list stream) =
      .ok (built (Bracketed.build settings stream),
        complaints subject (Bracketed.build settings stream)) := by
  obtain ⟨tokens, rfl, each⟩ := legible
  exact attempt_of_isContained rfl (Bracketed.isContained_build usable each) subject

theorem kernelOf_eq {name : Datum} (found : Datum.field? "kernel_name" row = some name) :
    kernelOf row = .ok name := by
  rw [kernelOf, Datum.required, found]
  rfl

theorem requiredInteger_eq {name : String} {number : Int} (found : HasInteger row name number) :
    requiredInteger row name = .ok number := by
  rw [requiredInteger, Datum.required, found]
  rfl

theorem optionalInteger_eq {name : String} {number : Int}
    (found : HasOptionalInteger row name number) : optionalInteger row name = .ok number := by
  rw [HasOptionalInteger] at found
  rw [optionalInteger]
  cases given : Datum.field? name row with
  | none =>
      rw [given] at found
      cases found
      rfl
  | some datum =>
      rw [given] at found
      change datum = .integer number at found
      rw [found]
      rfl

theorem loopEntries_eq {loop : LoopRow} (isIn : loop.IsIn row)
    (legible : loop.tokens.AreLegible settings) :
    loopEntries row = .ok (.list loop.tokens.bounds.initial, .list loop.tokens.bounds.final,
      .list loop.tokens.bounds.step, loop.knownCount) := by
  have tokens := isIn.tokens
  rw [loopEntries, LoopRow.knownCount, isIn.known]
  cases given : loop.tokens with
  | separate initial final step =>
      rw [given] at tokens
      obtain ⟨absent, onInitial, onFinal, onStep⟩ := tokens
      rw [HasTexts] at onInitial onFinal onStep
      simp only [absent, onInitial, onFinal, onStep]
      cases loop.known <;> rfl
  | combined texts =>
      rw [given] at tokens legible
      have present : Datum.field? "bound_tokens" row = some (.list (texts.map .text)) := tokens
      simp only [present]
      change (splitBounds (texts.map .text) >>= _) = _
      rw [splitBounds_eq legible.1]
      rfl

theorem subjectOf_eq (kernel kind : String) {id : Int} (short : Text.hasNumeral id = true) :
    subjectOf (.text kernel) kind id = .ok (kernel ++ kind ++ toString id) := by
  rw [subjectOf, Text.writeInteger_of_hasNumeral short]
  rfl

/-- A legible loop row gives its record. -/
theorem loopRecord_eq (usable : settings.AreUsable) {loop : LoopRow} (isIn : loop.IsIn row)
    (short : Text.hasNumeral loop.id = true) (legible : loop.tokens.AreLegible settings) :
    loopRecord settings row = .ok (loop.record settings) := by
  obtain ⟨onInitial, onFinal, onStep⟩ := legible.hasLegibleBounds
  rw [loopRecord, kernelOf_eq isIn.kernel, ok_bind, requiredInteger_eq isIn.id, ok_bind,
    subjectOf_eq loop.kernel _ short, ok_bind]
  simp only [loopEntries_eq isIn legible, optionalInteger_eq isIn.parent, ok_bind,
    attempt_postfix usable onInitial, attempt_postfix usable onFinal,
    attempt_postfix usable onStep]
  rfl

theorem accessOf_eq {kernel : String} {id : Int}
    (named : Datum.field? "kernel_name" row = some (.text kernel))
    (numbered : HasInteger row "access_id" id) : accessOf row = .ok (.text kernel, id) := by
  rw [accessOf, kernelOf_eq named, ok_bind, requiredInteger_eq numbered]
  rfl

/-- A row about a tree gives the tokens of the tree. -/
theorem separateTree_eq {tree : TreeRow} (isIn : tree.IsIn row) :
    separateTree (.table row) =
      .ok ((.text tree.kernel, tree.id), .list (tree.tokens.map .text)) := by
  rw [separateTree]
  change (accessOf row >>= _) = _
  rw [accessOf_eq isIn.kernel isIn.id, ok_bind, Datum.required, isIn.tokens]
  rfl

theorem phiRow_eq {phi : PhiRow} (isIn : phi.IsIn row) : phiRow (.table row) = .ok phi := by
  have kernel : phiKernel (Datum.field? "kernel_name" row) = .ok phi.kernel := by
    rcases isIn.kernel with ⟨shared, absent⟩ | ⟨name, own, found⟩
    · rw [shared]
      cases given : Datum.field? "kernel_name" row with
      | none => rfl
      | some datum =>
          rw [given] at absent
          change datum = .null at absent
          rw [absent]
          rfl
    · rw [own, found]
      rfl
  rw [phiRow, kernel, ok_bind, requiredInteger_eq isIn.loop, ok_bind,
    requiredInteger_eq isIn.id]
  rfl

end KernelFootprint.Catalogue
