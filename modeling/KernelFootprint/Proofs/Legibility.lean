import KernelFootprint.Proofs.Numerals
import KernelFootprint.Tree.Bracketed
import KernelFootprint.Tree.Postfix

/-!
# Legible streams

A text has no reading at all if a number is expected of digits that write none, because one
of them has no decimal value or because they are too many. Every other text is a token or is
unknown. A stream of such texts is built to a tree or is malformed, wherever the flaw is, and no
other fault comes out of it.
-/

namespace KernelFootprint

/-- An outcome whose only fault is a malformation. -/
def IsContained {Result : Type} (outcome : Except Fault Result) : Prop :=
  ∀ fault, outcome = .error fault → ∃ cause : Malformation, fault = cause

theorem isContained_ok {Result : Type} (result : Result) :
    IsContained (.ok result : Except Fault Result) := nofun

theorem isContained_error {Result : Type} (cause : Malformation) :
    IsContained (.error cause : Except Fault Result) := by
  intro fault same
  cases same
  exact ⟨cause, rfl⟩

theorem isContained_inStream {Result : Type} (texts : List String)
    (cause : List String → Malformation) :
    IsContained (.error (inStream (texts.map .text) cause) : Except Fault Result) := by
  rw [inStream_map_text]
  exact isContained_error _

theorem IsContained.bind {First Second : Type} {first : Except Fault First}
    {next : First → Except Fault Second} (onFirst : IsContained first)
    (onNext : ∀ value, first = .ok value → IsContained (next value)) :
    IsContained (first >>= next) := by
  cases first with
  | ok value => exact onNext value rfl
  | error fault =>
      intro other same
      cases same
      exact onFirst fault rfl

theorem IsContained.map {First Second : Type} {first : Except Fault First}
    (contained : IsContained first) (change : First → Second) :
    IsContained (first.map change) := by
  cases first with
  | ok value => exact isContained_ok _
  | error fault =>
      intro other same
      cases same
      exact contained fault rfl

/-- Settings whose marks are texts and whose limits are numbers. -/
structure Settings.AreUsable (settings : Settings) : Prop where
  argumentMark : ∃ mark, settings.argumentMark = .text mark
  phiMark : ∃ mark, settings.phiMark = .text mark
  maxPostfixTokens : ∃ limit, settings.maxPostfixTokens.number? = some limit
  maxPrefixTerms : ∃ limit, settings.maxPrefixTerms.number? = some limit

theorem Settings.areUsable_default : Settings.AreUsable {} :=
  ⟨⟨_, rfl⟩, ⟨_, rfl⟩, ⟨_, rfl⟩, ⟨_, rfl⟩⟩

/-- No stray digits where a token is read as a number. -/
structure IsLegible (settings : Settings) (text : String) : Prop where
  literal : ¬ Text.IsStray text.toList
  negative : ∀ rest, text.toList = '-' :: rest → ¬ Text.IsStray rest
  argument : ∀ rest, afterMark settings.argumentMark text = .ok (some rest) → ¬ Text.IsStray rest
  phi : ∀ rest, afterMark settings.phiMark text = .ok (some rest) → ¬ Text.IsStray rest

variable {settings : Settings} {text : String} {tokens texts : List String}

theorem sublist_of_afterMark {mark : Datum} {rest : List Char}
    (found : afterMark mark text = .ok (some rest)) : rest.Sublist text.toList := by
  cases mark with
  | text mark =>
      change (if mark.toList.isPrefixOf text.toList then
        Except.ok (some (text.toList.drop mark.toList.length)) else .ok none) = _ at found
      split at found
      · cases found
        exact List.drop_sublist _ _
      · cases found
  | _ => cases found

/-- In a plain text nothing is illegible. -/
theorem isLegible_of_isPlain (plain : Text.isPlain text = true) : IsLegible settings text where
  literal := Text.not_isStray_of_isPlain plain (List.Sublist.refl _)
  negative rest written := Text.not_isStray_of_isPlain plain
    (written ▸ List.sublist_cons_self '-' rest)
  argument _ found := Text.not_isStray_of_isPlain plain (sublist_of_afterMark found)
  phi _ found := Text.not_isStray_of_isPlain plain (sublist_of_afterMark found)

/-- A literal has a value unless its digits are stray. -/
theorem exists_readLiteral (legible : IsLegible settings text) :
    ∃ value?, readLiteral text = .ok value? := by
  rw [readLiteral]
  split
  · next literal =>
      rw [Text.isLiteral] at literal
      split at literal
      · next rest written =>
          obtain ⟨number, found⟩ :=
            Text.exists_readUnsigned literal (legible.negative rest written)
          rw [Text.readInteger_of_negative written literal, found]
          exact ⟨_, rfl⟩
      · obtain ⟨number, found⟩ := Text.exists_readUnsigned literal legible.literal
        rw [Text.readInteger_of_isDigits literal, found]
        exact ⟨_, rfl⟩
  · exact ⟨none, rfl⟩

theorem exists_afterMark {mark : Datum} (written : ∃ text, mark = .text text) (text : String) :
    ∃ rest?, afterMark mark text = .ok rest? := by
  obtain ⟨mark, rfl⟩ := written
  change ∃ rest?, (if mark.toList.isPrefixOf text.toList then
    Except.ok (some (text.toList.drop mark.toList.length)) else .ok none) = .ok rest?
  split
  · exact ⟨_, rfl⟩
  · exact ⟨_, rfl⟩

theorem exists_readIndex {digits : List Char} (found : Text.isDigits digits = true)
    (proper : ¬ Text.IsStray digits) : ∃ index, readIndex digits = .ok index := by
  obtain ⟨index, read⟩ := Text.exists_readUnsigned found proper
  exact ⟨index, by rw [readIndex, read]⟩

theorem exists_argumentToken? (usable : settings.AreUsable) (legible : IsLegible settings text) :
    ∃ symbol?, argumentToken? settings text = .ok symbol? := by
  obtain ⟨rest?, found⟩ := exists_afterMark usable.argumentMark text
  rw [argumentToken?, found]
  cases rest? with
  | none => exact ⟨none, rfl⟩
  | some rest =>
      by_cases digits : Text.isDigits rest = true
      · obtain ⟨index, read⟩ := exists_readIndex digits (legible.argument rest found)
        simp only [digits, read]
        exact ⟨_, rfl⟩
      · simp only [digits]
        exact ⟨none, rfl⟩

theorem exists_phiToken? (usable : settings.AreUsable) (legible : IsLegible settings text) :
    ∃ symbol?, phiToken? settings text = .ok symbol? := by
  obtain ⟨rest?, found⟩ := exists_afterMark usable.phiMark text
  rw [phiToken?, found]
  cases rest? with
  | none => exact ⟨none, rfl⟩
  | some rest =>
      by_cases digits : Text.isDigits rest = true
      · obtain ⟨index, read⟩ := exists_readIndex digits (legible.phi rest found)
        simp only [digits, read]
        exact ⟨_, rfl⟩
      · by_cases empty : rest.isEmpty = true
        · simp only [digits, empty]
          exact ⟨_, rfl⟩
        · simp only [digits, empty]
          exact ⟨_, rfl⟩

theorem exists_firstReading {readings : List (Except Misuse (Option Symbol))}
    (each : ∀ reading ∈ readings, ∃ symbol?, reading = .ok symbol?) :
    ∃ symbol?, firstReading readings = .ok symbol? := by
  induction readings with
  | nil => exact ⟨none, rfl⟩
  | cons first rest ih =>
      obtain ⟨⟨symbol?, rfl⟩, onRest⟩ := List.forall_mem_cons.mp each
      cases symbol? with
      | none => exact ih onRest
      | some symbol => exact ⟨some symbol, rfl⟩

/-- A legible text is a token or unknown. -/
theorem isContained_classify (usable : settings.AreUsable) (legible : IsLegible settings text) :
    IsContained (classify settings text) := by
  have readings : ∀ reading ∈
      [literalToken? text, argumentToken? settings text, phiToken? settings text],
      ∃ symbol?, reading = .ok symbol? := by
    obtain ⟨value?, found⟩ := exists_readLiteral legible
    refine List.forall_mem_cons.mpr ⟨⟨_, by rw [literalToken?, found]; rfl⟩, ?_⟩
    refine List.forall_mem_cons.mpr ⟨exists_argumentToken? usable legible, ?_⟩
    exact List.forall_mem_singleton.mpr (exists_phiToken? usable legible)
  obtain ⟨symbol?, first⟩ := exists_firstReading readings
  rw [classify]
  split
  · exact isContained_ok _
  · split
    · exact isContained_ok _
    · rw [first]
      cases symbol? with
      | some symbol => exact isContained_ok symbol
      | none => exact isContained_error _

theorem operatorWord?_of_isDigits (digits : Text.isDigits text.toList = true) :
    operatorWord? text = none := by
  have worded : ∀ entry ∈ operatorWords, Text.isDigits entry.1.toList = false := by decide
  rw [operatorWord?, List.lookup_eq_none_iff]
  intro entry member
  refine bne_iff_ne.mpr ?_
  rintro rfl
  cases (worded entry member).symm.trans digits

/-- A text of stray digits is neither a token nor unknown. -/
theorem classify_of_isStray (unmarked : isIncompleteMark settings (.text text) = false)
    (stray : Text.IsStray text.toList) :
    classify settings text = .error Misuse.unreadableNumeral := by
  have literal : Text.isLiteral text = true := by
    rw [Text.isLiteral]
    split
    · next rest written =>
        have digit := (Text.forall_of_isDigits stray.1).2 '-'
          (by rw [written]; exact List.mem_cons_self ..)
        cases digit
    · exact stray.1
  have unread : readLiteral text = .error .unreadableNumeral := by
    rw [readLiteral, if_pos literal, Text.readInteger_of_isDigits stray.1,
      (Text.readUnsigned_eq_none_iff stray.1).mpr stray]
    rfl
  rw [classify, unmarked, operatorWord?_of_isDigits stray.1, literalToken?, unread]
  rfl

/-- A comparison with a number always has an answer. -/
theorem isExceededBy_eq {limit : Datum} {bound : Number.Extended}
    (given : limit.number? = some bound) (count : Nat) :
    limit.isExceededBy count = .ok (bound.isBelow (.finite count)) := by
  rw [Datum.isExceededBy, given]

theorem isReachedBy_eq {limit : Datum} {bound : Number.Extended}
    (given : limit.number? = some bound) (count : Nat) :
    limit.isReachedBy count = .ok (bound.isAtMost (.finite count)) := by
  rw [Datum.isReachedBy, given]

namespace Postfix

theorem isContained_reduce (texts : List String) (text : String) (operation : Operation)
    (state : State) : IsContained (reduce (texts.map .text) text operation state) := by
  rw [reduce.eq_def]
  split
  · exact isContained_ok _
  · exact isContained_inStream texts _

theorem isContained_step (texts : List String) (token : Datum) (state : State)
    (symbol : Symbol) : IsContained (step (texts.map .text) token state symbol) := by
  rw [step.eq_def]
  split
  · exact isContained_ok _
  · exact isContained_ok _
  · split
    · exact isContained_ok _
    · exact isContained_reduce texts _ _ _
  · exact isContained_reduce texts _ _ _

theorem isContained_run (usable : settings.AreUsable) (texts : List String)
    {tokens : List String} (legible : ∀ token ∈ tokens, IsLegible settings token)
    (state : State) : IsContained (run settings (texts.map .text) (tokens.map .text) state) := by
  induction tokens generalizing state with
  | nil => exact isContained_ok state
  | cons token rest ih =>
      obtain ⟨onToken, onRest⟩ := List.forall_mem_cons.mp legible
      rw [List.map_cons, run, classifyElement_text]
      refine (isContained_classify usable onToken).bind ?_
      intro symbol _
      exact (isContained_step texts _ state symbol).bind (fun state _ => ih onRest state)

theorem isContained_reduceAll (usable : settings.AreUsable)
    (legible : ∀ token ∈ tokens, IsLegible settings token) :
    IsContained (reduceAll settings (tokens.map .text)) := by
  refine (isContained_run usable tokens legible {}).bind ?_
  rintro ⟨stack, _⟩ _
  dsimp only
  split
  · exact isContained_ok _
  · exact isContained_inStream tokens _

/-- A postfix stream of legible tokens is built or malformed. -/
theorem isContained_build (usable : settings.AreUsable)
    (legible : ∀ token ∈ tokens, IsLegible settings token) :
    IsContained (build settings (tokens.map .text)) := by
  cases tokens with
  | nil => exact isContained_ok none
  | cons first rest =>
      obtain ⟨bound, given⟩ := usable.maxPostfixTokens
      rw [List.map_cons, build]
      simp only [isExceededBy_eq given]
      refine (isContained_ok (bound.isBelow _)).bind ?_
      intro exceeded _
      cases exceeded with
      | true => exact isContained_ok _
      | false =>
          change IsContained (if isIncompleteMark settings (.text first) then _ else _)
          split
          · exact isContained_ok _
          · exact (isContained_reduceAll usable legible).bind (fun tree _ => isContained_ok _)

end Postfix

namespace Bracketed

/-- Whether there is a node open, a root, or something to come. -/
def IsUnderway (state : State) (remaining : List String) : Prop :=
  state.spine = [] → state.root = none → remaining ≠ []

theorem isContained_run_nil (texts : List String) {state : State}
    (underway : IsUnderway state []) :
    IsContained (run settings (texts.map .text) [] state) := by
  obtain ⟨opened, spine, root⟩ := state
  cases spine with
  | cons innermost outer => exact isContained_inStream texts _
  | nil =>
      cases root with
      | some tree => exact isContained_ok tree
      | none => exact absurd rfl (underway rfl rfl)

theorem isUnderway_close {state closed : State} (closes : state.close = some closed)
    (remaining : List String) : IsUnderway closed remaining := by
  intro unopened unrooted
  obtain ⟨opened, spine, root⟩ := state
  rcases spine with _ | ⟨first, _ | ⟨outer, rest⟩⟩
  · cases closes
  · cases closes
    cases unrooted
  · cases closes
    cases unopened

theorem isContained_run (usable : settings.AreUsable) (texts : List String)
    {tokens : List String} (legible : ∀ token ∈ tokens, IsLegible settings token)
    {state : State} (underway : IsUnderway state tokens) :
    IsContained (run settings (texts.map .text) (tokens.map .text) state) := by
  obtain ⟨bound, given⟩ := usable.maxPrefixTerms
  -- An opening parenthesis takes its head along, so the induction is on the length.
  induction length : tokens.length using Nat.strongRecOn generalizing tokens state with
  | ind total ih =>
      subst length
      rcases tokens with _ | ⟨token, rest⟩
      · exact isContained_run_nil texts underway
      obtain ⟨_, onRest⟩ := List.forall_mem_cons.mp legible
      rw [List.map_cons, run.eq_def]
      dsimp only
      split
      · rcases rest with _ | ⟨head, rest⟩
        · exact isContained_inStream texts _
        obtain ⟨onHead, onOthers⟩ := List.forall_mem_cons.mp onRest
        rw [List.map_cons]
        dsimp only
        split
        · exact isContained_inStream texts _
        rw [isReachedBy_eq given]
        refine (isContained_ok (bound.isAtMost _)).bind ?_
        intro reached _
        cases reached with
        | true => exact isContained_ok _
        | false =>
            refine (isContained_classify usable onHead).bind ?_
            intro symbol _
            split
            · exact (isContained_inStream texts _).bind nofun
            · refine ih _ ?_ onOthers (fun unopened => nomatch unopened) rfl
              simp only [List.length_cons]
              omega
      · split
        · split
          · next closed closes =>
              exact ih _ (Nat.lt_succ_self _) onRest (isUnderway_close closes rest) rfl
          · exact isContained_inStream texts _
        · exact isContained_inStream texts _

/-- A parenthesized stream of legible tokens is built or malformed. -/
theorem isContained_build (usable : settings.AreUsable)
    (legible : ∀ token ∈ tokens, IsLegible settings token) :
    IsContained (build settings (tokens.map .text)) := by
  rw [build]
  split
  · exact isContained_ok none
  · next nonempty =>
      have underway : IsUnderway {} tokens := fun _ _ empty => nonempty (by simp [empty])
      have ran := (isContained_run usable tokens legible underway).map some
      split
      · split
        · exact isContained_ok _
        · exact ran
      · exact ran

end Bracketed

end KernelFootprint
