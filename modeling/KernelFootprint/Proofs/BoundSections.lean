import KernelFootprint.Catalogue.LoopBounds
import Mathlib.Data.List.Perm.Basic

/-!
# Sections of loop bound rows

A row is read token by token, with one section open and one token of lookahead. Reading is related
to what it gives by a rule for each kind of token. From these rules it follows where every token
goes: a token that is neither a marker nor a known iteration count is found once, in the section of
the last marker before it, and after the tokens that came earlier. Written sections are read back,
in whatever order they stand.
-/

namespace KernelFootprint

/-- The marker of a section. -/
def BoundSection.word : BoundSection → String
  | .initial => "IN"
  | .final => "FIN"
  | .step => "STEP"

variable {token : Datum} {word : String} {count : Int} {current opened : BoundSection}
  {tokens rest before after : List Datum} {bounds : LoopBounds}

theorem Datum.beq_text_iff : (token == .text word) = true ↔ token = .text word := by
  cases token with
  | text value => rw [Datum.beq_text, beq_iff_eq, Datum.text.injEq]
  | _ => simp [BEq.beq, Datum.same, Datum.number?]

theorem isCountMarker_iff : isCountMarker token = true ↔ token = .text "IT" := Datum.beq_text_iff

@[simp] theorem boundMarker?_word (opened : BoundSection) :
    boundMarker? (.text opened.word) = some opened := by
  cases opened <;> rfl

@[simp] theorem isCountMarker_word (opened : BoundSection) :
    isCountMarker (.text opened.word) = false := by
  cases opened <;> rfl

theorem eq_word_of_boundMarker? (marked : boundMarker? token = some opened) :
    token = .text opened.word := by
  unfold boundMarker? at marked
  split at marked
  · next found =>
      cases marked
      exact Datum.beq_text_iff.mp found
  · split at marked
    · next found =>
        cases marked
        exact Datum.beq_text_iff.mp found
    · split at marked
      · next found =>
          cases marked
          exact Datum.beq_text_iff.mp found
      · cases marked

/-- Whether a token can stand in a section: it is none of the words with a meaning of their own,
nor a datum that could be no key. -/
structure IsUnmarked (token : Datum) : Prop where
  serves : token.isKey = true
  other : ∀ word ∈ ["IN", "FIN", "STEP", "IT"], token ≠ .text word

theorem isUnmarked_iff :
    IsUnmarked token ↔
      token.isKey = true ∧ boundMarker? token = none ∧ isCountMarker token = false := by
  constructor
  · rintro ⟨serves, other⟩
    refine ⟨serves, Option.eq_none_iff_forall_ne_some.mpr (fun opened marked => ?_),
      Bool.eq_false_iff.mpr (fun counting => ?_)⟩
    · exact other opened.word (by cases opened <;> simp [BoundSection.word])
        (eq_word_of_boundMarker? marked)
    · exact other "IT" (by simp) (isCountMarker_iff.mp counting)
  · rintro ⟨serves, unmarked, uncounted⟩
    refine ⟨serves, fun word listed same => ?_⟩
    subst same
    simp only [List.mem_cons, List.not_mem_nil, or_false] at listed
    rcases listed with rfl | rfl | rfl | rfl
    · cases unmarked
    · cases unmarked
    · cases unmarked
    · cases uncounted

theorem readCount_eq_ok {literal : Datum} (read : readCount literal = .ok count) :
    ∃ word, literal = .text word ∧ readLiteral word = .ok (some count) := by
  cases literal with
  | text word =>
      unfold readCount at read
      cases given : readLiteralElement (.text word) with
      | error misuse =>
          rw [given] at read
          cases read
      | ok found =>
          rw [given] at read
          cases found with
          | none => cases read
          | some value =>
              cases read
              exact ⟨word, rfl, given⟩
  | _ => cases read

theorem readCount_text (given : readLiteral word = .ok (some count)) :
    readCount (.text word) = .ok count := by
  have literal : readLiteralElement (.text word) = .ok (some count) := given
  unfold readCount
  rw [literal]

namespace LoopBounds

/-! ## Reading a row -/

theorem splitFrom_marker (marked : boundMarker? token = some opened) (current : BoundSection)
    (rest : List Datum) : splitFrom current (token :: rest) = splitFrom opened rest := by
  cases eq_word_of_boundMarker? marked
  have serves : (Datum.text opened.word).isKey = true := rfl
  rw [splitFrom.eq_def]
  simp only [serves, marked, if_true]

theorem splitFrom_count (given : readLiteral word = .ok (some count)) (current : BoundSection)
    (rest : List Datum) :
    splitFrom current (.text "IT" :: .text word :: rest) =
      (splitFrom current rest).map (fun bounds => bounds.withCount count) := by
  have unmarked : boundMarker? (.text "IT") = none := rfl
  rw [splitFrom]
  simp only [unmarked]
  change (readCount (.text word) >>= _) = _
  rw [readCount_text given]
  change (splitFrom current rest >>= _) = _
  cases splitFrom current rest <;> rfl

theorem splitFrom_token (unmarked : IsUnmarked token) (current : BoundSection)
    (rest : List Datum) :
    splitFrom current (token :: rest) =
      (splitFrom current rest).map (fun bounds => bounds.prepend token current) := by
  obtain ⟨serves, unmarked, uncounted⟩ := isUnmarked_iff.mp unmarked
  rw [splitFrom.eq_def]
  simp only [serves, unmarked, uncounted, if_true]
  cases splitFrom current rest <;> rfl

/-- What a row is split into while a section is open. -/
inductive Splits : BoundSection → List Datum → LoopBounds → Prop
  | nil {current : BoundSection} : Splits current [] {}
  | marker {current opened : BoundSection} {token : Datum} {rest : List Datum}
      {bounds : LoopBounds} : boundMarker? token = some opened → Splits opened rest bounds →
      Splits current (token :: rest) bounds
  | count {current : BoundSection} {word : String} {count : Int} {rest : List Datum}
      {bounds : LoopBounds} : readLiteral word = .ok (some count) → Splits current rest bounds →
      Splits current (.text "IT" :: .text word :: rest) (bounds.withCount count)
  | token {current : BoundSection} {token : Datum} {rest : List Datum} {bounds : LoopBounds} :
      IsUnmarked token → Splits current rest bounds →
      Splits current (token :: rest) (bounds.prepend token current)

theorem map_eq_ok {First Second : Type} {change : First → Second} {outcome : Except Fault First}
    {value : Second} (mapped : outcome.map change = .ok value) :
    ∃ given, outcome = .ok given ∧ value = change given := by
  cases outcome with
  | ok given =>
      cases mapped
      exact ⟨given, rfl, rfl⟩
  | error fault => cases mapped

theorem splits_of_splitFrom (split : splitFrom current tokens = .ok bounds) :
    Splits current tokens bounds := by
  induction current, tokens using splitFrom.induct generalizing bounds with
  | case1 current =>
      cases split
      exact .nil
  | case2 current token rest serves opened marked ih =>
      rw [splitFrom_marker marked] at split
      exact .marker marked (ih split)
  | case3 current token serves unmarked counting =>
      rw [splitFrom.eq_def] at split
      simp only [serves, unmarked, counting, if_true] at split
      cases split
  | case4 current token serves unmarked counting literal rest ih =>
      cases isCountMarker_iff.mp counting
      cases read : readCount literal with
      | error fault =>
          rw [splitFrom.eq_def] at split
          simp only [serves, unmarked, counting, if_true, read] at split
          cases split
      | ok count =>
          obtain ⟨word, rfl, given⟩ := readCount_eq_ok read
          rw [splitFrom_count given] at split
          obtain ⟨others, whole, rfl⟩ := map_eq_ok split
          exact .count given (ih whole)
  | case5 current token rest serves unmarked uncounted ih =>
      have plain := isUnmarked_iff.mpr ⟨serves, unmarked, Bool.eq_false_iff.mpr uncounted⟩
      rw [splitFrom_token plain] at split
      obtain ⟨others, whole, rfl⟩ := map_eq_ok split
      exact .token plain (ih whole)
  | case6 current token rest strange =>
      rw [splitFrom.eq_def] at split
      simp only [strange] at split
      cases split

theorem Splits.splitFrom_eq (splits : Splits current tokens bounds) :
    splitFrom current tokens = .ok bounds := by
  induction splits with
  | nil => rfl
  | marker marked _ ih => rw [splitFrom_marker marked, ih]
  | count given _ ih =>
      rw [splitFrom_count given, ih]
      rfl
  | token unmarked _ ih =>
      rw [splitFrom_token unmarked, ih]
      rfl

/-! ## Where the tokens go -/

/-- Every token of a row, with the tokens before it. -/
def withBefore (before : List Datum) : List Datum → List (List Datum × Datum)
  | [] => []
  | token :: rest => (before, token) :: withBefore (before ++ [token]) rest

/-- The section of the last marker among some tokens; without one it is that of the initial
value. -/
def sectionAfter (before : List Datum) : BoundSection :=
  (before.filterMap boundMarker?).getLast?.getD .initial

/-- Whether the last of some tokens is the marker of a known iteration count. -/
def awaitsCount (before : List Datum) : Bool := before.getLast?.any isCountMarker

/-- Whether a token remains when the markers are removed, and with every marker of a known
iteration count the token after it. -/
def remains (entry : List Datum × Datum) : Bool :=
  (boundMarker? entry.2).isNone && !isCountMarker entry.2 && !awaitsCount entry.1

def remaining (before tokens : List Datum) : List (List Datum × Datum) :=
  (withBefore before tokens).filter remains

def part (bounds : LoopBounds) : BoundSection → List Datum
  | .initial => bounds.initial
  | .final => bounds.final
  | .step => bounds.step

@[simp] theorem part_withCount (bounds : LoopBounds) (count : Int) :
    (bounds.withCount count).part opened = bounds.part opened := by
  cases opened <;> rfl

theorem part_prepend (bounds : LoopBounds) (token : Datum) (current : BoundSection) :
    (bounds.prepend token current).part opened =
      if current = opened then token :: bounds.part opened else bounds.part opened := by
  cases current <;> cases opened <;> rfl

theorem sectionAfter_concat (before : List Datum) (token : Datum) :
    sectionAfter (before ++ [token]) = (boundMarker? token).getD (sectionAfter before) := by
  rw [sectionAfter, List.filterMap_append]
  cases marked : boundMarker? token with
  | none => simp [marked, sectionAfter]
  | some opened => simp [marked]

theorem awaitsCount_concat (before : List Datum) (token : Datum) :
    awaitsCount (before ++ [token]) = isCountMarker token := by
  simp [awaitsCount]

theorem remaining_cons_of_remains (remains : remains (before, token) = true) :
    remaining before (token :: rest) = (before, token) :: remaining (before ++ [token]) rest := by
  rw [remaining, withBefore, List.filter_cons_of_pos remains, remaining]

theorem remaining_cons_of_not_remains (removed : remains (before, token) = false) :
    remaining before (token :: rest) = remaining (before ++ [token]) rest := by
  rw [remaining, withBefore, List.filter_cons_of_neg (by simp [removed]), remaining]

theorem isUnmarked_of_readLiteral (given : readLiteral word = .ok (some count)) :
    IsUnmarked (.text word) := by
  refine ⟨rfl, fun other listed same => ?_⟩
  cases same
  simp only [List.mem_cons, List.not_mem_nil, or_false] at listed
  rcases listed with rfl | rfl | rfl | rfl <;> cases given

/-- The part of a section, with some tokens before those of the row. -/
theorem Splits.part_eq (splits : Splits current tokens bounds)
    (inside : sectionAfter before = current) (ready : awaitsCount before = false)
    (opened : BoundSection) :
    bounds.part opened =
      ((remaining before tokens).filter (fun entry => sectionAfter entry.1 = opened)).map
        Prod.snd := by
  induction splits generalizing before with
  | nil => cases opened <;> rfl
  | @marker current next token rest bounds marked _ ih =>
      cases eq_word_of_boundMarker? marked
      rw [remaining_cons_of_not_remains (by simp [remains])]
      refine ih ?_ ?_
      · rw [sectionAfter_concat, marked, Option.getD_some]
      · rw [awaitsCount_concat, isCountMarker_word]
  | @count current word count rest bounds given _ ih =>
      obtain ⟨_, unmarked, uncounted⟩ := isUnmarked_iff.mp (isUnmarked_of_readLiteral given)
      have counting : isCountMarker (.text "IT") = true := rfl
      have plain : boundMarker? (.text "IT") = none := rfl
      rw [part_withCount, remaining_cons_of_not_remains (by simp [remains, counting]),
        remaining_cons_of_not_remains (by simp [remains, awaitsCount_concat, counting])]
      refine ih ?_ ?_
      · rw [sectionAfter_concat, unmarked, Option.getD_none, sectionAfter_concat, plain,
          Option.getD_none, inside]
      · rw [awaitsCount_concat, uncounted]
  | @token current token rest bounds unmarked _ ih =>
      obtain ⟨_, unmarked, uncounted⟩ := isUnmarked_iff.mp unmarked
      have onRest := @ih (before ++ [token])
        (by rw [sectionAfter_concat, unmarked, Option.getD_none, inside])
        (by rw [awaitsCount_concat, uncounted])
      rw [part_prepend, onRest,
        remaining_cons_of_remains (by simp [remains, unmarked, uncounted, ready]),
        List.filter_cons]
      by_cases own : current = opened
      · simp [own, inside]
      · simp [own, inside]

/-- Entries with one of three labels, sorted by their labels. -/
theorem filter_sections_perm {Entry : Type} (label : Entry → BoundSection)
    (entries : List Entry) :
    (entries.filter (fun entry => label entry = .initial) ++
      (entries.filter (fun entry => label entry = .final) ++
        entries.filter (fun entry => label entry = .step))).Perm entries := by
  induction entries with
  | nil => exact .nil
  | cons entry rest ih =>
      cases own : label entry with
      | initial => simpa [own] using ih
      | final => simpa [own] using List.perm_middle.trans (.cons entry ih)
      | step =>
          rw [← List.append_assoc] at ih
          simpa [own, ← List.append_assoc] using List.perm_middle.trans (.cons entry ih)

theorem Splits.knownCount_of_uncounted (splits : Splits current tokens bounds)
    (uncounted : .text "IT" ∉ tokens) : bounds.knownCount = none := by
  induction splits with
  | nil => rfl
  | marker _ _ ih => exact ih (fun listed => uncounted (List.mem_cons_of_mem _ listed))
  | count => exact absurd List.mem_cons_self uncounted
  | @token current token rest bounds _ _ ih =>
      have same : (bounds.prepend token current).knownCount = bounds.knownCount := by
        cases current <;> rfl
      rw [same]
      exact ih (fun listed => uncounted (List.mem_cons_of_mem _ listed))

/-- The literal after the last marker of a known iteration count is the one that counts. -/
theorem Splits.exists_count (splits : Splits current tokens bounds)
    (last : tokens = before ++ .text "IT" :: after) (uncounted : .text "IT" ∉ after) :
    ∃ word rest count, after = .text word :: rest ∧ readLiteral word = .ok (some count) ∧
      bounds.knownCount = some count := by
  induction splits generalizing before with
  | nil => cases before <;> cases last
  | @marker current next token rest bounds marked splits ih =>
      cases before with
      | nil =>
          cases last
          cases marked
      | cons first before =>
          cases last
          exact ih rfl
  | @count current word count rest bounds given splits ih =>
      cases before with
      | nil =>
          cases last
          have none := splits.knownCount_of_uncounted
            (fun listed => uncounted (List.mem_cons_of_mem _ listed))
          refine ⟨word, rest, count, rfl, given, ?_⟩
          rw [withCount, none, Option.none_or]
      | cons first before =>
          cases before with
          | nil =>
              -- the token behind a marker is a literal, so the last marker is not hidden there
              cases last
              cases given
          | cons second before =>
              cases last
              obtain ⟨word, rest, later, rfl, given, counted⟩ := ih rfl
              refine ⟨word, rest, later, rfl, given, ?_⟩
              rw [withCount, counted, Option.some_or]
  | @token current token rest bounds unmarked splits ih =>
      cases before with
      | nil =>
          cases last
          exact absurd rfl (unmarked.other "IT" (by simp))
      | cons first before =>
          cases last
          obtain ⟨word, rest, count, rfl, given, counted⟩ := ih rfl
          refine ⟨word, rest, count, rfl, given, ?_⟩
          rw [← counted]
          cases current <;> rfl

/-! ## Rows that are written from sections -/

/-- Sections one after the other, each behind its marker. -/
def written (sections : List (BoundSection × List Datum)) : List Datum :=
  sections.flatMap (fun entry => .text entry.1.word :: entry.2)

/-- What some sections add to a part. -/
def partOf (opened : BoundSection) (sections : List (BoundSection × List Datum)) : List Datum :=
  (sections.filter (fun entry => entry.1 = opened)).flatMap Prod.snd

/-- A row is read in the same way whatever section is open when it begins, because it begins with
a marker of some kind. -/
def SplitsAnywhere (tokens : List Datum) (bounds : LoopBounds) : Prop :=
  ∀ current, Splits current tokens bounds

theorem Splits.append (splits : Splits current tokens bounds) {sectionTokens : List Datum}
    (unmarked : ∀ token ∈ sectionTokens, IsUnmarked token) :
    ∃ whole, Splits current (sectionTokens ++ tokens) whole ∧
      whole.knownCount = bounds.knownCount ∧
      ∀ opened, whole.part opened =
        if current = opened then sectionTokens ++ bounds.part opened else bounds.part opened := by
  induction sectionTokens with
  | nil => exact ⟨bounds, splits, rfl, fun opened => (ite_self _).symm⟩
  | cons first rest ih =>
      obtain ⟨onFirst, onRest⟩ := List.forall_mem_cons.mp unmarked
      obtain ⟨whole, splits, counted, parts⟩ := ih onRest
      refine ⟨whole.prepend first current, .token onFirst splits, ?_, fun opened => ?_⟩
      · rw [← counted]
        cases current <;> rfl
      · rw [part_prepend, parts]
        split <;> rfl

theorem SplitsAnywhere.written (splits : SplitsAnywhere tokens bounds)
    {sections : List (BoundSection × List Datum)}
    (unmarked : ∀ entry ∈ sections, ∀ token ∈ entry.2, IsUnmarked token) :
    ∃ whole, SplitsAnywhere (written sections ++ tokens) whole ∧
      whole.knownCount = bounds.knownCount ∧
      ∀ opened, whole.part opened = partOf opened sections ++ bounds.part opened := by
  induction sections with
  | nil => exact ⟨bounds, splits, rfl, fun opened => rfl⟩
  | cons entry rest ih =>
      obtain ⟨onFirst, onRest⟩ := List.forall_mem_cons.mp unmarked
      obtain ⟨others, splits, counted, parts⟩ := ih onRest
      obtain ⟨whole, splits, recounted, joined⟩ := (splits entry.1).append onFirst
      refine ⟨whole, fun current => ?_, recounted.trans counted, fun opened => ?_⟩
      · have row : LoopBounds.written (entry :: rest) ++ tokens =
            .text entry.1.word :: (entry.2 ++ (LoopBounds.written rest ++ tokens)) := by
          simp [LoopBounds.written]
        rw [row]
        exact .marker (boundMarker?_word entry.1) splits
      · rw [joined, parts]
        by_cases own : entry.1 = opened
        · simp [partOf, own]
        · simp [partOf, own]

theorem eq_of_parts {first second : LoopBounds}
    (parts : ∀ opened, first.part opened = second.part opened)
    (counted : first.knownCount = second.knownCount) : first = second := by
  obtain ⟨initial, final, step, count⟩ := first
  obtain ⟨otherInitial, otherFinal, otherStep, otherCount⟩ := second
  cases parts .initial
  cases parts .final
  cases parts .step
  cases counted
  rfl

/-- Bounds as their sections. -/
def sections (bounds : LoopBounds) : List (BoundSection × List Datum) :=
  [(.initial, bounds.initial), (.final, bounds.final), (.step, bounds.step)]

theorem partOf_of_perm {sections : List (BoundSection × List Datum)}
    (perm : sections.Perm bounds.sections) (opened : BoundSection) :
    partOf opened sections = bounds.part opened := by
  have only : (sections.filter (fun entry => entry.1 = opened)).Perm
      [(opened, bounds.part opened)] := by
    refine (perm.filter _).trans ?_
    cases opened <;> exact .refl _
  rw [partOf, List.perm_singleton.mp only]
  exact List.append_nil _

/-- Where the tokens of a row go: those of a section are the ones that remain after its marker, in
their order, none is lost or found twice, and what is known of the iteration count is the literal
after its last marker. -/
structure AreSplitInto (tokens : List Datum) (bounds : LoopBounds) : Prop where
  parts : ∀ opened, bounds.part opened =
    ((remaining [] tokens).filter (fun entry => sectionAfter entry.1 = opened)).map Prod.snd
  whole : (bounds.initial ++ (bounds.final ++ bounds.step)).Perm
    ((remaining [] tokens).map Prod.snd)
  uncounted : .text "IT" ∉ tokens → bounds.knownCount = none
  counted : ∀ before after, tokens = before ++ .text "IT" :: after → .text "IT" ∉ after →
    ∃ word rest count, after = .text word :: rest ∧ readLiteral word = .ok (some count) ∧
      bounds.knownCount = some count

theorem Splits.areSplitInto (splits : Splits .initial tokens bounds) :
    AreSplitInto tokens bounds := by
  have parts (opened : BoundSection) : bounds.part opened =
      ((remaining [] tokens).filter (fun entry => sectionAfter entry.1 = opened)).map Prod.snd :=
    splits.part_eq rfl rfl opened
  constructor
  case parts => exact parts
  case whole =>
    have sorted := (filter_sections_perm (fun entry => sectionAfter entry.1)
      (remaining [] tokens)).map Prod.snd
    rw [List.map_append, List.map_append, ← parts, ← parts, ← parts] at sorted
    exact sorted
  case uncounted => exact splits.knownCount_of_uncounted
  case counted => exact fun before after last uncounted => splits.exists_count last uncounted

/-- Sections are read back from every order in which they are written, with a known iteration
count before, between or after them. -/
theorem splitBounds_written {sections others : List (BoundSection × List Datum)}
    (unmarked : ∀ token ∈ bounds.initial ++ (bounds.final ++ bounds.step), IsUnmarked token)
    (given : readLiteral word = .ok (some count)) (counted : bounds.knownCount = some count)
    (perm : (sections ++ others).Perm bounds.sections) :
    splitBounds (written sections ++ .text "IT" :: .text word :: written others) =
      .ok bounds := by
  have each : ∀ entry ∈ sections ++ others, ∀ token ∈ entry.2, IsUnmarked token := by
    intro entry member token listed
    refine unmarked token ?_
    have among := perm.mem_iff.mp member
    simp only [LoopBounds.sections, List.mem_cons, List.not_mem_nil, or_false] at among
    rcases among with rfl | rfl | rfl <;> simp [listed]
  obtain ⟨onSections, onOthers⟩ := List.forall_mem_append.mp each
  have nothing : SplitsAnywhere [] {} := fun current => .nil
  obtain ⟨later, splits, known, parts⟩ := nothing.written onOthers
  rw [List.append_nil] at splits
  have behind : SplitsAnywhere (.text "IT" :: .text word :: written others)
      (later.withCount count) := fun current => .count given (splits current)
  obtain ⟨whole, splits, counts, joined⟩ := behind.written onSections
  have same : whole = bounds := by
    refine eq_of_parts (fun opened => ?_) ?_
    · rw [joined, part_withCount, parts, ← partOf_of_perm perm]
      cases opened <;> simp [partOf, part]
    · rw [counts, counted, withCount, known, Option.none_or]
  rw [← same]
  exact (splits .initial).splitFrom_eq

/-- A row that can be split is split so that every token is found in its section. From sections
that are free of markers a row can be written in any order, with a known iteration count before,
between or after them, and splitting it gives them back. -/
theorem splitBounds_sections :
    (∀ tokens bounds, splitBounds tokens = .ok bounds → AreSplitInto tokens bounds) ∧
      ∀ (initial final step : List Datum) (word : String) (count : Int)
        (before after : List (BoundSection × List Datum)),
        (∀ token ∈ initial ++ (final ++ step), IsUnmarked token) →
        readLiteral word = .ok (some count) →
        (before ++ after).Perm [(.initial, initial), (.final, final), (.step, step)] →
        splitBounds (written before ++ .text "IT" :: .text word :: written after) =
          .ok { initial := initial, final := final, step := step, knownCount := some count } := by
  constructor
  · exact fun tokens bounds split => (splits_of_splitFrom split).areSplitInto
  · intro initial final step word count before after unmarked given perm
    exact splitBounds_written unmarked given rfl perm

/-- A row with tokens before the first marker, with two sections that are opened again, and with
two iteration counts, of which the first does not count. -/
def reopened : List Datum :=
  ["ARG0", "FIN", "8", "IT", "3", "IN", "1", "IT", "4", "FIN", "ADD"].map .text

/-- The sections of the second row are out of their usual order. -/
theorem splitBounds_sections_reopened :
    splitBounds reopened =
        .ok { initial := [.text "ARG0", .text "1"], final := [.text "8", .text "ADD"],
              knownCount := some 4 } ∧
      AreSplitInto reopened
        { initial := [.text "ARG0", .text "1"], final := [.text "8", .text "ADD"],
          knownCount := some 4 } ∧
      splitBounds (["STEP", "2", "IN", "0", "IT", "8", "FIN", "ARG1", "2", "MUL"].map .text) =
        .ok { initial := [.text "0"], final := [.text "ARG1", .text "2", .text "MUL"],
              step := [.text "2"], knownCount := some 8 } := by
  obtain ⟨placed, readBack⟩ := splitBounds_sections
  have unmarked : ∀ token ∈ ["0", "ARG1", "2", "MUL", "2"].map Datum.text, IsUnmarked token := by
    simp [isUnmarked_iff, Datum.isKey, Datum.key?, boundMarker?, isCountMarker]
  refine ⟨rfl, placed reopened _ rfl, ?_⟩
  exact readBack [.text "0"] [.text "ARG1", .text "2", .text "MUL"] [.text "2"] "8" 8
    [(.step, [.text "2"]), (.initial, [.text "0"])]
    [(.final, [.text "ARG1", .text "2", .text "MUL"])] unmarked rfl
    (List.perm_append_singleton _ [_, _]).symm

end LoopBounds

end KernelFootprint
