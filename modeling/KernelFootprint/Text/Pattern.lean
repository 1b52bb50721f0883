/-!
# Name patterns

A pattern describes whole names: a star stands for any text, a question mark
for any character, and brackets for one character of a class. A class lists
characters and ranges, and an exclamation mark in front negates it. A bracket
that is never closed stands for itself, and so does every other character.
Case matters. Names are matched against all items at once from the last item
on, by the list of those ends of the name that the items so far fit.
-/

namespace KernelFootprint.Text

inductive PatternItem
  | star
  | any
  | oneOf (negated : Bool) (characters : List Char) (ranges : List (Char × Char))
  | literal (character : Char)
  deriving DecidableEq

namespace PatternItem

/-- Whether the item accepts one character; a star accepts each. -/
def accepts : PatternItem → Char → Bool
  | .star, _ => true
  | .any, _ => true
  | .oneOf negated characters ranges, character =>
      (characters.contains character ||
        ranges.any (fun range => range.1 ≤ character && character ≤ range.2)) != negated
  | .literal expected, character => expected == character

/-- Cuts class text at the hyphens that form ranges. The first `skip` characters
of a piece hold no such hyphen, for a range needs a character to start from. -/
def cut (skip : Nat) (piece : List Char) : List Char → List (List Char)
  | [] => [piece.reverse]
  | first :: rest =>
      if skip = 0 ∧ first = '-' then piece.reverse :: cut 2 [] rest
      else cut (skip - 1) (first :: piece) rest

/-- A hyphen at the end of the class belongs to the piece before it. -/
def keepFinalHyphen : List (List Char) → List (List Char)
  | [piece, []] => [piece ++ ['-']]
  | piece :: rest => piece :: keepFinalHyphen rest
  | [] => []

/-- Whether the range between two neighbouring pieces holds no character. -/
def isReversed (before after : List Char) : Bool :=
  match before.getLast?, after.head? with
  | some low, some high => high < low
  | _, _ => false

/-- Drops ranges that hold no character, together with their ends. -/
def dropReversed : List (List Char) → List (List Char)
  | [] => []
  | piece :: rest =>
      match dropReversed rest with
      | [] => [piece]
      | next :: others =>
          if isReversed piece next then (piece.dropLast ++ next.tail) :: others
          else piece :: next :: others

def rangesOf : List (List Char) → List (Char × Char)
  | before :: after :: rest =>
      match before.getLast?, after.head? with
      | some low, some high => (low, high) :: rangesOf (after :: rest)
      | _, _ => rangesOf (after :: rest)
  | _ => []

/-- A negation in front of a hyphen makes the hyphen a character of the class. -/
def ofPieces : List (List Char) → PatternItem
  | ['!'] :: next :: rest => .oneOf true ('-' :: next ++ rest.flatten) (rangesOf (next :: rest))
  | ('!' :: first) :: rest => .oneOf true (first ++ rest.flatten) (rangesOf (first :: rest))
  | pieces => .oneOf false pieces.flatten (rangesOf pieces)

/-- The item of a class with the given text between its brackets. -/
def ofClass (text : List Char) : PatternItem :=
  let skip := if text.head? = some '!' then 2 else 1
  ofPieces (dropReversed (keepFinalHyphen (cut skip [] text)))

end PatternItem

/-- How many characters at the start of a class cannot close it: a negation, and
a closing bracket in first place. -/
def classLead : List Char → Nat
  | '!' :: ']' :: _ => 2
  | '!' :: _ => 1
  | ']' :: _ => 1
  | _ => 0

/-- Splits what follows an opening bracket into the class text and the text
after the closing bracket. -/
def splitClass (characters : List Char) : Option (List Char × List Char) :=
  let lead := classLead characters
  let body := characters.drop lead
  match body.dropWhile (· != ']') with
  | [] => none
  | _ :: after => some (characters.take lead ++ body.takeWhile (· != ']'), after)

theorem splitClass_shorter {characters text after : List Char}
    (found : splitClass characters = some (text, after)) :
    after.length < characters.length := by
  simp only [splitClass] at found
  have bound := (List.dropWhile_sublist (· != ']')
    (l := characters.drop (classLead characters))).length_le
  split at found
  · contradiction
  · rename_i closing rest same
    obtain ⟨_, rfl⟩ := Prod.mk.inj (Option.some.inj found)
    rw [same] at bound
    simp only [List.length_cons, List.length_drop] at bound
    omega

def patternItems : List Char → List PatternItem
  | [] => []
  | '*' :: rest => .star :: patternItems rest
  | '?' :: rest => .any :: patternItems rest
  | '[' :: rest =>
      match _found : splitClass rest with
      | some (text, after) => .ofClass text :: patternItems after
      | none => .literal '[' :: patternItems rest
  | first :: rest => .literal first :: patternItems rest
termination_by characters => characters.length
decreasing_by
  all_goals simp only [List.length_cons]
  · omega
  · omega
  · have := splitClass_shorter _found
    omega
  · omega
  · omega

def suffixes {Element : Type} : List Element → List (List Element)
  | [] => [[]]
  | first :: rest => (first :: rest) :: suffixes rest

def matchesItems : List PatternItem → List Char → Bool
  | [], [] => true
  | [], _ :: _ => false
  | .star :: items, characters => (suffixes characters).any (matchesItems items)
  | _ :: _, [] => false
  | item :: items, first :: rest => item.accepts first && matchesItems items rest

/-- From the matches of all suffixes of a name with some items, those with one more
item in front, which is no star. -/
def matchesBefore (item : PatternItem) : List Char → List Bool → List Bool
  | first :: rest, _ :: found =>
      (item.accepts first && found.headD false) :: matchesBefore item rest found
  | _, _ => [false]

/-- From the matches of all suffixes, those with a star in front. -/
def matchesBeforeStar : List Bool → List Bool
  | [] => []
  | found :: rest =>
      let others := matchesBeforeStar rest
      (found || others.headD false) :: others

/-- Whether items match, for every suffix of a name, the longest first. -/
def suffixMatches (characters : List Char) : List PatternItem → List Bool
  | [] => (suffixes characters).map List.isEmpty
  | .star :: items => matchesBeforeStar (suffixMatches characters items)
  | item :: items => matchesBefore item characters (suffixMatches characters items)

theorem headD_suffixes (matched : List Char → Bool) (characters : List Char) :
    ((suffixes characters).map matched).headD false = matched characters := by
  cases characters <;> rfl

theorem matchesBefore_eq (item : PatternItem) (items : List PatternItem) (isItem : item ≠ .star)
    (characters : List Char) :
    matchesBefore item characters ((suffixes characters).map (matchesItems items)) =
      (suffixes characters).map (matchesItems (item :: items)) := by
  induction characters with
  | nil => cases item <;> simp_all [matchesBefore, suffixes, matchesItems]
  | cons first rest ih =>
      simp only [suffixes, List.map_cons, matchesBefore, headD_suffixes, ih]
      cases item <;> simp_all [matchesItems]

theorem matchesBeforeStar_eq (items : List PatternItem) (characters : List Char) :
    matchesBeforeStar ((suffixes characters).map (matchesItems items)) =
      (suffixes characters).map (matchesItems (.star :: items)) := by
  induction characters with
  | nil => simp [matchesBeforeStar, suffixes, matchesItems]
  | cons first rest ih =>
      simp only [suffixes, List.map_cons, matchesBeforeStar, headD_suffixes, ih, matchesItems,
        List.any_cons]

theorem suffixMatches_eq (characters : List Char) (items : List PatternItem) :
    suffixMatches characters items = (suffixes characters).map (matchesItems items) := by
  induction items with
  | nil =>
      refine List.map_congr_left (fun suffix _ => ?_)
      cases suffix <;> rfl
  | cons item items ih =>
      cases item with
      | star => rw [suffixMatches, ih, matchesBeforeStar_eq]
      | _ => rw [suffixMatches, ih, matchesBefore_eq] <;> simp

/-- Whether a whole name fits a pattern. -/
def matchesPattern (pattern name : String) : Bool :=
  (suffixMatches name.toList (patternItems pattern.toList)).headD false

theorem matchesPattern_eq (pattern name : String) :
    matchesPattern pattern name = matchesItems (patternItems pattern.toList) name.toList := by
  rw [matchesPattern, suffixMatches_eq, headD_suffixes]

end KernelFootprint.Text
