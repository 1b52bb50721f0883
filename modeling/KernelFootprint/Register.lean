/-!
# Registers

A register is an association list in which every key stands once. A second
entry for a key takes the place of the first one, so that the keys keep the
order in which they were first seen. Sorting is by insertion and stable.
-/

namespace KernelFootprint.Register

variable {Key Entry : Type}

def find [BEq Key] (key : Key) : List (Key × Entry) → Option Entry
  | [] => none
  | (other, entry) :: rest => if other == key then some entry else find key rest

def insert [BEq Key] (key : Key) (entry : Entry) : List (Key × Entry) → List (Key × Entry)
  | [] => [(key, entry)]
  | (other, old) :: rest =>
      if other == key then (other, entry) :: rest else (other, old) :: insert key entry rest

def insertAll [BEq Key] (start : List (Key × Entry)) (entries : List (Key × Entry)) :
    List (Key × Entry) :=
  entries.foldl (fun register entry => insert entry.1 entry.2 register) start

def ofList [BEq Key] (entries : List (Key × Entry)) : List (Key × Entry) :=
  insertAll [] entries

theorem find_insert_self [BEq Key] [LawfulBEq Key] (key : Key) (entry : Entry)
    (register : List (Key × Entry)) : find key (insert key entry register) = some entry := by
  induction register with
  | nil => simp [insert, find]
  | cons first rest ih =>
      obtain ⟨other, old⟩ := first
      cases same : other == key <;> simp [insert, find, same, ih]

theorem find_insert_of_ne [BEq Key] [LawfulBEq Key] {key other : Key} (different : other ≠ key)
    (entry : Entry) (register : List (Key × Entry)) :
    find other (insert key entry register) = find other register := by
  induction register with
  | nil => simp [insert, find, different.symm]
  | cons first rest ih =>
      obtain ⟨head, old⟩ := first
      by_cases same : head = key
      · subst same
        simp [insert, find, different.symm]
      · by_cases found : head = other
        · subst found
          simp [insert, find, same]
        · simp [insert, find, same, found, ih]

/-- Puts an element in front of the first one that must not come before it. -/
def place {Element : Type} (before : Element → Element → Bool) (element : Element) :
    List Element → List Element
  | [] => [element]
  | first :: rest =>
      if before first element then first :: place before element rest else element :: first :: rest

/-- The elements in the order of `before`, which holds of equal elements in either order. -/
def sort {Element : Type} (before : Element → Element → Bool) (elements : List Element) :
    List Element :=
  elements.foldl (fun sorted element => place before element sorted) []

end KernelFootprint.Register
