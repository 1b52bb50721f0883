import KernelFootprint.Datum.Printing
import KernelFootprint.Datum.Reading
import KernelFootprint.Text.Pattern

/-!
# Warnings

A warning is about a kernel and has an identifier by which it can be silenced:
it is issued unless one of the silencing patterns fits its identifier.
-/

namespace KernelFootprint

inductive WarningCategory
  | general
  | incomputableAccess
  | shapeError
  deriving DecidableEq

structure Warning where
  category : WarningCategory
  text : String
  deriving DecidableEq

namespace Warning

/-- Patterns are tried in order. Only texts can be tried, on an identifier that is one. -/
def fitsAny (id : Datum) : List Datum → Except Misuse Bool
  | [] => .ok false
  | .text pattern :: rest => do
      if Text.matchesPattern pattern (← id.toText) then return true
      fitsAny id rest
  | _ :: _ => .error .wrongType

def isSilenced (patterns id : Datum) : Except Misuse Bool := do
  fitsAny id (← patterns.elements)

def advice (id : Datum) : String :=
  " (add '" ++ id.shown ++ "' to silenced_warnings option to disable)"

/-- A text with another one at its end; a list is continued by the characters. -/
def continued (ending : String) : Datum → Except Misuse Datum
  | .text text => .ok (.text (text ++ ending))
  | .list items => do return .list (items ++ (← (Datum.text ending).elements))
  | _ => .error .wrongType

def wording (kernel id text : Datum) : Except Misuse String := do
  return "in kernel " ++ kernel.shown ++ ": " ++ (← continued (advice id) text).shown

/-- The warning with the given identifier, unless it is silenced. -/
def issue? (patterns kernel id text : Datum) (category : WarningCategory) :
    Except Misuse (Option Warning) := do
  if ← isSilenced patterns id then return none
  return some ⟨category, ← wording kernel id text⟩

theorem issue?_text {patterns : Datum} {id : String}
    (heard : isSilenced patterns (.text id) = .ok false) (kernel text : String)
    (category : WarningCategory) :
    issue? patterns (.text kernel) (.text id) (.text text) category =
      .ok (some ⟨category, "in kernel " ++ kernel ++ ": " ++ (text ++ advice (.text id))⟩) := by
  rw [issue?, heard]
  rfl

end Warning

end KernelFootprint
