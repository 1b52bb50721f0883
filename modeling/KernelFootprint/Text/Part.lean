/-!
# Parts of texts

A text is a part of another if its characters stand there one after the other.
The empty text is a part of every text.
-/

namespace KernelFootprint.Text

def isPartOf (part : List Char) : List Char → Bool
  | [] => part.isEmpty
  | first :: rest => part.isPrefixOf (first :: rest) || isPartOf part rest

theorem isPartOf_iff {part whole : List Char} : isPartOf part whole = true ↔ part <:+: whole := by
  induction whole with
  | nil => simp [isPartOf]
  | cons first rest ih =>
      rw [isPartOf, Bool.or_eq_true, ih, List.isPrefixOf_iff_prefix, List.infix_cons_iff]

end KernelFootprint.Text
