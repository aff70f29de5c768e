/-!
Classes of characters as sorted lists of code point ranges. The tables of the neighbouring modules
are of this form; `CharRanges.contains` walks a table and stops at the first range past the
character, so the characters at the start of a table are found at once.
-/

set_option autoImplicit false
set_option relaxedAutoImplicit false

namespace ColumnFormula

/-- Disjoint ranges of code points, first and last included, in ascending order. -/
abbrev CharRanges := List (Nat × Nat)

/-- Whether a code point lies in one of the ranges. -/
def CharRanges.contains : CharRanges → Nat → Bool
  | [], _ => false
  | (first, last) :: rest, code =>
    if code < first then false
    else if code ≤ last then true
    else contains rest code

end ColumnFormula
