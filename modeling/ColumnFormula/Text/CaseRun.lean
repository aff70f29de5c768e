/-!
Case mappings of single characters as runs: every character of a run, or every other one, is moved
by the same distance.
-/

set_option autoImplicit false
set_option relaxedAutoImplicit false

namespace ColumnFormula

/-- The characters `first`, `first + step`, up to `last`, each mapped to the one `offset` further
on. -/
structure CaseRun where
  first : Nat
  last : Nat
  step : Nat
  offset : Int
  deriving Repr

/-- Whether a code point belongs to the run. -/
def CaseRun.covers (run : CaseRun) (code : Nat) : Bool :=
  run.first ≤ code && code ≤ run.last && (code - run.first) % run.step == 0

/-- The character that a table of runs, sorted by their first characters, maps `c` to; `c` itself
if no run covers it. -/
def CaseRun.apply : List CaseRun → Char → Char
  | [], c => c
  | run :: rest, c =>
    if c.toNat < run.first then c
    else if run.covers c.toNat then Char.ofNat (c.toNat + run.offset).toNat
    else apply rest c

end ColumnFormula
