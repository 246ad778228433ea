/-! Sets of characters given by runs of code points. -/

namespace JackCompiler

/-- Runs of code points, each with its first and its last, in increasing order. -/
abbrev CodeRanges := List (Nat × Nat)

/-- Whether a code point lies in one of the runs; the search stops at the first run beyond it. -/
def CodeRanges.hasCode (code : Nat) : CodeRanges → Bool
  | [] => false
  | (first, last) :: rest => first ≤ code && (code ≤ last || CodeRanges.hasCode code rest)

/-- Whether a character lies in one of the runs. -/
def CodeRanges.contains (ranges : CodeRanges) (c : Char) : Bool := ranges.hasCode c.toNat

end JackCompiler
