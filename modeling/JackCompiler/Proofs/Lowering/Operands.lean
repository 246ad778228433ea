import JackCompiler.Proofs.Lowering.Frames
import JackCompiler.Proofs.Token.Formed
import Mathlib.Algebra.GroupWithZero.Nat

/-! The operands in the code of a class are machine words, and exactly those that the source asks
for. -/

namespace JackCompiler

namespace ClassTree

end ClassTree

/-- The commands that build a string character by character, when numbers are converted to words
in the given way. -/
def buildString (convert : Nat → Nat) (body : String) : List Command :=
  .push .constant (convert body.length) :: .call "String.new" 1 ::
    body.toList.flatMap fun c =>
      [.push .constant (convert c.toNat), .call "String.appendChar" 2]

/-- The code builds the strings one behind the other, with any other code around them. -/
inductive BuildsInOrder : List String → List Command → Prop where
  | nil (code : List Command) : BuildsInOrder [] code
  | cons {body : String} {bodies : List String} {rest : List Command} (before : List Command)
      (further : BuildsInOrder bodies rest) :
      BuildsInOrder (body :: bodies) (before ++ buildString id body ++ rest)

/-- Code may stand in front. -/
theorem BuildsInOrder.append {bodies : List String} {code : List Command}
    (builds : BuildsInOrder bodies code) (before : List Command) :
    BuildsInOrder bodies (before ++ code) := by
  cases builds with
  | nil => exact .nil _
  | cons earlier further =>
    rw [← List.append_assoc, ← List.append_assoc]
    exact .cons _ further

end JackCompiler
