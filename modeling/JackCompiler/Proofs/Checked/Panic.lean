import Mathlib.Algebra.Group.Nat.Defs
import JackCompiler.Proofs.Compilation.Soundness
import JackCompiler.Proofs.Token.Placement

/-! Computations that may panic, over machine words and over slices of a source. -/

namespace JackCompiler

/-- Why a program stops without any result. -/
inductive Panic where
  /-- A slice of a text lies outside of it, or starts or ends inside a character. -/
  | slice
  /-- A fact that the program relies on does not hold. -/
  | assertion
  /-- A branch is reached that was taken for impossible. -/
  | unreachable
  /-- The result of an addition or of a subtraction is too large or too small for its word. -/
  | overflow
deriving DecidableEq

/-- The result of a computation, unless it panics. -/
abbrev Checked (α : Type) : Type := Except Panic α

namespace Checked

/-- A number that has to fit a word with the given number of bits. -/
def word (bits value : Nat) : Checked Nat :=
  if value < 2 ^ bits then .ok value else .error .overflow

/-- The difference of two words. -/
def difference (first second : Nat) : Checked Nat :=
  if second ≤ first then .ok (first - second) else .error .overflow

/-- Converting a number to a word never panics, and drops the bits that do not fit. -/
def truncate (bits value : Nat) : Nat := value % 2 ^ bits

/-- A fact that is tested where the program relies on it. -/
def ensure (fact : Bool) : Checked Unit := if fact then .ok () else .error .assertion

/-- The part of a source between two byte offsets. -/
def slice (source : String) (first last : Nat) : Checked String :=
  if first ≤ last then
    match (Span.mk first (last - first) .start).fragment? source with
    | some text => .ok text
    | none => .error .slice
  else .error .slice

/-- A number that fits is a word. -/
theorem word_eq {bits value : Nat} (fits : value < 2 ^ bits) : word bits value = .ok value :=
  if_pos fits

/-- One more than the largest word does not fit. -/
example : word 16 65536 = .error .overflow := by
  decide

/-- A difference that is not negative is a word. -/
theorem difference_eq {first second : Nat} (ordered : second ≤ first) :
    difference first second = .ok (first - second) :=
  if_pos ordered

/-- A number that fits is kept when it is converted. -/
theorem truncate_eq {bits value : Nat} (fits : value < 2 ^ bits) : truncate bits value = value :=
  Nat.mod_eq_of_lt fits

/-- A fact that holds stops nothing. -/
theorem ensure_eq {fact : Bool} (holds : fact = true) : ensure fact = .ok () := if_pos holds

/-- What stands between two characters of a source can be sliced off. -/
theorem slice_eq {source : String} {before part behind : List Char}
    (text : source.toList = before ++ (part ++ behind)) :
    slice source (byteCount before) (byteCount (before ++ part)) = .ok (String.ofList part) := by
  -- Both ends are boundaries between characters, and the part lies between them.
  have ordered : byteCount before ≤ byteCount (before ++ part) := by
    rw [byteCount_append]
    exact Nat.le_add_right _ _
  have size : byteCount (before ++ part) - byteCount before = byteCount part := by
    rw [byteCount_append, Nat.add_sub_cancel_left]
  have found : (Span.mk (byteCount before) (byteCount part) .start).fragment? source = _ :=
    Span.fragment?_eq text rfl rfl
  rw [slice, if_pos ordered, size, found]

/-- A slice that ends inside of a character panics. -/
example : slice "é" 0 1 = .error .slice := by
  cbv

/-- What follows a result is computed from it. -/
theorem bind_eq {α β : Type} {computation : Checked α} {value : α} (given : computation = .ok value)
    (next : α → Checked β) : (computation >>= next) = next value := by
  rw [given]
  rfl

end Checked

end JackCompiler
