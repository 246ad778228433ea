import JackCompiler.Proofs.Checked.Panic
import JackCompiler.Proofs.Lowering.Jumps

/-! Compiling with counters that are machine words. -/

namespace JackCompiler

/-- The operators that may stand between the terms of an expression. -/
def binaryOperators : List Char := ['+', '-', '*', '/', '&', '|', '<', '>', '=']

/-- What is counted beside the symbols while names are declared. -/
structure Tally where
  /-- The names of the declaration that is being read. -/
  names : Nat := 0
  /-- The names of the local variables that the declarations before it declare. -/
  locals : Nat := 0

/-- The counts after a part has taken a token, as words. -/
def Tally.take (tally : Tally) (token : Token) : Pending → Checked Tally
  -- Local variables are counted anew for each subroutine.
  | .subroutines => .ok { tally with locals := 0 }
  | .variableType _ => .ok { tally with names := 0 }
  | .variableName .. => return { tally with names := ← Checked.word 16 (tally.names + 1) }
  | .variableEnd .localVar _ _ =>
    if token.kind = .symbol ';' then
      return { tally with locals := ← Checked.word 16 (tally.locals + tally.names) }
    else .ok tally
  | _ => .ok tally

namespace Compilation

/-- The counts after a step that takes the given token, or none. -/
def tallied (compilation : Compilation) (taken? : Option Token) (tally : Tally) : Checked Tally :=
  match compilation.pending, taken? with
  | part :: _, some token => tally.take token part
  | _, _ => .ok tally

/-- The number of values that a call passes as far as it is read, its receiver included. -/
def passed (compilation : Compilation) : Nat :=
  match compilation.pending with
  | .arguments _ passed :: _ | .argumentEnd _ passed :: _ => passed
  | _ => 0

/-- The counters of symbols, of labels and of the values that a call passes are words. -/
def checkWords (compilation : Compilation) : Checked Unit := do
  [SymbolKind.static, .field, .argument, .localVar].forM fun kind =>
    discard (Checked.word 16 (compilation.unit.symbols.count kind))
  discard (Checked.word 32 compilation.unit.labels)
  discard (Checked.word 16 compilation.passed)

/-- The next step, where the list of operators decides whether an expression goes on. -/
def checkedStep (ending : Except Fault Location) (compilation : Compilation) : Checked Step :=
  match compilation with
  | ⟨token :: tokens, .operators :: rest, unit⟩ =>
    match token.kind.symbol?.filter binaryOperators.contains with
    | none => .ok (replace (token :: tokens) rest none { unit })
    | some operator =>
      -- The list says that there is code for the operator.
      match Pending.operatorCode? operator with
      | some code =>
        .ok (replace tokens rest (some token)
          { pending := [.term, .emit code, .operators], unit })
      | none => .error .unreachable
  | compilation => .ok (compilation.step ending)

/-- The operators of an expression are those that have code. -/
theorem mem_binaryOperators_iff {symbol : Char} :
    symbol ∈ binaryOperators ↔ ∃ code, Pending.operatorCode? symbol = some code := by
  -- Each of the nine operators is looked up, and each code belongs to one of them.
  constructor
  · intro member
    simp only [binaryOperators, List.mem_cons, List.not_mem_nil, or_false] at member
    rcases member with rfl | rfl | rfl | rfl | rfl | rfl | rfl | rfl | rfl <;> exact ⟨_, rfl⟩
  · rintro ⟨code, found⟩
    obtain ⟨operator, rfl, -⟩ := Pending.operatorCode?_eq_some found
    cases operator <;> decide

/-- The list of operators and the table of their code agree, so that no step panics. -/
theorem checkedStep_eq (ending : Except Fault Location) (compilation : Compilation) :
    compilation.checkedStep ending = .ok (compilation.step ending) := by
  -- Only what follows a term is decided by the list.
  unfold checkedStep
  split
  · rename_i token tokens rest unit
    cases symbol : token.kind.symbol? with
    | none => simp [step, Pending.take?, Pending.leave, symbol]
    | some c =>
      by_cases operator : c ∈ binaryOperators
      · obtain ⟨code, found⟩ := mem_binaryOperators_iff.mp operator
        simp [step, Pending.take?, Option.filter, symbol, operator, found]
      · have without : Pending.operatorCode? c = none :=
          Option.eq_none_iff_forall_ne_some.mpr fun code found =>
            operator (mem_binaryOperators_iff.mpr ⟨code, found⟩)
        simp [step, Pending.take?, Pending.leave, Option.filter, symbol, operator, without]
  · rfl

/-- Compiles from some point on, after the code emitted and the names counted before it. -/
def checkedRun (ending : Except Fault Location) (tally : Tally) (compilation : Compilation)
    (code : Array Command) : Checked (Except Fault (List Command)) :=
  match _stepped : compilation.checkedStep ending with
  | .error panic => .error panic
  | .ok (.go taken? emitted next) => do
    let tally ← compilation.tallied taken? tally
    next.checkWords
    next.checkedRun ending tally (code ++ emitted)
  | .ok .done => .ok (.ok code.toList)
  | .ok (.fail fault) => .ok (.error fault)
termination_by compilation.potential
decreasing_by
  rw [checkedStep_eq] at _stepped
  exact potential_step (Except.ok.inj _stepped)

/-- The largest number of values that a call passes from some point on. -/
def mostPassed (ending : Except Fault Location) (compilation : Compilation) : Nat :=
  match _ : compilation.step ending with
  | .go _ _ next => max next.passed (next.mostPassed ending)
  | .done | .fail _ => 0
termination_by compilation.potential
decreasing_by exact potential_step ‹_›

end Compilation

end JackCompiler
