import JackCompiler.Proofs.Checked.Counting
import JackCompiler.Proofs.Checked.Scan

/-! Compiling a source to its program text never panics. -/

namespace JackCompiler

/-- Writes a program to a sink piece by piece, unless the sink refuses a piece. -/
def writeProgram {σ : Type} (write : σ → String → Option σ) (out : σ) (commands : List Command) :
    Option σ :=
  commands.foldlM (fun out command => do
    let out ← write out command.indentation
    let out ← write out command.text
    write out "\n") out

/-- A text takes every piece at its end. -/
def appendPiece (text piece : String) : Option String := some (text ++ piece)

/-- A text that grows refuses nothing, and takes up the lines of a program. -/
theorem writeProgram_appendPiece (text : String) (commands : List Command) :
    writeProgram appendPiece text commands = some (text ++ renderProgram commands) := by
  -- Each command adds the three pieces of its line.
  induction commands generalizing text with
  | nil => simp [writeProgram, renderProgram]
  | cons command commands ih =>
    have first : writeProgram appendPiece text (command :: commands) =
        writeProgram appendPiece (text ++ command.indentation ++ command.text ++ "\n") commands :=
      rfl
    rw [first, ih]
    simp [renderProgram, Command.line, String.append_assoc]

/-- The program of the class in a source, computed with machine words, slices and tested facts. The
source is scanned to its end or to its first fault before any of it is compiled. -/
def compileChecked (source : String) : Checked (Except Diagnostic String) := do
  let scan ← Scan.checked source
  let ending ← scan.checkedEnding
  match ← (Compilation.start scan.tokens).checkedRun ending {} #[] with
  | .error fault => return .error fault.diagnostic
  | .ok commands =>
    match writeProgram appendPiece "" commands with
    | some text => return .ok text
    | none => return .error .formatting

/-- The largest number of values that a call of a source passes, its receiver included, as far as
the source is compiled. -/
def largestCall (source : String) : Nat :=
  let scan := Scan.ofSource source
  (Compilation.start scan.tokens).mostPassed scan.ending

/-- Words that ask for labels have more characters than they ask for labels. -/
theorem Lexeme.labels_le {lexeme behind : List Char} {kind : TokenKind}
    (lexed : Lexeme lexeme kind behind) : kind.labels ≤ lexeme.length := by
  -- Only keywords ask for labels.
  cases lexed with
  | keyword word => cases word <;> decide
  | _ => exact Nat.zero_le _

/-- The tokens of a text ask for no more labels than the text has characters. -/
theorem Decomposes.labelsAskedBy_le {text : List Char} {parts : Decomposition}
    (decomposes : Decomposes text parts) : labelsAskedBy parts.kinds ≤ text.length := by
  induction decomposes with
  | ending => exact Nat.zero_le _
  | token _ lexed _ ih =>
    have own := lexed.labels_le
    simp only [Decomposition.kinds, List.map_cons, labelsAskedBy_cons, List.length_append] at ih ⊢
    omega

/-- The tokens of a source ask for no more labels than the source has bytes. -/
theorem labelsAskedBy_ofSource_le (source : String) :
    labelsAskedBy ((Scan.ofSource source).tokens.map Token.kind) ≤ source.utf8ByteSize := by
  obtain ⟨parts, fault?, decomposes, leaves⟩ := exists_decomposition source.toList
  have scanned : Scan.ofSource source = _ := Scan.ofLexer_eq decomposes leaves .start #[]
  have bytes := length_le_byteCount source.toList
  rw [byteCount, String.ofList_toList] at bytes
  rw [scanned, List.nil_append, Piece.map_kind_tokens]
  exact Nat.le_trans decomposes.labelsAskedBy_le bytes

/-- Before anything is read, only the labels that the tokens ask for are to be counted. -/
theorem Compilation.Counted.start {bound : Nat} {tokens : List Token}
    (few : labelsAskedBy (tokens.map Token.kind) ≤ bound) :
    (Compilation.start tokens).Counted bound {} := by
  refine ⟨fun kind => ?_, ?_, .of_undeclared (Nat.zero_le _) ?_⟩
  · cases kind <;> exact Nat.zero_le _
  · simpa [Compilation.start] using few
  · simp [Compilation.start, Pending.declares?]

/-- A report of a fault is a lexical, a syntactic or a semantic one. -/
theorem Fault.diagnostic_cases (fault : Fault) : fault.diagnostic.isLexical = true ∨
    fault.diagnostic.isSyntactic = true ∨ fault.diagnostic.isSemantic = true := by
  -- The kind of the report is that of the cause.
  obtain ⟨location, _ | _ | _⟩ := fault
  · exact .inl rfl
  · exact .inr (.inl rfl)
  · exact .inr (.inr rfl)

/-- A small source with calls of countable size is compiled without a panic, to the same result. -/
theorem compileChecked_eq {source : String} (small : source.utf8ByteSize < 2 ^ 32 - 1)
    (few : largestCall source ≤ 65535) :
    compileChecked source = .ok ((compileToText source).mapError Fault.diagnostic) := by
  -- The scan panics nowhere, and the run starts with counts that stay small.
  have counted := Compilation.Counted.start (labelsAskedBy_ofSource_le source)
  have ran := Compilation.checkedRun_eq counted (by omega) few #[]
  rw [compileChecked, Checked.bind_eq (Scan.checked_eq (by omega)),
    Checked.bind_eq (Scan.checkedEnding_eq small), Checked.bind_eq ran, compileToText, compile]
  cases (Compilation.start (Scan.ofSource source).tokens).run (Scan.ofSource source).ending #[] with
  | error fault => rfl
  | ok commands =>
    dsimp only
    rw [writeProgram_appendPiece, String.empty_append]
    rfl

/-- A source of fewer than `2 ^ 32 - 1` bytes in which no call passes more than 65535 values is
compiled without a panic. The result is the program text, or else a lexical, a syntactic or a
semantic report, and both are those of the compiler without any bounds. -/
theorem compile_without_panic (source : String) (small : source.utf8ByteSize < 2 ^ 32 - 1)
    (few : largestCall source ≤ 65535) :
    compileChecked source = .ok ((compileToText source).mapError Fault.diagnostic) ∧
      ∀ report, compileChecked source = .ok (.error report) →
        report.isLexical = true ∨ report.isSyntactic = true ∨ report.isSemantic = true := by
  have same := compileChecked_eq small few
  refine ⟨same, fun report failed => ?_⟩
  rw [same] at failed
  cases outcome : compileToText source with
  | error fault =>
    rw [outcome] at failed
    cases failed
    exact fault.diagnostic_cases
  | ok text =>
    rw [outcome] at failed
    cases failed

/-- A call that passes two values is compiled without a panic. -/
theorem two_values_without_panic :
    "class A { function int f() { return A.g(1, 2); } }".utf8ByteSize < 2 ^ 32 - 1 ∧
    largestCall "class A { function int f() { return A.g(1, 2); } }" = 2 ∧
    compileChecked "class A { function int f() { return A.g(1, 2); } }" = .ok (.ok
      "function A.f 0\n  push constant 1\n  push constant 2\n  call A.g 2\n  return\n") := by
  have small : "class A { function int f() { return A.g(1, 2); } }".utf8ByteSize < 2 ^ 32 - 1 := by
    decide
  have most : largestCall "class A { function int f() { return A.g(1, 2); } }" = 2 := by
    decide +kernel
  have text : compileToText "class A { function int f() { return A.g(1, 2); } }" = .ok
      "function A.f 0\n  push constant 1\n  push constant 2\n  call A.g 2\n  return\n" := by
    decide +kernel
  have few : largestCall "class A { function int f() { return A.g(1, 2); } }" ≤ 65535 := by
    rw [most]
    decide
  have compiled := (compile_without_panic _ small few).1
  rw [text] at compiled
  exact ⟨small, most, compiled⟩

end JackCompiler
