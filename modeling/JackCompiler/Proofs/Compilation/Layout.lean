import JackCompiler.Proofs.Compilation.Independence

/-! The layout of a source decides nothing but the places that are reported. -/

namespace JackCompiler

/-- The same report, about another place. -/
def Diagnostic.movedTo (place : Location) : Diagnostic → Diagnostic
  | .lexical _ message => .lexical place message
  | .syntactic _ message => .syntactic place message
  | .semantic _ message => .semantic place message
  -- A failure to read, to write or to format is about no place.
  | .io message => .io message
  | .formatting => .formatting

/-- A fault is reported in the same words wherever it is met. -/
theorem Fault.diagnostic_movedTo (fault : Fault) (place : Location) :
    ({ fault with location := place } : Fault).diagnostic = fault.diagnostic.movedTo place := by
  obtain ⟨location, cause⟩ := fault
  cases cause <;> rfl

/-- A command whose label is not shifted stays the same. -/
theorem Command.Shifted.eq_of_zero {command other : Command} (same : command.Shifted 0 other) :
    other = command := by
  -- A label with the same name and the same number is the same label.
  have label {name shifted : String} (same : LabelShifted 0 name shifted) : shifted = name := by
    obtain ⟨_, _, rfl, rfl⟩ := same
    rfl
  cases command with
  | label name | goto name | ifGoto name =>
    cases other <;> first | exact congrArg _ (label same) | cases same
  | push | pop | operate | call | function | ret => exact same

/-- Code whose labels are not shifted stays the same. -/
theorem eq_of_forall₂_shifted_zero {code other : List Command}
    (same : List.Forall₂ (Command.Shifted 0) code other) : other = code := by
  induction same with
  | nil => rfl
  | cons first _ ih => rw [first.eq_of_zero, ih]

/-- Compilations of tokens of the same kinds start alike. -/
theorem Compilation.alike_start {tokens places : List Token}
    (kinds : places.map Token.kind = tokens.map Token.kind) :
    (start tokens).Alike 0 (start places) :=
  ⟨kinds, .cons (.plain trivial) (.cons (.plain trivial) (.cons (.plain trivial)
    (.cons (.plain trivial) .nil))), rfl⟩

/-- Two sources with tokens of the same kinds, however these are laid out, have the same code, or
they are refused for the same cause, which is reported in the same words at places of their own. -/
theorem compile_of_same_tokens {source other : String} {kinds : List TokenKind}
    (tokens : HasTokens source kinds) (tokensOther : HasTokens other kinds) :
    (∃ code, compile source = .ok code ∧ compile other = .ok code) ∨
      ∃ (fault : Fault) (place : Location), compile source = .error fault ∧
        compile other = .error { fault with location := place } ∧
        ({ fault with location := place } : Fault).diagnostic =
          fault.diagnostic.movedTo place := by
  -- Both sources are read to their end, and differ only in where their tokens stand.
  obtain ⟨location, ended⟩ := (Scan.ending_eq_ok_iff _).mpr tokens.1
  obtain ⟨place, endedOther⟩ := (Scan.ending_eq_ok_iff _).mpr tokensOther.1
  have alike := Compilation.alike_start (tokensOther.2.trans tokens.2.symm)
  have ends : SameOutcome (fun _ _ => True) (Scan.ofSource source).ending
      (Scan.ofSource other).ending := by
    rw [ended, endedOther]
    exact .ok trivial
  have same : SameOutcome _ (compile source) (compile other) := alike.sameOutcome ends
  generalize compile source = outcome, compile other = further at same ⊢
  cases same with
  | ok same =>
    -- No label is shifted, so the code is the same.
    obtain ⟨more, shifted, rfl, rfl, sameCode⟩ := same
    obtain rfl := eq_of_forall₂_shifted_zero sameCode
    exact .inl ⟨_, rfl, rfl⟩
  | @error fault other same =>
    refine .inr ⟨fault, other.location, rfl, ?_, fault.diagnostic_movedTo other.location⟩
    rw [← same]

/-- A field is declared twice, whether on one line or with comments and breaks in between. -/
theorem field_twice_refused_alike :
    compile "class A{field int x,x;}" = .error
      ⟨⟨1, 21⟩, .semantic (.symbol (.alreadyDefined "x" .field))⟩ ∧
    ∃ place, compile "class A \x7b\n  field int x, // one\n    /* and */ x;\n\x7d" = .error
      ⟨place, .semantic (.symbol (.alreadyDefined "x" .field))⟩ := by
  have refused : compile "class A{field int x,x;}" = .error
      ⟨⟨1, 21⟩, .semantic (.symbol (.alreadyDefined "x" .field))⟩ := by decide +kernel
  let kinds : List TokenKind := [.keyword .«class», .identifier "A", .symbol '{', .keyword .field,
    .keyword .int, .identifier "x", .symbol ',', .identifier "x", .symbol ';', .symbol '}']
  have tokens : HasTokens "class A{field int x,x;}" kinds := ⟨by decide +kernel, by decide +kernel⟩
  have tokensOther : HasTokens
      "class A \x7b\n  field int x, // one\n    /* and */ x;\n\x7d" kinds :=
    ⟨by decide +kernel, by decide +kernel⟩
  refine ⟨refused, ?_⟩
  rcases compile_of_same_tokens tokens tokensOther with ⟨code, accepted, -⟩ |
    ⟨fault, place, failed, failedOther, -⟩
  · rw [refused] at accepted
    cases accepted
  · rw [refused] at failed
    cases failed
    exact ⟨place, failedOther⟩

end JackCompiler
