import JackCompiler.Proofs.Compilation.Completeness

/-! Declarations, subroutines and whole classes are taken for the parts that they stand for. -/

namespace JackCompiler

/-- Where a declaration stands has no say in whether it is accepted. -/
theorem ClassUnit.declare_location {unit next : ClassUnit} {location : Location}
    {name type : String} {kind : SymbolKind}
    (declared : unit.declare location name type kind = .ok next) (other : Location) :
    unit.declare other name type kind = .ok next := by
  -- The place of a declaration is only used in its fault.
  unfold declare at declared ⊢
  split at declared
  · exact declared
  · cases declared

/-- Where a subroutine stands has no say in whether it is accepted. -/
theorem ClassUnit.startSubroutine_location {unit begun : ClassUnit} {location : Location}
    {kind : SubroutineKind} (started : unit.startSubroutine location kind = .ok begun)
    (other : Location) : unit.startSubroutine other kind = .ok begun := by
  -- Only the object of a method is declared, and its place is only used in a fault.
  unfold startSubroutine at started ⊢
  cases kind with
  | method => exact declare_location started other
  | constructor => exact started
  | function => exact started

namespace Pending

variable {unit next after : ClassUnit} {kinds rest : List TokenKind} {code : List Command}
  {kind : SymbolKind} {type : String}

/-- In front of the given rest, the part takes tokens of the given kinds, emits the code, and is
pending again. -/
def Continues (part : Pending) (unit : ClassUnit) (kinds : List TokenKind) (code : List Command)
    (after : ClassUnit) (rest : List TokenKind) : Prop :=
  ∀ (location : Location) (tokens : List Token) (behind : List Pending),
    tokens.map Token.kind = kinds ++ rest → ∃ left, left.map Token.kind = rest ∧
      Compilation.Steps (.ok location) ⟨tokens, part :: behind, unit⟩ code
        ⟨left, part :: behind, after⟩

/-- A part is pending before it takes anything. -/
theorem Continues.nil {part : Pending} : Continues part unit [] [] unit rest := by
  intro location tokens behind spelled
  exact ⟨tokens, spelled, .refl _⟩

/-- A part that brings others in front of itself is pending again behind them. -/
theorem Continues.cons {part : Pending} {first : TokenKind} {more : List TokenKind}
    {further : List Command}
    (taken : ∀ token : Token, token.kind = first → ∃ pending begun,
      part.take? unit token = some (.ok { pending := pending ++ [part], unit := begun }) ∧
        Takes pending begun kinds code next (more ++ rest))
    (continues : Continues part next more further after rest) :
    Continues part unit (first :: kinds ++ more) (code ++ further) after rest := by
  -- The parts in front are taken before the part itself has its turn.
  intro location tokens behind spelled
  obtain ⟨token, tokens, rfl, same, spelled⟩ := List.map_eq_cons_iff.mp spelled
  obtain ⟨pending, begun, accepted, takes⟩ := taken token same
  obtain ⟨between, spelled, steps⟩ := takes location tokens (part :: behind) (by simp [spelled])
  obtain ⟨left, spelled, others⟩ := continues location between behind spelled
  exact ⟨left, spelled, .take accepted (by simpa using steps.trans others)⟩

/-- A part that is pending again takes what it takes in the end. -/
theorem Continues.takes {part : Pending} {more : List TokenKind} {further : List Command}
    (continues : Continues part unit kinds code next (more ++ rest))
    (takes : Takes [part] next more further after rest) :
    Takes [part] unit (kinds ++ more) (code ++ further) after rest := by
  intro location tokens behind spelled
  obtain ⟨between, spelled, steps⟩ := continues location tokens behind (by simp [spelled])
  obtain ⟨left, spelled, others⟩ := takes location between behind spelled
  exact ⟨left, spelled, steps.trans others⟩

/-- A name whose declaration is accepted is taken. -/
theorem take?_variableName {location place : Location} {name : String} {token : Token}
    (declared : unit.declare location name type kind = .ok next)
    (spelled : token.kind = .identifier name) :
    (variableName kind type place).take? unit token =
      some (.ok { pending := [.variableEnd kind type place], unit := next }) := by
  -- The declaration is made again, at the place of the token.
  have accepted := ClassUnit.declare_location declared token.location
  simp only [take?, spelled, TokenKind.identifier?, Option.map_some]
  exact congrArg some (bind_eq_ok_iff.mpr ⟨next, accepted, rfl⟩)

/-- The names behind a declared one are taken up to their semicolon. -/
theorem takes_variableEnd {names : List String} {location : Location}
    (declares : unit.Declares (names.map (⟨·, type, kind⟩)) after) (fits : after.FitsObject kind) :
    Takes [.variableEnd kind type location] unit (moreNames names ++ [.symbol ';']) [] after
      rest := by
  -- Each comma brings a further name, and the semicolon the count of the fields.
  induction names generalizing unit with
  | nil =>
    obtain rfl : after = unit := declares
    have few : ¬(kind = .field ∧ after.symbols.count .field > maxOperand) :=
      fun many => Nat.not_lt.mpr (fits many.1) many.2
    refine .only fun token spelled => ?_
    simp [take?, spelled, TokenKind.symbol?, takeVariableEnd, few]
  | cons name names ih =>
    obtain ⟨next, _, declared, declares⟩ := declares
    refine .read fun comma spelled => ⟨[.variableName kind type location], unit, ?_,
      .read fun token spelled => ⟨[.variableEnd kind type location], next,
        take?_variableName declared spelled, ih declares⟩⟩
    simp [take?, spelled, TokenKind.symbol?, takeVariableEnd]

/-- A list of variables is taken from its type on. -/
theorem takes_variableType {list : VariableList}
    (declares : unit.Declares (list.declarations kind) after) (fits : after.FitsObject kind) :
    Takes [.variableType kind] unit list.kinds [] after rest := by
  -- The type and the first name are taken, and the names behind it follow.
  obtain ⟨next, _, declared, declares⟩ := declares
  refine .read fun token spelled => ⟨[.variableName kind list.type.text token.location], unit, ?_,
    .read fun name spelled => ⟨[.variableEnd kind list.type.text token.location], next,
      take?_variableName declared spelled, takes_variableEnd declares fits⟩⟩
  simp [take?, spelled, TypeName.type?_kind]

/-- The variables of a class are taken, and more of them may follow. -/
theorem continues_classVariables {classVariables : List ClassVariables}
    (declares : unit.DeclaresVariables classVariables next) :
    Continues .classVariables unit (classVariables.flatMap ClassVariables.kinds) [] next rest := by
  -- Each declaration is taken from its keyword on.
  induction declares with
  | nil unit => exact .nil
  | @cons unit _ _ classVariables _ declares fits _ ih =>
    rw [List.flatMap_cons]
    refine .cons (fun token spelled => ⟨[.variableType classVariables.kind.symbolKind], unit, ?_,
      takes_variableType declares fits⟩) ih
    obtain ⟨kind, list⟩ := classVariables
    cases kind <;> simp [take?, spelled, ClassVariableKind.keyword, ClassVariableKind.symbolKind]

/-- The variables of a class end where no further keyword declares any. -/
theorem take?_classVariables {token : Token}
    (other : ¬(token.kind = .keyword .static ∨ token.kind = .keyword .field)) :
    classVariables.take? unit token = none := by
  unfold take?
  split <;> simp_all

/-- The variables of a class are taken, and then its subroutines are. -/
theorem takes_classVariables {classVariables : List ClassVariables}
    (declares : unit.DeclaresVariables classVariables next)
    (takes : Takes [.subroutines] next kinds code after rest)
    (ends : ∀ kind ∈ (kinds ++ rest).head?, ¬(kind = .keyword .static ∨ kind = .keyword .field)) :
    Takes [.classVariables] unit (classVariables.flatMap ClassVariables.kinds ++ kinds) code after
      rest :=
  (continues_classVariables declares).takes
    (.pass rfl (fun token first => take?_classVariables (ends token.kind first)) takes)

/-- A parameter whose declaration is accepted is taken with its name. -/
theorem take?_parameterName {location : Location} {name : String} {token : Token}
    (declared : unit.declare location name type .argument = .ok next)
    (spelled : token.kind = .identifier name) :
    (parameterName type).take? unit token =
      some (.ok { pending := [.parameterEnd], unit := next }) := by
  -- The declaration is made again, at the place of the token.
  have accepted := ClassUnit.declare_location declared token.location
  simp only [take?, spelled, TokenKind.identifier?, Option.map_some]
  exact congrArg some (bind_eq_ok_iff.mpr ⟨next, accepted, rfl⟩)

/-- The parameters behind another one are taken up to their closing parenthesis. -/
theorem takes_parameterEnd {parameters : List Parameter}
    (declares : unit.Declares (parameters.map Parameter.declaration) after) :
    Takes [.parameterEnd] unit (Parameter.moreKinds parameters ++ [.symbol ')']) [] after rest := by
  -- Each comma brings a type and a name, and the parenthesis ends them.
  induction parameters generalizing unit with
  | nil =>
    obtain rfl : after = unit := declares
    exact .only fun token spelled => by simp [take?, spelled]
  | cons parameter parameters ih =>
    obtain ⟨next, _, declared, declares⟩ := declares
    refine .read fun comma spelled => ⟨[.parameterType], unit, ?_, .read fun token spelled =>
      ⟨[.parameterName parameter.type.text], unit, ?_, .read fun name spelled =>
        ⟨[.parameterEnd], next, take?_parameterName declared spelled, ih declares⟩⟩⟩
    · simp [take?, spelled]
    · simp [take?, spelled, TypeName.type?_kind]

/-- Parameters are taken up to their closing parenthesis. -/
theorem takes_parameters {parameters : List Parameter}
    (declares : unit.Declares (parameters.map Parameter.declaration) after) :
    Takes [.parameters] unit (Parameter.allKinds parameters ++ [.symbol ')']) [] after rest := by
  -- A parameter starts with a type, so a parenthesis says that there are none.
  cases parameters with
  | nil =>
    obtain rfl : after = unit := declares
    exact .only fun token spelled => by simp [take?, spelled]
  | cons parameter parameters =>
    obtain ⟨next, _, declared, declares⟩ := declares
    refine .read fun token spelled => ⟨[.parameterName parameter.type.text], unit, ?_,
      .read fun name spelled => ⟨[.parameterEnd], next, take?_parameterName declared spelled,
        takes_parameterEnd declares⟩⟩
    simp [take?, spelled, TypeName.type?_kind, parameter.type.kind_ne_symbol]

/-- The local variables of a subroutine are taken with its body, up to its closing brace. -/
theorem takes_localVariables {locals : List VariableList} {body : Statements} {inner : ClassUnit}
    (declares : unit.Declares (locals.flatMap (·.declarations .localVar)) inner)
    (lawful : body.Lawful inner.context) :
    Takes [.localVariables] unit (localKinds locals ++ (body.kinds ++ [.symbol '}']))
      (inner.opening ++ body.code inner.context inner.labels) (inner.addLabels body.labels)
      rest := by
  -- Behind the last variable, the body is taken with all names declared.
  induction locals generalizing unit with
  | nil =>
    obtain rfl : inner = unit := declares
    have inside := (Statements.takes body lawful (endsStatements_brace rest)).append
      (Takes.nil.symbol '}')
    rw [List.append_nil] at inside
    refine .leave rfl (fun token first => ?_) inside
    have other := body.head_ne_var rest token.kind (by simpa [localKinds] using first)
    simp [take?, other]
  | cons list locals ih =>
    obtain ⟨next, declares, others⟩ := ClassUnit.Declares.of_append declares
    -- A local variable does not belong to the object.
    have fits : next.FitsObject .localVar := by
      intro field
      cases field
    have whole := (takes_variableType declares fits).append (ih others)
    rw [localKinds, List.flatMap_cons, ← localKinds]
    refine .read fun token spelled => ⟨[.variableType .localVar] ++ [.localVariables], unit, ?_,
      by simpa using whole⟩
    simp [take?, spelled]

/-- A subroutine is taken from the type of its result on. -/
theorem takes_returnType {tree : SubroutineTree} (compiled : unit.CompilesRest tree code after) :
    Takes [.returnType tree.kind] unit
      (SubroutineTree.resultKind tree.result? :: .identifier tree.name :: tree.restKinds) code
      after rest := by
  -- The result and the name are known before the parameters and the body are taken.
  obtain ⟨inner, declares, lawful, rfl, rfl⟩ := compiled
  obtain ⟨between, parameters, locals⟩ := ClassUnit.Declares.of_append declares
  have body : Takes _ _ _ _ _ rest := takes_localVariables locals lawful
  have inside := ((takes_parameters parameters).append (body.symbol '{')).symbol '('
  refine .read fun token spelled => ⟨[.subroutineName tree.kind tree.result?.isNone], unit, ?_,
    .read fun name spelled => ⟨[.symbol '(', .parameters, .symbol '{', .localVariables],
      { unit with subroutine := tree.head }, ?_, by simpa [SubroutineTree.restKinds] using inside⟩⟩
  · cases result : tree.result? with
    | none => simp [take?, spelled, SubroutineTree.resultKind, result]
    | some type =>
      have declared : token.kind = type.kind := by simp [spelled, SubroutineTree.resultKind, result]
      simp [take?, declared, type.kind_ne_void, TypeName.type?_kind]
  · simp [take?, spelled, TokenKind.identifier?, SubroutineTree.head]

/-- Subroutines are taken, and more of them may follow. -/
theorem continues_subroutines {subroutines : List SubroutineTree}
    (compiled : unit.CompilesAll subroutines code after) :
    Continues .subroutines unit (subroutines.flatMap SubroutineTree.kinds) code after rest := by
  -- Each subroutine is taken from its keyword on.
  induction compiled with
  | nil unit => exact .nil
  | @cons unit begun next after tree more location code further started compiled _ ih =>
    rw [List.flatMap_cons]
    refine .cons (fun token spelled => ⟨[.returnType tree.kind], begun, ?_,
      takes_returnType compiled⟩) ih
    have opened := SubroutineKind.ofKeyword?_eq_some_iff.mpr (rfl : tree.kind.keyword = _)
    have begins := ClassUnit.startSubroutine_location started token.location
    simp only [take?, spelled, opened, Option.map_some]
    exact congrArg some (bind_eq_ok_iff.mpr ⟨begun, begins, rfl⟩)

/-- Subroutines are taken up to the closing brace of their class. -/
theorem takes_subroutines {subroutines : List SubroutineTree}
    (compiled : unit.CompilesAll subroutines code after) :
    Takes [.subroutines] unit (subroutines.flatMap SubroutineTree.kinds ++ [.symbol '}']) code
      after rest := by
  -- The brace behind the last subroutine ends them.
  have brace : Takes [.subroutines] after [.symbol '}'] [] after rest :=
    .only fun token spelled => by simp [take?, spelled]
  simpa using (continues_subroutines compiled).takes brace

end Pending

end JackCompiler
