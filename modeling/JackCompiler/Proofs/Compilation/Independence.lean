import JackCompiler.Proofs.Compilation.Alike
import JackCompiler.Proofs.Compilation.Correctness
import JackCompiler.Proofs.Lowering.Labels

/-! The subroutines of a class are compiled independently of those before them. -/

namespace JackCompiler

/-- A new subroutine does not see the names of the last one. -/
theorem SymbolTable.startSubroutine_insert (table : SymbolTable) {symbol : Symbol}
    (own : symbol.kind.scope = .subroutine) :
    (table.insert symbol).startSubroutine = table.startSubroutine := by
  obtain ⟨name, type, kind, index⟩ := symbol
  cases kind with
  | static | field => cases own
  | argument | localVar => rfl

namespace ClassUnit

/-- Both units know the same of the class, and may differ in what they know of a subroutine. -/
structure SameClass (unit other : ClassUnit) : Prop where
  name : other.name = unit.name
  labels : other.labels = unit.labels
  symbols : other.symbols.startSubroutine = unit.symbols.startSubroutine

variable {unit next after other : ClassUnit}

/-- Units that know the same of a class as one of them know the same as another. -/
theorem SameClass.trans (first : unit.SameClass next) (second : next.SameClass after) :
    unit.SameClass after :=
  ⟨second.name.trans first.name, second.labels.trans first.labels,
    second.symbols.trans first.symbols⟩

/-- Labels are counted for the whole class. -/
theorem SameClass.addLabels (same : unit.SameClass other) (count : Nat) :
    (unit.addLabels count).SameClass (other.addLabels count) :=
  ⟨same.name, congrArg (· + count) same.labels, same.symbols⟩

/-- A name of a subroutine is not known to the class. -/
theorem SameClass.of_declare {location : Location} {name type : String} {kind : SymbolKind}
    (own : kind.scope = .subroutine) (declared : unit.declare location name type kind = .ok next) :
    unit.SameClass next := by
  -- The table gains a symbol in the scope that the next subroutine forgets.
  unfold declare at declared
  split at declared
  · rename_i defined
    cases declared
    simp only [SymbolTable.define] at defined
    split at defined
    · cases defined
    · split at defined <;> cases defined
      exact ⟨rfl, rfl, unit.symbols.startSubroutine_insert own⟩
  · cases declared

/-- The names of a subroutine are not known to the class. -/
theorem SameClass.of_declares {declarations : List Declaration}
    (own : ∀ declaration ∈ declarations, declaration.kind.scope = .subroutine)
    (declares : unit.Declares declarations next) : unit.SameClass next := by
  -- The names are declared one by one, and none of them reaches the class.
  induction declarations generalizing unit with
  | nil =>
    obtain rfl : next = unit := declares
    exact ⟨rfl, rfl, rfl⟩
  | cons first rest ih =>
    obtain ⟨begun, location, declared, declares⟩ := declares
    obtain ⟨first, others⟩ := List.forall_mem_cons.mp own
    exact (SameClass.of_declare first declared).trans (ih others declares)

/-- A subroutine that is started knows no more of the class than was known before. -/
theorem SameClass.of_startSubroutine {location : Location} {kind : SubroutineKind}
    (started : unit.startSubroutine location kind = .ok next) : unit.SameClass next := by
  -- The object of a method is declared for the subroutine alone.
  have fresh : unit.SameClass { unit with symbols := unit.symbols.startSubroutine } :=
    ⟨rfl, rfl, rfl⟩
  unfold startSubroutine at started
  cases kind with
  | method => exact fresh.trans (.of_declare rfl started)
  | constructor | function =>
    cases started
    exact fresh

/-- The code that opens a subroutine sets no label. -/
theorem labelNames_opening_eq (unit : ClassUnit) : labelNames unit.opening = [] := by
  unfold opening
  cases unit.subroutine.kind <;> simp [Command.label?]

/-- Behind some subroutines the class is known as it was before them, and their labels are taken. -/
theorem SameClass.of_compilesAll {subroutines : List SubroutineTree} {code : List Command}
    (compiled : unit.CompilesAll subroutines code after) :
    (unit.addLabels (labelNames code).length).SameClass after := by
  -- Each subroutine declares its names, which the class forgets, and takes the labels of its body.
  induction compiled with
  | nil unit => exact ⟨rfl, rfl, rfl⟩
  | @cons unit begun next after tree more location code further started compiled _ ih =>
    obtain ⟨inner, declares, lawful, rfl, rfl⟩ := compiled
    have head : begun.SameClass { begun with subroutine := tree.head } := ⟨rfl, rfl, rfl⟩
    have names := SameClass.of_declares (fun declaration => scope_of_mem_ownDeclarations) declares
    have opened := ((SameClass.of_startSubroutine started).trans head).trans names
    have taken := (tree.body.labelNames_code inner.context inner.labels).length_eq
    rw [Context.labels, List.length_map, List.length_range'] at taken
    rw [labelNames_append, labelNames_append, labelNames_opening_eq, List.nil_append,
      List.length_append, taken, ← addLabels_addLabels]
    exact ((opened.addLabels _).addLabels _).trans ih

end ClassUnit

namespace Compilation

variable {ending : Except Fault Location} {first second next other : Compilation}

/-- Both compilations come to the same end. -/
def SameRun (ending : Except Fault Location) (first second : Compilation) : Prop :=
  ∀ emitted, first.run ending emitted = second.run ending emitted

/-- Compilations with the same next step come to the same end. -/
theorem SameRun.of_step (same : first.step ending = second.step ending) :
    SameRun ending first second := by
  intro emitted
  rw [run, run]
  split <;> split <;> simp_all

section

variable {token : Token} {tokens : List Token} {part : Pending} {rest : List Pending}
  {unit unitOther : ClassUnit} {kind : SubroutineKind}

/-- A token that is taken with the same code leads to the same end where its ways on do. -/
theorem SameRun.of_take {move moveOther : Move} (taken : part.take? unit token = some (.ok move))
    (takenOther : part.take? unitOther token = some (.ok moveOther))
    (code : moveOther.code = move.code)
    (same : SameRun ending ⟨tokens, move.pending ++ rest, move.unit⟩
      ⟨tokens, moveOther.pending ++ rest, moveOther.unit⟩) :
    SameRun ending ⟨token :: tokens, part :: rest, unit⟩
      ⟨token :: tokens, part :: rest, unitOther⟩ := by
  intro emitted
  rw [run_eq_of_steps (.take taken (.refl _)), run_eq_of_steps (.take takenOther (.refl _)), code]
  exact same _

/-- A part that cannot be missing is refused whatever the unit is. -/
theorem SameRun.of_unread {expected : String} (unread : ∀ unit, part.take? unit token = none)
    (refused : ∀ unit, part.leave unit = .refuse expected) :
    SameRun ending ⟨token :: tokens, part :: rest, unit⟩
      ⟨token :: tokens, part :: rest, unitOther⟩ := by
  refine .of_step ?_
  rw [step_token, step_token, unread, unread]
  simp only [leaveFirst, refused]

/-- The name of a subroutine is kept in place of the last one. -/
theorem sameRun_subroutineName (isVoid : Bool) (last : Subroutine) :
    SameRun ending ⟨tokens, .subroutineName kind isVoid :: rest, unit⟩
      ⟨tokens, .subroutineName kind isVoid :: rest, { unit with subroutine := last }⟩ := by
  refine .of_step ?_
  cases tokens with
  | nil => rfl
  | cons token tokens =>
    rw [step_token, step_token]
    simp only [Pending.take?]
    cases token.kind.identifier? <;> rfl

/-- The type of a subroutine is followed by its name. -/
theorem take?_returnType (kind : SubroutineKind) (token : Token) :
    (∀ unit, (Pending.returnType kind).take? unit token = none) ∨
      ∃ isVoid, ∀ unit, (Pending.returnType kind).take? unit token =
        some (.ok { pending := [.subroutineName kind isVoid], unit }) := by
  by_cases void : token.kind = .keyword .void
  · exact .inr ⟨true, fun unit => by simp [Pending.take?, void]⟩
  · cases named : token.kind.type? with
    | none => exact .inl fun unit => by simp [Pending.take?, void, named]
    | some type => exact .inr ⟨false, fun unit => by simp [Pending.take?, void, named]⟩

/-- The type of a subroutine is read whatever the last subroutine was. -/
theorem sameRun_returnType (last : Subroutine) :
    SameRun ending ⟨tokens, .returnType kind :: rest, unit⟩
      ⟨tokens, .returnType kind :: rest, { unit with subroutine := last }⟩ := by
  cases tokens with
  | nil => exact .of_step rfl
  | cons token tokens =>
    -- All that is kept of the type is whether there is one.
    rcases take?_returnType kind token with unread | ⟨isVoid, taken⟩
    · exact .of_unread unread fun unit => rfl
    · exact .of_take (taken _) (taken _) rfl (sameRun_subroutineName isVoid last)

/-- Nothing but the end of the source is read behind the brace of a class. -/
theorem sameRun_nil : SameRun ending ⟨tokens, [], unit⟩ ⟨tokens, [], unitOther⟩ :=
  .of_step (by cases tokens <;> rfl)

end

end Compilation

namespace ClassUnit

variable {unit other : ClassUnit}

/-- A subroutine is started with what is known of the class. -/
theorem SameClass.startSubroutine_eq (same : unit.SameClass other) (location : Location)
    (kind : SubroutineKind) :
    other.startSubroutine location kind =
      (unit.startSubroutine location kind).map ({ · with subroutine := other.subroutine }) := by
  -- Both start from the table of the class, and only a method declares something in it.
  obtain ⟨name, table, subroutine, labels⟩ := unit
  obtain ⟨nameOther, tableOther, last, labelsOther⟩ := other
  obtain ⟨rfl, rfl, symbols⟩ := same
  simp only at symbols
  unfold startSubroutine
  simp only [symbols]
  cases kind with
  | constructor | function => rfl
  | method =>
    simp only [declare]
    split <;> rfl

/-- Where only the last subroutine differs, the others are compiled to the same end. -/
theorem SameClass.sameRun (same : unit.SameClass other) {ending : Except Fault Location}
    {tokens : List Token} :
    Compilation.SameRun ending ⟨tokens, [.subroutines], unit⟩ ⟨tokens, [.subroutines], other⟩ := by
  -- Nothing asks for the last subroutine before the name of a new one takes its place.
  cases tokens with
  | nil => exact .of_step rfl
  | cons token tokens =>
    cases spelled : token.kind with
    | keyword word =>
      cases opened : SubroutineKind.ofKeyword? word with
      | none =>
        exact .of_unread (fun unit => by simp [Pending.take?, spelled, opened]) fun unit => rfl
      | some kind =>
        have starts := same.startSubroutine_eq token.location kind
        cases started : unit.startSubroutine token.location kind with
        | ok begun =>
          rw [started] at starts
          have taken : Pending.subroutines.take? unit token =
              some (.ok { pending := [.returnType kind, .subroutines], unit := begun }) := by
            simp only [Pending.take?, spelled, opened, Option.map_some, started]
            rfl
          have takenOther : Pending.subroutines.take? other token =
              some (.ok ⟨[], [.returnType kind, .subroutines],
                { begun with subroutine := other.subroutine }⟩) := by
            simp only [Pending.take?, spelled, opened, Option.map_some, starts]
            rfl
          exact .of_take taken takenOther rfl (Compilation.sameRun_returnType _)
        | error fault =>
          rw [started] at starts
          refine .of_step ?_
          rw [Compilation.step_token, Compilation.step_token]
          simp only [Pending.take?, spelled, opened, Option.map_some, started, starts]
          rfl
    | symbol c =>
      by_cases brace : c = '}'
      · subst brace
        have taken : ∀ unit, Pending.subroutines.take? unit token = some (.ok { unit }) :=
          fun unit => by simp [Pending.take?, spelled]
        exact .of_take (taken _) (taken _) rfl Compilation.sameRun_nil
      · exact .of_unread (fun unit => by simp [Pending.take?, spelled, brace]) fun unit => rfl
    | identifier | integer | string =>
      exact .of_unread (fun unit => by simp [Pending.take?, spelled]) fun unit => rfl

end ClassUnit

/-- The source is split into tokens without a fault, and they are of the given kinds. -/
def HasTokens (source : String) (kinds : List TokenKind) : Prop :=
  (Scan.ofSource source).fault? = none ∧ (Scan.ofSource source).tokens.map Token.kind = kinds

/-- The tokens of a class, from its name and from what stands between its braces. -/
def classKinds (name : String) (inside : List TokenKind) : List TokenKind :=
  .keyword .«class» :: .identifier name :: .symbol '{' :: inside ++ [.symbol '}']

/-- A class is read up to where its given subroutines end. -/
theorem HasTokens.compile_eq {source name : String} {classVariables : List ClassVariables}
    {subroutines : List SubroutineTree} {rest : List TokenKind} {next after : ClassUnit}
    {code : List Command}
    (tokens : HasTokens source (.keyword .«class» :: .identifier name :: .symbol '{' ::
      (classVariables.flatMap ClassVariables.kinds ++
        (subroutines.flatMap SubroutineTree.kinds ++ rest))))
    (declares : { name : ClassUnit }.DeclaresVariables classVariables next)
    (compiled : next.CompilesAll subroutines code after)
    (ends : ∀ kind ∈ rest.head?, ¬(kind = .keyword .static ∨ kind = .keyword .field)) :
    ∃ location left, left.map Token.kind = rest ∧
      compile source =
        Compilation.run (.ok location) ⟨left, [.subroutines], after⟩ code.toArray := by
  -- The header, the variables and the subroutines are taken one behind the other.
  obtain ⟨sound, spelled⟩ := tokens
  obtain ⟨location, ended⟩ := (Scan.ending_eq_ok_iff _).mpr sound
  obtain ⟨inside, spelled, header⟩ :=
    Compilation.takes_header name _ location _ [.classVariables] spelled
  obtain ⟨behind, spelled, declared⟩ :=
    Pending.continues_classVariables declares location inside [] spelled
  obtain ⟨left, same, read⟩ := Pending.continues_subroutines compiled location behind [] spelled
  have unread : ∀ token ∈ behind.head?, Pending.classVariables.take? next token = none := by
    intro token first
    refine Pending.take?_classVariables (SubroutineTree.head_ne_variables subroutines ends _ ?_)
    rw [← spelled, List.head?_map, first]
    rfl
  have steps := (header.trans declared).trans (.leave unread rfl read)
  refine ⟨location, left, same, ?_⟩
  rw [compile, ended, Compilation.start, Compilation.run_eq_of_steps (by simpa using steps)]
  simp

/-- Subroutines in front of others neither change whether the others are accepted, nor why they are
refused, nor their code, except that the labels of the others are numbered behind theirs. -/
theorem compile_behind_subroutines {className : String} {classVariables : List ClassVariables}
    {subroutines : List SubroutineTree} {others : List TokenKind} {first rest whole : String}
    {code : List Command}
    (firstTokens : HasTokens first (classKinds className
      (classVariables.flatMap ClassVariables.kinds ++
        subroutines.flatMap SubroutineTree.kinds)))
    (restTokens : HasTokens rest (classKinds className
      (classVariables.flatMap ClassVariables.kinds ++ others)))
    (wholeTokens : HasTokens whole (classKinds className
      (classVariables.flatMap ClassVariables.kinds ++
        subroutines.flatMap SubroutineTree.kinds ++ others)))
    (begins : ∀ kind ∈ others.head?, ¬(kind = .keyword .static ∨ kind = .keyword .field))
    (compiled : compile first = .ok code) :
    SameOutcome (fun more all => ∃ shifted, all = code ++ shifted ∧
        List.Forall₂ (Command.Shifted (labelNames code).length) more shifted)
      (compile rest) (compile whole) := by
  -- The subroutines are accepted for their own class.
  let tree : ClassTree := ⟨className, classVariables, subroutines⟩
  have spells : HasTokens first tree.kinds := by
    simpa [classKinds, tree, ClassTree.kinds] using firstTokens
  obtain ⟨other, spellsOther, lawful, coded⟩ := (compile_eq_ok_iff first code).mp compiled
  obtain rfl := spellsOther.unique spells
  obtain ⟨next, after, declares, compiled⟩ :=
    (ClassUnit.compilesClass_iff tree code).mpr ⟨lawful, coded⟩
  have ends : ∀ kind ∈ (others ++ [TokenKind.symbol '}']).head?,
      ¬(kind = .keyword .static ∨ kind = .keyword .field) := by
    cases others with
    | nil => simp
    | cons kind others => simpa using begins
  -- Both sources are read up to the point where the others begin.
  have restTokens : HasTokens rest (.keyword .«class» :: .identifier className :: .symbol '{' ::
      (classVariables.flatMap ClassVariables.kinds ++
        (([] : List SubroutineTree).flatMap SubroutineTree.kinds ++
          (others ++ [.symbol '}'])))) := by
    simpa [classKinds] using restTokens
  have wholeTokens : HasTokens whole (.keyword .«class» :: .identifier className :: .symbol '{' ::
      (classVariables.flatMap ClassVariables.kinds ++
        (subroutines.flatMap SubroutineTree.kinds ++ (others ++ [.symbol '}'])))) := by
    simpa [classKinds] using wholeTokens
  obtain ⟨location, left, same, restRun⟩ := restTokens.compile_eq declares (.nil next) ends
  obtain ⟨place, leftOther, sameOther, wholeRun⟩ := wholeTokens.compile_eq declares compiled ends
  -- From there on they go alike, because nothing but the class is known there.
  have known := ClassUnit.SameClass.of_compilesAll compiled
  have alike : Compilation.Alike (labelNames code).length ⟨left, [.subroutines], next⟩
      ⟨leftOther, [.subroutines], next.addLabels (labelNames code).length⟩ :=
    ⟨sameOther.trans same.symm, .cons (.plain trivial) .nil, rfl⟩
  rw [restRun, wholeRun, ← known.sameRun]
  refine (alike.sameOutcome (.ok trivial)).imp ?_
  rintro _ _ ⟨more, shifted, rfl, rfl, sameCode⟩
  exact ⟨shifted, by simp, by simpa using sameCode⟩

/-- A loop behind another one keeps its code, with its two labels numbered behind those of the
other one. -/
theorem loop_behind_loop_shifted :
    ∃ code : List Command, (labelNames code).length = 2 ∧
      compile "class A{function int f(){while(true){}}}" = .ok code ∧
      SameOutcome (fun more all => ∃ shifted, all = code ++ shifted ∧
          List.Forall₂ (Command.Shifted 2) more shifted)
        (compile "class A{function int g(){while(true){}}}")
        (compile "class A{function int f(){while(true){}}function int g(){while(true){}}}") := by
  let loop (name : String) : SubroutineTree :=
    ⟨.function, some (.primitive .int), name, [], [],
      .cons (.whileDo ⟨.word .true, .nil⟩ .nil) .nil⟩
  have compiled : compile "class A{function int f(){while(true){}}}" = .ok
      [.function "A.f" 0, .label "A.label0", .push .constant 1, .operate .neg, .operate .not,
        .ifGoto "A.label1", .goto "A.label0", .label "A.label1"] := by decide +kernel
  have firstTokens : HasTokens "class A{function int f(){while(true){}}}"
      (classKinds "A" ([] ++ [loop "f"].flatMap SubroutineTree.kinds)) :=
    ⟨by decide +kernel, by decide +kernel⟩
  have restTokens : HasTokens "class A{function int g(){while(true){}}}"
      (classKinds "A" ([] ++ (loop "g").kinds)) := ⟨by decide +kernel, by decide +kernel⟩
  have wholeTokens : HasTokens
      "class A{function int f(){while(true){}}function int g(){while(true){}}}"
      (classKinds "A" ([] ++ [loop "f"].flatMap SubroutineTree.kinds ++ (loop "g").kinds)) :=
    ⟨by decide +kernel, by decide +kernel⟩
  have begins : ∀ kind ∈ (loop "g").kinds.head?,
      ¬(kind = .keyword .static ∨ kind = .keyword .field) := by
    simp [loop, SubroutineTree.kinds, SubroutineKind.keyword]
  exact ⟨_, rfl, compiled, @compile_behind_subroutines "A" [] [loop "f"] (loop "g").kinds _ _ _ _
    firstTokens restTokens wholeTokens begins compiled⟩

end JackCompiler
