import JackCompiler.Proofs.Compilation.Reading

/-! Whatever a compilation takes for its pending parts is what these parts stand for. -/

namespace JackCompiler

namespace TokenKind

/-- A token that names a type is the token of that type. -/
theorem type?_eq_some_iff {kind : TokenKind} {text : String} :
    kind.type? = some text ↔ ∃ type : TypeName, kind = type.kind ∧ text = type.text := by
  -- Three keywords name types of their own, and every name is the type of a class.
  constructor
  · intro named
    cases kind with
    | keyword word =>
      simp only [type?, Option.ite_none_right_eq_some, Option.some.injEq] at named
      obtain ⟨primitive, rfl⟩ := named
      cases word <;> simp [Keyword.isPrimitive] at primitive
      · exact ⟨.primitive .int, rfl, rfl⟩
      · exact ⟨.primitive .char, rfl, rfl⟩
      · exact ⟨.primitive .boolean, rfl, rfl⟩
    | identifier name =>
      simp only [type?, Option.some.injEq] at named
      exact ⟨.named name, rfl, named.symm⟩
    | _ => simp [type?] at named
  · rintro ⟨type, rfl, rfl⟩
    cases type with
    | primitive type => cases type <;> rfl
    | named name => rfl

end TokenKind

/-- The token of a type names it. -/
theorem TypeName.type?_kind (type : TypeName) : type.kind.type? = some type.text :=
  TokenKind.type?_eq_some_iff.mpr ⟨type, rfl, rfl⟩

/-- Each kind of subroutine is opened by its keyword. -/
theorem SubroutineKind.ofKeyword?_eq_some_iff {word : Keyword} {kind : SubroutineKind} :
    ofKeyword? word = some kind ↔ word = kind.keyword := by
  -- There is one keyword for each of the three kinds.
  cases word <;> cases kind <;> simp [ofKeyword?, keyword]

/-- A binary operator is taken for its code. -/
theorem Pending.operatorCode?_eq_some {c : Char} {code : List Command}
    (found : operatorCode? c = some code) :
    ∃ operator : BinaryOperator, c = operator.mark ∧ code = [operator.code] := by
  -- Two operators are calls to the library, and seven are operations of the machine.
  unfold operatorCode? at found
  split at found
  · cases found
    exact ⟨.multiply, rfl, rfl⟩
  · cases found
    exact ⟨.divide, rfl, rfl⟩
  · obtain ⟨operation, native, rfl⟩ := Option.map_eq_some_iff.mp found
    unfold Operation.ofBinary? at native
    split at native <;> cases native
    · exact ⟨.add, rfl, rfl⟩
    · exact ⟨.subtract, rfl, rfl⟩
    · exact ⟨.and, rfl, rfl⟩
    · exact ⟨.or, rfl, rfl⟩
    · exact ⟨.less, rfl, rfl⟩
    · exact ⟨.greater, rfl, rfl⟩
    · exact ⟨.equal, rfl, rfl⟩

/-- A string is built character by character, in whichever way its code is written down. -/
theorem Pending.stringCode_eq (body : String) : stringCode body = literalCode body := by
  have chars : ∀ chars : List Char, (chars.flatMap fun c =>
      [Command.push .constant c.toNat, .call "String.appendChar" 2]) = appendCode chars := by
    intro chars
    induction chars with
    | nil => rfl
    | cons c rest ih => simp [appendCode, ih]
  simp [stringCode, literalCode, chars]

/-- The check of a receiver excludes the three primitive types. -/
theorem isPrimitive_ofText?_iff {type : String} :
    (Keyword.ofText? type).any Keyword.isPrimitive = true ↔ type ∈ ["int", "char", "boolean"] := by
  -- A text is primitive when the keyword that it spells is.
  constructor
  · intro primitive
    obtain ⟨word, found, isPrimitive⟩ := (Option.any_eq_true _ _).mp primitive
    have spelled : word.text = type := by
      simpa using List.find?_some found
    subst spelled
    cases word <;> simp_all [Keyword.isPrimitive, Keyword.text]
  · intro member
    simp only [List.mem_cons, List.not_mem_nil, or_false] at member
    rcases member with rfl | rfl | rfl <;> decide

/-- What follows a check succeeds exactly behind a check that has succeeded. -/
theorem bind_eq_ok_iff {ε α β : Type} {checked : Except ε α} {next : α → Except ε β} {result : β} :
    checked >>= next = .ok result ↔ ∃ value, checked = .ok value ∧ next value = .ok result := by
  cases checked with
  | error fault => exact ⟨nofun, nofun⟩
  | ok value =>
    constructor
    · intro succeeded
      exact ⟨value, rfl, succeeded⟩
    · rintro ⟨same, checked, succeeded⟩
      cases checked
      exact succeeded

/-- A name is looked up in the table of symbols. -/
theorem ClassUnit.lookup_eq_ok_iff {unit : ClassUnit} {location : Location} {name : String}
    {symbol : Symbol} :
    unit.lookup location name = .ok symbol ↔ unit.symbols.get? name = some symbol := by
  -- A lookup only adds a fault where nothing is found.
  unfold lookup SymbolTable.lookup
  cases unit.symbols.get? name <;> simp

/-- The check of an indexed variable asks for the type of arrays. -/
theorem Pending.checkIndexable_eq_ok_iff {target : Symbol} {location : Location} :
    checkIndexable target location = .ok () ↔ target.type = "Array" := by
  unfold checkIndexable
  split <;> simp_all

namespace Pending

variable {unit after : ClassUnit} {token : Token} {move : Move} {kinds : List TokenKind}
  {code : List Command}

/-- What is taken for a term, with what is read behind it, is a term. -/
theorem reads_of_takeTerm (taken : takeTerm unit token = some move)
    (reads : ReadsAll move.pending move.unit kinds code after) :
    term.Reads unit (token.kind :: kinds) (move.code ++ code) after := by
  unfold takeTerm at taken
  split at taken <;> rename_i spelled <;> cases taken <;> rw [spelled]
  -- Constants are complete with their token.
  case h_1 value =>
    obtain ⟨rfl, rfl, rfl⟩ := reads.of_nil
    exact ⟨.integer value, rfl, trivial, rfl, rfl⟩
  case h_2 body =>
    obtain ⟨rfl, rfl, rfl⟩ := reads.of_nil
    exact ⟨.string body, rfl, trivial, by simp [Term.code, stringCode_eq], rfl⟩
  case h_3 =>
    obtain ⟨rfl, rfl, rfl⟩ := reads.of_nil
    exact ⟨.word .true, rfl, trivial, rfl, rfl⟩
  case h_4 =>
    obtain ⟨rfl, rfl, rfl⟩ := reads.of_nil
    exact ⟨.word .false, rfl, trivial, rfl, rfl⟩
  case h_5 =>
    obtain ⟨rfl, rfl, rfl⟩ := reads.of_nil
    exact ⟨.word .null, rfl, trivial, rfl, rfl⟩
  case h_6 =>
    obtain ⟨rfl, rfl, rfl⟩ := reads.of_nil
    exact ⟨.word .this, rfl, trivial, rfl, rfl⟩
  case h_7 =>
    obtain ⟨inner, _, _, rfl, rfl, lawful, closing⟩ := ReadsAll.of_expression reads
    obtain ⟨_, rfl, others⟩ := closing.of_symbol
    obtain ⟨rfl, rfl, rfl⟩ := others.of_nil
    exact ⟨.group inner, rfl, lawful, by simp [Term.code], rfl⟩
  -- The operators before an operand are due once the operand is read.
  case h_8 =>
    cases reads with
    | cons first others =>
      obtain ⟨operand, rfl, lawful, rfl, rfl⟩ := first
      obtain ⟨rfl, rfl, rfl⟩ := others.of_single
      exact ⟨.unary .negate operand, by simp [Term.kinds, UnaryOperator.mark], lawful, rfl, rfl⟩
  case h_9 =>
    cases reads with
    | cons first others =>
      obtain ⟨operand, rfl, lawful, rfl, rfl⟩ := first
      obtain ⟨rfl, rfl, rfl⟩ := others.of_single
      exact ⟨.unary .invert operand, by simp [Term.kinds, UnaryOperator.mark], lawful, rfl, rfl⟩
  case h_10 name => exact reads.of_single

/-- A call without a dot reads its arguments behind the object it passes on. -/
theorem reads_ownCall {name : String} {inner : List TokenKind}
    (reads : (ownCall unit name).2.Reads unit inner code after) :
    ∃ call : Call, .identifier name :: .symbol '(' :: inner = call.kinds ∧
      call.Lawful unit.context ∧ (ownCall unit name).1 ++ code = call.code unit.context ∧
      after = unit := by
  -- Inside of a method the object is passed on, which the tree says as well.
  unfold ownCall at reads ⊢
  split at reads <;> rename_i object <;> obtain ⟨arguments, rfl, lawful, rfl, rfl⟩ := reads
  · exact ⟨.own name arguments, rfl, lawful, by simp [object, Call.code, ClassUnit.context,
      Context.member, ClassUnit.member], rfl⟩
  · exact ⟨.own name arguments, rfl, lawful, by simp [object, Call.code, ClassUnit.context,
      Context.member, ClassUnit.member], rfl⟩

/-- A call with a dot reads its arguments behind the object it is made on. -/
theorem reads_memberCall {location : Location} {name member : String} {inner : List TokenKind}
    {start : List Command × Pending} (called : memberCall unit location name member = .ok start)
    (reads : start.2.Reads unit inner code after) :
    ∃ call : Call,
      .identifier name :: .symbol '.' :: .identifier member :: .symbol '(' :: inner = call.kinds ∧
      call.Lawful unit.context ∧ start.1 ++ code = call.code unit.context ∧ after = unit := by
  -- The name decides whether there is an object to pass on.
  unfold memberCall at called
  split at called
  · -- A name that stands for no variable is the name of a class.
    rename_i undeclared
    cases called
    obtain ⟨arguments, rfl, lawful, rfl, rfl⟩ := reads
    refine ⟨.member name member arguments, rfl, ⟨?_, lawful⟩, ?_, rfl⟩
    · intro symbol found
      simp [ClassUnit.context, undeclared] at found
    · simp [Call.code, ClassUnit.context, undeclared]
  · rename_i receiver found
    split at called
    · cases called
    · rename_i primitive
      cases called
      obtain ⟨arguments, rfl, lawful, rfl, rfl⟩ := reads
      refine ⟨.member name member arguments, rfl, ⟨?_, lawful⟩, ?_, rfl⟩
      · intro symbol same
        obtain rfl : receiver = symbol := by simpa [ClassUnit.context, found] using same
        exact fun member => primitive (isPrimitive_ofText?_iff.mpr member)
      · simp [Call.code, ClassUnit.context, found]

/-- What is taken behind a name in an expression makes a term of both. -/
theorem reads_of_takeNameRest {name : String} {location : Location} {c : Char}
    (taken : takeNameRest unit name location c = some (.ok move))
    (reads : ReadsAll move.pending move.unit kinds code after) :
    (nameRest name location).Reads unit (.symbol c :: kinds) (move.code ++ code) after := by
  unfold takeNameRest at taken
  split at taken
  · -- A dot makes it a call on the name.
    cases taken
    obtain ⟨call, spelled, lawful, rfl, rfl⟩ := reads.of_single
    exact ⟨.call call, spelled, lawful, rfl, rfl⟩
  · -- A parenthesis makes it a call to a subroutine of the class.
    cases taken
    obtain ⟨call, spelled, lawful, coded, rfl⟩ := reads_ownCall reads.of_single
    exact ⟨.call call, spelled, lawful, coded, rfl⟩
  · -- A bracket makes it an element of an array.
    simp only [Option.some.injEq] at taken
    obtain ⟨target, found, taken⟩ := bind_eq_ok_iff.mp taken
    obtain ⟨_, indexable, taken⟩ := bind_eq_ok_iff.mp taken
    cases taken
    have found := ClassUnit.lookup_eq_ok_iff.mp found
    obtain ⟨index, _, _, rfl, rfl, lawful, closing⟩ := ReadsAll.of_expression reads
    obtain ⟨_, rfl, due⟩ := closing.of_symbol
    obtain ⟨_, rfl, others⟩ := due.of_emit
    obtain ⟨rfl, rfl, rfl⟩ := others.of_nil
    refine ⟨.element name index, rfl, ⟨⟨target, found, checkIndexable_eq_ok_iff.mp indexable⟩,
      lawful⟩, ?_, rfl⟩
    simp [Term.code, Context.load, ClassUnit.context, found]
  · cases taken

/-- Only conditionals and loops take labels. -/
theorem labels_of_kinds {statement : Statement} {word : Keyword}
    (spelled : .keyword word :: kinds = statement.kinds) (plain : word ≠ .«if» ∧ word ≠ .«while») :
    statement.labels = 0 := by
  -- The keyword of a statement tells its form, and all but two forms take no labels.
  cases statement <;> simp_all [Statement.kinds, Statement.labels]

/-- A statement makes statements with those that are read behind it. -/
theorem reads_cons (statement : Statement) (lawful : statement.Lawful unit.context)
    (others : statements.Reads (unit.addLabels statement.labels) kinds code after) :
    statements.Reads unit (statement.kinds ++ kinds)
      (statement.code unit.context unit.labels ++ code) after := by
  obtain ⟨more, rfl, lawful', rfl, rfl⟩ := others
  refine ⟨.cons statement more, rfl, ⟨lawful, lawful'⟩, rfl, ?_⟩
  simp [Statements.labels]

/-- What is taken for the first of some statements, with what is read behind it, are statements. -/
theorem reads_of_takeStatement {word : Keyword} (taken : takeStatement unit word = some move)
    (reads : ReadsAll move.pending move.unit kinds code after) :
    statements.Reads unit (.keyword word :: kinds) (move.code ++ code) after := by
  -- The keyword tells the statement, whose parts are peeled off what is read.
  unfold takeStatement at taken
  simp only [ClassUnit.newLabel_eq] at taken
  split at taken <;> cases taken
  -- An assignment takes no labels, so the statements behind it start with the same ones.
  case h_1 =>
    cases reads with
    | cons first others =>
      obtain ⟨statement, spelled, lawful, rfl, rfl⟩ := first
      have plain := labels_of_kinds spelled (by decide)
      have further := reads_cons statement lawful (by simpa [plain] using others.of_single)
      simpa [← spelled] using further
  case h_2 =>
    obtain ⟨condition, _, _, rfl, rfl, lawful, inside⟩ := ReadsAll.of_condition reads
    obtain ⟨body, _, _, rfl, rfl, lawful', behind⟩ := ReadsAll.of_block inside
    cases behind with
    | cons branch others =>
      -- The branch that may follow decides which of the two conditionals it is.
      rcases branch with ⟨rfl, rfl, rfl⟩ | ⟨otherwise, rfl, lawfulElse, rfl, rfl⟩
      · have conditional : (Statement.ifThen condition body).Lawful unit.context :=
          ⟨lawful, lawful'⟩
        have further := reads_cons _ conditional
          (by simpa [Statement.labels, Nat.add_comm] using others.of_single)
        simpa [Statement.kinds, Statement.code] using further
      · have conditional : (Statement.ifThenElse condition body otherwise).Lawful unit.context :=
          ⟨lawful, lawful', lawfulElse⟩
        have count : 1 + body.labels + (otherwise.labels + 1) =
            body.labels + otherwise.labels + 2 := by omega
        have further := reads_cons _ conditional
          (by simpa [Statement.labels, count] using others.of_single)
        simpa [Statement.kinds, Statement.code, Nat.add_assoc] using further
  -- A loop has taken both of its labels before its condition is read.
  case h_3 =>
    obtain ⟨condition, _, _, rfl, rfl, lawful, inside⟩ := ReadsAll.of_condition reads
    obtain ⟨body, _, _, rfl, rfl, lawful', behind⟩ := ReadsAll.of_block inside
    obtain ⟨_, rfl, others⟩ := behind.of_emit
    have loop : (Statement.whileDo condition body).Lawful unit.context := ⟨lawful, lawful'⟩
    have further := reads_cons _ loop
      (by simpa [Statement.labels, Nat.add_comm] using others.of_single)
    simpa [Statement.kinds, Statement.code] using further
  -- The value of a call is thrown away behind the semicolon.
  case h_4 =>
    cases reads with
    | cons first behind =>
      obtain ⟨call, rfl, lawful, rfl, rfl⟩ := first
      obtain ⟨_, rfl, due⟩ := behind.of_symbol
      obtain ⟨_, rfl, others⟩ := due.of_emit
      have further := reads_cons (.call call) lawful others.of_single
      simpa [Statement.kinds, Statement.code] using further
  case h_5 =>
    cases reads with
    | cons first others =>
      obtain ⟨statement, spelled, lawful, rfl, rfl⟩ := first
      have plain := labels_of_kinds spelled (by decide)
      have further := reads_cons statement lawful (by simpa [plain] using others.of_single)
      simpa [← spelled] using further

/-- The keyword of a declaration makes variables of a class with what is read behind it. -/
theorem reads_classVariables (kind : ClassVariableKind)
    (reads : ReadsAll [.variableType kind.symbolKind, .classVariables] unit kinds code after) :
    classVariables.Reads unit (.keyword kind.keyword :: kinds) code after := by
  -- The list is read first, and the variables behind it are those of the rest.
  cases reads with
  | cons first others =>
    obtain ⟨list, rfl, rfl, declared, fits⟩ := first
    obtain ⟨classVariables, subroutines, next, rfl, declared', compiled⟩ := others.of_single
    refine ⟨⟨kind, list⟩ :: classVariables, subroutines, next, ?_,
      .cons declared fits declared', ?_⟩
    · simp [ClassVariables.kinds]
    · simpa using compiled

/-- The keyword of a subroutine makes subroutines with what is read behind it. -/
theorem reads_subroutines {kind : SubroutineKind} {begun : ClassUnit} {location : Location}
    (started : unit.startSubroutine location kind = .ok begun)
    (reads : ReadsAll [.returnType kind, .subroutines] begun kinds code after) :
    subroutines.Reads unit (.keyword kind.keyword :: kinds) code after := by
  -- The subroutine is read first, and the subroutines behind it are those of the rest.
  cases reads with
  | cons first others =>
    obtain ⟨tree, rfl, rfl, compiled⟩ := first
    obtain ⟨rest, rfl, compiled'⟩ := others.of_single
    refine ⟨tree :: rest, ?_, .cons started compiled compiled'⟩
    simp [SubroutineTree.kinds]

/-- The mark behind a declared name goes on with further names or ends them. -/
theorem reads_of_takeVariableEnd {kind : SymbolKind} {type : String} {location : Location}
    {c : Char}
    (taken : takeVariableEnd unit kind type location c = some (.ok move))
    (reads : ReadsAll move.pending move.unit kinds code after) :
    (variableEnd kind type location).Reads unit (.symbol c :: kinds) (move.code ++ code) after := by
  -- A comma brings one more name, and a semicolon has the fields counted.
  unfold takeVariableEnd at taken
  split at taken
  · cases taken
    obtain ⟨name, others, rfl, rfl, declared, fits⟩ := reads.of_single
    exact ⟨name :: others, by simp [moreNames], rfl, declared, fits⟩
  · split at taken <;> cases taken
    rename_i few
    obtain ⟨rfl, rfl, rfl⟩ := reads.of_nil
    exact ⟨[], rfl, rfl, rfl, fun field => Nat.le_of_not_lt fun many => few ⟨field, many⟩⟩
  · cases taken

/-- A declared result makes the rest of a subroutine with what is read behind it. -/
theorem reads_returnType {kind : SubroutineKind} (result? : Option TypeName)
    (reads : (subroutineName kind result?.isNone).Reads unit kinds code after) :
    (returnType kind).Reads unit (SubroutineTree.resultKind result? :: kinds) code after := by
  obtain ⟨tree, rfl, same, rfl, inner, declared, lawful, rfl, rfl⟩ := reads
  -- Only whether there is a result has been known so far.
  have head : { tree with result? }.head = tree.head := by simp [SubroutineTree.head, same]
  refine ⟨{ tree with result? }, rfl, rfl, inner, ?_, lawful, rfl, rfl⟩
  rw [head]
  exact declared

/-- The name of a subroutine makes its rest with what is read behind it. -/
theorem reads_subroutineName {kind : SubroutineKind} {isVoid : Bool} {name : String}
    (reads : ReadsAll [.symbol '(', .parameters, .symbol '{', .localVariables]
      { unit with subroutine := ⟨kind, isVoid, name⟩ } kinds code after) :
    (subroutineName kind isVoid).Reads unit (.identifier name :: kinds) code after := by
  obtain ⟨_, rfl, inside⟩ := reads.of_symbol
  cases inside with
  | cons first behind =>
    obtain ⟨parameters, rfl, rfl, declared⟩ := first
    obtain ⟨_, rfl, others⟩ := behind.of_symbol
    obtain ⟨locals, body, inner, rfl, declared', lawful, rfl, rfl⟩ := others.of_single
    -- Which type is returned has no say in anything from here on.
    let result? : Option TypeName := if isVoid then none else some (.named "")
    have same : result?.isNone = isVoid := by cases isVoid <;> rfl
    refine ⟨⟨kind, result?, name, parameters, locals, body⟩, rfl, same, ?_, inner, ?_, lawful, rfl,
      rfl⟩
    · simp [SubroutineTree.restKinds]
    · simpa [SubroutineTree.head, same, SubroutineTree.ownDeclarations] using
        declared.append declared'

/-- Whatever is taken for a part, with what is read behind it, is what the part stands for. -/
theorem reads_of_take {part : Pending} (taken : part.take? unit token = some (.ok move))
    (reads : ReadsAll move.pending move.unit kinds code after) :
    part.Reads unit (token.kind :: kinds) (move.code ++ code) after := by
  -- Each part is settled by the one or two kinds of tokens that it takes.
  cases part with
  | emit due => cases taken
  | keyword word =>
    simp only [take?, Option.ite_none_right_eq_some] at taken
    obtain ⟨spelled, taken⟩ := taken
    cases taken
    obtain ⟨rfl, rfl, rfl⟩ := reads.of_nil
    exact ⟨by rw [spelled], rfl, rfl⟩
  | symbol c =>
    simp only [take?, Option.ite_none_right_eq_some] at taken
    obtain ⟨spelled, taken⟩ := taken
    cases taken
    obtain ⟨rfl, rfl, rfl⟩ := reads.of_nil
    exact ⟨by rw [spelled], rfl, rfl⟩
  | className =>
    obtain ⟨name, named, taken⟩ := Option.map_eq_some_iff.mp taken
    cases taken
    obtain ⟨rfl, rfl, rfl⟩ := reads.of_nil
    exact ⟨name, by rw [TokenKind.identifier?_eq_some_iff.mp named], rfl, rfl⟩
  -- Declarations: the state is the one in which the names behind are declared.
  | classVariables =>
    dsimp only [take?] at taken
    split at taken <;> rename_i spelled <;> cases taken <;> rw [spelled]
    · exact reads_classVariables .static reads
    · exact reads_classVariables .field reads
  | subroutines =>
    dsimp only [take?] at taken
    split at taken <;> rename_i spelled
    · cases taken
      rw [spelled]
      obtain ⟨rfl, rfl, rfl⟩ := reads.of_nil
      exact ⟨[], rfl, .nil _⟩
    · obtain ⟨kind, opens, taken⟩ := Option.map_eq_some_iff.mp taken
      obtain ⟨begun, started, taken⟩ := bind_eq_ok_iff.mp taken
      cases taken
      rw [spelled, SubroutineKind.ofKeyword?_eq_some_iff.mp opens]
      exact reads_subroutines started reads
    · cases taken
  | variableType kind =>
    obtain ⟨text, named, taken⟩ := Option.map_eq_some_iff.mp taken
    cases taken
    obtain ⟨type, spelled, rfl⟩ := TokenKind.type?_eq_some_iff.mp named
    obtain ⟨name, others, rfl, rfl, declared, fits⟩ := reads.of_single
    exact ⟨⟨type, name, others⟩, by simp [spelled, VariableList.kinds], rfl, declared, fits⟩
  | variableName kind type location =>
    obtain ⟨name, named, taken⟩ := Option.map_eq_some_iff.mp taken
    obtain ⟨next, declared, taken⟩ := bind_eq_ok_iff.mp taken
    cases taken
    obtain ⟨others, rfl, rfl, declared', fits⟩ := reads.of_single
    exact ⟨name, others, by simp [TokenKind.identifier?_eq_some_iff.mp named], rfl,
      ⟨next, _, declared, declared'⟩, fits⟩
  | variableEnd kind type location =>
    obtain ⟨c, spelled, taken⟩ := Option.bind_eq_some_iff.mp taken
    rw [TokenKind.symbol?_eq_some_iff.mp spelled]
    exact reads_of_takeVariableEnd taken reads
  | returnType kind =>
    dsimp only [take?] at taken
    split at taken
    · rename_i spelled
      cases taken
      rw [spelled]
      exact reads_returnType none reads.of_single
    · obtain ⟨text, named, taken⟩ := Option.map_eq_some_iff.mp taken
      cases taken
      obtain ⟨type, spelled, rfl⟩ := TokenKind.type?_eq_some_iff.mp named
      rw [spelled]
      exact reads_returnType (some type) reads.of_single
  | subroutineName kind isVoid =>
    obtain ⟨name, named, taken⟩ := Option.map_eq_some_iff.mp taken
    cases taken
    rw [TokenKind.identifier?_eq_some_iff.mp named]
    exact reads_subroutineName reads
  | parameters =>
    dsimp only [take?] at taken
    split at taken
    · rename_i spelled
      cases taken
      obtain ⟨rfl, rfl, rfl⟩ := reads.of_nil
      exact ⟨[], by rw [spelled]; rfl, rfl, rfl⟩
    · obtain ⟨text, named, taken⟩ := Option.map_eq_some_iff.mp taken
      cases taken
      obtain ⟨type, spelled, rfl⟩ := TokenKind.type?_eq_some_iff.mp named
      obtain ⟨name, others, rfl, rfl, declared⟩ := reads.of_single
      exact ⟨⟨type, name⟩ :: others, by simp [spelled, Parameter.allKinds, Parameter.kinds], rfl,
        declared⟩
  | parameterType =>
    obtain ⟨text, named, taken⟩ := Option.map_eq_some_iff.mp taken
    cases taken
    obtain ⟨type, spelled, rfl⟩ := TokenKind.type?_eq_some_iff.mp named
    obtain ⟨name, others, rfl, rfl, declared⟩ := reads.of_single
    exact ⟨⟨type, name⟩, others, by simp [spelled, Parameter.allKinds, Parameter.kinds], rfl,
      declared⟩
  | parameterName type =>
    obtain ⟨name, named, taken⟩ := Option.map_eq_some_iff.mp taken
    obtain ⟨next, declared, taken⟩ := bind_eq_ok_iff.mp taken
    cases taken
    obtain ⟨others, rfl, rfl, declared'⟩ := reads.of_single
    exact ⟨name, others, by simp [TokenKind.identifier?_eq_some_iff.mp named], rfl,
      next, _, declared, declared'⟩
  | parameterEnd =>
    dsimp only [take?] at taken
    split at taken <;> rename_i spelled <;> cases taken <;> rw [spelled]
    · obtain ⟨first, others, rfl, rfl, declared⟩ := reads.of_single
      exact ⟨first :: others, by simp [Parameter.allKinds, Parameter.moreKinds], rfl, declared⟩
    · obtain ⟨rfl, rfl, rfl⟩ := reads.of_nil
      exact ⟨[], rfl, rfl, rfl⟩
  | localVariables =>
    simp only [take?, Option.ite_none_right_eq_some] at taken
    obtain ⟨spelled, taken⟩ := taken
    cases taken
    cases reads with
    | cons first others =>
      obtain ⟨list, rfl, rfl, declared, _⟩ := first
      obtain ⟨locals, body, inner, rfl, declared', lawful, rfl, rfl⟩ := others.of_single
      exact ⟨list :: locals, body, inner, by simp [spelled, localKinds],
        by simpa using declared.append declared', lawful, rfl, rfl⟩
  -- Statements: the code taken so far is completed by the code that is still due.
  | statements =>
    obtain ⟨found, begun, taken⟩ := Option.map_eq_some_iff.mp taken
    cases taken
    obtain ⟨word, spelled, begun⟩ := Option.bind_eq_some_iff.mp begun
    rw [TokenKind.keyword?_eq_some_iff.mp spelled]
    exact reads_of_takeStatement begun reads
  | letTarget =>
    obtain ⟨name, named, taken⟩ := Option.map_eq_some_iff.mp taken
    rw [TokenKind.identifier?_eq_some_iff.mp named]
    split at taken <;> cases taken
    rename_i target found
    rcases reads.of_single with ⟨value, rfl, lawful, rfl, rfl⟩ |
      ⟨index, value, array, rfl, lawful, lawful', rfl, rfl⟩
    · refine ⟨.assign name value, by simp [Statement.kinds], ⟨⟨target, found⟩, lawful⟩, ?_, rfl⟩
      simp [Statement.code, Context.store, ClassUnit.context, found]
    · refine ⟨.assignElement name index value, by simp [Statement.kinds],
        ⟨⟨target, found, array⟩, lawful, lawful'⟩, ?_, rfl⟩
      simp [Statement.code, Context.load, ClassUnit.context, found, storeElement]
  | letPlace target location =>
    simp only [take?, Option.ite_none_right_eq_some, Option.some.injEq] at taken
    obtain ⟨spelled, taken⟩ := taken
    obtain ⟨_, indexable, taken⟩ := bind_eq_ok_iff.mp taken
    cases taken
    rw [spelled]
    simp only [List.append_assoc] at reads
    obtain ⟨index, _, _, rfl, rfl, lawful, closing⟩ := ReadsAll.of_expression reads
    obtain ⟨_, rfl, due⟩ := closing.of_symbol
    obtain ⟨_, rfl, others⟩ := due.of_emit
    obtain ⟨value, rfl, rfl, lawful', rfl⟩ := ReadsAll.of_assignment others
    exact .inr ⟨index, value, checkIndexable_eq_ok_iff.mp indexable, by simp, lawful, lawful',
      by simp, rfl⟩
  | elseBranch label =>
    simp only [take?, Option.ite_none_right_eq_some, ClassUnit.newLabel_eq] at taken
    obtain ⟨spelled, taken⟩ := taken
    cases taken
    rw [spelled]
    obtain ⟨otherwise, _, _, rfl, rfl, lawful, due⟩ := ReadsAll.of_block reads
    obtain ⟨_, rfl, others⟩ := due.of_emit
    obtain ⟨rfl, rfl, rfl⟩ := others.of_nil
    exact .inr ⟨otherwise, by simp, lawful, by simp, by simp [Nat.add_comm]⟩
  | returnValue =>
    simp only [take?, Option.ite_none_right_eq_some] at taken
    obtain ⟨spelled, taken⟩ := taken
    cases taken
    rw [spelled]
    obtain ⟨rfl, rfl, rfl⟩ := reads.of_nil
    exact ⟨.returnNothing, rfl, trivial, List.append_nil _, rfl⟩
  -- Expressions: the parts that are brought are those of the same tree.
  | callee =>
    obtain ⟨name, named, taken⟩ := Option.map_eq_some_iff.mp taken
    cases taken
    rw [TokenKind.identifier?_eq_some_iff.mp named]
    exact reads.of_single
  | callRest name location =>
    simp only [take?, Option.ite_none_right_eq_some] at taken
    obtain ⟨spelled, taken⟩ := taken
    cases taken
    rw [spelled]
    exact reads.of_single
  | calleeMember name location =>
    obtain ⟨member, named, taken⟩ := Option.map_eq_some_iff.mp taken
    obtain ⟨start, called, taken⟩ := bind_eq_ok_iff.mp taken
    cases taken
    rw [TokenKind.identifier?_eq_some_iff.mp named]
    obtain ⟨_, rfl, others⟩ := reads.of_symbol
    exact reads_memberCall called others.of_single
  | arguments target passed =>
    simp only [take?, Option.ite_none_right_eq_some] at taken
    obtain ⟨spelled, taken⟩ := taken
    cases taken
    rw [spelled]
    obtain ⟨rfl, rfl, rfl⟩ := reads.of_nil
    exact ⟨.nil, rfl, trivial, by simp [Arguments.code, Arguments.count], rfl⟩
  | argumentEnd target passed =>
    dsimp only [take?] at taken
    split at taken <;> rename_i spelled <;> cases taken <;> rw [spelled]
    · obtain ⟨value, _, _, rfl, rfl, lawful, behind⟩ := ReadsAll.of_expression reads
      obtain ⟨others, rfl, lawful', rfl, rfl⟩ := behind.of_single
      have count : others.count + (passed + 1) = others.count + 1 + passed := by omega
      exact ⟨.cons value others, by simp [Arguments.moreKinds], ⟨lawful, lawful'⟩,
        by simp [Arguments.code, Arguments.count, count], rfl⟩
    · obtain ⟨rfl, rfl, rfl⟩ := reads.of_nil
      exact ⟨.nil, rfl, trivial, by simp [Arguments.code, Arguments.count], rfl⟩
  | term =>
    obtain ⟨found, begun, taken⟩ := Option.map_eq_some_iff.mp taken
    cases taken
    exact reads_of_takeTerm begun reads
  | nameRest name location =>
    obtain ⟨c, spelled, taken⟩ := Option.bind_eq_some_iff.mp taken
    rw [TokenKind.symbol?_eq_some_iff.mp spelled]
    exact reads_of_takeNameRest taken reads
  | operators =>
    obtain ⟨found, begun, taken⟩ := Option.map_eq_some_iff.mp taken
    cases taken
    obtain ⟨c, spelled, begun⟩ := Option.bind_eq_some_iff.mp begun
    obtain ⟨operator, rfl, rfl⟩ := operatorCode?_eq_some begun
    rw [TokenKind.symbol?_eq_some_iff.mp spelled]
    cases reads with
    | cons first due =>
      obtain ⟨operand, rfl, lawful, rfl, rfl⟩ := first
      obtain ⟨_, rfl, others⟩ := due.of_emit
      obtain ⟨rest, rfl, lawful', rfl, rfl⟩ := others.of_single
      exact ⟨.cons operator operand rest, by simp [Operations.kinds], ⟨lawful, lawful'⟩,
        by simp [Operations.code], rfl⟩

/-- A part that is left makes up what it stands for with what is read in its place. -/
theorem reads_of_leave {part : Pending} (left : part.leave unit = .go move)
    (reads : ReadsAll move.pending move.unit kinds code after) :
    part.Reads unit kinds (move.code ++ code) after := by
  -- Only the parts that may be empty or belong to another one can be left.
  cases part with
  | emit due =>
    cases left
    obtain ⟨rfl, rfl, rfl⟩ := reads.of_nil
    exact ⟨rfl, by simp, rfl⟩
  | classVariables =>
    cases left
    obtain ⟨subroutines, rfl, compiled⟩ := reads.of_single
    exact ⟨[], subroutines, unit, rfl, .nil unit, compiled⟩
  | localVariables =>
    cases left
    cases reads with
    | cons first closing =>
      obtain ⟨body, rfl, lawful, rfl, rfl⟩ := first
      obtain ⟨_, rfl, others⟩ := closing.of_symbol
      obtain ⟨rfl, rfl, rfl⟩ := others.of_nil
      exact ⟨[], body, unit, rfl, rfl, lawful, by simp, rfl⟩
  | statements =>
    cases left
    obtain ⟨rfl, rfl, rfl⟩ := reads.of_nil
    exact ⟨.nil, rfl, trivial, rfl, rfl⟩
  | operators =>
    cases left
    obtain ⟨rfl, rfl, rfl⟩ := reads.of_nil
    exact ⟨.nil, rfl, trivial, rfl, rfl⟩
  | letPlace target location =>
    cases left
    obtain ⟨value, rfl, rfl, lawful, rfl⟩ := ReadsAll.of_assignment reads
    exact .inl ⟨value, rfl, lawful, rfl, rfl⟩
  | elseBranch label =>
    cases left
    obtain ⟨rfl, rfl, rfl⟩ := reads.of_nil
    exact .inl ⟨rfl, rfl, rfl⟩
  | returnValue =>
    cases left
    obtain ⟨value, _, _, rfl, rfl, lawful, closing⟩ := ReadsAll.of_expression reads
    obtain ⟨_, rfl, due⟩ := closing.of_symbol
    obtain ⟨_, rfl, others⟩ := due.of_emit
    obtain ⟨rfl, rfl, rfl⟩ := others.of_nil
    exact ⟨.returnValue value, by simp [Statement.kinds], lawful, by simp [Statement.code], rfl⟩
  | callRest name location =>
    cases left
    obtain ⟨_, rfl, others⟩ := reads.of_symbol
    exact reads_ownCall others.of_single
  | arguments target passed =>
    cases left
    obtain ⟨value, _, _, rfl, rfl, lawful, behind⟩ := ReadsAll.of_expression reads
    obtain ⟨others, rfl, lawful', rfl, rfl⟩ := behind.of_single
    have count : others.count + (passed + 1) = others.count + 1 + passed := by omega
    exact ⟨.cons value others, by simp [Arguments.kinds], ⟨lawful, lawful'⟩,
      by simp [Arguments.code, Arguments.count, count], rfl⟩
  | nameRest name location =>
    dsimp only [leave] at left
    split at left <;> cases left
    rename_i target found
    have found := ClassUnit.lookup_eq_ok_iff.mp found
    obtain ⟨rfl, rfl, rfl⟩ := reads.of_nil
    refine ⟨.name name, rfl, ⟨target, found⟩, ?_, rfl⟩
    simp [Term.code, Context.load, ClassUnit.context, found]
  | _ => cases left

end Pending

namespace Compilation

/-- Steps that leave nothing pending have taken what the pending parts stand for. -/
theorem Steps.reads {ending : Except Fault Location} {first last : Compilation}
    {code : List Command} (steps : Steps ending first code last) (complete : last.pending = []) :
    ∃ kinds, first.tokens.map Token.kind = kinds ++ last.tokens.map Token.kind ∧
      Pending.ReadsAll first.pending first.unit kinds code last.unit := by
  -- The steps are followed from the last one to the first one.
  induction steps with
  | refl compilation =>
    refine ⟨[], rfl, ?_⟩
    rw [complete]
    exact .nil compilation.unit
  | head went _ ih =>
    obtain ⟨kinds, spelled, reads⟩ := ih complete
    obtain ⟨part, rest, move, pending, rfl, replaced, known, way⟩ := step_cases went
    rw [replaced, known] at reads
    obtain ⟨between, before, behind, early, late, rfl, rfl, inside, others⟩ := reads.of_append
    rw [pending, ← List.append_assoc]
    rcases way with ⟨token, -, tokens, taken⟩ | ⟨-, tokens, left⟩
    · refine ⟨token.kind :: before ++ behind, ?_, .cons (Pending.reads_of_take taken inside) others⟩
      simp [tokens, spelled]
    · refine ⟨before ++ behind, ?_, .cons (Pending.reads_of_leave left inside) others⟩
      simp [← tokens, spelled]

end Compilation

end JackCompiler
