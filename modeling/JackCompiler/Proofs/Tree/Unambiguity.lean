import JackCompiler.Proofs.Tree.Class

/-! The tokens of a class determine its tree. -/

namespace JackCompiler

/-- Nothing follows that would make more of a name than the variable it stands for. -/
def EndsName (rest : List TokenKind) : Prop :=
  ∀ c ∈ ['.', '(', '['], rest.head? ≠ some (.symbol c)

/-- Nothing follows that would carry an expression on. -/
def EndsExpression (rest : List TokenKind) : Prop :=
  EndsName rest ∧ ∀ operator : BinaryOperator, rest.head? ≠ some (.symbol operator.mark)

/-- The marks that stand behind an expression carry it no further. -/
theorem endsExpression_mark {c : Char} (mark : c ∈ [')', ']', ';', ',']) (rest : List TokenKind) :
    EndsExpression (.symbol c :: rest) := by
  -- None of the four marks is an operator, a dot or an opening bracket.
  have apart : ∀ other, c ≠ other → (TokenKind.symbol c :: rest).head? ≠ some (.symbol other) := by
    intro other different same
    simp only [List.head?_cons, Option.some.injEq, TokenKind.symbol.injEq] at same
    exact different same
  simp only [List.mem_cons, List.not_mem_nil, or_false] at mark
  constructor
  · intro other member
    apply apart
    simp only [List.mem_cons, List.not_mem_nil, or_false] at member
    rcases mark with rfl | rfl | rfl | rfl <;> rcases member with rfl | rfl | rfl <;> decide
  · intro operator
    apply apart
    rcases mark with rfl | rfl | rfl | rfl <;> cases operator <;> decide

/-- A name ends where the operators behind it start, or where they are missing. -/
theorem EndsExpression.endsName {rest : List TokenKind} (ends : EndsExpression rest)
    (operations : Operations) : EndsName (operations.kinds ++ rest) := by
  cases operations with
  | nil => exact ends.1
  | cons operator operand more =>
    -- No operator is a dot or an opening bracket.
    intro c member same
    simp only [List.mem_cons, List.not_mem_nil, or_false] at member
    simp only [Operations.kinds, List.cons_append, List.head?_cons, Option.some.injEq,
      TokenKind.symbol.injEq] at same
    rcases member with rfl | rfl | rfl <;> cases operator <;> simp [BinaryOperator.mark] at same

/-- An argument ends at the next comma or at the closing parenthesis. -/
theorem endsExpression_arguments (arguments : Arguments) (rest : List TokenKind) :
    EndsExpression (arguments.moreKinds ++ .symbol ')' :: rest) := by
  -- Another argument starts with a comma, and the last one ends at the parenthesis.
  cases arguments with
  | nil => exact endsExpression_mark (by decide) rest
  | cons first more => exact endsExpression_mark (by decide) _

/-- A call starts with a name, and a mark behind it that no plain name is followed by. -/
theorem Call.kinds_head (call : Call) :
    ∃ name c kinds, call.kinds = .identifier name :: .symbol c :: kinds ∧ (c = '(' ∨ c = '.') := by
  -- A call to the class itself opens its arguments at once, and any other has a dot.
  cases call with
  | own name arguments => exact ⟨name, '(', _, rfl, .inl rfl⟩
  | member owner name arguments => exact ⟨owner, '.', _, rfl, .inr rfl⟩

/-- A term starts with a token that closes neither an argument list nor a statement. -/
theorem Term.kinds_head (term : Term) :
    ∃ kind kinds, term.kinds = kind :: kinds ∧ kind ≠ .symbol ')' ∧ kind ≠ .symbol ';' := by
  -- Only the marks of operators and the parenthesis are symbols that a term starts with.
  cases term with
  | unary operator operand => refine ⟨_, _, rfl, ?_, ?_⟩ <;> cases operator <;> decide
  | call call =>
    obtain ⟨name, c, kinds, spelled, -⟩ := call.kinds_head
    exact ⟨_, _, spelled, nofun, nofun⟩
  | group inner => exact ⟨_, _, rfl, by decide, by decide⟩
  | _ => exact ⟨_, _, rfl, nofun, nofun⟩

/-- An expression starts with a token that closes neither an argument list nor a statement. -/
theorem Expression.kinds_head (expression : Expression) :
    ∃ kind kinds, expression.kinds = kind :: kinds ∧ kind ≠ .symbol ')' ∧ kind ≠ .symbol ';' := by
  -- The first token of an expression is the first token of its first term.
  obtain ⟨first, rest⟩ := expression
  obtain ⟨kind, kinds, spelled, opens⟩ := first.kinds_head
  exact ⟨kind, kinds ++ rest.kinds, by simp [Expression.kinds, spelled], opens⟩

/-- A plain name is no call, whatever follows either of them. -/
theorem Call.kinds_ne_name (call : Call) {name : String} {rest left : List TokenKind}
    (ends : EndsName rest) : call.kinds ++ left ≠ .identifier name :: rest := by
  -- The mark behind the name of a call is among those that a plain name excludes.
  intro same
  obtain ⟨callee, c, kinds, spelled, mark⟩ := call.kinds_head
  simp only [spelled, List.cons_append, List.cons.injEq] at same
  refine ends c ?_ (by simp [← same.2])
  rcases mark with rfl | rfl <;> decide

/-- An element of an array is no call, whatever follows either of them. -/
theorem Call.kinds_ne_element (call : Call) {array : String} {rest left : List TokenKind} :
    call.kinds ++ left ≠ .identifier array :: .symbol '[' :: rest := by
  -- The mark behind the name of a call is no opening bracket.
  intro same
  obtain ⟨callee, c, kinds, spelled, mark⟩ := call.kinds_head
  simp only [spelled, List.cons_append, List.cons.injEq, TokenKind.symbol.injEq] at same
  rcases mark with rfl | rfl <;> simp at same

mutual

/-- A term and what follows it are determined by their tokens. -/
theorem Term.kinds_unique (term other : Term) {rest left : List TokenKind} (ends : EndsName rest)
    (endsOther : EndsName left) (same : term.kinds ++ rest = other.kinds ++ left) :
    term = other ∧ rest = left := by
  cases term <;> cases other
  -- Two terms of one form agree in all their parts.
  case group.group inner inner' =>
    simp only [Term.kinds, List.cons_append, List.append_assoc, List.cons.injEq, true_and] at same
    have inside := Expression.kinds_unique inner inner' (endsExpression_mark (by decide) _)
      (endsExpression_mark (by decide) _) same
    simpa using inside
  case unary.unary operator operand operator' operand' =>
    simp only [Term.kinds, List.cons_append, List.cons.injEq, TokenKind.symbol.injEq] at same
    obtain ⟨rfl, rfl⟩ := Term.kinds_unique operand operand' ends endsOther same.2
    exact ⟨by rw [UnaryOperator.mark_injective same.1], rfl⟩
  case element.element array index array' index' =>
    simp only [Term.kinds, List.cons_append, List.append_assoc, List.cons.injEq, true_and,
      TokenKind.identifier.injEq] at same
    have inside := Expression.kinds_unique index index' (endsExpression_mark (by decide) _)
      (endsExpression_mark (by decide) _) same.2
    simpa [same.1] using inside
  case call.call call call' => simpa using Call.kinds_unique call call' same
  -- A variable, an element and a call start alike, and differ in the second token.
  case name.call name call => exact absurd same.symm (call.kinds_ne_name ends)
  case call.name call name => exact absurd same (call.kinds_ne_name endsOther)
  case name.element name array index =>
    simp only [Term.kinds, List.cons_append, List.nil_append, List.cons.injEq] at same
    exact absurd (by simp [same.2]) (ends '[' (by decide))
  case element.name array index name =>
    simp only [Term.kinds, List.cons_append, List.nil_append, List.cons.injEq] at same
    exact absurd (by simp [← same.2]) (endsOther '[' (by decide))
  case element.call array index call =>
    exact absurd same.symm (by simpa [Term.kinds] using call.kinds_ne_element)
  case call.element call array index =>
    exact absurd same (by simpa [Term.kinds] using call.kinds_ne_element)
  case word.word constant constant' =>
    simp only [Term.kinds, List.cons_append, List.nil_append, List.cons.injEq,
      TokenKind.keyword.injEq] at same
    exact ⟨by rw [WordConstant.keyword_injective same.1], same.2⟩
  case integer.integer | string.string | name.name => simpa [Term.kinds] using same
  -- All other pairs differ in the first token.
  case unary.group operator _ _ | group.unary _ operator _ =>
    cases operator <;> simp [Term.kinds, UnaryOperator.mark] at same
  case integer.call _ call | string.call _ call | word.call _ call | group.call _ call
      | unary.call _ _ call | call.integer call _ | call.string call _ | call.word call _
      | call.group call _ | call.unary call _ _ =>
    obtain ⟨name, c, kinds, spelled, -⟩ := call.kinds_head
    simp [Term.kinds, spelled] at same
  all_goals simp [Term.kinds] at same
termination_by structural term

/-- An expression and what follows it are determined by their tokens. -/
theorem Expression.kinds_unique (expression other : Expression) {rest left : List TokenKind}
    (ends : EndsExpression rest) (endsOther : EndsExpression left)
    (same : expression.kinds ++ rest = other.kinds ++ left) :
    expression = other ∧ rest = left := by
  -- The first terms agree because operators end a name.
  -- What stands behind them is then read by the operators.
  obtain ⟨first, operations⟩ := expression
  obtain ⟨first', operations'⟩ := other
  simp only [Expression.kinds, List.append_assoc] at same
  obtain ⟨rfl, behind⟩ := Term.kinds_unique first first' (ends.endsName operations)
    (endsOther.endsName operations') same
  obtain ⟨rfl, after⟩ := Operations.kinds_unique operations operations' ends endsOther behind
  exact ⟨rfl, after⟩
termination_by structural expression

/-- Operators and what follows them are determined by their tokens. -/
theorem Operations.kinds_unique (operations other : Operations) {rest left : List TokenKind}
    (ends : EndsExpression rest) (endsOther : EndsExpression left)
    (same : operations.kinds ++ rest = other.kinds ++ left) :
    operations = other ∧ rest = left := by
  cases operations with
  | nil =>
    cases other with
    | nil => exact ⟨rfl, same⟩
    | cons operator operand more =>
      -- An operator in front of one of the two rests would carry the other expression on.
      exact absurd (by simpa [Operations.kinds] using congrArg List.head? same) (ends.2 operator)
  | cons operator operand more =>
    cases other with
    | nil =>
      exact absurd (by simpa [Operations.kinds] using congrArg List.head? same.symm)
        (endsOther.2 operator)
    | cons operator' operand' more' =>
      simp only [Operations.kinds, List.cons_append, List.append_assoc, List.cons.injEq,
        TokenKind.symbol.injEq] at same
      obtain ⟨rfl, behind⟩ := Term.kinds_unique operand operand' (ends.endsName more)
        (endsOther.endsName more') same.2
      obtain ⟨rfl, after⟩ := Operations.kinds_unique more more' ends endsOther behind
      exact ⟨by rw [BinaryOperator.mark_injective same.1], after⟩
termination_by structural operations

/-- A call and what follows it are determined by their tokens. -/
theorem Call.kinds_unique (call other : Call) {rest left : List TokenKind}
    (same : call.kinds ++ rest = other.kinds ++ left) : call = other ∧ rest = left := by
  -- The mark behind the first name tells the two forms of a call apart.
  cases call with
  | own name arguments =>
    cases other with
    | own name' arguments' =>
      simp only [Call.kinds, List.cons_append, List.append_assoc, List.nil_append, List.cons.injEq,
        TokenKind.identifier.injEq, true_and] at same
      have inside := Arguments.kinds_unique arguments arguments' same.2
      simpa [same.1] using inside
    | member owner name' arguments' => simp [Call.kinds] at same
  | member owner name arguments =>
    cases other with
    | own name' arguments' => simp [Call.kinds] at same
    | member owner' name' arguments' =>
      simp only [Call.kinds, List.cons_append, List.append_assoc, List.nil_append, List.cons.injEq,
        TokenKind.identifier.injEq, true_and] at same
      have inside := Arguments.kinds_unique arguments arguments' same.2.2
      simpa [same.1, same.2.1] using inside
termination_by structural call

/-- Arguments and what follows their closing parenthesis are determined by their tokens. -/
theorem Arguments.kinds_unique (arguments other : Arguments) {rest left : List TokenKind}
    (same : arguments.kinds ++ .symbol ')' :: rest = other.kinds ++ .symbol ')' :: left) :
    arguments = other ∧ rest = left := by
  -- An expression never starts with a closing parenthesis, so both lists are empty or neither is.
  cases arguments with
  | nil =>
    cases other with
    | nil => simpa [Arguments.kinds] using same
    | cons first more =>
      obtain ⟨kind, kinds, spelled, opens, -⟩ := first.kinds_head
      simp [Arguments.kinds, spelled, Ne.symm opens] at same
  | cons first more =>
    cases other with
    | nil =>
      obtain ⟨kind, kinds, spelled, opens, -⟩ := first.kinds_head
      simp [Arguments.kinds, spelled, opens] at same
    | cons first' more' =>
      simp only [Arguments.kinds, List.append_assoc] at same
      obtain ⟨rfl, behind⟩ := Expression.kinds_unique first first'
        (endsExpression_arguments more rest) (endsExpression_arguments more' left) same
      obtain ⟨rfl, after⟩ := Arguments.moreKinds_unique more more' behind
      exact ⟨rfl, after⟩
termination_by structural arguments

/-- Further arguments and what follows their closing parenthesis are determined by their tokens. -/
theorem Arguments.moreKinds_unique (arguments other : Arguments) {rest left : List TokenKind}
    (same : arguments.moreKinds ++ .symbol ')' :: rest = other.moreKinds ++ .symbol ')' :: left) :
    arguments = other ∧ rest = left := by
  -- A comma stands before every further argument, so the parenthesis tells where they end.
  cases arguments with
  | nil =>
    cases other with
    | nil => simpa [Arguments.moreKinds] using same
    | cons first more => simp [Arguments.moreKinds] at same
  | cons first more =>
    cases other with
    | nil => simp [Arguments.moreKinds] at same
    | cons first' more' =>
      simp only [Arguments.moreKinds, List.cons_append, List.append_assoc, List.cons.injEq,
        true_and] at same
      obtain ⟨rfl, behind⟩ := Expression.kinds_unique first first'
        (endsExpression_arguments more rest) (endsExpression_arguments more' left) same
      obtain ⟨rfl, after⟩ := Arguments.moreKinds_unique more more' behind
      exact ⟨rfl, after⟩
termination_by structural arguments

end

/-- An expression and what follows the mark behind it are determined by their tokens. -/
theorem Expression.kinds_unique_mark {expression other : Expression} {c : Char}
    (mark : c ∈ [')', ']', ';', ',']) {rest left : List TokenKind}
    (same : expression.kinds ++ .symbol c :: rest = other.kinds ++ .symbol c :: left) :
    expression = other ∧ rest = left := by
  -- Each of the four marks ends an expression, and it stands in front of both rests.
  have unique := Expression.kinds_unique expression other (endsExpression_mark mark rest)
    (endsExpression_mark mark left) same
  simpa using unique

/-- A condition and what follows its closing parenthesis are determined by their tokens. -/
theorem Expression.kinds_unique_condition {condition other : Expression}
    {rest left : List TokenKind}
    (same : condition.kinds ++ .symbol ')' :: .symbol '{' :: rest =
      other.kinds ++ .symbol ')' :: .symbol '{' :: left) :
    condition = other ∧ rest = left := by
  -- The braces behind both conditions cancel once the conditions agree.
  have unique := Expression.kinds_unique_mark (by decide) same
  simpa using unique

/-- Nothing follows that would be one more statement, or an `else` for the last one. -/
def EndsStatements (rest : List TokenKind) : Prop :=
  ∀ word ∈ [Keyword.«let», .«if», .«while», .«do», .«return», .«else»],
    rest.head? ≠ some (.keyword word)

/-- A closing brace ends the statements before it. -/
theorem endsStatements_brace (rest : List TokenKind) : EndsStatements (.symbol '}' :: rest) := by
  -- A brace is a symbol, and all words that open a statement are keywords.
  intro word _ same
  simp at same

/-- A statement starts with a keyword of its own, which is never `else`. -/
theorem Statement.kinds_head (statement : Statement) :
    ∃ word kinds, statement.kinds = .keyword word :: kinds ∧ word ≠ .«else» ∧
      word ∈ [Keyword.«let», .«if», .«while», .«do», .«return», .«else»] := by
  cases statement <;> exact ⟨_, _, rfl, by decide, by decide⟩

/-- No `else` follows the statements before a place where they end. -/
theorem EndsStatements.not_else {rest : List TokenKind} (ends : EndsStatements rest)
    (statements : Statements) :
    (statements.kinds ++ rest).head? ≠ some (.keyword .«else») := by
  -- The first statement, if there is one, starts with another keyword.
  cases statements with
  | nil => exact ends _ (by decide)
  | cons first more =>
    obtain ⟨word, kinds, spelled, other, -⟩ := first.kinds_head
    simpa [Statements.kinds, spelled] using other

mutual

/-- A statement and what follows it are determined by their tokens. -/
theorem Statement.kinds_unique (statement other : Statement) {rest left : List TokenKind}
    (ends : rest.head? ≠ some (.keyword .«else»))
    (endsOther : left.head? ≠ some (.keyword .«else»))
    (same : statement.kinds ++ rest = other.kinds ++ left) :
    statement = other ∧ rest = left := by
  cases statement <;> cases other
  -- Two statements of one form agree in all their parts.
  case assign.assign target value target' value' =>
    simp only [Statement.kinds, List.cons_append, List.append_assoc, List.cons.injEq, true_and,
      TokenKind.identifier.injEq] at same
    have inside := Expression.kinds_unique_mark (by decide) same.2
    simpa [same.1] using inside
  case assignElement.assignElement array index value array' index' value' =>
    simp only [Statement.kinds, List.cons_append, List.append_assoc, List.cons.injEq, true_and,
      TokenKind.identifier.injEq] at same
    obtain ⟨rfl, behind⟩ := Expression.kinds_unique_mark (by decide) same.2
    simp only [List.cons.injEq, true_and] at behind
    have inside := Expression.kinds_unique_mark (by decide) behind
    simpa [same.1] using inside
  case ifThen.ifThen condition body condition' body'
      | whileDo.whileDo condition body condition' body' =>
    simp only [Statement.kinds, List.cons_append, List.append_assoc, List.cons.injEq,
      true_and] at same
    obtain ⟨rfl, behind⟩ := Expression.kinds_unique_condition same
    have inside := Statements.kinds_unique body body' (endsStatements_brace _)
      (endsStatements_brace _) behind
    simpa using inside
  case ifThenElse.ifThenElse condition body otherwise condition' body' otherwise' =>
    simp only [Statement.kinds, List.cons_append, List.append_assoc, List.cons.injEq,
      true_and] at same
    obtain ⟨rfl, behind⟩ := Expression.kinds_unique_condition same
    obtain ⟨rfl, after⟩ := Statements.kinds_unique body body' (endsStatements_brace _)
      (endsStatements_brace _) behind
    simp only [List.cons.injEq, true_and] at after
    have inside := Statements.kinds_unique otherwise otherwise' (endsStatements_brace _)
      (endsStatements_brace _) after
    simpa using inside
  -- A conditional without an `else` is followed by none.
  case ifThen.ifThenElse condition body condition' body' otherwise =>
    simp only [Statement.kinds, List.cons_append, List.append_assoc, List.cons.injEq,
      true_and] at same
    obtain ⟨rfl, behind⟩ := Expression.kinds_unique_condition same
    have inside := Statements.kinds_unique body body' (endsStatements_brace _)
      (endsStatements_brace _) behind
    simp only [List.nil_append, List.cons.injEq, true_and] at inside
    exact absurd (by simp [inside.2]) ends
  case ifThenElse.ifThen condition body otherwise condition' body' =>
    simp only [Statement.kinds, List.cons_append, List.append_assoc, List.cons.injEq,
      true_and] at same
    obtain ⟨rfl, behind⟩ := Expression.kinds_unique_condition same
    have inside := Statements.kinds_unique body body' (endsStatements_brace _)
      (endsStatements_brace _) behind
    simp only [List.nil_append, List.cons.injEq, true_and] at inside
    exact absurd (by simp [← inside.2]) endsOther
  case call.call call call' =>
    simp only [Statement.kinds, List.cons_append, List.append_assoc, List.cons.injEq,
      true_and] at same
    simpa using Call.kinds_unique call call' same
  case returnNothing.returnNothing => simpa [Statement.kinds] using same
  case returnValue.returnValue value value' =>
    simp only [Statement.kinds, List.cons_append, List.append_assoc, List.cons.injEq,
      true_and] at same
    simpa using Expression.kinds_unique_mark (by decide) same
  -- The semicolon of a bare return starts no expression.
  case returnNothing.returnValue value | returnValue.returnNothing value =>
    obtain ⟨kind, kinds, spelled, -, opens⟩ := value.kinds_head
    simp [Statement.kinds, spelled, opens, opens.symm] at same
  -- All other pairs differ in the keyword, or in the mark behind the target.
  all_goals simp [Statement.kinds] at same
termination_by structural statement

/-- Statements and what follows them are determined by their tokens. -/
theorem Statements.kinds_unique (statements other : Statements) {rest left : List TokenKind}
    (ends : EndsStatements rest) (endsOther : EndsStatements left)
    (same : statements.kinds ++ rest = other.kinds ++ left) :
    statements = other ∧ rest = left := by
  -- Where one list goes on and the other has ended, the next keyword would open a statement.
  cases statements with
  | nil =>
    cases other with
    | nil => exact ⟨rfl, same⟩
    | cons first more =>
      obtain ⟨word, kinds, spelled, -, member⟩ := first.kinds_head
      exact absurd (by simpa [Statements.kinds, spelled] using congrArg List.head? same)
        (ends word member)
  | cons first more =>
    cases other with
    | nil =>
      obtain ⟨word, kinds, spelled, -, member⟩ := first.kinds_head
      exact absurd (by simpa [Statements.kinds, spelled] using congrArg List.head? same.symm)
        (endsOther word member)
    | cons first' more' =>
      simp only [Statements.kinds, List.append_assoc] at same
      obtain ⟨rfl, behind⟩ := Statement.kinds_unique first first' (ends.not_else more)
        (endsOther.not_else more') same
      obtain ⟨rfl, after⟩ := Statements.kinds_unique more more' ends endsOther behind
      exact ⟨rfl, after⟩
termination_by structural statements

end

/-- Items of a list are determined by their tokens if each is, and if what follows opens none. -/
theorem flatMap_kinds_unique {α : Type} {kinds : α → List TokenKind} (opens : TokenKind → Prop)
    (unique : ∀ item other rest left, kinds item ++ rest = kinds other ++ left →
      item = other ∧ rest = left)
    (opening : ∀ item, ∃ kind more, kinds item = kind :: more ∧ opens kind)
    {items others : List α} {rest left : List TokenKind}
    (ends : ∀ kind ∈ rest.head?, ¬opens kind) (endsOther : ∀ kind ∈ left.head?, ¬opens kind)
    (same : items.flatMap kinds ++ rest = others.flatMap kinds ++ left) :
    items = others ∧ rest = left := by
  -- The induction follows the first list: an item in front of a rest would be opened by it.
  induction items generalizing others with
  | nil =>
    cases others with
    | nil => exact ⟨rfl, same⟩
    | cons other others =>
      obtain ⟨kind, more, spelled, opened⟩ := opening other
      simp only [List.flatMap_nil, List.nil_append, List.flatMap_cons, spelled,
        List.cons_append] at same
      exact absurd opened (ends kind (by simp [same]))
  | cons item items ih =>
    cases others with
    | nil =>
      obtain ⟨kind, more, spelled, opened⟩ := opening item
      simp only [List.flatMap_nil, List.nil_append, List.flatMap_cons, spelled,
        List.cons_append] at same
      exact absurd opened (endsOther kind (by simp [← same]))
    | cons other others =>
      simp only [List.flatMap_cons, List.append_assoc] at same
      obtain ⟨rfl, behind⟩ := unique _ _ _ _ same
      obtain ⟨rfl, after⟩ := ih behind
      exact ⟨rfl, after⟩

/-- The token of a type determines it. -/
theorem TypeName.kind_injective {type other : TypeName} (same : type.kind = other.kind) :
    type = other := by
  -- Primitive types are keywords, and classes are names.
  cases type with
  | primitive type =>
    cases other with
    | primitive other => revert same; cases type <;> cases other <;> decide
    | named name => simp [TypeName.kind] at same
  | named name =>
    cases other with
    | primitive other => simp [TypeName.kind] at same
    | named other => simpa [TypeName.kind] using same

/-- Further names and what follows their semicolon are determined by their tokens. -/
theorem moreNames_unique {names others : List String} {rest left : List TokenKind}
    (same : moreNames names ++ .symbol ';' :: rest = moreNames others ++ .symbol ';' :: left) :
    names = others ∧ rest = left := by
  -- Every further name is opened by a comma, which the semicolon is not.
  have unique := flatMap_kinds_unique (fun kind => kind = .symbol ',')
    (fun name other rest left same => by simpa using same) (fun name => ⟨_, _, rfl, rfl⟩)
    (by simp) (by simp) same
  simpa using unique

/-- A list of variables and what follows it are determined by their tokens. -/
theorem VariableList.kinds_unique {list other : VariableList} {rest left : List TokenKind}
    (same : list.kinds ++ rest = other.kinds ++ left) : list = other ∧ rest = left := by
  -- The type, the first name and the further names are read one after the other.
  obtain ⟨type, first, others⟩ := list
  obtain ⟨type', first', others'⟩ := other
  simp only [VariableList.kinds, List.cons_append, List.append_assoc, List.nil_append,
    List.cons.injEq, TokenKind.identifier.injEq] at same
  obtain ⟨sameType, rfl, behind⟩ := same
  obtain ⟨rfl, after⟩ := moreNames_unique behind
  exact ⟨by rw [TypeName.kind_injective sameType], after⟩

/-- A declaration of variables of a class and what follows it are determined by their tokens. -/
theorem ClassVariables.kinds_unique {classVariables other : ClassVariables}
    {rest left : List TokenKind} (same : classVariables.kinds ++ rest = other.kinds ++ left) :
    classVariables = other ∧ rest = left := by
  obtain ⟨kind, list⟩ := classVariables
  obtain ⟨kind', list'⟩ := other
  simp only [ClassVariables.kinds, List.cons_append, List.cons.injEq,
    TokenKind.keyword.injEq] at same
  obtain ⟨rfl, behind⟩ := VariableList.kinds_unique same.2
  -- The two kinds are written with different keywords.
  cases kind <;> cases kind' <;> simp_all [ClassVariableKind.keyword]

/-- Further parameters and what follows their closing parenthesis are determined by their tokens. -/
theorem Parameter.moreKinds_unique {parameters others : List Parameter}
    {rest left : List TokenKind}
    (same : moreKinds parameters ++ .symbol ')' :: rest = moreKinds others ++ .symbol ')' :: left) :
    parameters = others ∧ rest = left := by
  -- Every further parameter is opened by a comma, and its type and name are single tokens.
  have unique := flatMap_kinds_unique (fun kind => kind = .symbol ',')
    (fun parameter other rest left same => by
      obtain ⟨type, name⟩ := parameter
      obtain ⟨type', name'⟩ := other
      simp only [Parameter.kinds, List.cons_append, List.nil_append, List.cons.injEq,
        TokenKind.identifier.injEq, true_and] at same
      exact ⟨by rw [TypeName.kind_injective same.1, same.2.1], same.2.2⟩)
    (fun parameter => ⟨_, _, rfl, rfl⟩) (by simp) (by simp) same
  simpa using unique

/-- A type is no closing parenthesis. -/
theorem TypeName.kind_ne_symbol (type : TypeName) (c : Char) : type.kind ≠ .symbol c := by
  cases type <;> exact nofun

/-- Parameters and what follows their closing parenthesis are determined by their tokens. -/
theorem Parameter.allKinds_unique {parameters others : List Parameter}
    {rest left : List TokenKind}
    (same : allKinds parameters ++ .symbol ')' :: rest = allKinds others ++ .symbol ')' :: left) :
    parameters = others ∧ rest = left := by
  -- A parameter starts with its type, which is no parenthesis.
  -- So both lists are empty or neither is.
  cases parameters with
  | nil =>
    cases others with
    | nil => simpa [allKinds] using same
    | cons first more =>
      simp [allKinds, Parameter.kinds, (first.type.kind_ne_symbol ')').symm] at same
  | cons first more =>
    cases others with
    | nil => simp [allKinds, Parameter.kinds, first.type.kind_ne_symbol] at same
    | cons first' more' =>
      obtain ⟨type, name⟩ := first
      obtain ⟨type', name'⟩ := first'
      simp only [allKinds, Parameter.kinds, List.cons_append, List.nil_append, List.cons.injEq,
        TokenKind.identifier.injEq] at same
      obtain ⟨sameType, rfl, behind⟩ := same
      obtain ⟨rfl, after⟩ := Parameter.moreKinds_unique behind
      exact ⟨by rw [TypeName.kind_injective sameType], after⟩

/-- No type is written as `void`. -/
theorem TypeName.kind_ne_void (type : TypeName) : type.kind ≠ .keyword .void := by
  -- The types that are keywords have keywords of their own.
  cases type with
  | primitive type => cases type <;> decide
  | named name => exact nofun

/-- The token of a declared result determines it. -/
theorem SubroutineTree.resultKind_injective {result? other? : Option TypeName}
    (same : resultKind result? = resultKind other?) : result? = other? := by
  -- The word of a subroutine without a result is the word of no type.
  cases result? with
  | none =>
    cases other? with
    | none => rfl
    | some other => exact absurd same.symm other.kind_ne_void
  | some type =>
    cases other? with
    | none => exact absurd same type.kind_ne_void
    | some other => exact congrArg some (TypeName.kind_injective same)

/-- Statements start with keywords other than the one that declares local variables. -/
theorem Statements.head_ne_var (body : Statements) (rest : List TokenKind) :
    ∀ kind ∈ (body.kinds ++ .symbol '}' :: rest).head?, ¬kind = .keyword .var := by
  -- A body starts with the keyword of a statement or with its closing brace.
  intro kind member declared
  subst declared
  cases body with
  | nil => simp [Statements.kinds] at member
  | cons first more =>
    obtain ⟨word, kinds, spelled, -, opens⟩ := first.kinds_head
    simp only [Statements.kinds, spelled, List.cons_append, List.head?_cons,
      Option.mem_some_iff, TokenKind.keyword.injEq] at member
    subst member
    simp at opens

/-- Local variables, a body and what follows its brace are determined by their tokens. -/
theorem localKinds_unique {locals others : List VariableList} {body other : Statements}
    {rest left : List TokenKind}
    (same : localKinds locals ++ (body.kinds ++ .symbol '}' :: rest) =
      localKinds others ++ (other.kinds ++ .symbol '}' :: left)) :
    locals = others ∧ body = other ∧ rest = left := by
  -- Local variables are opened by a keyword that opens no statement.
  obtain ⟨rfl, behind⟩ := flatMap_kinds_unique (fun kind => kind = .keyword .var)
    (fun list other rest left same => by
      simp only [List.cons_append, List.cons.injEq, true_and] at same
      exact VariableList.kinds_unique same)
    (fun list => ⟨_, _, rfl, rfl⟩) (body.head_ne_var rest) (other.head_ne_var left) same
  have unique := Statements.kinds_unique body other (endsStatements_brace rest)
    (endsStatements_brace left) behind
  simpa using unique

/-- A subroutine and what follows it are determined by their tokens. -/
theorem SubroutineTree.kinds_unique {tree other : SubroutineTree} {rest left : List TokenKind}
    (same : tree.kinds ++ rest = other.kinds ++ left) : tree = other ∧ rest = left := by
  -- The parts are peeled off from the left: kind, result, name, parameters, then the body.
  obtain ⟨kind, result?, name, parameters, locals, body⟩ := tree
  obtain ⟨kind', result?', name', parameters', locals', body'⟩ := other
  simp only [SubroutineTree.kinds, SubroutineTree.restKinds, List.cons_append, List.append_assoc,
    List.nil_append, List.cons.injEq, TokenKind.identifier.injEq, TokenKind.keyword.injEq,
    true_and] at same
  obtain ⟨sameKind, sameResult, rfl, behind⟩ := same
  obtain ⟨rfl, inside⟩ := Parameter.allKinds_unique behind
  simp only [List.cons.injEq, true_and] at inside
  obtain ⟨rfl, rfl, after⟩ := localKinds_unique inside
  obtain rfl := SubroutineTree.resultKind_injective sameResult
  -- The three kinds of subroutines have keywords of their own.
  have : kind = kind' := by revert sameKind; cases kind <;> cases kind' <;> decide
  exact ⟨by rw [this], after⟩

/-- Declarations of variables end in front of subroutines, with anything but more of them behind. -/
theorem SubroutineTree.head_ne_variables (subroutines : List SubroutineTree) {rest : List TokenKind}
    (ends : ∀ kind ∈ rest.head?, ¬(kind = .keyword .static ∨ kind = .keyword .field)) :
    ∀ kind ∈ (subroutines.flatMap SubroutineTree.kinds ++ rest).head?,
      ¬(kind = .keyword .static ∨ kind = .keyword .field) := by
  -- The keywords of subroutines are none of those that declare variables.
  cases subroutines with
  | nil => exact ends
  | cons first more =>
    intro kind member
    obtain rfl : kind = .keyword first.kind.keyword := by
      simpa [SubroutineTree.kinds, eq_comm] using member
    cases first.kind <;> decide

/-- The tokens of a class determine its tree. -/
theorem ClassTree.eq_of_kinds {tree other : ClassTree} (same : tree.kinds = other.kinds) :
    tree = other := by
  -- Variables end where no further one is opened.
  -- Subroutines end at the closing brace, which opens none.
  obtain ⟨name, classVariables, subroutines⟩ := tree
  obtain ⟨name', classVariables', subroutines'⟩ := other
  simp only [ClassTree.kinds, List.cons_append, List.append_assoc, List.cons.injEq,
    TokenKind.identifier.injEq, true_and] at same
  obtain ⟨rfl, behind⟩ := same
  obtain ⟨rfl, inside⟩ := flatMap_kinds_unique
    (fun kind => kind = .keyword .static ∨ kind = .keyword .field)
    (fun _ _ _ _ same => ClassVariables.kinds_unique same)
    (fun item => ⟨_, _, rfl, by cases item.kind <;> simp [ClassVariableKind.keyword]⟩)
    (SubroutineTree.head_ne_variables subroutines (by simp))
    (SubroutineTree.head_ne_variables subroutines' (by simp))
    behind
  obtain ⟨rfl, -⟩ := flatMap_kinds_unique (fun kind => kind ≠ .symbol '}')
    (fun _ _ _ _ same => SubroutineTree.kinds_unique same) (fun tree => ⟨_, _, rfl, nofun⟩)
    (by simp) (by simp) inside
  rfl

end JackCompiler
