import JackCompiler.Proofs.Tree.Unambiguity
import JackCompiler.Proofs.Compilation.Soundness

/-! What the pending parts of a class may stand for by the grammar alone, and what the next token
says about it. -/

namespace JackCompiler

namespace Pending

/-- By the grammar alone, the part may stand for tokens of the given kinds. -/
def Derives (part : Pending) (kinds : List TokenKind) : Prop :=
  match part with
  | .emit _ => kinds = []
  | .keyword word => kinds = [.keyword word]
  | .symbol c => kinds = [.symbol c]
  | .className => ∃ name, kinds = [.identifier name]
  | .classVariables => ∃ (classVariables : List ClassVariables) (subroutines : List SubroutineTree),
    kinds = classVariables.flatMap ClassVariables.kinds ++
      (subroutines.flatMap SubroutineTree.kinds ++ [.symbol '}'])
  | .subroutines => ∃ subroutines : List SubroutineTree,
    kinds = subroutines.flatMap SubroutineTree.kinds ++ [.symbol '}']
  | .variableType _ => ∃ list : VariableList, kinds = list.kinds
  | .variableName .. => ∃ name others,
    kinds = .identifier name :: moreNames others ++ [.symbol ';']
  | .variableEnd .. => ∃ others, kinds = moreNames others ++ [.symbol ';']
  | .returnType _ => ∃ tree : SubroutineTree,
    kinds = SubroutineTree.resultKind tree.result? :: .identifier tree.name :: tree.restKinds
  | .subroutineName .. => ∃ tree : SubroutineTree, kinds = .identifier tree.name :: tree.restKinds
  | .parameters => ∃ parameters, kinds = Parameter.allKinds parameters ++ [.symbol ')']
  | .parameterType => ∃ first others,
    kinds = Parameter.allKinds (first :: others) ++ [.symbol ')']
  | .parameterName _ => ∃ name others,
    kinds = .identifier name :: Parameter.moreKinds others ++ [.symbol ')']
  | .parameterEnd => ∃ others, kinds = Parameter.moreKinds others ++ [.symbol ')']
  | .localVariables => ∃ (locals : List VariableList) (body : Statements),
    kinds = localKinds locals ++ (body.kinds ++ [.symbol '}'])
  | .statements => ∃ statements : Statements, kinds = statements.kinds
  | .letTarget => ∃ statement : Statement, .keyword .«let» :: kinds = statement.kinds
  | .letPlace .. =>
    (∃ value : Expression, kinds = .symbol '=' :: value.kinds ++ [.symbol ';']) ∨
    ∃ index value : Expression, kinds = .symbol '[' :: index.kinds ++
      .symbol ']' :: .symbol '=' :: value.kinds ++ [.symbol ';']
  | .elseBranch _ => kinds = [] ∨ ∃ otherwise : Statements,
    kinds = .keyword .«else» :: .symbol '{' :: otherwise.kinds ++ [.symbol '}']
  | .returnValue => ∃ statement : Statement, .keyword .«return» :: kinds = statement.kinds
  | .callee => ∃ call : Call, kinds = call.kinds
  | .callRest name _ => ∃ call : Call, .identifier name :: kinds = call.kinds
  | .calleeMember name _ => ∃ call : Call, .identifier name :: .symbol '.' :: kinds = call.kinds
  | .arguments .. => ∃ arguments : Arguments, kinds = arguments.kinds ++ [.symbol ')']
  | .argumentEnd .. => ∃ arguments : Arguments, kinds = arguments.moreKinds ++ [.symbol ')']
  | .term => ∃ term : Term, kinds = term.kinds
  | .nameRest name _ => ∃ term : Term, .identifier name :: kinds = term.kinds
  | .operators => ∃ operations : Operations, kinds = operations.kinds

/-- The tokens are those of all parts, one behind the other. -/
def DerivesAll : List Pending → List TokenKind → Prop
  | [], kinds => kinds = []
  | part :: rest, kinds => ∃ first more, kinds = first ++ more ∧ part.Derives first ∧
    DerivesAll rest more

section

variable {part : Pending} {rest : List Pending} {kinds : List TokenKind}

/-- Nothing pending stands for no tokens. -/
@[simp] theorem derivesAll_nil_iff : DerivesAll [] kinds ↔ kinds = [] := Iff.rfl

/-- The first part stands for the first tokens. -/
theorem derivesAll_cons_iff (part : Pending) {rest : List Pending} {kinds : List TokenKind} :
    DerivesAll (part :: rest) kinds ↔
    ∃ first more, kinds = first ++ more ∧ part.Derives first ∧ DerivesAll rest more := Iff.rfl

/-- Parts placed before others stand for the tokens before theirs. -/
theorem derivesAll_append_iff {first : List Pending} : DerivesAll (first ++ rest) kinds ↔
    ∃ before behind, kinds = before ++ behind ∧ DerivesAll first before ∧
      DerivesAll rest behind := by
  -- The parts in front are peeled off one at a time.
  induction first generalizing kinds with
  | nil =>
    constructor
    · intro derives
      exact ⟨[], kinds, rfl, rfl, derives⟩
    · rintro ⟨_, _, rfl, rfl, derives⟩
      exact derives
  | cons part first ih =>
    simp only [List.cons_append, derivesAll_cons_iff, ih]
    constructor
    · rintro ⟨own, _, rfl, derives, before, behind, rfl, others, last⟩
      exact ⟨own ++ before, behind, by simp, ⟨own, before, rfl, derives, others⟩, last⟩
    · rintro ⟨_, behind, rfl, ⟨own, before, rfl, derives, others⟩, last⟩
      exact ⟨own, before ++ behind, by simp, derives, before, behind, rfl, others, last⟩

/-- A single part stands for all the tokens. -/
@[simp] theorem derivesAll_single_iff : DerivesAll [part] kinds ↔ part.Derives kinds := by
  simp [derivesAll_cons_iff]

/-- A mark stands for itself. -/
@[simp] theorem derivesAll_symbol_iff {c : Char} : DerivesAll (.symbol c :: rest) kinds ↔
    ∃ more, kinds = .symbol c :: more ∧ DerivesAll rest more := by
  -- The tokens of a mark are known, so only those behind it stay open.
  constructor
  · rintro ⟨_, more, rfl, rfl, others⟩
    exact ⟨more, rfl, others⟩
  · rintro ⟨more, rfl, others⟩
    exact ⟨_, more, rfl, rfl, others⟩

/-- Code that is due stands for no tokens. -/
@[simp] theorem derivesAll_emit_iff {code : List Command} : DerivesAll (.emit code :: rest) kinds ↔
    DerivesAll rest kinds := by
  -- Code takes no token, so the split stands in front of them all.
  constructor
  · rintro ⟨_, more, rfl, rfl, others⟩
    exact others
  · intro others
    exact ⟨[], kinds, rfl, rfl, others⟩

/-- A term and the operators behind it stand for an expression. -/
theorem derivesAll_expression_iff : DerivesAll (expression ++ rest) kinds ↔
    ∃ (value : Expression) (more : List TokenKind), kinds = value.kinds ++ more ∧
      DerivesAll rest more := by
  -- An expression is split where its first term ends, and put together there again.
  constructor
  · rintro ⟨_, _, rfl, ⟨first, rfl⟩, _, more, rfl, ⟨operations, rfl⟩, others⟩
    exact ⟨⟨first, operations⟩, more, by simp [Expression.kinds], others⟩
  · rintro ⟨⟨first, operations⟩, more, rfl, others⟩
    exact ⟨first.kinds, operations.kinds ++ more, by simp [Expression.kinds], ⟨first, rfl⟩,
      operations.kinds, more, rfl, ⟨operations, rfl⟩, others⟩

/-- A condition stands for an expression in parentheses. -/
theorem derivesAll_condition_iff {label : String} : DerivesAll (condition label ++ rest) kinds ↔
    ∃ (value : Expression) (more : List TokenKind),
      kinds = .symbol '(' :: value.kinds ++ .symbol ')' :: more ∧ DerivesAll rest more := by
  -- The parentheses are peeled off around the expression.
  simp only [condition, List.cons_append, List.append_assoc, derivesAll_symbol_iff,
    derivesAll_expression_iff, List.nil_append, derivesAll_emit_iff]
  constructor
  · rintro ⟨_, rfl, value, _, rfl, more, rfl, others⟩
    exact ⟨value, more, rfl, others⟩
  · rintro ⟨value, more, rfl, others⟩
    exact ⟨_, rfl, value, _, rfl, more, rfl, others⟩

/-- A block stands for statements in braces. -/
theorem derivesAll_block_iff : DerivesAll (block ++ rest) kinds ↔
    ∃ (body : Statements) (more : List TokenKind),
      kinds = .symbol '{' :: body.kinds ++ .symbol '}' :: more ∧ DerivesAll rest more := by
  -- The braces are peeled off around the statements.
  simp only [block, List.cons_append, List.nil_append, derivesAll_symbol_iff,
    derivesAll_cons_iff .statements]
  constructor
  · rintro ⟨_, rfl, _, _, rfl, ⟨body, rfl⟩, more, rfl, others⟩
    exact ⟨body, more, rfl, others⟩
  · rintro ⟨body, more, rfl, others⟩
    exact ⟨_, rfl, _, _, rfl, ⟨body, rfl⟩, more, rfl, others⟩

/-- An assignment stands for an expression between its two marks. -/
theorem derivesAll_assignment_iff {code : List Command} : DerivesAll (assignment code) kinds ↔
    ∃ value : Expression, kinds = .symbol '=' :: value.kinds ++ [.symbol ';'] := by
  -- The marks are peeled off around the value.
  simp only [assignment, List.cons_append, derivesAll_symbol_iff, derivesAll_expression_iff,
    derivesAll_emit_iff, derivesAll_nil_iff]
  constructor
  · rintro ⟨_, rfl, value, _, rfl, _, rfl, rfl⟩
    exact ⟨value, rfl⟩
  · rintro ⟨value, rfl⟩
    exact ⟨_, rfl, value, _, rfl, _, rfl, rfl⟩

end

section

variable {unit : ClassUnit} {token : Token} {part : Pending} {move : Move}
  {kinds : List TokenKind}

/-- A constant is a term by itself. -/
theorem derives_constant_iff {kind : TokenKind} (constant : Term) (alone : constant.kinds = [kind])
    (plain : kind.symbol? = none ∧ kind.identifier? = none) :
    Derives .term (kind :: kinds) ↔ DerivesAll [] kinds := by
  constructor
  · rintro ⟨term, same⟩
    -- All other terms start with a mark or with a name.
    rcases term with _ | _ | _ | _ | _ | _ | _ | ⟨_ | _⟩ <;>
      simp_all [Term.kinds, Call.kinds, TokenKind.symbol?, TokenKind.identifier?]
  · rintro rfl
    exact ⟨constant, alone.symm⟩

/-- The mark of a unary operator is followed by its operand. -/
theorem derives_unary_iff (operator : UnaryOperator) (code : List Command) :
    Derives .term (.symbol operator.mark :: kinds) ↔ DerivesAll [.term, .emit code] kinds := by
  -- No other term starts with the mark, and the two operators have different ones.
  simp only [derivesAll_cons_iff .term, derivesAll_emit_iff, derivesAll_nil_iff]
  constructor
  · rintro ⟨term, same⟩
    rcases term with _ | _ | _ | inner | ⟨other, operand⟩ | _ | _ | ⟨_ | _⟩ <;>
      simp only [Term.kinds, Call.kinds, List.cons_append, List.cons.injEq, reduceCtorEq,
        TokenKind.symbol.injEq, false_and] at same
    · cases operator <;> simp [UnaryOperator.mark] at same
    · exact ⟨kinds, [], by simp, ⟨operand, same.2⟩, rfl⟩
  · rintro ⟨_, _, rfl, ⟨operand, rfl⟩, rfl⟩
    exact ⟨.unary operator operand, by simp [Term.kinds]⟩

/-- A term that starts with a token is made of what the token brings. -/
theorem derives_term_iff (taken : takeTerm unit token = some move) :
    Derives .term (token.kind :: kinds) ↔ DerivesAll move.pending kinds := by
  unfold takeTerm at taken
  split at taken <;> rename_i spelled <;> cases taken <;> rw [spelled]
  case h_1 value => exact derives_constant_iff (.integer value) rfl ⟨rfl, rfl⟩
  case h_2 body => exact derives_constant_iff (.string body) rfl ⟨rfl, rfl⟩
  case h_3 => exact derives_constant_iff (.word .true) rfl ⟨rfl, rfl⟩
  case h_4 => exact derives_constant_iff (.word .false) rfl ⟨rfl, rfl⟩
  case h_5 => exact derives_constant_iff (.word .null) rfl ⟨rfl, rfl⟩
  case h_6 => exact derives_constant_iff (.word .this) rfl ⟨rfl, rfl⟩
  case h_7 =>
    simp only [derivesAll_expression_iff, derivesAll_symbol_iff, derivesAll_nil_iff]
    constructor
    · rintro ⟨term, same⟩
      rcases term with _ | _ | _ | inner | ⟨⟨⟩, _⟩ | _ | _ | ⟨_ | _⟩ <;>
        simp [Term.kinds, Call.kinds, UnaryOperator.mark] at same
      exact ⟨inner, _, same, _, rfl, rfl⟩
    · rintro ⟨inner, _, rfl, _, rfl, rfl⟩
      exact ⟨.group inner, rfl⟩
  case h_8 => exact derives_unary_iff .negate _
  case h_9 => exact derives_unary_iff .invert _
  -- What a name starts is open until the mark behind it is known.
  case h_10 name =>
    have single : DerivesAll [.nameRest name token.location] kinds ↔ _ := derivesAll_single_iff
    exact single.symm

/-- A call without a dot goes on with its arguments. -/
theorem derives_ownCall_iff (unit : ClassUnit) (name : String) {inner : List TokenKind} :
    (ownCall unit name).2.Derives inner ↔
      ∃ arguments : Arguments, inner = arguments.kinds ++ [.symbol ')'] := by
  -- Whether an object is passed on has no say in what is read.
  unfold ownCall
  split <;> rfl

/-- A call with a dot goes on with its arguments too. -/
theorem derives_memberCall_iff {location : Location} {name member : String}
    {call : List Command × Pending} (called : memberCall unit location name member = .ok call)
    {inner : List TokenKind} : call.2.Derives inner ↔
      ∃ arguments : Arguments, inner = arguments.kinds ++ [.symbol ')'] := by
  -- On a known variable the call passes an object, on a class none: both go on alike.
  unfold memberCall at called
  split at called
  · cases called
    rfl
  · split at called <;> cases called
    rfl

/-- A mark behind a name tells what kind of term it is. -/
theorem derives_nameRest_iff {name : String} {location : Location} {c : Char}
    (taken : takeNameRest unit name location c = some (.ok move)) :
    Derives (.nameRest name location) (.symbol c :: kinds) ↔ DerivesAll move.pending kinds := by
  -- A dot, a parenthesis or a bracket rules out the terms that another of them goes on with.
  unfold takeNameRest at taken
  split at taken
  · -- Only a call has a dot behind its first name.
    cases taken
    rw [derivesAll_single_iff]
    constructor
    · rintro ⟨term, same⟩
      rcases term with _ | _ | _ | _ | _ | _ | _ | call <;> simp [Term.kinds] at same
      exact ⟨call, same⟩
    · rintro ⟨call, same⟩
      exact ⟨.call call, same⟩
  · simp only [Option.some.injEq, Except.ok.injEq] at taken
    subst taken
    rw [derivesAll_single_iff, derives_ownCall_iff]
    constructor
    · rintro ⟨term, same⟩
      rcases term with _ | _ | _ | _ | _ | _ | _ | ⟨_, arguments⟩ | _ <;>
        simp [Term.kinds, Call.kinds] at same
      exact ⟨arguments, same.2⟩
    · rintro ⟨arguments, rfl⟩
      exact ⟨.call (.own name arguments), rfl⟩
  · simp only [Option.some.injEq] at taken
    obtain ⟨target, _, taken⟩ := bind_eq_ok_iff.mp taken
    obtain ⟨_, _, taken⟩ := bind_eq_ok_iff.mp taken
    cases taken
    simp only [derivesAll_expression_iff, derivesAll_symbol_iff, derivesAll_emit_iff,
      derivesAll_nil_iff]
    constructor
    · rintro ⟨term, same⟩
      rcases term with _ | _ | _ | _ | _ | _ | ⟨_, index⟩ | ⟨_ | _⟩ <;>
        simp [Term.kinds, Call.kinds] at same
      exact ⟨index, _, same.2, _, rfl, rfl⟩
    · rintro ⟨index, _, rfl, _, rfl, rfl⟩
      exact ⟨.element name index, rfl⟩
  · cases taken

/-- Statements that start with a keyword are one statement that does, and those behind it. -/
theorem derives_statements_iff {word : Keyword} : Derives .statements (.keyword word :: kinds) ↔
    ∃ (statement : Statement) (first : List TokenKind) (others : Statements),
      statement.kinds = .keyword word :: first ∧ kinds = first ++ others.kinds := by
  -- The keyword belongs to the first statement, as each statement starts with one.
  constructor
  · rintro ⟨_ | ⟨statement, others⟩, same⟩
    · cases same
    · obtain ⟨other, first, spelled, -⟩ := statement.kinds_head
      rw [Statements.kinds, spelled, List.cons_append, List.cons.injEq] at same
      obtain ⟨rfl⟩ := TokenKind.keyword.inj same.1
      exact ⟨statement, first, others, spelled, same.2⟩
  · rintro ⟨statement, first, others, spelled, rfl⟩
    exact ⟨.cons statement others, by rw [Statements.kinds, spelled, List.cons_append]⟩

/-- A statement that starts with a keyword takes the parts of its form, and others follow it. -/
theorem derives_statement_iff {word : Keyword} (taken : takeStatement unit word = some move) :
    Derives .statements (.keyword word :: kinds) ↔ DerivesAll move.pending kinds := by
  rw [derives_statements_iff]
  unfold takeStatement at taken
  split at taken <;> simp only [Option.some.injEq, reduceCtorEq] at taken
  all_goals subst taken
  · -- An assignment is told apart by what follows its target.
    rw [derivesAll_cons_iff]
    constructor
    · rintro ⟨statement, first, others, spelled, rfl⟩
      exact ⟨first, others.kinds, rfl, ⟨statement, spelled.symm⟩,
        derivesAll_single_iff.mpr ⟨others, rfl⟩⟩
    · rintro ⟨first, _, rfl, ⟨statement, spelled⟩, behind⟩
      obtain ⟨others, rfl⟩ := derivesAll_single_iff.mp behind
      exact ⟨statement, first, others, spelled.symm, rfl⟩
  · -- A conditional is told apart by what follows its block.
    simp only [List.append_assoc, derivesAll_condition_iff, derivesAll_block_iff,
      derivesAll_cons_iff (.elseBranch _), derivesAll_single_iff]
    constructor
    · rintro ⟨statement, first, others, spelled, rfl⟩
      cases statement <;> simp only [Statement.kinds, List.cons_append, List.cons.injEq,
        TokenKind.keyword.injEq, reduceCtorEq, false_and, true_and] at spelled
      case ifThen condition body =>
        subst spelled
        exact ⟨condition, .symbol '{' :: body.kinds ++ .symbol '}' :: others.kinds, by simp,
          body, others.kinds, rfl, [], others.kinds, rfl, .inl rfl, others, rfl⟩
      case ifThenElse condition body otherwise =>
        subst spelled
        refine ⟨condition, .symbol '{' :: body.kinds ++ .symbol '}' :: .keyword .«else» ::
          .symbol '{' :: otherwise.kinds ++ .symbol '}' :: others.kinds, by simp, body, _,
          by simp; rfl, _, others.kinds, by simp, .inr ⟨otherwise, rfl⟩, others, rfl⟩
    · rintro ⟨condition, _, rfl, body, _, rfl, _, _, rfl, rfl | ⟨otherwise, rfl⟩, others, rfl⟩
      · exact ⟨.ifThen condition body, _, others, rfl, by simp⟩
      · exact ⟨.ifThenElse condition body otherwise, _, others, rfl, by simp⟩
  · -- A loop has one form.
    simp only [List.append_assoc, derivesAll_condition_iff, derivesAll_block_iff, List.cons_append,
      derivesAll_emit_iff, derivesAll_single_iff]
    constructor
    · rintro ⟨statement, first, others, spelled, rfl⟩
      cases statement <;> simp only [Statement.kinds, List.cons_append, List.cons.injEq,
        TokenKind.keyword.injEq, reduceCtorEq, false_and, true_and] at spelled
      case whileDo condition body =>
        subst spelled
        exact ⟨condition, .symbol '{' :: body.kinds ++ .symbol '}' :: others.kinds, by simp,
          body, others.kinds, rfl, others, rfl⟩
    · rintro ⟨condition, _, rfl, body, _, rfl, others, rfl⟩
      exact ⟨.whileDo condition body, _, others, rfl, by simp⟩
  · -- So does a call, up to its semicolon.
    simp only [derivesAll_cons_iff .callee, derivesAll_symbol_iff, derivesAll_emit_iff,
      derivesAll_single_iff]
    constructor
    · rintro ⟨statement, first, others, spelled, rfl⟩
      cases statement <;> simp only [Statement.kinds, List.cons_append, List.cons.injEq,
        TokenKind.keyword.injEq, reduceCtorEq, false_and, true_and] at spelled
      case call call =>
        subst spelled
        exact ⟨call.kinds, _, by simp, ⟨call, rfl⟩, others.kinds, rfl, others, rfl⟩
    · rintro ⟨_, _, rfl, ⟨call, rfl⟩, _, rfl, others, rfl⟩
      exact ⟨.call call, _, others, rfl, by simp⟩
  · -- A return is told apart by whether a value follows.
    rw [derivesAll_cons_iff]
    constructor
    · rintro ⟨statement, first, others, spelled, rfl⟩
      exact ⟨first, others.kinds, rfl, ⟨statement, spelled.symm⟩,
        derivesAll_single_iff.mpr ⟨others, rfl⟩⟩
    · rintro ⟨first, _, rfl, ⟨statement, spelled⟩, behind⟩
      obtain ⟨others, rfl⟩ := derivesAll_single_iff.mp behind
      exact ⟨statement, first, others, spelled.symm, rfl⟩

/-- The target of an assignment is followed by its value, or by an index and the value. -/
theorem derives_letTarget_iff {name : String} (target : Symbol) (location : Location) :
    Derives .letTarget (.identifier name :: kinds) ↔
      (Pending.letPlace target location).Derives kinds := by
  -- Of all statements only the two assignments start with `let` and a name.
  constructor
  · rintro ⟨statement, same⟩
    cases statement <;> simp [Statement.kinds] at same
    case assign value => exact .inl ⟨value, by simp [same]⟩
    case assignElement index value => exact .inr ⟨index, value, by simp [same]⟩
  · rintro (⟨value, rfl⟩ | ⟨index, value, rfl⟩)
    · exact ⟨.assign name value, by simp [Statement.kinds]⟩
    · exact ⟨.assignElement name index value, by simp [Statement.kinds]⟩

/-- A bracket behind a target opens the index of an element. -/
theorem derives_letPlace_iff {target : Symbol} {location : Location} {code more : List Command} :
    (Pending.letPlace target location).Derives (.symbol '[' :: kinds) ↔
      DerivesAll (expression ++ [.symbol ']', .emit code] ++ assignment more) kinds := by
  -- The form without an index has an equals sign where the bracket stands.
  simp only [List.append_assoc, derivesAll_expression_iff, List.cons_append, List.nil_append,
    derivesAll_symbol_iff, derivesAll_emit_iff, derivesAll_assignment_iff]
  constructor
  · rintro (⟨value, same⟩ | ⟨index, value, same⟩)
    · simp at same
    · simp only [List.cons_append, List.append_assoc, List.cons.injEq, true_and] at same
      exact ⟨index, _, same, _, rfl, value, rfl⟩
  · rintro ⟨index, _, rfl, _, rfl, value, rfl⟩
    exact .inr ⟨index, value, by simp⟩

/-- An `else` is followed by a block. -/
theorem derives_elseBranch_iff {label : String} {code : List Command} :
    (Pending.elseBranch label).Derives (.keyword .«else» :: kinds) ↔
      DerivesAll (block ++ [.emit code]) kinds := by
  -- With the keyword there, the branch cannot be the empty one.
  simp only [derivesAll_block_iff, derivesAll_emit_iff, derivesAll_nil_iff]
  constructor
  · rintro (same | ⟨otherwise, same⟩)
    · cases same
    · exact ⟨otherwise, [], by simpa using same, rfl⟩
  · rintro ⟨otherwise, _, rfl, rfl⟩
    exact .inr ⟨otherwise, by simp⟩

/-- A semicolon ends a return at once. -/
theorem derives_returnValue_iff :
    Derives .returnValue (.symbol ';' :: kinds) ↔ DerivesAll [] kinds := by
  constructor
  · rintro ⟨statement, same⟩
    cases statement <;> simp [Statement.kinds] at same
    case returnNothing => exact same
    case returnValue value =>
      -- No expression starts with a semicolon.
      obtain ⟨kind, inner, spelled, -, opens⟩ := value.kinds_head
      rw [spelled] at same
      exact absurd (List.cons.inj same).1.symm opens
  · rintro rfl
    exact ⟨.returnNothing, rfl⟩

/-- A name behind a dot is followed by the arguments in parentheses. -/
theorem derives_calleeMember_iff {location : Location} {name member : String}
    {call : List Command × Pending} (called : memberCall unit location name member = .ok call) :
    (Pending.calleeMember name location).Derives (.identifier member :: kinds) ↔
      DerivesAll [.symbol '(', call.2] kinds := by
  -- The dot has been read, so the call is one of a member.
  simp only [derivesAll_symbol_iff, derivesAll_single_iff, derives_memberCall_iff called]
  constructor
  · rintro ⟨_ | ⟨_, _, arguments⟩, same⟩ <;> simp [Call.kinds] at same
    exact ⟨_, same.2.2, arguments, rfl⟩
  · rintro ⟨_, rfl, arguments, rfl⟩
    exact ⟨.member name member arguments, rfl⟩

/-- A closing parenthesis ends arguments of which none is written. -/
theorem derives_arguments_iff {target : String} {passed : Nat} :
    (Pending.arguments target passed).Derives (.symbol ')' :: kinds) ↔ DerivesAll [] kinds := by
  constructor
  · rintro ⟨_ | ⟨first, more⟩, same⟩
    · simpa [Arguments.kinds] using same
    · -- No expression starts with a closing parenthesis.
      obtain ⟨kind, inner, spelled, opens, -⟩ := first.kinds_head
      rw [Arguments.kinds, spelled] at same
      exact absurd (List.cons.inj same).1.symm opens
  · rintro rfl
    exact ⟨.nil, rfl⟩

/-- A comma behind an argument is followed by another one. -/
theorem derives_argumentEnd_iff {target : String} {passed : Nat} :
    (Pending.argumentEnd target passed).Derives (.symbol ',' :: kinds) ↔
      DerivesAll (expression ++ [.argumentEnd target (passed + 1)]) kinds := by
  -- The comma rules out that the arguments end here.
  simp only [derivesAll_expression_iff, derivesAll_single_iff]
  constructor
  · rintro ⟨_ | ⟨first, more⟩, same⟩
    · simp [Arguments.moreKinds] at same
    · simp only [Arguments.moreKinds, List.cons_append, List.append_assoc, List.cons.injEq,
        true_and] at same
      exact ⟨first, _, same, more, rfl⟩
  · rintro ⟨first, _, rfl, more, rfl⟩
    exact ⟨.cons first more, by simp [Arguments.moreKinds]⟩

/-- An operator is followed by its right operand and by further operators. -/
theorem derives_operators_iff {operator : BinaryOperator} {code : List Command} :
    Derives .operators (.symbol operator.mark :: kinds) ↔
      DerivesAll [.term, .emit code, .operators] kinds := by
  -- The mark rules out that the operators end here.
  simp only [derivesAll_cons_iff .term, derivesAll_emit_iff, derivesAll_single_iff]
  constructor
  · rintro ⟨_ | ⟨other, operand, more⟩, same⟩
    · simp [Operations.kinds] at same
    · simp only [Operations.kinds, List.cons_append, List.cons.injEq] at same
      exact ⟨_, _, same.2, ⟨operand, rfl⟩, more, rfl⟩
  · rintro ⟨_, _, rfl, ⟨operand, rfl⟩, more, rfl⟩
    exact ⟨.cons operator operand more, rfl⟩

/-- The keyword of a declaration in a class is followed by its variables and further parts. -/
theorem derives_classVariables_iff (kind : ClassVariableKind) :
    Derives .classVariables (.keyword kind.keyword :: kinds) ↔
      DerivesAll [.variableType kind.symbolKind, .classVariables] kinds := by
  rw [derivesAll_cons_iff]
  constructor
  · rintro ⟨_ | ⟨first, classVariables⟩, subroutines, same⟩
    · -- Subroutines and the closing brace are opened by other tokens.
      cases subroutines with
      | nil => simp at same
      | cons subroutine others =>
        simp only [SubroutineTree.kinds, List.flatMap_cons, List.flatMap_nil, List.cons_append,
          List.nil_append, List.cons.injEq, TokenKind.keyword.injEq] at same
        exact absurd same.1 (by cases kind <;> cases subroutine.kind <;> decide)
    · simp only [ClassVariables.kinds, List.flatMap_cons, List.cons_append, List.append_assoc,
        List.cons.injEq] at same
      exact ⟨_, _, same.2, ⟨first.list, rfl⟩,
        derivesAll_single_iff.mpr ⟨classVariables, subroutines, rfl⟩⟩
  · rintro ⟨_, _, rfl, ⟨list, rfl⟩, behind⟩
    obtain ⟨classVariables, subroutines, rfl⟩ := derivesAll_single_iff.mp behind
    exact ⟨⟨kind, list⟩ :: classVariables, subroutines, by simp [ClassVariables.kinds]⟩

/-- The keyword of a subroutine is followed by its type and further subroutines. -/
theorem derives_subroutines_iff {kind : SubroutineKind} :
    Derives .subroutines (.keyword kind.keyword :: kinds) ↔
      DerivesAll [.returnType kind, .subroutines] kinds := by
  rw [derivesAll_cons_iff]
  constructor
  · rintro ⟨_ | ⟨first, others⟩, same⟩
    · simp at same
    · simp only [SubroutineTree.kinds, List.flatMap_cons, List.cons_append, List.append_assoc,
        List.cons.injEq] at same
      exact ⟨_, _, same.2, ⟨first, rfl⟩, derivesAll_single_iff.mpr ⟨others, rfl⟩⟩
  · -- The rest of a subroutine is the same for every keyword, so any tree with it will do.
    rintro ⟨_, _, rfl, ⟨tree, rfl⟩, behind⟩
    obtain ⟨others, rfl⟩ := derivesAll_single_iff.mp behind
    exact ⟨{ tree with kind } :: others, by simp [SubroutineTree.kinds, SubroutineTree.restKinds]⟩

/-- A closing brace ends the subroutines of a class. -/
theorem derives_brace_iff : Derives .subroutines (.symbol '}' :: kinds) ↔ DerivesAll [] kinds := by
  -- A further subroutine would start with a keyword.
  constructor
  · rintro ⟨_ | ⟨first, others⟩, same⟩
    · simpa using same
    · simp [SubroutineTree.kinds] at same
  · rintro rfl
    exact ⟨[], rfl⟩

/-- A type is followed by the names that are declared with it. -/
theorem derives_variableType_iff {type : TypeName} {kind : SymbolKind} {text : String}
    {location : Location} :
    (Pending.variableType kind).Derives (type.kind :: kinds) ↔
      (Pending.variableName kind text location).Derives kinds := by
  -- The tree does not record where its type stands.
  constructor
  · rintro ⟨list, same⟩
    exact ⟨list.first, list.others, (List.cons.inj same).2⟩
  · rintro ⟨name, others, rfl⟩
    exact ⟨⟨type, name, others⟩, rfl⟩

/-- A declared name is followed by the mark behind it. -/
theorem derives_variableName_iff {kind : SymbolKind} {type name : String} {location : Location} :
    (Pending.variableName kind type location).Derives (.identifier name :: kinds) ↔
      (Pending.variableEnd kind type location).Derives kinds := by
  -- Neither side asks which name is declared.
  constructor
  · rintro ⟨_, others, same⟩
    exact ⟨others, (List.cons.inj same).2⟩
  · rintro ⟨others, rfl⟩
    exact ⟨name, others, rfl⟩

/-- A comma behind a declared name is followed by another name, and a semicolon by nothing. -/
theorem derives_variableEnd_iff {kind : SymbolKind} {type : String} {location : Location}
    {c : Char} (taken : takeVariableEnd unit kind type location c = some (.ok move)) :
    (Pending.variableEnd kind type location).Derives (.symbol c :: kinds) ↔
      DerivesAll move.pending kinds := by
  -- Each mark leaves one of the two forms of a list of names: a further name, or none.
  unfold takeVariableEnd at taken
  split at taken
  · cases taken
    rw [derivesAll_single_iff]
    constructor
    · rintro ⟨_ | ⟨name, others⟩, same⟩ <;> simp [moreNames] at same
      exact ⟨name, others, by simp [moreNames, same]⟩
    · rintro ⟨name, others, rfl⟩
      exact ⟨name :: others, by simp [moreNames]⟩
  · split at taken <;> cases taken
    constructor
    · rintro ⟨_ | ⟨name, others⟩, same⟩ <;> simp [moreNames] at same
      exact same
    · rintro rfl
      exact ⟨[], rfl⟩
  · cases taken

/-- The type of a subroutine is followed by its name. -/
theorem derives_returnType_iff {kind : SubroutineKind} {isVoid : Bool} (result? : Option TypeName) :
    (Pending.returnType kind).Derives (SubroutineTree.resultKind result? :: kinds) ↔
      (Pending.subroutineName kind isVoid).Derives kinds := by
  -- The tokens behind the type do not depend on it, so a tree may get another one.
  constructor
  · rintro ⟨tree, same⟩
    exact ⟨tree, (List.cons.inj same).2⟩
  · rintro ⟨tree, rfl⟩
    exact ⟨{ tree with result? }, rfl⟩

/-- The name of a subroutine is followed by its parameters and its body. -/
theorem derives_subroutineName_iff {kind : SubroutineKind} {isVoid : Bool} {name : String} :
    (Pending.subroutineName kind isVoid).Derives (.identifier name :: kinds) ↔
      DerivesAll [.symbol '(', .parameters, .symbol '{', .localVariables] kinds := by
  -- Whether the subroutine is void is not told by what follows: any type will do.
  simp only [derivesAll_symbol_iff, derivesAll_cons_iff .parameters,
    derivesAll_single_iff]
  constructor
  · rintro ⟨tree, same⟩
    exact ⟨_, (List.cons.inj same).2, Parameter.allKinds tree.parameters ++ [.symbol ')'], _,
      by simp; rfl, ⟨tree.parameters, rfl⟩, _, rfl, tree.locals, tree.body, by simp⟩
  · rintro ⟨_, rfl, _, _, rfl, ⟨parameters, rfl⟩, _, rfl, locals, body, rfl⟩
    exact ⟨⟨kind, none, name, parameters, locals, body⟩, by simp [SubroutineTree.restKinds]⟩

/-- A closing parenthesis ends parameters of which there is none. -/
theorem derives_parameters_end_iff :
    Derives .parameters (.symbol ')' :: kinds) ↔ DerivesAll [] kinds := by
  -- A parameter would start with its type, which is no parenthesis.
  constructor
  · rintro ⟨_ | ⟨first, others⟩, same⟩
    · simpa [Parameter.allKinds] using same
    · exact absurd (List.cons.inj same).1.symm (first.type.kind_ne_symbol ')')
  · rintro rfl
    exact ⟨[], rfl⟩

/-- The type of a parameter is followed by its name. -/
theorem derives_parameterType_iff {type : TypeName} {text : String} :
    Derives .parameterType (type.kind :: kinds) ↔ (Pending.parameterName text).Derives kinds := by
  -- The first parameter is its type and its name, which are read one after the other.
  constructor
  · rintro ⟨first, others, same⟩
    exact ⟨first.name, others, (List.cons.inj same).2⟩
  · rintro ⟨name, others, rfl⟩
    exact ⟨⟨type, name⟩, others, rfl⟩

/-- A type that opens parameters is the type of the first one. -/
theorem derives_parameters_iff {type : TypeName} :
    Derives .parameters (type.kind :: kinds) ↔ Derives .parameterType (type.kind :: kinds) := by
  -- A type rules out that there is no parameter.
  constructor
  · rintro ⟨_ | ⟨first, others⟩, same⟩
    · exact absurd (List.cons.inj same).1 (type.kind_ne_symbol ')')
    · exact ⟨first, others, same⟩
  · rintro ⟨first, others, same⟩
    exact ⟨first :: others, same⟩

/-- The name of a parameter is followed by the mark behind it. -/
theorem derives_parameterName_iff {type name : String} :
    (Pending.parameterName type).Derives (.identifier name :: kinds) ↔
      Derives .parameterEnd kinds := by
  -- Neither side asks which name is declared.
  constructor
  · rintro ⟨_, others, same⟩
    exact ⟨others, (List.cons.inj same).2⟩
  · rintro ⟨others, rfl⟩
    exact ⟨name, others, rfl⟩

/-- A comma behind a parameter is followed by another one. -/
theorem derives_parameterEnd_iff :
    Derives .parameterEnd (.symbol ',' :: kinds) ↔ Derives .parameterType kinds := by
  -- The comma rules out that the parameters end here.
  constructor
  · rintro ⟨_ | ⟨first, others⟩, same⟩ <;> simp [Parameter.moreKinds] at same
    exact ⟨first, others, by simpa [Parameter.allKinds, Parameter.moreKinds] using same⟩
  · rintro ⟨first, others, rfl⟩
    exact ⟨first :: others, by simp [Parameter.allKinds, Parameter.moreKinds]⟩

/-- The keyword of local variables is followed by their declaration and further parts. -/
theorem derives_localVariables_iff :
    Derives .localVariables (.keyword .var :: kinds) ↔
      DerivesAll [.variableType .localVar, .localVariables] kinds := by
  rw [derivesAll_cons_iff]
  constructor
  · rintro ⟨_ | ⟨first, others⟩, body, same⟩
    · -- No statement starts with the keyword of local variables.
      exact absurd rfl (body.head_ne_var [] (.keyword .var)
        (by simpa [localKinds] using congrArg List.head? same.symm))
    · simp only [localKinds, List.flatMap_cons, List.cons_append, List.append_assoc,
        List.cons.injEq, true_and] at same
      exact ⟨_, _, same, ⟨first, rfl⟩, derivesAll_single_iff.mpr ⟨others, body, rfl⟩⟩
  · rintro ⟨_, _, rfl, ⟨list, rfl⟩, behind⟩
    obtain ⟨others, body, rfl⟩ := derivesAll_single_iff.mp behind
    exact ⟨list :: others, body, by simp [localKinds]⟩

/-- A part that takes a token goes on exactly with what the token brings. -/
theorem derives_iff_of_take (taken : part.take? unit token = some (.ok move)) :
    part.Derives (token.kind :: kinds) ↔ DerivesAll move.pending kinds := by
  -- The part decides first what the token may be.
  cases part <;> simp only [take?, reduceCtorEq] at taken
  case keyword | symbol =>
    simp only [Option.ite_none_right_eq_some, Option.some.injEq, Except.ok.injEq] at taken
    obtain ⟨spelled, rfl⟩ := taken
    simp [spelled, Derives]
  case className =>
    obtain ⟨name, named, taken⟩ := Option.map_eq_some_iff.mp taken
    cases taken
    simp [TokenKind.identifier?_eq_some_iff.mp named, Derives]
  case classVariables =>
    split at taken <;> rename_i spelled <;> cases taken <;> rw [spelled]
    · exact derives_classVariables_iff .static
    · exact derives_classVariables_iff .field
  case subroutines =>
    split at taken <;> rename_i spelled
    · cases taken
      rw [spelled]
      exact derives_brace_iff
    · obtain ⟨kind, opened, taken⟩ := Option.map_eq_some_iff.mp taken
      obtain ⟨_, _, taken⟩ := bind_eq_ok_iff.mp taken
      cases taken
      rw [spelled, SubroutineKind.ofKeyword?_eq_some_iff.mp opened]
      exact derives_subroutines_iff
    · cases taken
  case variableType kind =>
    obtain ⟨text, named, taken⟩ := Option.map_eq_some_iff.mp taken
    cases taken
    obtain ⟨type, spelled, -⟩ := TokenKind.type?_eq_some_iff.mp named
    rw [spelled, derivesAll_single_iff]
    exact derives_variableType_iff
  case variableName =>
    obtain ⟨name, named, taken⟩ := Option.map_eq_some_iff.mp taken
    obtain ⟨_, _, taken⟩ := bind_eq_ok_iff.mp taken
    cases taken
    rw [TokenKind.identifier?_eq_some_iff.mp named, derivesAll_single_iff]
    exact derives_variableName_iff
  case variableEnd =>
    obtain ⟨c, marked, taken⟩ := Option.bind_eq_some_iff.mp taken
    rw [TokenKind.symbol?_eq_some_iff.mp marked]
    exact derives_variableEnd_iff taken
  case returnType kind =>
    split at taken
    · rename_i spelled
      cases taken
      rw [spelled, derivesAll_single_iff]
      exact derives_returnType_iff none
    · obtain ⟨text, named, taken⟩ := Option.map_eq_some_iff.mp taken
      cases taken
      obtain ⟨type, spelled, -⟩ := TokenKind.type?_eq_some_iff.mp named
      rw [spelled, derivesAll_single_iff]
      exact derives_returnType_iff (some type)
  case subroutineName =>
    obtain ⟨name, named, taken⟩ := Option.map_eq_some_iff.mp taken
    cases taken
    rw [TokenKind.identifier?_eq_some_iff.mp named]
    exact derives_subroutineName_iff
  case parameters =>
    split at taken
    · rename_i spelled
      cases taken
      rw [spelled]
      exact derives_parameters_end_iff
    · obtain ⟨text, named, taken⟩ := Option.map_eq_some_iff.mp taken
      cases taken
      obtain ⟨type, spelled, -⟩ := TokenKind.type?_eq_some_iff.mp named
      rw [spelled, derives_parameters_iff, derivesAll_single_iff]
      exact derives_parameterType_iff
  case parameterType =>
    obtain ⟨text, named, taken⟩ := Option.map_eq_some_iff.mp taken
    cases taken
    obtain ⟨type, spelled, -⟩ := TokenKind.type?_eq_some_iff.mp named
    rw [spelled, derivesAll_single_iff]
    exact derives_parameterType_iff
  case parameterName =>
    obtain ⟨name, named, taken⟩ := Option.map_eq_some_iff.mp taken
    obtain ⟨_, _, taken⟩ := bind_eq_ok_iff.mp taken
    cases taken
    rw [TokenKind.identifier?_eq_some_iff.mp named, derivesAll_single_iff]
    exact derives_parameterName_iff
  case parameterEnd =>
    split at taken <;> rename_i spelled <;> cases taken <;> rw [spelled]
    · rw [derivesAll_single_iff]
      exact derives_parameterEnd_iff
    · constructor
      · rintro ⟨_ | ⟨first, others⟩, same⟩ <;> simp [Parameter.moreKinds] at same
        exact same
      · rintro rfl
        exact ⟨[], rfl⟩
  case localVariables =>
    simp only [Option.ite_none_right_eq_some, Option.some.injEq, Except.ok.injEq] at taken
    obtain ⟨spelled, rfl⟩ := taken
    rw [spelled]
    exact derives_localVariables_iff
  case statements =>
    obtain ⟨_, started, taken⟩ := Option.map_eq_some_iff.mp taken
    cases taken
    obtain ⟨word, opened, started⟩ := Option.bind_eq_some_iff.mp started
    rw [TokenKind.keyword?_eq_some_iff.mp opened]
    exact derives_statement_iff started
  case letTarget =>
    obtain ⟨name, named, taken⟩ := Option.map_eq_some_iff.mp taken
    split at taken <;> cases taken
    rw [TokenKind.identifier?_eq_some_iff.mp named, derivesAll_single_iff]
    exact derives_letTarget_iff _ token.location
  case letPlace =>
    simp only [Option.ite_none_right_eq_some, Option.some.injEq] at taken
    obtain ⟨spelled, taken⟩ := taken
    obtain ⟨_, _, taken⟩ := bind_eq_ok_iff.mp taken
    cases taken
    rw [spelled]
    exact derives_letPlace_iff
  case elseBranch =>
    simp only [Option.ite_none_right_eq_some, Option.some.injEq, Except.ok.injEq] at taken
    obtain ⟨spelled, rfl⟩ := taken
    rw [spelled]
    exact derives_elseBranch_iff
  case returnValue =>
    simp only [Option.ite_none_right_eq_some, Option.some.injEq, Except.ok.injEq] at taken
    obtain ⟨spelled, rfl⟩ := taken
    rw [spelled]
    exact derives_returnValue_iff
  case callee =>
    obtain ⟨name, named, taken⟩ := Option.map_eq_some_iff.mp taken
    cases taken
    rw [TokenKind.identifier?_eq_some_iff.mp named, derivesAll_single_iff]
    rfl
  case callRest =>
    simp only [Option.ite_none_right_eq_some, Option.some.injEq, Except.ok.injEq] at taken
    obtain ⟨spelled, rfl⟩ := taken
    rw [spelled, derivesAll_single_iff]
    rfl
  case calleeMember =>
    obtain ⟨member, named, taken⟩ := Option.map_eq_some_iff.mp taken
    obtain ⟨_, called, taken⟩ := bind_eq_ok_iff.mp taken
    cases taken
    rw [TokenKind.identifier?_eq_some_iff.mp named]
    exact derives_calleeMember_iff called
  case arguments =>
    simp only [Option.ite_none_right_eq_some, Option.some.injEq, Except.ok.injEq] at taken
    obtain ⟨spelled, rfl⟩ := taken
    rw [spelled]
    exact derives_arguments_iff
  case argumentEnd =>
    split at taken <;> rename_i spelled <;> cases taken <;> rw [spelled]
    · exact derives_argumentEnd_iff
    · constructor
      · rintro ⟨_ | ⟨first, more⟩, same⟩ <;> simp [Arguments.moreKinds] at same
        exact same
      · rintro rfl
        exact ⟨.nil, rfl⟩
  case term =>
    obtain ⟨_, started, taken⟩ := Option.map_eq_some_iff.mp taken
    cases taken
    exact derives_term_iff started
  case nameRest =>
    obtain ⟨c, marked, taken⟩ := Option.bind_eq_some_iff.mp taken
    rw [TokenKind.symbol?_eq_some_iff.mp marked]
    exact derives_nameRest_iff taken
  case operators =>
    obtain ⟨code, coded, taken⟩ := Option.map_eq_some_iff.mp taken
    cases taken
    obtain ⟨c, marked, coded⟩ := Option.bind_eq_some_iff.mp coded
    obtain ⟨operator, rfl, -⟩ := operatorCode?_eq_some coded
    rw [TokenKind.symbol?_eq_some_iff.mp marked]
    exact derives_operators_iff

/-- What stands for the parts in the place of one that takes no token stands for that part. -/
theorem derives_of_leave (left : part.leave unit = .go move)
    (derives : DerivesAll move.pending kinds) : part.Derives kinds := by
  -- Each part that may be left has a form without the token it would have taken.
  cases part <;> simp only [leave, Leave.go.injEq, reduceCtorEq] at left
  case nameRest name location =>
    split at left <;> simp only [Leave.go.injEq, reduceCtorEq] at left
    subst left
    exact ⟨.name name, by rw [derivesAll_nil_iff.mp derives, Term.kinds]⟩
  all_goals subst left
  case emit => exact derives
  case classVariables =>
    obtain ⟨subroutines, rfl⟩ := derivesAll_single_iff.mp derives
    exact ⟨[], subroutines, rfl⟩
  case localVariables =>
    obtain ⟨_, _, rfl, ⟨body, rfl⟩, behind⟩ := derives
    obtain ⟨_, rfl, rfl⟩ := derivesAll_symbol_iff.mp behind
    exact ⟨[], body, rfl⟩
  case statements => exact ⟨.nil, derives⟩
  case letPlace => exact .inl (derivesAll_assignment_iff.mp derives)
  case elseBranch => exact .inl derives
  case returnValue =>
    simp only [derivesAll_expression_iff, derivesAll_symbol_iff, derivesAll_emit_iff,
      derivesAll_nil_iff] at derives
    obtain ⟨value, _, rfl, _, rfl, rfl⟩ := derives
    exact ⟨.returnValue value, rfl⟩
  case callRest name _ =>
    simp only [derivesAll_symbol_iff, derivesAll_single_iff, derives_ownCall_iff] at derives
    obtain ⟨_, rfl, arguments, rfl⟩ := derives
    exact ⟨.own name arguments, rfl⟩
  case arguments =>
    simp only [derivesAll_expression_iff, derivesAll_single_iff] at derives
    obtain ⟨first, _, rfl, more, rfl⟩ := derives
    exact ⟨.cons first more, by simp [Arguments.kinds]⟩
  case operators => exact ⟨.nil, derives⟩

/-- The first of the tokens, if there is one, is not taken for the part. -/
def Unread (unit : ClassUnit) (part : Pending) (kinds : List TokenKind) : Prop :=
  ∀ kind ∈ kinds.head?, ∃ token : Token, token.kind = kind ∧ part.take? unit token = none

/-- Where a part takes no token, the parts in its place stand for whatever it does. -/
theorem derivesAll_of_leave (left : part.leave unit = .go move) (unread : part.Unread unit kinds)
    (derives : part.Derives kinds) : DerivesAll move.pending kinds := by
  -- Every other form of the part opens with a token that would have been taken.
  cases part <;> simp only [leave, Leave.go.injEq, reduceCtorEq] at left
  case nameRest name location =>
    split at left <;> simp only [Leave.go.injEq, reduceCtorEq] at left
    subst left
    -- A bracket, a dot or a parenthesis would have been taken.
    obtain ⟨term, same⟩ := derives
    rcases term with _ | _ | _ | _ | _ | _ | ⟨_, index⟩ | ⟨_ | _⟩ <;>
      simp only [Term.kinds, Call.kinds, List.cons_append, List.cons.injEq, reduceCtorEq,
        false_and] at same
    case name => exact same.2
    all_goals
      obtain ⟨token, spelled, none⟩ := unread _ (by rw [same.2]; rfl)
      simp [take?, spelled, TokenKind.symbol?, takeNameRest] at none
  all_goals subst left
  case emit => exact derives
  case classVariables =>
    obtain ⟨_ | ⟨first, others⟩, subroutines, rfl⟩ := derives
    · exact derivesAll_single_iff.mpr ⟨subroutines, rfl⟩
    · obtain ⟨token, spelled, none⟩ := unread _ rfl
      cases kind : first.kind <;>
        simp [take?, spelled, kind, ClassVariableKind.keyword] at none
  case localVariables =>
    obtain ⟨_ | ⟨first, others⟩, body, rfl⟩ := derives
    · exact ⟨body.kinds, _, rfl, ⟨body, rfl⟩, derivesAll_symbol_iff.mpr ⟨[], rfl, rfl⟩⟩
    · obtain ⟨token, spelled, none⟩ := unread _ rfl
      simp [take?, spelled] at none
  case statements =>
    obtain ⟨_ | ⟨first, others⟩, rfl⟩ := derives
    · rfl
    · obtain ⟨word, inner, opened, other, opens⟩ := first.kinds_head
      obtain ⟨token, spelled, none⟩ :=
        unread (.keyword word) (by rw [Statements.kinds, opened]; rfl)
      simp only [List.mem_cons, List.not_mem_nil, or_false] at opens
      rcases opens with rfl | rfl | rfl | rfl | rfl | rfl <;>
        simp [take?, spelled, TokenKind.keyword?, takeStatement] at none other
  case letPlace =>
    rcases derives with ⟨value, rfl⟩ | ⟨index, value, rfl⟩
    · exact derivesAll_assignment_iff.mpr ⟨value, rfl⟩
    · obtain ⟨token, spelled, none⟩ := unread _ rfl
      simp [take?, spelled] at none
  case elseBranch =>
    rcases derives with rfl | ⟨otherwise, rfl⟩
    · rfl
    · obtain ⟨token, spelled, none⟩ := unread _ rfl
      simp [take?, spelled] at none
  case returnValue =>
    obtain ⟨statement, same⟩ := derives
    cases statement <;> simp only [Statement.kinds, List.cons_append, List.cons.injEq,
      TokenKind.keyword.injEq, reduceCtorEq, false_and, true_and] at same
    case returnNothing =>
      subst same
      obtain ⟨token, spelled, none⟩ := unread _ rfl
      simp [take?, spelled] at none
    case returnValue value =>
      simp only [derivesAll_expression_iff, derivesAll_symbol_iff, derivesAll_emit_iff,
        derivesAll_nil_iff]
      exact ⟨value, _, same, _, rfl, rfl⟩
  case callRest =>
    obtain ⟨_ | _, same⟩ := derives
    case own arguments =>
      simp only [derivesAll_symbol_iff, derivesAll_single_iff, derives_ownCall_iff]
      exact ⟨_, (List.cons.inj same).2, arguments, rfl⟩
    case member =>
      obtain ⟨token, spelled, none⟩ := unread _ (by rw [(List.cons.inj same).2]; rfl)
      simp [take?, spelled] at none
  case arguments =>
    obtain ⟨_ | ⟨first, more⟩, rfl⟩ := derives
    · obtain ⟨token, spelled, none⟩ := unread _ rfl
      simp [take?, spelled] at none
    · simp only [derivesAll_expression_iff, derivesAll_single_iff]
      exact ⟨first, _, by rw [Arguments.kinds, List.append_assoc], more, rfl⟩
  case operators =>
    obtain ⟨_ | ⟨operator, operand, more⟩, rfl⟩ := derives
    · rfl
    · obtain ⟨token, spelled, none⟩ := unread _ rfl
      cases operator <;>
        simp [take?, spelled, TokenKind.symbol?, BinaryOperator.mark, operatorCode?,
          Operation.ofBinary?] at none

/-- A part that requires a token stands for none that it does not take. -/
theorem not_derives_of_refuse {expected : String} (refused : part.leave unit = .refuse expected)
    (unread : part.Unread unit kinds) : ¬part.Derives kinds := by
  intro derives
  cases part <;> simp only [leave, reduceCtorEq] at refused
  -- Each form of the part opens with a token that would have been taken.
  case keyword | symbol =>
    subst derives
    obtain ⟨token, spelled, none⟩ := unread _ rfl
    simp [take?, spelled] at none
  case className =>
    obtain ⟨name, rfl⟩ := derives
    obtain ⟨token, spelled, none⟩ := unread _ rfl
    simp [take?, spelled, TokenKind.identifier?] at none
  case subroutines =>
    obtain ⟨_ | ⟨first, others⟩, rfl⟩ := derives <;> obtain ⟨token, spelled, none⟩ := unread _ rfl
    · simp [take?, spelled] at none
    · cases kind : first.kind <;>
        simp [take?, spelled, kind, SubroutineKind.keyword, SubroutineKind.ofKeyword?] at none
  case variableType =>
    obtain ⟨list, rfl⟩ := derives
    obtain ⟨token, spelled, none⟩ := unread _ rfl
    simp [take?, spelled, TypeName.type?_kind] at none
  case variableName | parameterName =>
    obtain ⟨name, others, rfl⟩ := derives
    obtain ⟨token, spelled, none⟩ := unread _ rfl
    simp [take?, spelled, TokenKind.identifier?] at none
  case variableEnd =>
    obtain ⟨_ | ⟨name, others⟩, rfl⟩ := derives <;>
      obtain ⟨token, spelled, none⟩ := unread _ rfl <;>
      simp [take?, spelled, TokenKind.symbol?, takeVariableEnd] at none
  case returnType =>
    obtain ⟨tree, rfl⟩ := derives
    obtain ⟨token, spelled, none⟩ := unread _ rfl
    cases result : tree.result? <;>
      simp [take?, spelled, result, SubroutineTree.resultKind, TypeName.kind_ne_void,
        TypeName.type?_kind] at none
  case subroutineName =>
    obtain ⟨tree, rfl⟩ := derives
    obtain ⟨token, spelled, none⟩ := unread _ rfl
    simp [take?, spelled, TokenKind.identifier?] at none
  case parameters =>
    obtain ⟨_ | ⟨first, others⟩, rfl⟩ := derives <;>
      obtain ⟨token, spelled, none⟩ := unread _ rfl <;>
      simp [take?, spelled, TypeName.kind_ne_symbol, TypeName.type?_kind] at none
  case parameterType =>
    obtain ⟨first, others, rfl⟩ := derives
    obtain ⟨token, spelled, none⟩ := unread _ rfl
    simp [take?, spelled, TypeName.type?_kind] at none
  case parameterEnd =>
    obtain ⟨_ | ⟨first, others⟩, rfl⟩ := derives <;>
      obtain ⟨token, spelled, none⟩ := unread _ rfl <;>
      simp [take?, spelled] at none
  case letTarget =>
    obtain ⟨statement, same⟩ := derives
    cases statement <;> simp only [Statement.kinds, List.cons_append, List.cons.injEq,
      TokenKind.keyword.injEq, reduceCtorEq, false_and, true_and] at same
    all_goals
      obtain ⟨token, spelled, none⟩ := unread _ (by rw [same]; rfl)
      simp only [take?, spelled, TokenKind.identifier?, Option.map_some, reduceCtorEq] at none
  case callee =>
    obtain ⟨call, rfl⟩ := derives
    obtain ⟨name, c, inner, opened, -⟩ := call.kinds_head
    obtain ⟨token, spelled, none⟩ := unread _ (by rw [opened]; rfl)
    simp [take?, spelled, TokenKind.identifier?] at none
  case calleeMember =>
    obtain ⟨_ | ⟨_, member, arguments⟩, same⟩ := derives <;> simp [Call.kinds] at same
    obtain ⟨token, spelled, none⟩ := unread (.identifier member) (by rw [same.2]; rfl)
    simp [take?, spelled, TokenKind.identifier?] at none
  case argumentEnd =>
    obtain ⟨_ | ⟨first, more⟩, rfl⟩ := derives <;>
      obtain ⟨token, spelled, none⟩ := unread _ rfl <;>
      simp [take?, spelled] at none
  case term =>
    obtain ⟨term, rfl⟩ := derives
    rcases term with _ | _ | ⟨_ | _⟩ | _ | ⟨_ | _, _⟩ | _ | _ | ⟨_ | _⟩ <;>
      obtain ⟨token, spelled, none⟩ := unread _ rfl <;>
      simp [take?, spelled, takeTerm, WordConstant.keyword, UnaryOperator.mark] at none
  case nameRest => split at refused <;> cases refused

end

end Pending

end JackCompiler
