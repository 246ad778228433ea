import JackCompiler.Proofs.Compilation.Steps
import JackCompiler.Proofs.Lowering.Class

/-! What the pending parts of a class stand for: the trees that may be read for them. -/

namespace JackCompiler

namespace ClassUnit

/-- What the code of a statement depends on at a point of a class. -/
def context (unit : ClassUnit) : Context := ⟨unit.name, unit.subroutine, unit.symbols.get?⟩

/-- Some more labels are in use. -/
def addLabels (unit : ClassUnit) (count : Nat) : ClassUnit :=
  { unit with labels := unit.labels + count }

/-- Labels have no say in what a statement means. -/
@[simp] theorem context_addLabels (unit : ClassUnit) (count : Nat) :
    (unit.addLabels count).context = unit.context := rfl

/-- The labels in use are counted on. -/
@[simp] theorem labels_addLabels (unit : ClassUnit) (count : Nat) :
    (unit.addLabels count).labels = unit.labels + count := rfl

/-- Taking no label changes nothing. -/
@[simp] theorem addLabels_zero (unit : ClassUnit) : unit.addLabels 0 = unit := rfl

/-- Labels that are taken one after the other add up. -/
@[simp] theorem addLabels_addLabels (unit : ClassUnit) (count more : Nat) :
    (unit.addLabels count).addLabels more = unit.addLabels (count + more) := by
  simp [addLabels, Nat.add_assoc]

/-- A new label is the first one that is not in use. -/
theorem newLabel_eq (unit : ClassUnit) :
    unit.newLabel = (unit.context.label unit.labels, unit.addLabels 1) := rfl

/-- The declarations are all accepted, one after the other. -/
def Declares (unit : ClassUnit) : List Declaration → ClassUnit → Prop
  | [], after => after = unit
  | declaration :: rest, after => ∃ next location,
    unit.declare location declaration.name declaration.type declaration.kind = .ok next ∧
      next.Declares rest after

/-- Declarations are accepted together when the first ones are, and the other ones behind them. -/
theorem Declares.append {unit next after : ClassUnit} {first rest : List Declaration}
    (declared : unit.Declares first next) (further : next.Declares rest after) :
    unit.Declares (first ++ rest) after := by
  -- The first declarations are followed to the state in which the others are made.
  induction first generalizing unit with
  | nil =>
    obtain rfl : next = unit := declared
    exact further
  | cons declaration first ih =>
    obtain ⟨begun, location, accepted, declared⟩ := declared
    exact ⟨begun, location, accepted, ih declared⟩

/-- Declarations that are accepted together are accepted in two parts. -/
theorem Declares.of_append {unit after : ClassUnit} {first rest : List Declaration}
    (declared : unit.Declares (first ++ rest) after) :
    ∃ next, unit.Declares first next ∧ next.Declares rest after := by
  -- The state between the two parts is the one that the first declarations lead to.
  induction first generalizing unit with
  | nil => exact ⟨unit, rfl, declared⟩
  | cons declaration first ih =>
    obtain ⟨begun, location, accepted, declared⟩ := declared
    obtain ⟨next, declared, further⟩ := ih declared
    exact ⟨next, ⟨begun, location, accepted, declared⟩, further⟩

/-- The number of fields is within its limit where it is checked. -/
def FitsObject (unit : ClassUnit) (kind : SymbolKind) : Prop :=
  kind = .field → unit.symbols.count .field ≤ maxOperand

/-- The variables of a class are all accepted, one declaration after the other. -/
inductive DeclaresVariables : ClassUnit → List ClassVariables → ClassUnit → Prop where
  | nil (unit : ClassUnit) : DeclaresVariables unit [] unit
  | cons {unit next after : ClassUnit} {classVariables : ClassVariables}
      {rest : List ClassVariables}
      (declared : unit.Declares classVariables.declarations next)
      (fits : next.FitsObject classVariables.kind.symbolKind)
      (others : DeclaresVariables next rest after) :
      DeclaresVariables unit (classVariables :: rest) after

/-- A subroutine is accepted from its name on, and gives the code. -/
def CompilesRest (unit : ClassUnit) (tree : SubroutineTree) (code : List Command)
    (after : ClassUnit) : Prop :=
  ∃ inner : ClassUnit, { unit with subroutine := tree.head }.Declares tree.ownDeclarations inner ∧
    tree.body.Lawful inner.context ∧
    code = inner.opening ++ tree.body.code inner.context inner.labels ∧
    after = inner.addLabels tree.body.labels

/-- Subroutines are accepted one after the other, and give the code. -/
inductive CompilesAll : ClassUnit → List SubroutineTree → List Command → ClassUnit → Prop where
  | nil (unit : ClassUnit) : CompilesAll unit [] [] unit
  | cons {unit begun next after : ClassUnit} {tree : SubroutineTree} {rest : List SubroutineTree}
      {location : Location} {code more : List Command}
      (started : unit.startSubroutine location tree.kind = .ok begun)
      (compiled : begun.CompilesRest tree code next) (others : CompilesAll next rest more after) :
      CompilesAll unit (tree :: rest) (code ++ more) after

end ClassUnit

namespace Pending

/-- The tokens are those of an expression, a statement or a declaration for which the part stands:
they give the code, and leave the unit in its second state. -/
def Reads (unit : ClassUnit) (kinds : List TokenKind) (code : List Command) (after : ClassUnit) :
    Pending → Prop
  | .emit due => kinds = [] ∧ code = due ∧ after = unit
  | .keyword word => kinds = [.keyword word] ∧ code = [] ∧ after = unit
  | .symbol c => kinds = [.symbol c] ∧ code = [] ∧ after = unit
  | .className => ∃ name, kinds = [.identifier name] ∧ code = [] ∧ after = { unit with name }
  | .classVariables => ∃ classVariables subroutines next,
    kinds = classVariables.flatMap ClassVariables.kinds ++
      (subroutines.flatMap SubroutineTree.kinds ++ [.symbol '}']) ∧
    unit.DeclaresVariables classVariables next ∧ next.CompilesAll subroutines code after
  | .subroutines => ∃ subroutines,
    kinds = subroutines.flatMap SubroutineTree.kinds ++ [.symbol '}'] ∧
    unit.CompilesAll subroutines code after
  | .variableType kind => ∃ list : VariableList, kinds = list.kinds ∧ code = [] ∧
    unit.Declares (list.declarations kind) after ∧ after.FitsObject kind
  | .variableName kind type _ => ∃ name others,
    kinds = .identifier name :: moreNames others ++ [.symbol ';'] ∧ code = [] ∧
    unit.Declares ((name :: others).map (⟨·, type, kind⟩)) after ∧ after.FitsObject kind
  | .variableEnd kind type _ => ∃ others, kinds = moreNames others ++ [.symbol ';'] ∧ code = [] ∧
    unit.Declares (others.map (⟨·, type, kind⟩)) after ∧ after.FitsObject kind
  | .returnType kind => ∃ tree : SubroutineTree, tree.kind = kind ∧
    kinds = SubroutineTree.resultKind tree.result? :: .identifier tree.name :: tree.restKinds ∧
    unit.CompilesRest tree code after
  | .subroutineName kind isVoid => ∃ tree : SubroutineTree, tree.kind = kind ∧
    tree.result?.isNone = isVoid ∧ kinds = .identifier tree.name :: tree.restKinds ∧
    unit.CompilesRest tree code after
  | .parameters => ∃ parameters, kinds = Parameter.allKinds parameters ++ [.symbol ')'] ∧
    code = [] ∧ unit.Declares (parameters.map Parameter.declaration) after
  | .parameterType => ∃ first others,
    kinds = Parameter.allKinds (first :: others) ++ [.symbol ')'] ∧ code = [] ∧
    unit.Declares ((first :: others).map Parameter.declaration) after
  | .parameterName type => ∃ name others,
    kinds = .identifier name :: Parameter.moreKinds others ++ [.symbol ')'] ∧ code = [] ∧
    unit.Declares (⟨name, type, .argument⟩ :: others.map Parameter.declaration) after
  | .parameterEnd => ∃ others, kinds = Parameter.moreKinds others ++ [.symbol ')'] ∧ code = [] ∧
    unit.Declares (others.map Parameter.declaration) after
  | .localVariables => ∃ (locals : List VariableList) (body : Statements) (inner : ClassUnit),
    kinds = localKinds locals ++ (body.kinds ++ [.symbol '}']) ∧
    unit.Declares (locals.flatMap (·.declarations .localVar)) inner ∧
    body.Lawful inner.context ∧
    code = inner.opening ++ body.code inner.context inner.labels ∧
    after = inner.addLabels body.labels
  | .statements => ∃ statements : Statements, kinds = statements.kinds ∧
    statements.Lawful unit.context ∧ code = statements.code unit.context unit.labels ∧
    after = unit.addLabels statements.labels
  | .letTarget => ∃ statement : Statement, .keyword .«let» :: kinds = statement.kinds ∧
    statement.Lawful unit.context ∧ code = statement.code unit.context unit.labels ∧ after = unit
  | .letPlace target _ =>
    (∃ value : Expression, kinds = .symbol '=' :: value.kinds ++ [.symbol ';'] ∧
      value.Lawful unit.context ∧ code = value.code unit.context ++ [target.pop] ∧ after = unit) ∨
    ∃ index value : Expression, target.type = "Array" ∧
      kinds = .symbol '[' :: index.kinds ++
        .symbol ']' :: .symbol '=' :: value.kinds ++ [.symbol ';'] ∧
      index.Lawful unit.context ∧ value.Lawful unit.context ∧
      code = target.push :: index.code unit.context ++
        .operate .add :: value.code unit.context ++ storeElement ∧ after = unit
  | .elseBranch label =>
    (kinds = [] ∧ code = [.label label] ∧ after = unit) ∨
    ∃ otherwise : Statements,
      kinds = .keyword .«else» :: .symbol '{' :: otherwise.kinds ++ [.symbol '}'] ∧
      otherwise.Lawful unit.context ∧
      code = .goto (unit.context.label unit.labels) :: .label label ::
        otherwise.code unit.context (unit.labels + 1) ++
        [.label (unit.context.label unit.labels)] ∧
      after = unit.addLabels (otherwise.labels + 1)
  | .returnValue => ∃ statement : Statement, .keyword .«return» :: kinds = statement.kinds ∧
    statement.Lawful unit.context ∧ code = statement.code unit.context unit.labels ∧ after = unit
  | .callee => ∃ call : Call, kinds = call.kinds ∧ call.Lawful unit.context ∧
    code = call.code unit.context ∧ after = unit
  | .callRest name _ => ∃ call : Call, .identifier name :: kinds = call.kinds ∧
    call.Lawful unit.context ∧ code = call.code unit.context ∧ after = unit
  | .calleeMember name _ => ∃ call : Call,
    .identifier name :: .symbol '.' :: kinds = call.kinds ∧ call.Lawful unit.context ∧
    code = call.code unit.context ∧ after = unit
  | .arguments target passed => ∃ arguments : Arguments,
    kinds = arguments.kinds ++ [.symbol ')'] ∧ arguments.Lawful unit.context ∧
    code = arguments.code unit.context ++ [.call target (arguments.count + passed)] ∧ after = unit
  | .argumentEnd target passed => ∃ arguments : Arguments,
    kinds = arguments.moreKinds ++ [.symbol ')'] ∧ arguments.Lawful unit.context ∧
    code = arguments.code unit.context ++ [.call target (arguments.count + passed)] ∧ after = unit
  | .term => ∃ term : Term, kinds = term.kinds ∧ term.Lawful unit.context ∧
    code = term.code unit.context ∧ after = unit
  | .nameRest name _ => ∃ term : Term, .identifier name :: kinds = term.kinds ∧
    term.Lawful unit.context ∧ code = term.code unit.context ∧ after = unit
  | .operators => ∃ operations : Operations, kinds = operations.kinds ∧
    operations.Lawful unit.context ∧ code = operations.code unit.context ∧ after = unit

/-- The tokens are those of all parts, one behind the other. -/
inductive ReadsAll :
    List Pending → ClassUnit → List TokenKind → List Command → ClassUnit → Prop where
  | nil (unit : ClassUnit) : ReadsAll [] unit [] [] unit
  | cons {part : Pending} {rest : List Pending} {unit next after : ClassUnit}
      {kinds more : List TokenKind} {code further : List Command}
      (first : part.Reads unit kinds code next) (others : ReadsAll rest next more further after) :
      ReadsAll (part :: rest) unit (kinds ++ more) (code ++ further) after

section

variable {unit after : ClassUnit} {kinds : List TokenKind} {code : List Command}
  {rest : List Pending}

/-- Nothing is read where nothing is pending. -/
theorem ReadsAll.of_nil (reads : ReadsAll [] unit kinds code after) :
    kinds = [] ∧ code = [] ∧ after = unit := by
  cases reads
  exact ⟨rfl, rfl, rfl⟩

/-- What is read for two lists of parts is read for the first one and then for the second one. -/
theorem ReadsAll.of_append {first : List Pending}
    (reads : ReadsAll (first ++ rest) unit kinds code after) :
    ∃ next before behind early late, kinds = before ++ behind ∧ code = early ++ late ∧
      ReadsAll first unit before early next ∧ ReadsAll rest next behind late after := by
  -- Parts are peeled off the first list until the second one is all that is pending.
  induction first generalizing unit kinds code with
  | nil => exact ⟨unit, [], kinds, [], code, rfl, rfl, .nil unit, reads⟩
  | cons part first ih =>
    cases reads with
    | cons read others =>
      obtain ⟨next, before, behind, early, late, rfl, rfl, reads, others⟩ := ih others
      exact ⟨next, _, behind, _, late, by simp, by simp, .cons read reads, others⟩

/-- A single part is read by itself. -/
theorem ReadsAll.of_single {part : Pending} (reads : ReadsAll [part] unit kinds code after) :
    part.Reads unit kinds code after := by
  -- Behind a single part nothing is pending, so nothing more is read.
  cases reads with
  | cons first others =>
    obtain ⟨rfl, rfl, rfl⟩ := others.of_nil
    simpa using first

/-- A mark is read as it stands. -/
theorem ReadsAll.of_symbol {c : Char} (reads : ReadsAll (.symbol c :: rest) unit kinds code after) :
    ∃ more, kinds = .symbol c :: more ∧ ReadsAll rest unit more code after := by
  cases reads with
  | cons first others =>
    obtain ⟨rfl, rfl, rfl⟩ := first
    exact ⟨_, rfl, others⟩

/-- Code that is due takes no tokens. -/
theorem ReadsAll.of_emit {due : List Command}
    (reads : ReadsAll (.emit due :: rest) unit kinds code after) :
    ∃ more, code = due ++ more ∧ ReadsAll rest unit kinds more after := by
  cases reads with
  | cons first others =>
    obtain ⟨rfl, rfl, rfl⟩ := first
    exact ⟨_, rfl, others⟩

/-- A term and the operators behind it are an expression. -/
theorem ReadsAll.of_expression (reads : ReadsAll (expression ++ rest) unit kinds code after) :
    ∃ (value : Expression) (more : List TokenKind) (further : List Command),
      kinds = value.kinds ++ more ∧ code = value.code unit.context ++ further ∧
      value.Lawful unit.context ∧ ReadsAll rest unit more further after := by
  -- An expression is pending as a term with operators behind it.
  cases reads with
  | cons first others =>
    obtain ⟨term, rfl, lawful, rfl, rfl⟩ := first
    cases others with
    | cons second others =>
      obtain ⟨operations, rfl, lawful', rfl, rfl⟩ := second
      exact ⟨⟨term, operations⟩, _, _, by simp [Expression.kinds], by simp [Expression.code],
        ⟨lawful, lawful'⟩, others⟩

/-- A condition is an expression in parentheses, with the jump behind it. -/
theorem ReadsAll.of_condition {label : String}
    (reads : ReadsAll (condition label ++ rest) unit kinds code after) :
    ∃ (value : Expression) (more : List TokenKind) (further : List Command),
      kinds = .symbol '(' :: value.kinds ++ .symbol ')' :: more ∧
      code = value.code unit.context ++ .operate .not :: .ifGoto label :: further ∧
      value.Lawful unit.context ∧ ReadsAll rest unit more further after := by
  -- The parentheses are peeled off around the expression, and the jump is due behind them.
  obtain ⟨inner, rfl, inside⟩ := ReadsAll.of_symbol reads
  obtain ⟨value, _, _, rfl, rfl, lawful, closing⟩ := ReadsAll.of_expression inside
  obtain ⟨more, rfl, jump⟩ := ReadsAll.of_symbol closing
  obtain ⟨further, rfl, others⟩ := ReadsAll.of_emit jump
  exact ⟨value, more, further, by simp, by simp, lawful, others⟩

/-- A block is a list of statements in braces. -/
theorem ReadsAll.of_block (reads : ReadsAll (block ++ rest) unit kinds code after) :
    ∃ (body : Statements) (more : List TokenKind) (further : List Command),
      kinds = .symbol '{' :: body.kinds ++ .symbol '}' :: more ∧
      code = body.code unit.context unit.labels ++ further ∧
      body.Lawful unit.context ∧
      ReadsAll rest (unit.addLabels body.labels) more further after := by
  -- The braces are peeled off around the statements, which take the labels that they set.
  obtain ⟨inner, rfl, inside⟩ := ReadsAll.of_symbol reads
  cases inside with
  | cons first closing =>
    obtain ⟨body, rfl, lawful, rfl, rfl⟩ := first
    obtain ⟨more, rfl, others⟩ := ReadsAll.of_symbol closing
    exact ⟨body, more, _, by simp, rfl, lawful, others⟩

/-- An assignment is an expression between its two marks, with the code that stores the value. -/
theorem ReadsAll.of_assignment {store : List Command}
    (reads : ReadsAll (assignment store) unit kinds code after) :
    ∃ value : Expression, kinds = .symbol '=' :: value.kinds ++ [.symbol ';'] ∧
      code = value.code unit.context ++ store ∧ value.Lawful unit.context ∧ after = unit := by
  -- The code that stores the value is due behind the semicolon, the last part of the statement.
  obtain ⟨inner, rfl, inside⟩ := ReadsAll.of_symbol reads
  obtain ⟨value, _, _, rfl, rfl, lawful, closing⟩ := ReadsAll.of_expression inside
  obtain ⟨_, rfl, due⟩ := ReadsAll.of_symbol closing
  obtain ⟨_, rfl, others⟩ := ReadsAll.of_emit due
  obtain ⟨rfl, rfl, rfl⟩ := others.of_nil
  exact ⟨value, by simp, by simp, lawful, rfl⟩

end

end Pending

end JackCompiler
