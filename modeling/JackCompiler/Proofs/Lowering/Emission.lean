import JackCompiler.Proofs.Lowering.Class

/-! Which commands the code of a subroutine's body is made of, and where their parts come from. -/

namespace JackCompiler

/-- The subroutines of the library that are called where the source has no call. -/
def libraryCalls : List String :=
  ["Math.multiply", "Math.divide", "String.new", "String.appendChar"]

/-- A command that the given tokens may give rise to. -/
inductive Context.Emits (context : Context) (kinds : List TokenKind) : Command → Prop where
  | load {name : String} {symbol : Symbol} (named : .identifier name ∈ kinds)
      (found : context.symbol? name = some symbol) : Emits context kinds symbol.push
  | store {name : String} {symbol : Symbol} (named : .identifier name ∈ kinds)
      (found : context.symbol? name = some symbol) : Emits context kinds symbol.pop
  | integer {value : Nat} (written : .integer value ∈ kinds) :
      Emits context kinds (.push .constant value)
  | stringLength {body : String} (written : .string body ∈ kinds) :
      Emits context kinds (.push .constant body.length)
  | character {body : String} {c : Char} (written : .string body ∈ kinds)
      (inside : c ∈ body.toList) : Emits context kinds (.push .constant c.toNat)
  /-- Truth is made from one, and the other constants are zero. -/
  | wordConstant {value : Nat} (small : value ≤ 1) : Emits context kinds (.push .constant value)
  | object : Emits context kinds (.push .pointer 0)
  | address : Emits context kinds (.pop .pointer 1)
  | loadElement : Emits context kinds (.push .that 0)
  | storeElement : Emits context kinds (.pop .that 0)
  | stash : Emits context kinds (.pop .temp 0)
  | restore : Emits context kinds (.push .temp 0)
  | operate (operation : Operation) : Emits context kinds (.operate operation)
  | library {name : String} {arguments : Nat} (known : name ∈ libraryCalls) :
      Emits context kinds (.call name arguments)
  | own {name : String} {arguments : Nat} (named : .identifier name ∈ kinds) :
      Emits context kinds (.call (context.member name) arguments)
  /-- A call to a subroutine of the class that a name stands for. -/
  | classMember {owner name : String} {arguments : Nat} (owned : .identifier owner ∈ kinds)
      (named : .identifier name ∈ kinds) : Emits context kinds (.call s!"{owner}.{name}" arguments)
  /-- A call on the object that a variable holds. -/
  | objectMember {owner name : String} {symbol : Symbol} {arguments : Nat}
      (found : context.symbol? owner = some symbol) (named : .identifier name ∈ kinds) :
      Emits context kinds (.call s!"{symbol.type}.{name}" arguments)
  | label (number : Nat) : Emits context kinds (.label (context.label number))
  | goto (number : Nat) : Emits context kinds (.goto (context.label number))
  | ifGoto (number : Nat) : Emits context kinds (.ifGoto (context.label number))
  | ret : Emits context kinds .ret

/-- All commands of the code are such as the tokens may give rise to. -/
def Context.EmitsAll (context : Context) (kinds : List TokenKind) (code : List Command) : Prop :=
  ∀ command ∈ code, context.Emits kinds command

namespace Context

variable {context : Context} {kinds : List TokenKind} {code more : List Command}

/-- No code needs no tokens. -/
theorem EmitsAll.nil : context.EmitsAll kinds [] := nofun

/-- Code goes on with a further command. -/
theorem EmitsAll.cons {command : Command} (first : context.Emits kinds command)
    (rest : context.EmitsAll kinds code) : context.EmitsAll kinds (command :: code) :=
  List.forall_mem_cons.mpr ⟨first, rest⟩

/-- A single command is code. -/
theorem EmitsAll.single {command : Command} (emits : context.Emits kinds command) :
    context.EmitsAll kinds [command] :=
  .cons emits .nil

/-- Code goes on with further code. -/
theorem EmitsAll.append (first : context.EmitsAll kinds code)
    (rest : context.EmitsAll kinds more) : context.EmitsAll kinds (code ++ more) :=
  List.forall_mem_append.mpr ⟨first, rest⟩

/-- A variable is loaded under its name. -/
theorem emitsAll_load {name : String} (named : .identifier name ∈ kinds) :
    context.EmitsAll kinds (context.load name) := by
  -- A name that stands for nothing has no code at all.
  unfold load
  cases found : context.symbol? name with
  | none => exact .nil
  | some symbol => exact .single (.load named found)

/-- A variable is stored under its name. -/
theorem emitsAll_store {name : String} (named : .identifier name ∈ kinds) :
    context.EmitsAll kinds (context.store name) := by
  -- A name that stands for nothing has no code at all.
  unfold store
  cases found : context.symbol? name with
  | none => exact .nil
  | some symbol => exact .single (.store named found)

/-- Characters of a string are appended one by one. -/
theorem emitsAll_appendCode {body : String} (written : .string body ∈ kinds) {chars : List Char}
    (inside : chars ⊆ body.toList) : context.EmitsAll kinds (appendCode chars) := by
  induction chars with
  | nil => exact .nil
  | cons c rest ih =>
    obtain ⟨first, others⟩ := List.cons_subset.mp inside
    exact .cons (.character written first) (.cons (.library (by decide)) (ih others))

end Context

section

variable (context : Context) {kinds : List TokenKind}

/-- A constant is made from one or from zero. -/
theorem WordConstant.emitsAll (constant : WordConstant) :
    context.EmitsAll kinds constant.code := by
  cases constant with
  | true => exact .cons (.wordConstant (by decide)) (.single (.operate .neg))
  | false | null => exact .single (.wordConstant (by decide))
  | this => exact .single .object

/-- A unary operator is an operation. -/
theorem UnaryOperator.emits (operator : UnaryOperator) : context.Emits kinds operator.code := by
  cases operator <;> exact .operate _

/-- A binary operator is an operation or a call to the library. -/
theorem BinaryOperator.emits (operator : BinaryOperator) : context.Emits kinds operator.code := by
  cases operator <;> first | exact .operate _ | exact .library (by decide)

mutual

/-- The code of a term comes from its tokens. -/
theorem Term.emitsAll (term : Term) (within : term.kinds ⊆ kinds) :
    context.EmitsAll kinds (term.code context) := by
  -- The tokens of each part are among those of the term.
  cases term with
  | integer value => exact .single (.integer (by simpa [Term.kinds] using within))
  | string body =>
    have written : .string body ∈ kinds := by simpa [Term.kinds] using within
    exact .cons (.stringLength written) (.cons (.library (by decide))
      (Context.emitsAll_appendCode written (List.Subset.refl _)))
  | word constant => exact constant.emitsAll context
  | group inner =>
    simp only [Term.kinds, List.cons_subset, List.append_subset] at within
    exact Expression.emitsAll inner within.1.2
  | unary operator operand =>
    simp only [Term.kinds, List.cons_subset] at within
    exact (Term.emitsAll operand within.2).append (.single (operator.emits context))
  | name name => exact Context.emitsAll_load (by simpa [Term.kinds] using within)
  | element array index =>
    simp only [Term.kinds, List.cons_subset, List.append_subset] at within
    obtain ⟨⟨named, -, inside⟩, -⟩ := within
    exact ((Context.emitsAll_load named).append (Expression.emitsAll index inside)).append
      (.cons (.operate .add) (.cons .address (.single .loadElement)))
  | call call => exact Call.emitsAll call within
termination_by structural term

/-- The code of an expression comes from its tokens. -/
theorem Expression.emitsAll (value : Expression) (within : value.kinds ⊆ kinds) :
    context.EmitsAll kinds (value.code context) := by
  cases value with
  | mk first rest =>
    obtain ⟨early, late⟩ := List.append_subset.mp within
    exact (Term.emitsAll first early).append (Operations.emitsAll rest late)
termination_by structural value

/-- The code of operators comes from the tokens of their operands. -/
theorem Operations.emitsAll (operations : Operations) (within : operations.kinds ⊆ kinds) :
    context.EmitsAll kinds (operations.code context) := by
  cases operations with
  | nil => exact .nil
  | cons operator operand rest =>
    simp only [Operations.kinds, List.cons_subset, List.append_subset] at within
    exact (Term.emitsAll operand within.1.2).append
      (.cons (operator.emits context) (Operations.emitsAll rest within.2))
termination_by structural operations

/-- The code of a call comes from its tokens. -/
theorem Call.emitsAll (call : Call) (within : call.kinds ⊆ kinds) :
    context.EmitsAll kinds (call.code context) := by
  -- The call is named after the class, after the type of a variable or after what is written.
  cases call with
  | own name arguments =>
    simp only [Call.kinds, List.cons_subset, List.append_subset] at within
    obtain ⟨⟨named, -, inside⟩, -⟩ := within
    have passed := Arguments.emitsAll arguments inside
    unfold Call.code
    split
    · exact .append (.cons .object passed) (.single (.own named))
    · exact passed.append (.single (.own named))
  | member owner name arguments =>
    simp only [Call.kinds, List.cons_subset, List.append_subset] at within
    obtain ⟨⟨owned, -, named, -, inside⟩, -⟩ := within
    have passed := Arguments.emitsAll arguments inside
    unfold Call.code
    split
    · rename_i symbol found
      exact .append (.cons (.load owned found) passed) (.single (.objectMember found named))
    · exact passed.append (.single (.classMember owned named))
termination_by structural call

/-- The code of arguments comes from their tokens. -/
theorem Arguments.emitsAll (arguments : Arguments) (within : arguments.kinds ⊆ kinds) :
    context.EmitsAll kinds (arguments.code context) := by
  cases arguments with
  | nil => exact .nil
  | cons first rest =>
    obtain ⟨early, late⟩ := List.append_subset.mp within
    exact (Expression.emitsAll first early).append (Arguments.emitsAll_more rest late)
termination_by structural arguments

/-- The code of further arguments comes from their tokens. -/
theorem Arguments.emitsAll_more (arguments : Arguments) (within : arguments.moreKinds ⊆ kinds) :
    context.EmitsAll kinds (arguments.code context) := by
  cases arguments with
  | nil => exact .nil
  | cons first rest =>
    simp only [Arguments.moreKinds, List.cons_subset, List.append_subset] at within
    exact (Expression.emitsAll first within.1.2).append (Arguments.emitsAll_more rest within.2)
termination_by structural arguments

end

mutual

/-- The code of a statement comes from its tokens. -/
theorem Statement.emitsAll (statement : Statement) (next : Nat)
    (within : statement.kinds ⊆ kinds) :
    context.EmitsAll kinds (statement.code context next) := by
  -- Besides the code of its parts, a statement has stores, jumps, labels and returns.
  cases statement with
  | assign target value =>
    simp only [Statement.kinds, List.cons_subset, List.append_subset] at within
    obtain ⟨⟨-, named, -, inside⟩, -⟩ := within
    exact (value.emitsAll context inside).append (Context.emitsAll_store named)
  | assignElement array index value =>
    simp only [Statement.kinds, List.cons_subset, List.append_subset] at within
    obtain ⟨⟨⟨-, named, -, early⟩, -, -, late⟩, -⟩ := within
    have address := (Context.emitsAll_load named).append (index.emitsAll context early)
    exact (address.append (.cons (.operate .add) (value.emitsAll context late))).append
      (.cons .stash (.cons .address (.cons .restore (.single .storeElement))))
  | ifThen condition body =>
    simp only [Statement.kinds, List.cons_subset, List.append_subset] at within
    obtain ⟨⟨⟨-, -, test⟩, -, -, inside⟩, -⟩ := within
    have inner := Statements.emitsAll body (next + 1) inside
    have jump := Context.EmitsAll.cons (.ifGoto next) inner
    exact ((condition.emitsAll context test).append (.cons (.operate .not) jump)).append
      (.single (.label next))
  | ifThenElse condition body otherwise =>
    simp only [Statement.kinds, List.cons_subset, List.append_subset] at within
    obtain ⟨⟨⟨⟨-, -, test⟩, -, -, inside⟩, -, -, -, other⟩, -⟩ := within
    have inner := Statements.emitsAll body (next + 1) inside
    have jump := Context.EmitsAll.cons (.ifGoto next) inner
    have outer := Statements.emitsAll otherwise (next + 1 + body.labels + 1) other
    have skip := Context.EmitsAll.cons (.label next) outer
    exact (((condition.emitsAll context test).append (.cons (.operate .not) jump)).append
      (.cons (.goto _) skip)).append (.single (.label _))
  | whileDo condition body =>
    simp only [Statement.kinds, List.cons_subset, List.append_subset] at within
    obtain ⟨⟨⟨-, -, test⟩, -, -, inside⟩, -⟩ := within
    have inner := Statements.emitsAll body (next + 2) inside
    have jump := Context.EmitsAll.cons (.ifGoto (next + 1)) inner
    have top := Context.EmitsAll.cons (.label next) (condition.emitsAll context test)
    exact (top.append (.cons (.operate .not) jump)).append
      (.cons (.goto next) (.single (.label (next + 1))))
  | call call =>
    simp only [Statement.kinds, List.cons_subset, List.append_subset] at within
    exact (call.emitsAll context within.1.2).append (.single .stash)
  | returnNothing =>
    unfold Statement.code
    split
    · exact .cons (.wordConstant (by decide)) (.single .ret)
    · exact .single .ret
  | returnValue value =>
    simp only [Statement.kinds, List.cons_subset, List.append_subset] at within
    exact (value.emitsAll context within.1.2).append (.single .ret)
termination_by structural statement

/-- The code of statements comes from their tokens. -/
theorem Statements.emitsAll (statements : Statements) (next : Nat)
    (within : statements.kinds ⊆ kinds) :
    context.EmitsAll kinds (statements.code context next) := by
  cases statements with
  | nil => exact .nil
  | cons first rest =>
    obtain ⟨early, late⟩ := List.append_subset.mp within
    exact (Statement.emitsAll first next early).append (Statements.emitsAll rest _ late)
termination_by structural statements

end

end

end JackCompiler
