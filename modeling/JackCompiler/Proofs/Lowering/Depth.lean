import JackCompiler.Proofs.Lowering.Labels
import JackCompiler.Proofs.Lowering.Occurrence

/-! The depth of the stack along the code of a class. -/

namespace JackCompiler

namespace Command

/-- The number of operands that a command takes off the stack. -/
def pops : Command → Nat
  | .pop .. | .operate .neg | .operate .not | .ifGoto _ => 1
  | .operate _ => 2
  | .call _ count => count
  -- A return gives the whole stack of its subroutine up.
  | .push .. | .label _ | .goto _ | .function .. | .ret => 0

/-- The number of results that a command leaves on the stack. -/
def pushes : Command → Nat
  | .push .. | .operate _ | .call .. => 1
  | .pop .. | .label _ | .goto _ | .ifGoto _ | .function .. | .ret => 0

/-- The depth of the stack at the command behind this one. -/
def depthAfter (depth : Nat) : Command → Nat
  -- The stack is empty again wherever control does not come from the command in front.
  | .goto _ | .function .. | .ret => 0
  | command => depth - command.pops + command.pushes

end Command

/-- The depth of the stack behind some code that starts at the given depth. -/
def depthAfter (depth : Nat) (code : List Command) : Nat :=
  code.foldl Command.depthAfter depth

/-- Depths are followed through code in two parts. -/
@[simp] theorem depthAfter_append (depth : Nat) (code more : List Command) :
    depthAfter depth (code ++ more) = depthAfter (depthAfter depth code) more :=
  List.foldl_append

/-- Depths are followed command by command. -/
@[simp] theorem depthAfter_cons (depth : Nat) (command : Command) (code : List Command) :
    depthAfter depth (command :: code) = depthAfter (command.depthAfter depth) code := rfl

/-- No code leaves the depth as it is. -/
@[simp] theorem depthAfter_nil (depth : Nat) : depthAfter depth [] = depth := rfl

/-- The code computes from one depth to another, and each of its commands finds its operands. -/
inductive Climbs : Nat → List Command → Nat → Prop where
  | nil (depth : Nat) : Climbs depth [] depth
  | cons {command : Command} {code : List Command} {depth depth' : Nat}
      (straight : command.Straight) (operands : command.pops ≤ depth)
      (rest : Climbs (depth - command.pops + command.pushes) code depth') :
      Climbs depth (command :: code) depth'

namespace Climbs

variable {code more : List Command} {depth depth' depth'' : Nat}

/-- A single command that finds its operands computes. -/
theorem single {command : Command} (straight : command.Straight)
    (operands : command.pops ≤ depth) (same : depth - command.pops + command.pushes = depth') :
    Climbs depth [command] depth' := by
  rw [← same]
  exact .cons straight operands (.nil _)

/-- Code computes piece by piece. -/
theorem append (first : Climbs depth code depth') (rest : Climbs depth' more depth'') :
    Climbs depth (code ++ more) depth'' := by
  -- The second piece starts at the depth that the first one ends at.
  induction first with
  | nil depth => exact rest
  | cons straight operands _ ih => exact .cons straight operands (ih rest)

/-- A value is pushed. -/
theorem push (segment : Segment) (index : Nat) (depth : Nat) :
    Climbs depth [.push segment index] (depth + 1) :=
  .single trivial (Nat.zero_le _) rfl

/-- A value is taken off. -/
theorem pop (segment : Segment) (index : Nat) (depth : Nat) :
    Climbs (depth + 1) [.pop segment index] depth :=
  .single trivial (Nat.le_add_left ..) rfl

/-- As many values as a call takes are replaced by its result. -/
theorem call (name : String) (count depth : Nat) :
    Climbs (depth + count) [.call name count] (depth + 1) :=
  .single trivial (Nat.le_add_left ..) (congrArg (· + 1) (Nat.add_sub_cancel ..))

/-- The depth behind code that computes. -/
theorem depthAfter_eq (climbs : Climbs depth code depth') : depthAfter depth code = depth' := by
  -- Each command on the way changes the depth by what it takes and leaves.
  induction climbs with
  | nil depth => rfl
  | @cons command _ _ _ straight _ _ ih =>
    rw [depthAfter_cons, ← ih]
    -- Jumps, headers and returns do not compute.
    cases command <;> first | rfl | cases straight

end Climbs

/-- A constant is pushed. -/
theorem WordConstant.climbs (constant : WordConstant) (depth : Nat) :
    Climbs depth constant.code (depth + 1) := by
  -- Truth is pushed as one and negated in its place.
  cases constant with
  | true => exact (Climbs.push _ _ _).append (.single trivial (Nat.le_add_left ..) rfl)
  | false | null | this => exact .push _ _ _

/-- A unary operator replaces its operand. -/
theorem UnaryOperator.climbs (operator : UnaryOperator) (depth : Nat) :
    Climbs (depth + 1) [operator.code] (depth + 1) := by
  -- The operand is taken and its image left.
  cases operator <;> exact .single trivial (Nat.le_add_left ..) rfl

/-- A binary operator replaces its operands. -/
theorem BinaryOperator.climbs (operator : BinaryOperator) (depth : Nat) :
    Climbs (depth + 2) [operator.code] (depth + 1) := by
  -- Two operands are taken and one result is left, by an operation or a call.
  cases operator <;> exact .single trivial (Nat.le_add_left ..) rfl

/-- Appending characters leaves the string where it is. -/
theorem climbs_appendCode (chars : List Char) (depth : Nat) :
    Climbs (depth + 1) (appendCode chars) (depth + 1) := by
  -- Each character is pushed above the string, and the call takes both.
  induction chars with
  | nil => exact .nil _
  | cons c rest ih => exact (Climbs.push _ _ _).append ((Climbs.call _ 2 depth).append ih)

section

variable {context : Context}

/-- A declared variable is pushed. -/
theorem Context.climbs_load {name : String} (declared : context.Declares name) (depth : Nat) :
    Climbs depth (context.load name) (depth + 1) := by
  -- A declared variable is pushed by a single command.
  obtain ⟨symbol, found⟩ := declared
  rw [load, found]
  exact .push _ _ _

/-- A declared variable takes its new value. -/
theorem Context.climbs_store {name : String} (declared : context.Declares name) (depth : Nat) :
    Climbs (depth + 1) (context.store name) depth := by
  -- A declared variable is popped by a single command.
  obtain ⟨symbol, found⟩ := declared
  rw [store, found]
  exact .pop _ _ _

mutual

/-- A term leaves one value on the stack. -/
theorem Term.climbs (term : Term) (lawful : term.Lawful context) (depth : Nat) :
    Climbs depth (term.code context) (depth + 1) := by
  -- Every form of a term ends one value above where it starts, and never dips below.
  cases term with
  | integer value => exact .push _ _ _
  | string body =>
    exact (Climbs.push _ _ _).append ((Climbs.call _ 1 depth).append (climbs_appendCode _ _))
  | word constant => exact constant.climbs depth
  | group inner => exact Expression.climbs inner lawful depth
  | unary operator operand =>
    exact (Term.climbs operand lawful depth).append (operator.climbs depth)
  | name name => exact Context.climbs_load lawful depth
  | element array index =>
    obtain ⟨⟨symbol, found, -⟩, lawful⟩ := lawful
    have operands := (Context.climbs_load ⟨symbol, found⟩ depth).append
      (Expression.climbs index lawful (depth + 1))
    have added : Climbs (depth + 2) [.operate .add] (depth + 1) := BinaryOperator.add.climbs depth
    exact operands.append (added.append ((Climbs.pop _ _ _).append (.push _ _ _)))
  | call call => exact Call.climbs call lawful depth
termination_by structural term

/-- An expression leaves one value on the stack. -/
theorem Expression.climbs (value : Expression) (lawful : value.Lawful context) (depth : Nat) :
    Climbs depth (value.code context) (depth + 1) := by
  -- The first term is the operand that the first operator finds.
  cases value with
  | mk first rest =>
    exact (Term.climbs first lawful.1 depth).append (Operations.climbs rest lawful.2 depth)
termination_by structural value

/-- Operators leave one value in the place of the first left operand. -/
theorem Operations.climbs (operations : Operations) (lawful : operations.Lawful context)
    (depth : Nat) : Climbs (depth + 1) (operations.code context) (depth + 1) := by
  -- The right operand stands above the left one until the operator takes both.
  cases operations with
  | nil => exact .nil _
  | cons operator operand rest =>
    exact (Term.climbs operand lawful.1 (depth + 1)).append
      ((operator.climbs depth).append (Operations.climbs rest lawful.2 depth))
termination_by structural operations

/-- A call leaves one value on the stack. -/
theorem Call.climbs (call : Call) (lawful : call.Lawful context) (depth : Nat) :
    Climbs depth (call.code context) (depth + 1) := by
  -- The call takes its arguments and, where there is one, the object beneath them.
  cases call with
  | own name arguments =>
    unfold Call.code
    split
    · have passed := (Climbs.push .pointer 0 depth).append
        (Arguments.climbs arguments lawful (depth + 1))
      rw [Nat.add_assoc, Nat.add_comm 1] at passed
      exact passed.append (.call _ _ _)
    · exact (Arguments.climbs arguments lawful depth).append (.call _ _ _)
  | member owner name arguments =>
    unfold Call.code
    split
    · rename_i symbol _
      have passed := (Climbs.push symbol.segment symbol.index depth).append
        (Arguments.climbs arguments lawful.2 (depth + 1))
      rw [Nat.add_assoc, Nat.add_comm 1] at passed
      exact passed.append (.call _ _ _)
    · exact (Arguments.climbs arguments lawful.2 depth).append (.call _ _ _)
termination_by structural call

/-- Arguments leave one value each on the stack. -/
theorem Arguments.climbs (arguments : Arguments) (lawful : arguments.Lawful context)
    (depth : Nat) : Climbs depth (arguments.code context) (depth + arguments.count) := by
  -- Each argument stands above those before it.
  cases arguments with
  | nil => exact .nil _
  | cons first rest =>
    have further := Arguments.climbs rest lawful.2 (depth + 1)
    rw [Nat.add_assoc, Nat.add_comm 1] at further
    exact (Expression.climbs first lawful.1 depth).append further
termination_by structural arguments

end

/-- The stack is deeper by one value behind an expression. -/
theorem Expression.depthAfter_code (value : Expression) (lawful : value.Lawful context)
    (depth : Nat) : depthAfter depth (value.code context) = depth + 1 :=
  (value.climbs lawful depth).depthAfter_eq

/-- An assignment to an element takes all of its values off the stack. -/
theorem Statement.climbs_assignElement {array : String} {index value : Expression} {next : Nat}
    (lawful : (Statement.assignElement array index value).Lawful context) :
    Climbs 0 ((Statement.assignElement array index value).code context next) 0 := by
  -- The address stays on the stack while the value is computed above it.
  obtain ⟨⟨symbol, found, -⟩, lawful, lawful'⟩ := lawful
  have indexed := (Context.climbs_load ⟨symbol, found⟩ 0).append (index.climbs lawful 1)
  have valued := (BinaryOperator.add.climbs 0).append (value.climbs lawful' 1)
  have stored := (Climbs.pop .temp 0 1).append ((Climbs.pop .pointer 1 0).append
    ((Climbs.push .temp 0 0).append (.pop .that 0 0)))
  exact (indexed.append valued).append stored

mutual

/-- A statement that starts with an empty stack leaves the stack empty. -/
theorem Statement.depthAfter_code (statement : Statement) (lawful : statement.Lawful context)
    (next : Nat) : depthAfter 0 (statement.code context next) = 0 := by
  -- Both ways through a conditional or a loop meet with an empty stack.
  cases statement with
  | assign target value =>
    exact ((value.climbs lawful.2 0).append (Context.climbs_store lawful.1 0)).depthAfter_eq
  | assignElement array index value =>
    exact (Statement.climbs_assignElement lawful).depthAfter_eq
  | ifThen condition body =>
    have inside := Statements.depthAfter_code body lawful.2 (next + 1)
    simp [Statement.code, condition.depthAfter_code lawful.1, inside, Command.depthAfter,
      Command.pops, Command.pushes]
  | ifThenElse condition body otherwise =>
    have inside := Statements.depthAfter_code body lawful.2.1 (next + 1)
    have other := Statements.depthAfter_code otherwise lawful.2.2 (next + 1 + body.labels + 1)
    simp [Statement.code, condition.depthAfter_code lawful.1, inside, other, Command.depthAfter,
      Command.pops, Command.pushes]
  | whileDo condition body =>
    have inside := Statements.depthAfter_code body lawful.2 (next + 2)
    simp [Statement.code, condition.depthAfter_code lawful.1, inside, Command.depthAfter,
      Command.pops, Command.pushes]
  | call call => exact ((call.climbs lawful 0).append (.pop .temp 0 0)).depthAfter_eq
  | returnNothing =>
    unfold Statement.code
    split <;> rfl
  | returnValue value => simp [Statement.code, Command.depthAfter]
termination_by structural statement

/-- Statements that start with an empty stack leave the stack empty. -/
theorem Statements.depthAfter_code (statements : Statements) (lawful : statements.Lawful context)
    (next : Nat) : depthAfter 0 (statements.code context next) = 0 := by
  -- The second statement starts where the first one has left the stack empty.
  cases statements with
  | nil => rfl
  | cons first rest =>
    rw [Statements.code, depthAfter_append, Statement.depthAfter_code first lawful.1,
      Statements.depthAfter_code rest lawful.2]
termination_by structural statements

end

end

/-- The stack is empty at statements inside of others. -/
theorem Statements.Contains.depthAfter_before {context : Context} {next number : Nat}
    {outer inner : Statements} {before behind : List Command}
    (contains : Contains context next outer before number inner behind)
    (lawful : outer.Lawful context) : depthAfter 0 before = 0 := by
  -- All that stands before the inner statements is a condition, a label or a whole statement.
  induction contains with
  | whole next statements => rfl
  | @later next _ first _ _ _ _ _ ih =>
    rw [depthAfter_append, first.depthAfter_code lawful.1, ih lawful.2]
  | @ifThen _ _ condition _ _ _ _ _ _ ih | @ifThenElse _ _ condition _ _ _ _ _ _ _ ih
  | @whileDo _ _ condition _ _ _ _ _ _ ih =>
    have inside := ih (by first | exact lawful.1.2 | exact lawful.1.2.1)
    simp [condition.depthAfter_code lawful.1.1, inside, Command.depthAfter, Command.pops,
      Command.pushes]
  | @otherwise next _ condition body _ _ _ _ _ _ ih =>
    have passed := body.depthAfter_code lawful.1.2.1 (next + 1)
    simp [condition.depthAfter_code lawful.1.1, passed, ih lawful.1.2.2, Command.depthAfter,
      Command.pops, Command.pushes]

namespace ClassTree

/-- Setting the base of the current object leaves the stack empty. -/
theorem climbs_prologue (tree : ClassTree) (subroutine : SubroutineTree) :
    Climbs 0 (tree.prologue subroutine) 0 := by
  -- The base of the object is pushed and popped again.
  unfold prologue
  cases subroutine.kind with
  | constructor =>
    exact (Climbs.push _ _ 0).append ((Climbs.call _ 1 0).append (.pop .pointer 0 0))
  | function => exact .nil 0
  | method => exact (Climbs.push _ _ 0).append (.pop .pointer 0 0)

/-- The stack is empty once a subroutine is opened. -/
theorem depthAfter_opening (tree : ClassTree) (subroutine : SubroutineTree) (depth : Nat) :
    depthAfter depth (tree.opening subroutine) = 0 := by
  -- The header starts a new stack, whatever the depth before it.
  rw [opening, depthAfter_cons]
  exact (tree.climbs_prologue subroutine).depthAfter_eq

/-- The stack is empty at all statements of a class. -/
theorem Contains.depthAfter_before {tree : ClassTree} {subroutine : SubroutineTree}
    {before behind : List Command} {number : Nat} {inner : Statements}
    (contains : tree.Contains subroutine before number inner behind) (lawful : tree.Lawful) :
    depthAfter 0 before = 0 := by
  -- The stack is empty at the body of the subroutine, and from there on at its statements.
  obtain ⟨earlier, later, first, last, same, inside, rfl, -⟩ := contains
  have member : subroutine ∈ tree.subroutines := by simp [same]
  rw [depthAfter_append, depthAfter_append, depthAfter_opening]
  exact inside.depthAfter_before (lawful.bodies subroutine member)

end ClassTree

end JackCompiler
