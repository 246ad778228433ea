import JackCompiler.Compilation.ClassUnit
import JackCompiler.Proofs.Tree.Expression

/-! The code of expressions, and the rules that their names have to keep. -/

namespace JackCompiler

/-- What the code of an expression or of a statement depends on besides its tree. -/
structure Context where
  className : String
  subroutine : Subroutine
  /-- What each name stands for. -/
  symbol? : String → Option Symbol

namespace Context

/-- The name of something that belongs to the class. -/
def member (context : Context) (name : String) : String := s!"{context.className}.{name}"

/-- The label with the given number. -/
def label (context : Context) (number : Nat) : String := context.member s!"label{number}"

/-- The text of a label. -/
theorem label_eq (context : Context) (number : Nat) :
    context.label number = s!"{context.className}.label{number}" := by
  -- The word stands between the dot and the number.
  refine String.toList_inj.mp ?_
  simp [label, member, toString]

/-- The commands that put the value of a variable on the stack. -/
def load (context : Context) (name : String) : List Command :=
  ((context.symbol? name).map Symbol.push).toList

/-- The commands that take the new value of a variable off the stack. -/
def store (context : Context) (name : String) : List Command :=
  ((context.symbol? name).map Symbol.pop).toList

/-- The name stands for a variable. -/
def Declares (context : Context) (name : String) : Prop :=
  ∃ symbol, context.symbol? name = some symbol

/-- The name stands for a variable whose elements can be addressed. -/
def DeclaresArray (context : Context) (name : String) : Prop :=
  ∃ symbol, context.symbol? name = some symbol ∧ symbol.type = "Array"

/-- The name stands for no variable of a primitive type, so that a dot may follow it. -/
def MayOwnCall (context : Context) (name : String) : Prop :=
  ∀ symbol, context.symbol? name = some symbol → symbol.type ∉ ["int", "char", "boolean"]

end Context

/-- The commands that append characters to the string on the top of the stack. -/
def appendCode : List Char → List Command
  | [] => []
  | c :: rest => .push .constant c.toNat :: .call "String.appendChar" 2 :: appendCode rest

/-- The commands that build a string from nothing. -/
def literalCode (body : String) : List Command :=
  .push .constant body.length :: .call "String.new" 1 :: appendCode body.toList

/-- The commands of a constant that is written as a keyword. -/
def WordConstant.code : WordConstant → List Command
  -- Truth is the word with every bit set.
  | .true => [.push .constant 1, .operate .neg]
  | .false | .null => [.push .constant 0]
  | .this => [.push .pointer 0]

/-- The command of a unary operator. -/
def UnaryOperator.code : UnaryOperator → Command
  | .negate => .operate .neg
  | .invert => .operate .not

/-- The command of a binary operator; products and quotients are left to the library. -/
def BinaryOperator.code : BinaryOperator → Command
  | .add => .operate .add
  | .subtract => .operate .sub
  | .multiply => .call "Math.multiply" 2
  | .divide => .call "Math.divide" 2
  | .and => .operate .and
  | .or => .operate .or
  | .less => .operate .lt
  | .greater => .operate .gt
  | .equal => .operate .eq

mutual

/-- The code of a term leaves the term's value on the stack. -/
def Term.code (context : Context) : Term → List Command
  | .integer value => [.push .constant value]
  | .string body => literalCode body
  | .word constant => constant.code
  | .group inner => inner.code context
  | .unary operator operand => operand.code context ++ [operator.code]
  | .name name => context.load name
  | .element array index =>
    -- The array is read before its index is computed.
    context.load array ++ index.code context ++
      [.operate .add, .pop .pointer 1, .push .that 0]
  | .call call => call.code context

/-- The code of an expression applies the operators in the order in which they are written. -/
def Expression.code (context : Context) : Expression → List Command
  | .mk first rest => first.code context ++ rest.code context

/-- The code of operators, whose first left operand is on the stack. -/
def Operations.code (context : Context) : Operations → List Command
  | .nil => []
  | .cons operator operand rest => operand.code context ++ operator.code :: rest.code context

/-- The code of a call pushes the object it is made on, if there is one, and then the arguments. -/
def Call.code (context : Context) : Call → List Command
  | .own name arguments =>
    if context.subroutine.kind.hasObject then
      .push .pointer 0 :: arguments.code context ++
        [.call (context.member name) (arguments.count + 1)]
    else arguments.code context ++ [.call (context.member name) arguments.count]
  | .member owner name arguments =>
    match context.symbol? owner with
    | some symbol =>
      symbol.push :: arguments.code context ++
        [.call s!"{symbol.type}.{name}" (arguments.count + 1)]
    | none => arguments.code context ++ [.call s!"{owner}.{name}" arguments.count]

/-- The code of arguments leaves all of them on the stack, the last one on top. -/
def Arguments.code (context : Context) : Arguments → List Command
  | .nil => []
  | .cons first rest => first.code context ++ rest.code context

end

mutual

/-- A term uses names as they are declared. -/
def Term.Lawful (context : Context) : Term → Prop
  | .integer _ | .string _ | .word _ => True
  | .group inner => inner.Lawful context
  | .unary _ operand => operand.Lawful context
  | .name name => context.Declares name
  | .element array index => context.DeclaresArray array ∧ index.Lawful context
  | .call call => call.Lawful context

/-- An expression uses names as they are declared. -/
def Expression.Lawful (context : Context) : Expression → Prop
  | .mk first rest => first.Lawful context ∧ rest.Lawful context

/-- Operands use names as they are declared. -/
def Operations.Lawful (context : Context) : Operations → Prop
  | .nil => True
  | .cons _ operand rest => operand.Lawful context ∧ rest.Lawful context

/-- A call uses names as they are declared. -/
def Call.Lawful (context : Context) : Call → Prop
  | .own _ arguments => arguments.Lawful context
  | .member owner _ arguments => context.MayOwnCall owner ∧ arguments.Lawful context

/-- Arguments use names as they are declared. -/
def Arguments.Lawful (context : Context) : Arguments → Prop
  | .nil => True
  | .cons first rest => first.Lawful context ∧ rest.Lawful context

end

end JackCompiler
