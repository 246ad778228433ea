import JackCompiler.Proofs.Lowering.Expression
import JackCompiler.Proofs.Machine.Basic

/-! What expressions mean: their values, and the memory that their calls leave behind. -/

namespace JackCompiler

open Machine

/-- The value of a variable, which its kind and its index place. -/
def Symbol.value (symbol : Symbol) (frame : Frame) (memory : Memory) : Word :=
  match symbol.kind with
  | .static => memory.statics symbol.index
  | .field => memory.ram (frame.object + BitVec.ofNat 16 symbol.index)
  | .argument => frame.arguments symbol.index
  | .localVar => frame.locals symbol.index

/-- The value of a name; a name that stands for no variable has none, and may count as zero. -/
def Context.value (context : Context) (name : String) (frame : Frame) (memory : Memory) : Word :=
  ((context.symbol? name).map fun symbol => symbol.value frame memory).getD 0

/-- The value of a constant that is written as a keyword. -/
def WordConstant.value (frame : Frame) : WordConstant → Word
  | .true => .ofBool Bool.true
  | .false | .null => 0
  | .this => frame.object

/-- The value of a unary operator. -/
def UnaryOperator.apply (operand : Word) : UnaryOperator → Word
  | .negate => -operand
  | .invert => ~~~operand

/-- The value of a binary operator; products and quotients are left to the library. -/
def BinaryOperator.apply (world : World) (left right : Word) (memory : Memory) :
    BinaryOperator → Word × Memory
  | .add => (left + right, memory)
  | .subtract => (left - right, memory)
  | .multiply => world.call "Math.multiply" [left, right] memory
  | .divide => world.call "Math.divide" [left, right] memory
  | .and => (left &&& right, memory)
  | .or => (left ||| right, memory)
  | .less => (.ofBool (left.slt right), memory)
  | .greater => (.ofBool (right.slt left), memory)
  | .equal => (.ofBool (left == right), memory)

/-- The string that is left once characters are appended to the given one. -/
def appendAll (world : World) : List Char → Word × Memory → Word × Memory
  | [], (string, memory) => (string, memory)
  | c :: rest, (string, memory) =>
    appendAll world rest
      (world.call "String.appendChar" [string, BitVec.ofNat 16 c.toNat] memory)

mutual

/-- The value of a term, and the memory after it. -/
def Term.eval (world : World) (context : Context) (frame : Frame) :
    Term → Memory → Word × Memory
  | .integer value, memory => (BitVec.ofNat 16 value, memory)
  | .string body, memory =>
    appendAll world body.toList (world.call "String.new" [BitVec.ofNat 16 body.length] memory)
  | .word constant, memory => (constant.value frame, memory)
  | .group inner, memory => inner.eval world context frame memory
  | .unary operator operand, memory =>
    let (value, memory) := operand.eval world context frame memory
    (operator.apply value, memory)
  | .name name, memory => (context.value name frame memory, memory)
  | .element array index, memory =>
    -- The array is read before its index is computed.
    let base := context.value array frame memory
    let (offset, memory) := index.eval world context frame memory
    (memory.ram (base + offset), memory)
  | .call call, memory => call.eval world context frame memory

/-- The value of an expression, whose operators apply from left to right. -/
def Expression.eval (world : World) (context : Context) (frame : Frame) :
    Expression → Memory → Word × Memory
  | .mk first rest, memory =>
    let (left, memory) := first.eval world context frame memory
    rest.eval world context frame left memory

/-- The value of operators whose first left operand is given. -/
def Operations.eval (world : World) (context : Context) (frame : Frame) :
    Operations → Word → Memory → Word × Memory
  | .nil, left, memory => (left, memory)
  | .cons operator operand rest, left, memory =>
    let (right, memory) := operand.eval world context frame memory
    let (value, memory) := operator.apply world left right memory
    rest.eval world context frame value memory

/-- The value of a call, which passes the object it is made on before the arguments. -/
def Call.eval (world : World) (context : Context) (frame : Frame) : Call → Memory → Word × Memory
  | .own name arguments, memory =>
    let (values, memory) := arguments.eval world context frame memory
    if context.subroutine.kind.hasObject then
      world.call (context.member name) (frame.object :: values) memory
    else world.call (context.member name) values memory
  | .member owner name arguments, memory =>
    match context.symbol? owner with
    | some symbol =>
      -- The object is read before the arguments are computed.
      let receiver := symbol.value frame memory
      let (values, memory) := arguments.eval world context frame memory
      world.call s!"{symbol.type}.{name}" (receiver :: values) memory
    | none =>
      let (values, memory) := arguments.eval world context frame memory
      world.call s!"{owner}.{name}" values memory

/-- The values of arguments, which are computed from left to right. -/
def Arguments.eval (world : World) (context : Context) (frame : Frame) :
    Arguments → Memory → List Word × Memory
  | .nil, memory => ([], memory)
  | .cons first rest, memory =>
    let (value, memory) := first.eval world context frame memory
    let (values, memory) := rest.eval world context frame memory
    (value :: values, memory)

end

end JackCompiler
