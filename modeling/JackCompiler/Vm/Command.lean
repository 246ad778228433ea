/-! The commands of the stack machine, with their written form. -/

namespace JackCompiler

/-- The largest constant and the largest index that a machine command may carry. -/
def maxOperand : Nat := 32767

/-- A named region of storage, addressed by index. -/
inductive Segment where
  | constant
  | localVars
  | argument
  | statics
  /-- The fields of the current object. -/
  | this
  /-- The array element last addressed. -/
  | that
  /-- Index zero holds the base of `this`, and index one the base of `that`. -/
  | pointer
  | temp
deriving DecidableEq

/-- The word that names a segment in a command. -/
def Segment.text : Segment → String
  | .constant => "constant"
  | .localVars => "local"
  | .argument => "argument"
  | .statics => "static"
  | .this => "this"
  | .that => "that"
  | .pointer => "pointer"
  | .temp => "temp"

/-- An operation on the top of the stack that carries no operand. -/
inductive Operation where
  | add
  | sub
  | neg
  | eq
  | gt
  | lt
  | and
  | or
  | not
deriving DecidableEq

namespace Operation

/-- The word that names an operation. -/
def text : Operation → String
  | .add => "add"
  | .sub => "sub"
  | .neg => "neg"
  | .eq => "eq"
  | .gt => "gt"
  | .lt => "lt"
  | .and => "and"
  | .or => "or"
  | .not => "not"

/-- The operation that computes a binary operator, for those the machine computes itself. -/
def ofBinary? : Char → Option Operation
  | '+' => some .add
  | '-' => some .sub
  | '&' => some .and
  | '|' => some .or
  | '<' => some .lt
  | '>' => some .gt
  | '=' => some .eq
  | _ => none

end Operation

/-- One command of the stack machine. -/
inductive Command where
  | push (segment : Segment) (index : Nat)
  | pop (segment : Segment) (index : Nat)
  | operate (operation : Operation)
  | label (name : String)
  | goto (name : String)
  /-- Takes the top of the stack, and jumps when it is not zero. -/
  | ifGoto (name : String)
  | call (name : String) (arguments : Nat)
  | function (name : String) (locals : Nat)
  | ret
deriving DecidableEq

/-- The command as one line of a program, without indentation. -/
def Command.text : Command → String
  | .push segment index => s!"push {segment.text} {index}"
  | .pop segment index => s!"pop {segment.text} {index}"
  | .operate operation => operation.text
  | .label name => s!"label {name}"
  | .goto name => s!"goto {name}"
  | .ifGoto name => s!"if-goto {name}"
  | .call name arguments => s!"call {name} {arguments}"
  | .function name locals => s!"function {name} {locals}"
  | .ret => "return"

end JackCompiler
