import JackCompiler.Token.Basic

/-! Expressions as trees, and the tokens that spell them. -/

namespace JackCompiler

/-- The constants that are written as keywords. -/
inductive WordConstant where
  | true
  | false
  | null
  | this
deriving DecidableEq

/-- The keyword that a constant is written as. -/
def WordConstant.keyword : WordConstant → Keyword
  | .true => .true
  | .false => .false
  | .null => .null
  | .this => .this

/-- The operators that stand before their operand. -/
inductive UnaryOperator where
  | negate
  | invert
deriving DecidableEq

/-- The mark of a unary operator. -/
def UnaryOperator.mark : UnaryOperator → Char
  | .negate => '-'
  | .invert => '~'

/-- The operators that stand between their operands. -/
inductive BinaryOperator where
  | add
  | subtract
  | multiply
  | divide
  | and
  | or
  | less
  | greater
  | equal
deriving DecidableEq

/-- The mark of a binary operator. -/
def BinaryOperator.mark : BinaryOperator → Char
  | .add => '+'
  | .subtract => '-'
  | .multiply => '*'
  | .divide => '/'
  | .and => '&'
  | .or => '|'
  | .less => '<'
  | .greater => '>'
  | .equal => '='

/-- The mark of a unary operator determines it. -/
theorem UnaryOperator.mark_injective {operator other : UnaryOperator}
    (same : operator.mark = other.mark) : operator = other := by
  -- The two operators have different marks.
  revert same
  cases operator <;> cases other <;> decide

/-- The mark of a binary operator determines it. -/
theorem BinaryOperator.mark_injective {operator other : BinaryOperator}
    (same : operator.mark = other.mark) : operator = other := by
  -- No two operators share a mark.
  revert same
  cases operator <;> cases other <;> decide

/-- The keyword of a constant determines it. -/
theorem WordConstant.keyword_injective {constant other : WordConstant}
    (same : constant.keyword = other.keyword) : constant = other := by
  -- No two constants share a keyword.
  revert same
  cases constant <;> cases other <;> decide

mutual

/-- An operand of an expression. -/
inductive Term where
  | integer (value : Nat)
  | string (body : String)
  | word (constant : WordConstant)
  /-- An expression in parentheses. -/
  | group (inner : Expression)
  | unary (operator : UnaryOperator) (operand : Term)
  /-- The value of a variable. -/
  | name (name : String)
  | element (array : String) (index : Expression)
  | call (call : Call)

/-- A term, and the operators behind it with their right operands. -/
inductive Expression where
  | mk (first : Term) (rest : Operations)

/-- Operators with their right operands, in the order in which they are written. -/
inductive Operations where
  | nil
  | cons (operator : BinaryOperator) (operand : Term) (rest : Operations)

/-- A call to a subroutine. -/
inductive Call where
  /-- A call without a dot, to a subroutine of the class itself. -/
  | own (name : String) (arguments : Arguments)
  /-- A call with a dot, whose owner is a variable or a class. -/
  | member (owner name : String) (arguments : Arguments)

/-- The arguments of a call. -/
inductive Arguments where
  | nil
  | cons (first : Expression) (rest : Arguments)

end

/-- The number of arguments that are written in a call. -/
def Arguments.count : Arguments → Nat
  | .nil => 0
  | .cons _ rest => rest.count + 1

mutual

/-- The tokens of a term. -/
def Term.kinds : Term → List TokenKind
  | .integer value => [.integer value]
  | .string body => [.string body]
  | .word constant => [.keyword constant.keyword]
  | .group inner => .symbol '(' :: inner.kinds ++ [.symbol ')']
  | .unary operator operand => .symbol operator.mark :: operand.kinds
  | .name name => [.identifier name]
  | .element array index => .identifier array :: .symbol '[' :: index.kinds ++ [.symbol ']']
  | .call call => call.kinds

/-- The tokens of an expression. -/
def Expression.kinds : Expression → List TokenKind
  | .mk first rest => first.kinds ++ rest.kinds

/-- The tokens of the operators in an expression and of their right operands. -/
def Operations.kinds : Operations → List TokenKind
  | .nil => []
  | .cons operator operand rest => .symbol operator.mark :: operand.kinds ++ rest.kinds

/-- The tokens of a call. -/
def Call.kinds : Call → List TokenKind
  | .own name arguments => .identifier name :: .symbol '(' :: arguments.kinds ++ [.symbol ')']
  | .member owner name arguments =>
    .identifier owner :: .symbol '.' :: .identifier name :: .symbol '(' :: arguments.kinds ++
      [.symbol ')']

/-- The tokens of arguments, with commas between them. -/
def Arguments.kinds : Arguments → List TokenKind
  | .nil => []
  | .cons first rest => first.kinds ++ rest.moreKinds

/-- The tokens of arguments that follow another one, each after a comma. -/
def Arguments.moreKinds : Arguments → List TokenKind
  | .nil => []
  | .cons first rest => .symbol ',' :: first.kinds ++ rest.moreKinds

end

end JackCompiler
