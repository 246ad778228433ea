import JackCompiler.Proofs.Compilation.Completeness
import JackCompiler.Proofs.Machine.Evaluation

/-! The code of an expression computes the value of the expression. -/

namespace JackCompiler

open Machine

variable {world : World} {context : Context} {frame : Frame} {memory : Memory} {stack : List Word}

/-- The value of a variable is pushed. -/
theorem Symbol.runs_push (symbol : Symbol) :
    Runs world [symbol.push] stack ⟨frame, memory⟩ (symbol.value frame memory :: stack)
      ⟨frame, memory⟩ := by
  -- The segment and the index of the symbol are where its value is read.
  refine .push fun state known => ?_
  obtain ⟨name, type, kind, index⟩ := symbol
  cases kind <;> simp [Symbol.segment, SymbolKind.segment, State.read?, Symbol.value, known]

/-- The value of a constant is pushed. -/
theorem WordConstant.runs (constant : WordConstant) :
    Runs world constant.code stack ⟨frame, memory⟩ (constant.value frame :: stack)
      ⟨frame, memory⟩ := by
  -- Minus one has every bit set, which is the word of truth.
  cases constant with
  | true => exact .append (.push fun _ _ => rfl) (.operate rfl)
  | false | null => exact .push fun _ _ => rfl
  | this => exact .push fun state known => by simp [State.read?, known, WordConstant.value]

/-- A unary operator is applied to the top of the stack. -/
theorem UnaryOperator.runs (operator : UnaryOperator) (operand : Word) :
    Runs world [operator.code] (operand :: stack) ⟨frame, memory⟩
      (operator.apply operand :: stack) ⟨frame, memory⟩ := by
  cases operator <;> exact .operate rfl

/-- A binary operator is applied to the two words on the top of the stack. -/
theorem BinaryOperator.runs (operator : BinaryOperator) (left right : Word) :
    Runs world [operator.code] (right :: left :: stack) ⟨frame, memory⟩
      ((operator.apply world left right memory).1 :: stack)
      ⟨frame, (operator.apply world left right memory).2⟩ := by
  -- Products and quotients are called, and all others are operations of the machine.
  cases operator with
  | multiply => exact Runs.call "Math.multiply" [left, right] frame memory
  | divide => exact Runs.call "Math.divide" [left, right] frame memory
  | _ => exact .operate rfl

/-- Characters are appended to the string on the top of the stack. -/
theorem runs_appendCode (chars : List Char) (built : Word × Memory) :
    Runs world (appendCode chars) (built.1 :: stack) ⟨frame, built.2⟩
      ((appendAll world chars built).1 :: stack) ⟨frame, (appendAll world chars built).2⟩ := by
  -- The string that a call returns is the one that the next character is appended to.
  induction chars generalizing built with
  | nil => exact .nil
  | cons c rest ih =>
    have pushed : Runs world [.push .constant c.toNat] (built.1 :: stack) ⟨frame, built.2⟩
        (BitVec.ofNat 16 c.toNat :: built.1 :: stack) ⟨frame, built.2⟩ := .push fun _ _ => rfl
    exact pushed.append ((Runs.call "String.appendChar" [built.1, BitVec.ofNat 16 c.toNat] frame
      built.2).append (ih _))

/-- A declared variable is loaded. -/
theorem Context.runs_load {name : String} (declared : context.Declares name) :
    Runs world (context.load name) stack ⟨frame, memory⟩
      (context.value name frame memory :: stack) ⟨frame, memory⟩ := by
  -- The single command is that of the symbol.
  obtain ⟨symbol, found⟩ := declared
  rw [Context.load, Context.value, found]
  exact symbol.runs_push

/-- As many values are computed as there are arguments. -/
theorem Arguments.length_eval (arguments : Arguments) (memory : Memory) :
    (arguments.eval world context frame memory).1.length = arguments.count := by
  cases arguments with
  | nil => rfl
  | cons first rest => exact congrArg (· + 1) (Arguments.length_eval rest _)
termination_by structural arguments

/-- A call passes the values on the top of the stack. -/
theorem runs_call (name : String) (arguments : Arguments) :
    Runs world [.call name arguments.count]
      ((arguments.eval world context frame memory).1.reverse ++ stack)
      ⟨frame, (arguments.eval world context frame memory).2⟩
      ((world.call name (arguments.eval world context frame memory).1
        (arguments.eval world context frame memory).2).1 :: stack)
      ⟨frame, (world.call name (arguments.eval world context frame memory).1
        (arguments.eval world context frame memory).2).2⟩ := by
  -- The number of arguments is the number of values that are computed for them.
  rw [← arguments.length_eval memory]
  exact .call name _ frame _

/-- A call on an object passes the object before the values on the top of the stack. -/
theorem runs_call_object (name : String) (object : Word) (arguments : Arguments) :
    Runs world [.call name (arguments.count + 1)]
      ((arguments.eval world context frame memory).1.reverse ++ object :: stack)
      ⟨frame, (arguments.eval world context frame memory).2⟩
      ((world.call name (object :: (arguments.eval world context frame memory).1)
        (arguments.eval world context frame memory).2).1 :: stack)
      ⟨frame, (world.call name (object :: (arguments.eval world context frame memory).1)
        (arguments.eval world context frame memory).2).2⟩ := by
  -- The object was pushed first, so it lies beneath the arguments.
  rw [← arguments.length_eval memory]
  have called : Runs world _ (_ ++ stack) _ _ _ := .call name
    (object :: (arguments.eval world context frame memory).1) frame
    (arguments.eval world context frame memory).2
  simpa using called

mutual

/-- The code of a term pushes the value of the term. -/
theorem Term.runs (term : Term) (lawful : term.Lawful context) (memory : Memory)
    (stack : List Word) :
    Runs world (term.code context) stack ⟨frame, memory⟩
      ((term.eval world context frame memory).1 :: stack)
      ⟨frame, (term.eval world context frame memory).2⟩ := by
  -- Each part runs above the stack as the parts before it have left it.
  cases term with
  | integer value => exact .push fun _ _ => rfl
  | string body =>
    have pushed : Runs world [.push .constant body.length] stack ⟨frame, memory⟩
        (BitVec.ofNat 16 body.length :: stack) ⟨frame, memory⟩ := .push fun _ _ => rfl
    exact pushed.append ((Runs.call "String.new" [BitVec.ofNat 16 body.length] frame
      memory).append (runs_appendCode body.toList _))
  | word constant => exact constant.runs
  | group inner => exact Expression.runs inner lawful memory stack
  | unary operator operand => exact (Term.runs operand lawful memory stack).append (operator.runs _)
  | name name => exact Context.runs_load lawful
  -- The array and its index are added up to the address that is fetched from.
  | element array index =>
    obtain ⟨⟨symbol, found, -⟩, lawful⟩ := lawful
    have pushed : Runs world _ stack _ _ _ := (Context.runs_load ⟨symbol, found⟩).append
      (Expression.runs index lawful memory _)
    exact pushed.append (.append (.operate rfl) (.fetch _))
  | call call => exact Call.runs call lawful memory stack
termination_by structural term

/-- The code of an expression pushes the value of the expression. -/
theorem Expression.runs (value : Expression) (lawful : value.Lawful context) (memory : Memory)
    (stack : List Word) :
    Runs world (value.code context) stack ⟨frame, memory⟩
      ((value.eval world context frame memory).1 :: stack)
      ⟨frame, (value.eval world context frame memory).2⟩ := by
  -- The value of the first term is the left operand of the first operator.
  cases value with
  | mk first rest =>
    exact (Term.runs first lawful.1 memory stack).append (Operations.runs rest lawful.2 _ _ stack)
termination_by structural value

/-- The code of operators applies them to the top of the stack, one after the other. -/
theorem Operations.runs (operations : Operations) (lawful : operations.Lawful context)
    (left : Word) (memory : Memory) (stack : List Word) :
    Runs world (operations.code context) (left :: stack) ⟨frame, memory⟩
      ((operations.eval world context frame left memory).1 :: stack)
      ⟨frame, (operations.eval world context frame left memory).2⟩ := by
  -- An operator finds its right operand on the top, and the left one beneath it.
  cases operations with
  | nil => exact .nil
  | cons operator operand rest =>
    exact (Term.runs operand lawful.1 memory (left :: stack)).append
      ((operator.runs left _).append (Operations.runs rest lawful.2 _ _ stack))
termination_by structural operations

/-- The code of a call pushes the value that it returns. -/
theorem Call.runs (call : Call) (lawful : call.Lawful context) (memory : Memory)
    (stack : List Word) :
    Runs world (call.code context) stack ⟨frame, memory⟩
      ((call.eval world context frame memory).1 :: stack)
      ⟨frame, (call.eval world context frame memory).2⟩ := by
  cases call with
  -- The object is read before the arguments, which may change what it is read from.
  | own name arguments =>
    unfold Call.code Call.eval
    split
    · have pushed : Runs world [.push .pointer 0] stack ⟨frame, memory⟩ (frame.object :: stack)
          ⟨frame, memory⟩ := .push fun state known => by simp [State.read?, known]
      exact (pushed.append (Arguments.runs arguments lawful memory _)).append
        (runs_call_object _ _ arguments)
    · exact (Arguments.runs arguments lawful memory stack).append (runs_call _ arguments)
  | member owner name arguments =>
    unfold Call.code Call.eval
    cases context.symbol? owner with
    | some symbol =>
      exact (symbol.runs_push.append (Arguments.runs arguments lawful.2 memory _)).append
        (runs_call_object _ _ arguments)
    | none => exact (Arguments.runs arguments lawful.2 memory stack).append (runs_call _ arguments)
termination_by structural call

/-- The code of arguments pushes their values, the last one on top. -/
theorem Arguments.runs (arguments : Arguments) (lawful : arguments.Lawful context)
    (memory : Memory) (stack : List Word) :
    Runs world (arguments.code context) stack ⟨frame, memory⟩
      ((arguments.eval world context frame memory).1.reverse ++ stack)
      ⟨frame, (arguments.eval world context frame memory).2⟩ := by
  -- The first value is pushed first, so the values lie on the stack in reverse.
  cases arguments with
  | nil => exact .nil
  | cons first rest =>
    have further := (Expression.runs first lawful.1 memory stack).append
      (Arguments.runs rest lawful.2 _ _)
    simpa [Arguments.eval, Arguments.code] using further
termination_by structural arguments

end

/-- The code of an expression that evaluates to a value pushes that value. -/
theorem Expression.runs_of_eval {value : Expression} {result : Word} {memory' : Memory}
    (lawful : value.Lawful context)
    (evaluates : value.eval world context frame memory = (result, memory')) (stack : List Word) :
    Runs world (value.code context) stack ⟨frame, memory⟩ (result :: stack) ⟨frame, memory'⟩ := by
  -- The evaluation is the one that the code follows.
  have runs : Runs world _ stack ⟨frame, memory⟩ _ _ := value.runs lawful memory stack
  rwa [evaluates] at runs

/-- The code of a call that evaluates to a value pushes that value. -/
theorem Call.runs_of_eval {call : Call} {result : Word} {memory' : Memory}
    (lawful : call.Lawful context)
    (evaluates : call.eval world context frame memory = (result, memory')) (stack : List Word) :
    Runs world (call.code context) stack ⟨frame, memory⟩ (result :: stack) ⟨frame, memory'⟩ := by
  -- The evaluation is the one that the code follows.
  have runs : Runs world _ stack ⟨frame, memory⟩ _ _ := call.runs lawful memory stack
  rwa [evaluates] at runs

/-- An expression that is accepted is lawful, and its code is that of its tree. -/
theorem Compilation.Steps.exists_expression {ending : Except Fault Location}
    {unit after : ClassUnit} {tokens left : List Token} {code : List Command}
    (accepted : Compilation.Steps ending ⟨tokens, Pending.expression, unit⟩ code
      ⟨left, [], after⟩) :
    ∃ value : Expression, tokens.map Token.kind = value.kinds ++ left.map Token.kind ∧
      value.Lawful unit.context ∧ code = value.code unit.context := by
  -- The parts of an expression are a term and the operators behind it.
  obtain ⟨kinds, spelled, reads⟩ := accepted.reads rfl
  have alone : Pending.ReadsAll (Pending.expression ++ []) unit kinds code after := reads
  obtain ⟨value, _, _, rfl, rfl, lawful, others⟩ := Pending.ReadsAll.of_expression alone
  obtain ⟨rfl, rfl, -⟩ := others.of_nil
  exact ⟨value, by simpa using spelled, lawful, List.append_nil _⟩

/-- An expression that is accepted is the only one with its tokens, and running its code pushes the
value of the expression, wherever the code stands in a program. -/
theorem accepted_expression_runs {ending : Except Fault Location} {unit after : ClassUnit}
    {tokens left : List Token} {code : List Command}
    (accepted : Compilation.Steps ending ⟨tokens, Pending.expression, unit⟩ code
      ⟨left, [], after⟩) :
    ∃ value : Expression,
      (∀ other : Expression, tokens.map Token.kind = other.kinds ++ left.map Token.kind ↔
        other = value) ∧
      ∀ (world : World) (before behind : List Command) (stack : List Word) (frame : Frame)
        (memory : Memory) (that : Word) (temp : Nat → Word),
        ∃ (that' : Word) (temp' : Nat → Word), Reaches world (before ++ code ++ behind)
          ⟨⟨before.length, stack, ⟨frame, memory⟩⟩, that, temp⟩
          ⟨⟨(before ++ code).length,
            (value.eval world unit.context frame memory).1 :: stack,
            ⟨frame, (value.eval world unit.context frame memory).2⟩⟩, that', temp'⟩ := by
  -- The tokens are those of one expression only, and its code runs wherever it stands.
  obtain ⟨value, spelled, lawful, rfl⟩ := accepted.exists_expression
  refine ⟨value, fun other => ?_, fun world before behind stack frame memory =>
    value.runs lawful memory stack before behind⟩
  constructor
  · intro same
    have ends : EndsExpression [] := ⟨nofun, nofun⟩
    have alone : other.kinds ++ [] = value.kinds ++ [] := by
      rw [spelled] at same
      simpa using same.symm
    exact (other.kinds_unique value ends ends alone).1
  · rintro rfl
    exact spelled

/-- A product behind a sum is the product of the whole sum. -/
theorem sum_times_three_runs :
    ∃ (left : List Token) (that : Word) (temp : Nat → Word), left.map Token.kind = [] ∧
      Compilation.Steps (.ok .start)
        ⟨(Scan.ofSource "1 + 2 * 3").tokens, Pending.expression, {}⟩
        [.push .constant 1, .push .constant 2, .operate .add, .push .constant 3,
          .call "Math.multiply" 2] ⟨left, [], {}⟩ ∧
      Reaches ⟨fun _ values memory => (values.foldl (· * ·) 1, memory), fun _ _ => 0⟩
        [.push .constant 1, .push .constant 2, .operate .add, .push .constant 3,
          .call "Math.multiply" 2]
        ⟨⟨0, [7], ⟨⟨fun _ => 0, fun _ => 0, 0⟩, ⟨fun _ => 0, fun _ => 0⟩⟩⟩, 0, fun _ => 0⟩
        ⟨⟨5, [9, 7], ⟨⟨fun _ => 0, fun _ => 0, 0⟩, ⟨fun _ => 0, fun _ => 0⟩⟩⟩, that, temp⟩ := by
  -- The tokens are taken as the sum and the product in the order in which they are written.
  let value : Expression :=
    ⟨.integer 1, .cons .add (.integer 2) (.cons .multiply (.integer 3) .nil)⟩
  have ends : EndsExpression [] := ⟨nofun, nofun⟩
  have spelled : (Scan.ofSource "1 + 2 * 3").tokens.map Token.kind = value.kinds ++ [] := by
    decide +kernel
  have lawful : value.Lawful (({} : ClassUnit).context) :=
    ⟨trivial, trivial, trivial, trivial⟩
  obtain ⟨left, finished, steps⟩ := value.takes lawful ends .start _ [] spelled
  obtain ⟨other, only, runs⟩ := accepted_expression_runs steps
  obtain rfl : value = other := (only value).mp (by rw [finished, spelled])
  obtain ⟨that, temp, reaches⟩ := runs ⟨fun _ values memory => (values.foldl (· * ·) 1, memory),
    fun _ _ => 0⟩ [] [] [7] ⟨fun _ => 0, fun _ => 0, 0⟩ ⟨fun _ => 0, fun _ => 0⟩ 0 fun _ => 0
  exact ⟨left, that, temp, finished, steps, reaches⟩

end JackCompiler
