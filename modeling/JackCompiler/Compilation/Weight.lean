import JackCompiler.Compilation.Pending

/-! How much work a part of a class can still cause before another token is taken. -/

namespace JackCompiler

namespace Pending

/-- A bound on the steps that a part and those taking its place can make without a token. -/
def weight : Pending → Nat
  | .classVariables => 2
  | .localVariables => 3
  | .arguments .. => 4
  | .returnValue => 5
  | .callRest .. | .letPlace .. => 6
  | _ => 1

/-- The weights of parts that wait for one another add up. -/
def totalWeight : List Pending → Nat
  | [] => 0
  | part :: rest => part.weight + totalWeight rest

/-- More than the weight of the parts that one token brings. -/
def tokenWeight : Nat := 12

/-- Every part weighs something. -/
theorem weight_pos (part : Pending) : 0 < part.weight := by
  cases part <;> simp [weight]

/-- Nothing pending weighs nothing. -/
@[simp] theorem totalWeight_nil : totalWeight [] = 0 := rfl

/-- A part adds its own weight to that of the parts behind it. -/
@[simp] theorem totalWeight_cons (part : Pending) (rest : List Pending) :
    totalWeight (part :: rest) = part.weight + totalWeight rest := rfl

/-- Parts placed before others add their weights to those of the others. -/
@[simp] theorem totalWeight_append (first rest : List Pending) :
    totalWeight (first ++ rest) = totalWeight first + totalWeight rest := by
  -- The parts in front are counted one at a time.
  induction first with
  | nil => simp
  | cons part first ih => simp [ih, Nat.add_assoc]

/-- An expression is a term and the operators behind it. -/
@[simp] theorem totalWeight_expression : totalWeight expression = 2 := rfl

/-- A condition adds two parentheses and a jump to an expression. -/
@[simp] theorem totalWeight_condition (label : String) : totalWeight (condition label) = 5 := rfl

/-- A block adds two braces to its statements. -/
@[simp] theorem totalWeight_block : totalWeight block = 3 := rfl

/-- An assignment adds two marks and the code that stores the value to an expression. -/
@[simp] theorem totalWeight_assignment (code : List Command) :
    totalWeight (assignment code) = 5 := rfl

/-- A call to a subroutine of the class waits for its arguments. -/
@[simp] theorem weight_ownCall (unit : ClassUnit) (name : String) :
    (ownCall unit name).2.weight = 4 := by
  -- Whether an object is passed on changes the count of arguments, and not the part.
  unfold ownCall
  split <;> rfl

/-- A call with a dot waits for its arguments too. -/
theorem weight_memberCall {unit : ClassUnit} {location : Location} {name member : String}
    {call : List Command × Pending} (called : memberCall unit location name member = .ok call) :
    call.2.weight = 4 := by
  -- The call is to a class, or to the type of a variable that is no primitive one.
  unfold memberCall at called
  split at called
  · cases called
    rfl
  · split at called <;> cases called
    rfl

/-- A part that takes no token leaves less work than it was. -/
theorem totalWeight_leave {unit : ClassUnit} {part : Pending} {move : Move}
    (left : part.leave unit = .go move) : totalWeight move.pending < part.weight := by
  cases part <;> simp only [leave, Leave.go.injEq, reduceCtorEq] at left
  case nameRest =>
    -- A plain variable is looked up, and nothing is pending after it.
    split at left <;> simp only [Leave.go.injEq, reduceCtorEq] at left
    subst left
    exact weight_pos _
  all_goals subst left
  case callRest =>
    rw [totalWeight_cons, totalWeight_cons, weight_ownCall]
    exact Nat.lt_succ_self 5
  all_goals simp [weight]

section Moves

variable {α : Type} {holds : Move → Prop}

/-- Whatever way on an outcome gives has a property. -/
def GoesOn (holds : Move → Prop) (outcome : Option (Except Fault Move)) : Prop :=
  ∀ move, outcome = some (.ok move) → holds move

/-- Where no token is taken there is no way on. -/
theorem goesOn_none : GoesOn holds none := fun _ taken => nomatch taken

/-- A fault is no way on. -/
theorem goesOn_fault (fault : Fault) : GoesOn holds (some (.error fault)) :=
  fun _ taken => nomatch taken

/-- A way on is the only one. -/
theorem goesOn_move {move : Move} (good : holds move) : GoesOn holds (some (.ok move)) := by
  rintro _ ⟨⟩
  exact good

/-- What comes after a check needs the property only where the check passes. -/
theorem goesOn_after {outcome : Except Fault α} {next : α → Except Fault Move}
    (good : ∀ value, outcome = .ok value → GoesOn holds (some (next value))) :
    GoesOn holds (some (outcome >>= next)) := by
  cases outcome with
  | error fault => exact goesOn_fault fault
  | ok value => exact good value rfl

/-- A way on from a chosen value needs the property only for the values that are chosen. -/
theorem goesOn_map {choice : Option α} {next : α → Except Fault Move}
    (good : ∀ value, choice = some value → GoesOn holds (some (next value))) :
    GoesOn holds (choice.map next) := by
  cases choice with
  | none => exact goesOn_none
  | some value => exact good value rfl

/-- A choice made from a chosen value needs the property only for the values that are chosen. -/
theorem goesOn_bind {choice : Option α} {next : α → Option (Except Fault Move)}
    (good : ∀ value, choice = some value → GoesOn holds (next value)) :
    GoesOn holds (choice.bind next) := by
  cases choice with
  | none => exact goesOn_none
  | some value => exact good value rfl

/-- Of two outcomes the one that applies needs the property. -/
theorem goesOn_if {condition : Prop} [Decidable condition]
    {outcome other : Option (Except Fault Move)} (good : condition → GoesOn holds outcome)
    (otherwise : ¬condition → GoesOn holds other) :
    GoesOn holds (if condition then outcome else other) := by
  split
  · exact good ‹_›
  · exact otherwise ‹_›

end Moves

/-- After a token has been taken a bounded amount of work is pending. -/
private abbrev Bounded : Option (Except Fault Move) → Prop :=
  GoesOn fun move => totalWeight move.pending < tokenWeight

/-- A way on is bounded by the parts it brings. -/
private theorem bounded_move {move : Move}
    (small : totalWeight move.pending < tokenWeight := by simp [weight, tokenWeight]) :
    Bounded (some (.ok move)) :=
  goesOn_move small

/-- A declared name is followed by at most one more name. -/
private theorem bounded_variableEnd (unit : ClassUnit) (kind : SymbolKind) (type : String)
    (typeLocation : Location) (c : Char) :
    Bounded (takeVariableEnd unit kind type typeLocation c) := by
  unfold takeVariableEnd
  split
  · exact bounded_move
  · split
    · exact goesOn_fault _
    · exact bounded_move
  · exact goesOn_none

/-- Of all statements, conditionals and loops bring the most parts. -/
private theorem bounded_statement (unit : ClassUnit) (word : Keyword) :
    Bounded ((takeStatement unit word).map .ok) := by
  cases word
  case «let» | «do» | «if» | «while» | «return» => exact bounded_move
  all_goals exact goesOn_none

/-- A term brings at most an operand and what is done with it. -/
private theorem bounded_term (unit : ClassUnit) (token : Token) :
    Bounded ((takeTerm unit token).map .ok) := by
  unfold takeTerm
  split
  case h_11 => exact goesOn_none
  all_goals exact bounded_move

/-- An index or a call after a name brings an expression or its arguments. -/
private theorem bounded_nameRest (unit : ClassUnit) (name : String) (location : Location)
    (c : Char) : Bounded (takeNameRest unit name location c) := by
  unfold takeNameRest
  split
  · exact bounded_move
  · have small : totalWeight [(ownCall unit name).2] < tokenWeight := by simp [tokenWeight]
    exact bounded_move small
  · exact goesOn_after fun target _ => goesOn_after fun _ _ => bounded_move
  · exact goesOn_none

/-- A token brings a bounded amount of work, whichever part takes it. -/
theorem totalWeight_take {unit : ClassUnit} {token : Token} {part : Pending} {move : Move}
    (taken : part.take? unit token = some (.ok move)) :
    totalWeight move.pending < tokenWeight := by
  suffices bounded : Bounded (part.take? unit token) from bounded move taken
  -- What is done with a token depends on the part first, and then on the kind of token.
  cases part <;> simp only [take?]
  case emit => exact goesOn_none
  case keyword | symbol | localVariables | elseBranch | returnValue | callRest | arguments =>
    exact goesOn_if (fun _ => bounded_move) fun _ => goesOn_none
  case className | variableType | subroutineName | parameterType | callee =>
    exact goesOn_map fun _ _ => bounded_move
  case operators => exact goesOn_map fun _ _ => bounded_move
  case returnType | parameters =>
    exact goesOn_if (fun _ => bounded_move) fun _ => goesOn_map fun _ _ => bounded_move
  case variableName | parameterName =>
    exact goesOn_map fun _ _ => goesOn_after fun _ _ => bounded_move
  case classVariables | parameterEnd | argumentEnd =>
    split
    case h_3 => exact goesOn_none
    all_goals exact bounded_move
  case subroutines =>
    split
    · exact bounded_move
    · exact goesOn_map fun _ _ => goesOn_after fun _ _ => bounded_move
    · exact goesOn_none
  case letTarget =>
    refine goesOn_map fun _ _ => ?_
    split
    · exact bounded_move
    · exact goesOn_fault _
  case letPlace =>
    exact goesOn_if (fun _ => goesOn_after fun _ _ => bounded_move) fun _ => goesOn_none
  case calleeMember =>
    refine goesOn_map fun _ _ => goesOn_after fun call called => bounded_move ?_
    rw [totalWeight_cons, totalWeight_cons, weight_memberCall called]
    decide
  case variableEnd => exact goesOn_bind fun c _ => bounded_variableEnd unit _ _ _ c
  case nameRest => exact goesOn_bind fun c _ => bounded_nameRest unit _ _ c
  case term => exact bounded_term unit token
  case statements =>
    cases token.kind.keyword? with
    | none => exact goesOn_none
    | some word => exact bounded_statement unit word

end Pending

end JackCompiler
