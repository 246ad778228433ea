import JackCompiler.Compilation.ClassUnit

/-! The parts of a class that are still to come, and how each goes on at the next token. -/

namespace JackCompiler

/-- A part of a class that is still to come, or code due once the parts before it are read. -/
inductive Pending where
  | emit (code : List Command)
  | keyword (word : Keyword)
  | symbol (c : Char)
  | className
  /-- The fields and statics of a class, and then its subroutines. -/
  | classVariables
  /-- Subroutines up to the end of the class. -/
  | subroutines
  | variableType (kind : SymbolKind)
  | variableName (kind : SymbolKind) (type : String) (typeLocation : Location)
  | variableEnd (kind : SymbolKind) (type : String) (typeLocation : Location)
  | returnType (kind : SubroutineKind)
  | subroutineName (kind : SubroutineKind) (isVoid : Bool)
  /-- Parameters up to the closing parenthesis. -/
  | parameters
  | parameterType
  | parameterName (type : String)
  | parameterEnd
  /-- The local variables of a subroutine, and then its statements. -/
  | localVariables
  | statements
  | letTarget
  /-- The rest of an assignment to the given variable or to an element of it. -/
  | letPlace (target : Symbol) (location : Location)
  /-- An `else` that may follow a block, whose absence the label ends. -/
  | elseBranch (label : String)
  | returnValue
  | callee
  /-- The rest of a call that starts with the given name. -/
  | callRest (name : String) (location : Location)
  /-- The name after the dot of a call. -/
  | calleeMember (name : String) (location : Location)
  /-- Arguments up to the closing parenthesis, when some values are passed already. -/
  | arguments (target : String) (passed : Nat)
  | argumentEnd (target : String) (passed : Nat)
  | term
  /-- The rest of a term that starts with the given name. -/
  | nameRest (name : String) (location : Location)
  /-- Operators with their right operands, as many as follow. -/
  | operators

/-- One way on: the code due at once, the parts that replace the present one, and what is known. -/
structure Move where
  code : List Command := []
  pending : List Pending := []
  unit : ClassUnit

namespace Pending

/-- Terms with operators between them, which apply from left to right. -/
def expression : List Pending := [.term, .operators]

/-- An expression in parentheses, and a jump to the label when it does not hold. -/
def condition (label : String) : List Pending :=
  .symbol '(' :: expression ++ [.symbol ')', .emit [.operate .not, .ifGoto label]]

/-- Statements in braces. -/
def block : List Pending := [.symbol '{', .statements, .symbol '}']

/-- The value of an assignment, and what is done with it. -/
def assignment (code : List Command) : List Pending :=
  .symbol '=' :: expression ++ [.symbol ';', .emit code]

/-- The commands that store the top of the stack at the address beneath it. -/
def storeElement : List Command :=
  -- The value may have used `that` itself, so the address is set up after it is known.
  [.pop .temp 0, .pop .pointer 1, .push .temp 0, .pop .that 0]

/-- The commands that build a string, one character at a time. -/
def stringCode (body : String) : List Command :=
  .push .constant body.length :: .call "String.new" 1 ::
    body.toList.flatMap fun c => [.push .constant c.toNat, .call "String.appendChar" 2]

/-- The commands of a binary operator, whose operands are on the stack. -/
def operatorCode? : Char → Option (List Command)
  -- The machine neither multiplies nor divides.
  | '*' => some [.call "Math.multiply" 2]
  | '/' => some [.call "Math.divide" 2]
  | other => (Operation.ofBinary? other).map fun operation => [.operate operation]

/-- Only a variable of type `Array` may be followed by an index. -/
def checkIndexable (target : Symbol) (location : Location) : Except Fault Unit :=
  if target.type = "Array" then .ok ()
  else .error ⟨location, .semantic (.notIndexable target.name target.type)⟩

/-- The start of a call to a subroutine of the class itself, which passes on the current object. -/
def ownCall (unit : ClassUnit) (name : String) : List Command × Pending :=
  if unit.subroutine.kind.hasObject then
    ([.push .pointer 0], .arguments (unit.member name) 1)
  else ([], .arguments (unit.member name) 0)

/-- The start of a call with a dot: on the object in a variable, or to a subroutine of a class. -/
def memberCall (unit : ClassUnit) (location : Location) (name member : String) :
    Except Fault (List Command × Pending) :=
  match unit.symbols.get? name with
  | none => .ok ([], .arguments s!"{name}.{member}" 0)
  | some receiver =>
    if (Keyword.ofText? receiver.type).any Keyword.isPrimitive then
      .error ⟨location, .semantic (.primitiveReceiver member name receiver.type)⟩
    else .ok ([receiver.push], .arguments s!"{receiver.type}.{member}" 1)

/-- The way on from a declared name at the mark after it. -/
def takeVariableEnd (unit : ClassUnit) (kind : SymbolKind) (type : String)
    (typeLocation : Location) : Char → Option (Except Fault Move)
  | ',' => some (.ok { pending := [.variableName kind type typeLocation], unit })
  | ';' => some <|
    -- The number of fields is checked once for each declaration, and reported at its type.
    if kind = .field ∧ unit.symbols.count .field > maxOperand then
      .error ⟨typeLocation, .semantic (.tooManyFields unit.name)⟩
    else .ok { unit }
  | _ => none

/-- The way on from a statement that starts with the given keyword, and then to those after it. -/
def takeStatement (unit : ClassUnit) : Keyword → Option Move
  | .«let» => some { pending := [.letTarget, .statements], unit }
  | .«if» =>
    let (label, unit) := unit.newLabel
    some { pending := condition label ++ block ++ [.elseBranch label, .statements], unit }
  | .«while» =>
    let (top, unit) := unit.newLabel
    let (bottom, unit) := unit.newLabel
    some
      { code := [.label top]
        pending := condition bottom ++ block ++
          [.emit [.goto top, .label bottom], .statements]
        unit }
  | .«do» => some { pending := [.callee, .symbol ';', .emit [.pop .temp 0], .statements], unit }
  | .«return» => some { pending := [.returnValue, .statements], unit }
  | _ => none

/-- The way on from a term that starts with the given token. -/
def takeTerm (unit : ClassUnit) (token : Token) : Option Move :=
  match token.kind with
  | .integer value => some { code := [.push .constant value], unit }
  | .string body => some { code := stringCode body, unit }
  -- Truth is the word with every bit set.
  | .keyword .true => some { code := [.push .constant 1, .operate .neg], unit }
  | .keyword .false | .keyword .null => some { code := [.push .constant 0], unit }
  | .keyword .this => some { code := [.push .pointer 0], unit }
  | .symbol '(' => some { pending := expression ++ [.symbol ')'], unit }
  | .symbol '-' => some { pending := [.term, .emit [.operate .neg]], unit }
  | .symbol '~' => some { pending := [.term, .emit [.operate .not]], unit }
  | .identifier name => some { pending := [.nameRest name token.location], unit }
  | _ => none

/-- The way on from a name in an expression at the mark after it, if it is not a plain variable. -/
def takeNameRest (unit : ClassUnit) (name : String) (location : Location) :
    Char → Option (Except Fault Move)
  | '.' => some (.ok { pending := [.calleeMember name location], unit })
  | '(' =>
    let (code, rest) := ownCall unit name
    some (.ok { code, pending := [rest], unit })
  | '[' => some do
    let target ← unit.lookup location name
    checkIndexable target location
    return {
      code := [target.push]
      pending := expression ++
        [.symbol ']', .emit [.operate .add, .pop .pointer 1, .push .that 0]]
      unit }
  | _ => none

/-- The way on when the next token belongs to a part, and nothing when it does not. -/
def take? (unit : ClassUnit) (token : Token) : Pending → Option (Except Fault Move)
  | .emit _ => none
  | .keyword word => if token.kind = .keyword word then some (.ok { unit }) else none
  | .symbol c => if token.kind = .symbol c then some (.ok { unit }) else none
  | .className => token.kind.identifier?.map fun name => .ok { unit := { unit with name } }
  | .classVariables =>
    match token.kind with
    | .keyword .static => some (.ok { pending := [.variableType .static, .classVariables], unit })
    | .keyword .field => some (.ok { pending := [.variableType .field, .classVariables], unit })
    | _ => none
  | .subroutines =>
    match token.kind with
    | .symbol '}' => some (.ok { unit })
    | .keyword word => (SubroutineKind.ofKeyword? word).map fun kind => do
      let unit ← unit.startSubroutine token.location kind
      return { pending := [.returnType kind, .subroutines], unit }
    | _ => none
  | .variableType kind => token.kind.type?.map fun type =>
    .ok { pending := [.variableName kind type token.location], unit }
  | .variableName kind type typeLocation => token.kind.identifier?.map fun name => do
    let unit ← unit.declare token.location name type kind
    return { pending := [.variableEnd kind type typeLocation], unit }
  | .variableEnd kind type typeLocation =>
    token.kind.symbol?.bind (takeVariableEnd unit kind type typeLocation)
  | .returnType kind =>
    if token.kind = .keyword .void then
      some (.ok { pending := [.subroutineName kind true], unit })
    else token.kind.type?.map fun _ => .ok { pending := [.subroutineName kind false], unit }
  | .subroutineName kind isVoid => token.kind.identifier?.map fun name => .ok
      { pending := [.symbol '(', .parameters, .symbol '{', .localVariables]
        unit := { unit with subroutine := ⟨kind, isVoid, name⟩ } }
  | .parameters =>
    if token.kind = .symbol ')' then some (.ok { unit })
    else token.kind.type?.map fun type => .ok { pending := [.parameterName type], unit }
  | .parameterType => token.kind.type?.map fun type =>
    .ok { pending := [.parameterName type], unit }
  | .parameterName type => token.kind.identifier?.map fun name => do
    let unit ← unit.declare token.location name type .argument
    return { pending := [.parameterEnd], unit }
  | .parameterEnd =>
    match token.kind with
    | .symbol ',' => some (.ok { pending := [.parameterType], unit })
    | .symbol ')' => some (.ok { unit })
    | _ => none
  | .localVariables =>
    if token.kind = .keyword .var then
      some (.ok { pending := [.variableType .localVar, .localVariables], unit })
    else none
  | .statements => (token.kind.keyword?.bind (takeStatement unit)).map .ok
  | .letTarget => token.kind.identifier?.map fun name =>
    match unit.symbols.get? name with
    | some target => .ok { pending := [.letPlace target token.location], unit }
    | none => .error ⟨token.location, .semantic (.undeclaredTarget name)⟩
  | .letPlace target location =>
    if token.kind = .symbol '[' then some do
      checkIndexable target location
      return {
        code := [target.push]
        pending := expression ++ [.symbol ']', .emit [.operate .add]] ++ assignment storeElement
        unit }
    else none
  | .elseBranch label =>
    if token.kind = .keyword .«else» then
      let (finish, unit) := unit.newLabel
      some (.ok
        { code := [.goto finish, .label label]
          pending := block ++ [.emit [.label finish]]
          unit })
    else none
  | .returnValue =>
    if token.kind = .symbol ';' then some (.ok { code := unit.bareReturn, unit }) else none
  | .callee => token.kind.identifier?.map fun name =>
    .ok { pending := [.callRest name token.location], unit }
  | .callRest name location =>
    if token.kind = .symbol '.' then
      some (.ok { pending := [.calleeMember name location], unit })
    else none
  | .calleeMember name location => token.kind.identifier?.map fun member => do
    let (code, rest) ← memberCall unit location name member
    return { code, pending := [.symbol '(', rest], unit }
  | .arguments target passed =>
    if token.kind = .symbol ')' then some (.ok { code := [.call target passed], unit }) else none
  | .argumentEnd target passed =>
    match token.kind with
    | .symbol ',' =>
      some (.ok { pending := expression ++ [.argumentEnd target (passed + 1)], unit })
    | .symbol ')' => some (.ok { code := [.call target passed], unit })
    | _ => none
  | .term => (takeTerm unit token).map .ok
  | .nameRest name location => token.kind.symbol?.bind (takeNameRest unit name location)
  | .operators => (token.kind.symbol?.bind operatorCode?).map fun code =>
    .ok { pending := [.term, .emit code, .operators], unit }

/-- What becomes of a part when the next token does not belong to it, or when no token is left. -/
inductive Leave where
  /-- The part may be missing or end here. -/
  | go (move : Move)
  /-- A token of the described form is required. -/
  | refuse (expected : String)
  | fail (fault : Fault)

/-- What becomes of a part that takes no token; the token in question has no say in it. -/
def leave (unit : ClassUnit) : Pending → Leave
  | .emit code => .go { code, unit }
  | .keyword word => .refuse s!"'{word.text}'"
  | .symbol c => .refuse s!"'{c}'"
  | .className | .variableName .. | .subroutineName .. | .parameterName _ | .letTarget | .callee
  | .calleeMember .. => .refuse "identifier"
  | .variableType _ | .returnType _ | .parameters | .parameterType => .refuse "type"
  | .classVariables => .go { pending := [.subroutines], unit }
  | .subroutines => .refuse "'constructor' or 'function' or 'method'"
  | .variableEnd .. => .refuse "',' or ';'"
  | .parameterEnd | .argumentEnd .. => .refuse "')'"
  | .localVariables =>
    .go { code := unit.opening, pending := [.statements, .symbol '}'], unit }
  | .statements | .operators => .go { unit }
  | .letPlace target _ => .go { pending := assignment [target.pop], unit }
  | .elseBranch label => .go { code := [.label label], unit }
  | .returnValue => .go { pending := expression ++ [.symbol ';', .emit [.ret]], unit }
  | .callRest name _ =>
    let (code, rest) := ownCall unit name
    .go { code, pending := [.symbol '(', rest], unit }
  | .arguments target passed =>
    .go { pending := expression ++ [.argumentEnd target (passed + 1)], unit }
  | .term => .refuse "expression"
  | .nameRest name location =>
    match unit.lookup location name with
    | .ok target => .go { code := [target.push], unit }
    | .error fault => .fail fault

end Pending

end JackCompiler
