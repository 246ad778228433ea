import JackCompiler.Proofs.Compilation.Soundness
import JackCompiler.Proofs.Tree.Unambiguity

/-! Whatever the pending parts of a class stand for is taken for them. -/

namespace JackCompiler

namespace Pending

/-- In front of the given rest, the parts take tokens of the given kinds and emit the code. -/
def Takes (parts : List Pending) (unit : ClassUnit) (kinds : List TokenKind) (code : List Command)
    (after : ClassUnit) (rest : List TokenKind) : Prop :=
  ∀ (location : Location) (tokens : List Token) (behind : List Pending),
    tokens.map Token.kind = kinds ++ rest → ∃ left, left.map Token.kind = rest ∧
      Compilation.Steps (.ok location) ⟨tokens, parts ++ behind, unit⟩ code ⟨left, behind, after⟩

section

variable {part : Pending} {parts others : List Pending} {unit next after : ClassUnit}
  {kind : TokenKind} {kinds more rest : List TokenKind} {code further : List Command}

/-- No parts take no tokens. -/
theorem Takes.nil : Takes [] unit [] [] unit rest := by
  intro location tokens behind spelled
  exact ⟨tokens, spelled, .refl _⟩

/-- Parts take their tokens one behind the other. -/
theorem Takes.append (first : Takes parts unit kinds code next (more ++ rest))
    (second : Takes others next more further after rest) :
    Takes (parts ++ others) unit (kinds ++ more) (code ++ further) after rest := by
  -- The second run starts from what the first one has left.
  intro location tokens behind spelled
  obtain ⟨between, spelled, steps⟩ := first location tokens (others ++ behind) (by simp [spelled])
  obtain ⟨left, spelled, steps'⟩ := second location between behind spelled
  rw [List.append_assoc]
  exact ⟨left, spelled, steps.trans steps'⟩

/-- A part that takes a token goes on with the parts that it brings. -/
theorem Takes.take (taken : ∀ token : Token, token.kind = kind → ∃ pending next,
      part.take? unit token = some (.ok ⟨code, pending, next⟩) ∧
        Takes pending next kinds further after rest) :
    Takes [part] unit (kind :: kinds) (code ++ further) after rest := by
  -- There is a first token, because the tokens are spelled with its kind in front.
  intro location tokens behind spelled
  cases tokens with
  | nil => simp at spelled
  | cons token tokens =>
    simp only [List.map_cons, List.cons_append, List.cons.injEq] at spelled
    obtain ⟨pending, next, accepted, takes⟩ := taken token spelled.1
    obtain ⟨left, spelled, steps⟩ := takes location tokens behind spelled.2
    exact ⟨left, spelled, .take accepted steps⟩

/-- A part that takes a token may go on without emitting any code for it. -/
theorem Takes.read (taken : ∀ token : Token, token.kind = kind → ∃ pending next,
      part.take? unit token = some (.ok { pending, unit := next }) ∧
        Takes pending next kinds code after rest) :
    Takes [part] unit (kind :: kinds) code after rest :=
  .take taken

/-- A part may be complete with a single token. -/
theorem Takes.only (taken : ∀ token : Token, token.kind = kind →
      part.take? unit token = some (.ok { code, unit := after })) :
    Takes [part] unit [kind] code after rest := by
  -- A part that is complete brings no others.
  rw [← List.append_nil code]
  exact .take fun token spelled => ⟨[], after, taken token spelled, .nil⟩

/-- A part to which the next token does not belong goes on with the parts that it brings. -/
theorem Takes.leave {pending : List Pending} (left : part.leave unit = .go ⟨code, pending, next⟩)
    (unread : ∀ token : Token, (kinds ++ rest).head? = some token.kind →
      part.take? unit token = none)
    (takes : Takes pending next kinds further after rest) :
    Takes [part] unit kinds (code ++ further) after rest := by
  -- The first token that is left belongs to what is read in the place of the part.
  intro location tokens behind spelled
  obtain ⟨remaining, same, steps⟩ := takes location tokens behind spelled
  refine ⟨remaining, same, .leave ?_ left steps⟩
  intro token first
  apply unread
  rw [← spelled, List.head?_map, first]
  rfl

/-- A part to which the next token does not belong may make way without any code. -/
theorem Takes.pass {pending : List Pending} (left : part.leave unit = .go { pending, unit := next })
    (unread : ∀ token : Token, (kinds ++ rest).head? = some token.kind →
      part.take? unit token = none)
    (takes : Takes pending next kinds code after rest) : Takes [part] unit kinds code after rest :=
  .leave left unread takes

/-- A part may be complete without a token. -/
theorem Takes.skip (left : part.leave unit = .go { code, unit := after })
    (unread : ∀ token : Token, rest.head? = some token.kind → part.take? unit token = none) :
    Takes [part] unit [] code after rest := by
  -- A part that is skipped brings no others.
  rw [← List.append_nil code]
  exact .leave left unread .nil

/-- A mark takes its token. -/
theorem Takes.symbol (c : Char) (takes : Takes parts unit kinds code after rest) :
    Takes (.symbol c :: parts) unit (.symbol c :: kinds) code after rest := by
  -- The mark is taken by itself, in front of the parts behind it.
  have mark : Takes [.symbol c] unit [.symbol c] [] unit (kinds ++ rest) :=
    .only fun token spelled => by simp [take?, spelled]
  exact mark.append takes

/-- Code that is due takes no token. -/
theorem Takes.emit (due : List Command) (takes : Takes parts unit kinds code after rest) :
    Takes (.emit due :: parts) unit kinds (due ++ code) after rest := by
  -- The code is emitted whatever token is next, in front of the parts behind it.
  have emitted : Takes [.emit due] unit [] due unit (kinds ++ rest) :=
    .skip rfl fun token _ => rfl
  exact emitted.append takes

/-- An expression is read up to the mark behind it. -/
theorem Takes.marked (c : Char) (mark : c ∈ [')', ']', ';', ','])
    (value : ∀ rest, EndsExpression rest → Takes expression unit kinds code unit rest)
    (takes : Takes parts unit more further after rest) :
    Takes (expression ++ .symbol c :: parts) unit (kinds ++ .symbol c :: more) (code ++ further)
      after rest :=
  (value _ (endsExpression_mark mark (more ++ rest))).append (takes.symbol c)

end

/-- Nothing but an operator carries an expression on. -/
theorem take?_operators_eq_none {unit : ClassUnit} {rest : List TokenKind} {token : Token}
    (ends : EndsExpression rest) (first : rest.head? = some token.kind) :
    operators.take? unit token = none := by
  -- A token that were taken would be the mark of an operator.
  refine Option.eq_none_iff_forall_ne_some.mpr fun move taken => ?_
  obtain ⟨code, found, -⟩ := Option.map_eq_some_iff.mp taken
  obtain ⟨c, spelled, found⟩ := Option.bind_eq_some_iff.mp found
  obtain ⟨operator, rfl, -⟩ := operatorCode?_eq_some found
  rw [TokenKind.symbol?_eq_some_iff.mp spelled] at first
  exact ends.2 operator first

/-- Nothing but one of three marks makes more of a name than a variable. -/
theorem take?_nameRest_eq_none {unit : ClassUnit} {name : String} {location : Location}
    {rest : List TokenKind} {token : Token} (ends : EndsName rest)
    (first : rest.head? = some token.kind) :
    (nameRest name location).take? unit token = none := by
  -- A token that were taken would be a dot, a parenthesis or a bracket.
  refine Option.eq_none_iff_forall_ne_some.mpr fun move taken => ?_
  obtain ⟨c, spelled, taken⟩ := Option.bind_eq_some_iff.mp taken
  rw [TokenKind.symbol?_eq_some_iff.mp spelled] at first
  unfold takeNameRest at taken
  split at taken
  · exact ends '.' (by decide) first
  · exact ends '(' (by decide) first
  · exact ends '[' (by decide) first
  · cases taken

/-- Nothing but five keywords starts one more statement. -/
theorem take?_statements_eq_none {unit : ClassUnit} {rest : List TokenKind} {token : Token}
    (ends : EndsStatements rest) (first : rest.head? = some token.kind) :
    statements.take? unit token = none := by
  -- A token that were taken would be the keyword of a statement.
  refine Option.eq_none_iff_forall_ne_some.mpr fun move taken => ?_
  obtain ⟨started, found, -⟩ := Option.map_eq_some_iff.mp taken
  obtain ⟨word, spelled, found⟩ := Option.bind_eq_some_iff.mp found
  rw [TokenKind.keyword?_eq_some_iff.mp spelled] at first
  refine ends word ?_ first
  unfold takeStatement at found
  split at found <;> first | decide | cases found

/-- A token belongs to no part that does not take its kind. -/
theorem unread_of_kind {part : Pending} {unit : ClassUnit} {kind : TokenKind}
    {rest : List TokenKind}
    (unread : ∀ token : Token, token.kind = kind → part.take? unit token = none) :
    ∀ token : Token, (kind :: rest).head? = some token.kind → part.take? unit token = none := by
  intro token same
  exact unread token (by simpa using same.symm)

/-- The first token of an expression belongs to no part that takes just two other marks. -/
theorem unread_of_expression {part : Pending} {unit : ClassUnit} (value : Expression)
    {rest : List TokenKind}
    (unread : ∀ token : Token, token.kind ≠ .symbol ')' → token.kind ≠ .symbol ';' →
      part.take? unit token = none) :
    ∀ token : Token, (value.kinds ++ rest).head? = some token.kind →
      part.take? unit token = none := by
  -- Whatever an expression starts with, it is none of the two marks.
  intro token same
  obtain ⟨kind, kinds, spelled, opens, goes⟩ := value.kinds_head
  obtain rfl : kind = token.kind := by simpa [spelled] using same
  exact unread token opens goes

/-- The code of a binary operator is found by its mark. -/
theorem operatorCode?_mark (operator : BinaryOperator) :
    operatorCode? operator.mark = some [operator.code] := by
  cases operator <;> rfl

/-- A call without a dot passes its arguments on, to whatever it starts with. -/
theorem ownCall_eq (unit : ClassUnit) (name : String) :
    ∃ code target passed, ownCall unit name = (code, .arguments target passed) ∧
      ∀ arguments : Arguments, (Call.own name arguments).code unit.context =
        code ++ (arguments.code unit.context ++ [.call target (arguments.count + passed)]) := by
  -- The object of a method counts as one more argument, in the call as in its tree.
  unfold ownCall
  split <;> rename_i object
  · refine ⟨_, _, _, rfl, fun arguments => ?_⟩
    simp [Call.code, ClassUnit.context, Context.member, ClassUnit.member, object]
  · refine ⟨_, _, _, rfl, fun arguments => ?_⟩
    simp [Call.code, ClassUnit.context, Context.member, ClassUnit.member, object]

/-- A call with a dot passes its arguments on, to whatever it starts with. -/
theorem memberCall_eq {unit : ClassUnit} {owner : String} (lawful : unit.context.MayOwnCall owner)
    (location : Location) (name : String) :
    ∃ code target passed,
      memberCall unit location owner name = .ok (code, .arguments target passed) ∧
      ∀ arguments : Arguments, (Call.member owner name arguments).code unit.context =
        code ++ (arguments.code unit.context ++ [.call target (arguments.count + passed)]) := by
  -- The receiver of a lawful call is no primitive value, so the check of its type succeeds.
  unfold memberCall
  split
  · rename_i undeclared
    refine ⟨_, _, _, rfl, fun arguments => ?_⟩
    simp [Call.code, ClassUnit.context, undeclared]
  · rename_i receiver found
    have object := mt isPrimitive_ofText?_iff.mp (lawful receiver found)
    rw [if_neg object]
    refine ⟨_, _, _, rfl, fun arguments => ?_⟩
    simp [Call.code, ClassUnit.context, found]

/-- A member is called on its owner with arguments that are taken, whatever they are passed to. -/
theorem Takes.calleeMember {unit : ClassUnit} {rest : List TokenKind} {owner name : String}
    {arguments : Arguments} {location : Location} (lawful : unit.context.MayOwnCall owner)
    (takes : ∀ target passed, Takes [.arguments target passed] unit
      (arguments.kinds ++ [.symbol ')'])
      (arguments.code unit.context ++ [.call target (arguments.count + passed)]) unit rest) :
    Takes [.calleeMember owner location] unit
      (.identifier name :: .symbol '(' :: arguments.kinds ++ [.symbol ')'])
      ((Call.member owner name arguments).code unit.context) unit rest := by
  -- The member and the parenthesis are taken, and the arguments are left to what is given.
  obtain ⟨code, target, passed, starts, coded⟩ := memberCall_eq lawful location name
  rw [coded arguments]
  refine .take fun token spelled => ⟨[.symbol '(', .arguments target passed], unit, ?_, ?_⟩
  · simp only [take?, spelled, TokenKind.identifier?, Option.map_some]
    exact congrArg some (bind_eq_ok_iff.mpr ⟨_, starts, rfl⟩)
  · exact (takes target passed).symbol '('

end Pending

open Pending

mutual

/-- The tokens of a lawful term are taken for it. -/
theorem Term.takes (term : Term) {unit : ClassUnit} {rest : List TokenKind}
    (lawful : term.Lawful unit.context) (ends : EndsName rest) :
    Takes [.term] unit term.kinds (term.code unit.context) unit rest := by
  -- Each form of a term is begun by its own token, and completed by the parts which that brings.
  cases term with
  | integer value => exact .only fun token spelled => by simp [take?, takeTerm, spelled, Term.code]
  | string body =>
    refine .only fun token spelled => ?_
    simp [take?, takeTerm, spelled, Term.code, stringCode_eq]
  | word constant =>
    refine .only fun token spelled => ?_
    cases constant <;>
      simp [take?, takeTerm, spelled, Term.code, WordConstant.keyword, WordConstant.code]
  | group inner =>
    refine .read fun token spelled => ⟨expression ++ [.symbol ')'], unit, ?_, ?_⟩
    · simp [take?, takeTerm, spelled]
    · have inside : Takes _ unit _ _ unit rest :=
        .marked ')' (by decide) (fun _ => Expression.takes inner lawful) .nil
      simpa [Term.code] using inside
  | unary operator operand =>
    refine .read fun token spelled => ⟨[.term, .emit [operator.code]], unit, ?_, ?_⟩
    · cases operator <;> simp [take?, takeTerm, spelled, UnaryOperator.mark, UnaryOperator.code]
    · have inside := (Term.takes operand lawful ends).append (.emit [operator.code] .nil)
      simpa [Term.code] using inside
  -- Nothing that follows belongs to the name, so it is left as a variable.
  | name name =>
    obtain ⟨target, found⟩ := lawful
    have code : (Term.name name).code unit.context = [target.push] := by
      simp [Term.code, Context.load, found]
    refine .read fun token spelled => ⟨[.nameRest name token.location], unit, ?_, ?_⟩
    · simp [take?, takeTerm, spelled]
    · rw [code]
      have known : unit.lookup token.location name = .ok target :=
        ClassUnit.lookup_eq_ok_iff.mpr found
      exact .skip (by simp [leave, known]) fun token first => take?_nameRest_eq_none ends first
  -- The bracket behind the name brings the index, once the array is found and checked.
  | element array index =>
    obtain ⟨⟨target, found, indexable⟩, lawful⟩ := lawful
    have code : (Term.element array index).code unit.context = [target.push] ++
        (index.code unit.context ++ [.operate .add, .pop .pointer 1, .push .that 0]) := by
      simp [Term.code, Context.load, found]
    refine .read fun token spelled => ⟨[.nameRest array token.location], unit, ?_, ?_⟩
    · simp [take?, takeTerm, spelled]
    · rw [code]
      refine .take fun mark spelled => ⟨expression ++
        [.symbol ']', .emit [.operate .add, .pop .pointer 1, .push .that 0]], unit, ?_, ?_⟩
      · have known : unit.lookup token.location array = .ok target :=
          ClassUnit.lookup_eq_ok_iff.mpr found
        have checked : checkIndexable target token.location = .ok () :=
          checkIndexable_eq_ok_iff.mpr indexable
        simp only [take?, spelled, TokenKind.symbol?, Option.bind_some, takeNameRest]
        exact congrArg some
          (bind_eq_ok_iff.mpr ⟨target, known, bind_eq_ok_iff.mpr ⟨(), checked, rfl⟩⟩)
      · have inside : Takes _ unit _ _ unit rest :=
          .marked ']' (by decide) (fun _ => Expression.takes index lawful)
            (.emit [.operate .add, .pop .pointer 1, .push .that 0] .nil)
        simpa using inside
  | call call => exact Call.takes call lawful
termination_by structural term

/-- The tokens of a lawful expression are taken for it. -/
theorem Expression.takes (value : Expression) {unit : ClassUnit} {rest : List TokenKind}
    (lawful : value.Lawful unit.context) (ends : EndsExpression rest) :
    Takes expression unit value.kinds (value.code unit.context) unit rest := by
  -- What follows the first term ends its name, be it an operator or the rest.
  cases value with
  | mk first operations =>
    exact (Term.takes first lawful.1 (ends.endsName operations)).append
      (Operations.takes operations lawful.2 ends)
termination_by structural value

/-- The tokens of lawful operations are taken for them. -/
theorem Operations.takes (operations : Operations) {unit : ClassUnit} {rest : List TokenKind}
    (lawful : operations.Lawful unit.context) (ends : EndsExpression rest) :
    Takes [.operators] unit operations.kinds (operations.code unit.context) unit rest := by
  -- The code of an operator is due behind its right operand.
  cases operations with
  | nil => exact .skip rfl fun token first => take?_operators_eq_none ends first
  | cons operator operand more =>
    refine .read fun token spelled => ⟨[.term, .emit [operator.code], .operators], unit, ?_, ?_⟩
    · simp [take?, spelled, TokenKind.symbol?, operatorCode?_mark]
    · have inside := (Term.takes operand lawful.1 (ends.endsName more)).append
        (.emit [operator.code] (Operations.takes more lawful.2 ends))
      simpa [Operations.code] using inside
termination_by structural operations

/-- The tokens of a lawful call are taken for it. -/
theorem Call.takes (call : Call) {unit : ClassUnit} {rest : List TokenKind}
    (lawful : call.Lawful unit.context) :
    Takes [.term] unit call.kinds (call.code unit.context) unit rest := by
  -- The mark behind the first name tells which form of call is taken.
  cases call with
  | own name arguments =>
    obtain ⟨code, target, passed, starts, coded⟩ := ownCall_eq unit name
    refine .read fun token spelled => ⟨[.nameRest name token.location], unit, ?_, ?_⟩
    · simp [take?, takeTerm, spelled]
    · rw [coded arguments]
      refine .take fun mark spelled => ⟨[.arguments target passed], unit, ?_, ?_⟩
      · simp [take?, spelled, TokenKind.symbol?, takeNameRest, starts]
      · exact Arguments.takes arguments target passed lawful
  | member owner name arguments =>
    refine .read fun token spelled => ⟨[.nameRest owner token.location], unit, ?_, ?_⟩
    · simp [take?, takeTerm, spelled]
    · refine .read fun dot spelled => ⟨[.calleeMember owner token.location], unit, ?_, ?_⟩
      · simp [take?, spelled, TokenKind.symbol?, takeNameRest]
      · exact .calleeMember lawful.1 fun target passed =>
          Arguments.takes arguments target passed lawful.2
termination_by structural call

/-- The tokens of lawful arguments are taken for them. -/
theorem Arguments.takes (arguments : Arguments) {unit : ClassUnit} {rest : List TokenKind}
    (target : String) (passed : Nat) (lawful : arguments.Lawful unit.context) :
    Takes [.arguments target passed] unit (arguments.kinds ++ [.symbol ')'])
      (arguments.code unit.context ++ [.call target (arguments.count + passed)]) unit rest := by
  cases arguments with
  | nil =>
    refine .only fun token spelled => ?_
    simp [take?, spelled, Arguments.code, Arguments.count]
  | cons first others =>
    have count : others.count + (passed + 1) = others.count + 1 + passed := by omega
    have inside : Takes _ unit _ _ unit rest :=
      (Expression.takes first lawful.1 (by simpa using endsExpression_arguments others rest)).append
        (Arguments.takesMore others target (passed + 1) lawful.2)
    -- The list of arguments is entered because no expression starts with a parenthesis.
    refine .pass rfl ?_ ?_
    · rw [Arguments.kinds, List.append_assoc, List.append_assoc]
      exact unread_of_expression first fun token opens _ => by simp [take?, opens]
    · simpa [Arguments.kinds, Arguments.code, Arguments.count, count] using inside
termination_by structural arguments

/-- The tokens of lawful arguments behind another one are taken for them. -/
theorem Arguments.takesMore (arguments : Arguments) {unit : ClassUnit} {rest : List TokenKind}
    (target : String) (passed : Nat) (lawful : arguments.Lawful unit.context) :
    Takes [.argumentEnd target passed] unit (arguments.moreKinds ++ [.symbol ')'])
      (arguments.code unit.context ++ [.call target (arguments.count + passed)]) unit rest := by
  cases arguments with
  | nil =>
    refine .only fun token spelled => ?_
    simp [take?, spelled, Arguments.code, Arguments.count]
  | cons first others =>
    have count : others.count + (passed + 1) = others.count + 1 + passed := by omega
    have inside : Takes _ unit _ _ unit rest :=
      (Expression.takes first lawful.1 (by simpa using endsExpression_arguments others rest)).append
        (Arguments.takesMore others target (passed + 1) lawful.2)
    refine .read fun token spelled =>
      ⟨expression ++ [.argumentEnd target (passed + 1)], unit, ?_, ?_⟩
    · simp [take?, spelled]
    · simpa [Arguments.moreKinds, Arguments.code, Arguments.count, count] using inside
termination_by structural arguments

end

/-- The tokens of a lawful call are taken for it where nothing but a call may stand. -/
theorem Call.takes_callee (call : Call) {unit : ClassUnit} {rest : List TokenKind}
    (lawful : call.Lawful unit.context) :
    Takes [.callee] unit call.kinds (call.code unit.context) unit rest := by
  -- Where nothing but a call may stand, a missing dot leaves a call of the class itself.
  cases call with
  | own name arguments =>
    obtain ⟨code, target, passed, starts, coded⟩ := ownCall_eq unit name
    refine .read fun token spelled => ⟨[.callRest name token.location], unit, ?_, ?_⟩
    · simp [take?, spelled, TokenKind.identifier?]
    · rw [coded arguments]
      refine .leave ?_ ?_ ((Arguments.takes arguments target passed lawful).symbol '(')
      · simp [Pending.leave, starts]
      · exact unread_of_kind fun mark spelled => by simp [take?, spelled]
  | member owner name arguments =>
    refine .read fun token spelled => ⟨[.callRest owner token.location], unit, ?_, ?_⟩
    · simp [take?, spelled, TokenKind.identifier?]
    · refine .read fun dot spelled => ⟨[.calleeMember owner token.location], unit, ?_, ?_⟩
      · simp [take?, spelled]
      · exact .calleeMember lawful.1 fun target passed =>
          Arguments.takes arguments target passed lawful.2

section

variable {parts : List Pending} {unit after : ClassUnit} {more rest : List TokenKind}
  {further : List Command}

/-- The value of an assignment is taken, and what stores it is emitted behind it. -/
theorem Expression.takes_assignment {value : Expression} (lawful : value.Lawful unit.context)
    (store : List Command) :
    Takes (assignment store) unit (.symbol '=' :: value.kinds ++ [.symbol ';'])
      (value.code unit.context ++ store) unit rest := by
  -- The semicolon ends the value, and what stores it is due behind that.
  have due : Takes [.emit store] unit [] (store ++ []) unit rest := .emit store .nil
  rw [List.append_nil] at due
  exact (Takes.marked ';' (by decide) (fun _ => value.takes lawful) due).symbol '='

/-- A condition is taken in its parentheses, and the jump is emitted behind it. -/
theorem Expression.takes_condition {value : Expression} (lawful : value.Lawful unit.context)
    (label : String) (takes : Takes parts unit more further after rest) :
    Takes (condition label ++ parts) unit (.symbol '(' :: value.kinds ++ .symbol ')' :: more)
      (value.code unit.context ++ .operate .not :: .ifGoto label :: further) after rest := by
  -- The parenthesis ends the condition, and its jump is due behind that.
  have inside := (Takes.marked ')' (by decide) (fun _ => value.takes lawful)
    (takes.emit [.operate .not, .ifGoto label])).symbol '('
  simpa [condition] using inside

/-- A block is taken in its braces. -/
theorem Statements.takes_block {body : Statements}
    (statements : ∀ rest, EndsStatements rest → Takes [.statements] unit body.kinds
      (body.code unit.context unit.labels) (unit.addLabels body.labels) rest)
    (takes : Takes parts (unit.addLabels body.labels) more further after rest) :
    Takes (block ++ parts) unit (.symbol '{' :: body.kinds ++ .symbol '}' :: more)
      (body.code unit.context unit.labels ++ further) after rest := by
  -- The brace ends the statements.
  have inside := ((statements _ (endsStatements_brace (more ++ rest))).append
    (takes.symbol '}')).symbol '{'
  simpa [block] using inside

/-- An assignment to a declared variable is taken as its place is, and then the statements are. -/
theorem takes_let {target : String} {symbol : Symbol} {kinds : List TokenKind}
    {code : List Command} (found : unit.symbols.get? target = some symbol)
    (place : ∀ location rest, Takes [.letPlace symbol location] unit kinds code unit rest)
    (takes : Takes [.statements] unit more further after rest) :
    Takes [.statements] unit (.keyword .«let» :: .identifier target :: kinds ++ more)
      (code ++ further) after rest := by
  -- The target is looked up as soon as it is named, before its place is read.
  refine .read fun token spelled => ⟨[.letTarget] ++ [.statements], unit, ?_, ?_⟩
  · simp [take?, spelled, TokenKind.keyword?, takeStatement]
  · refine .append (.read fun name spelled => ⟨[.letPlace symbol name.location], unit, ?_,
      place name.location _⟩) takes
    simp [take?, spelled, TokenKind.identifier?, found]

/-- A conditional is taken up to its first block, and then whatever follows the block is. -/
theorem takes_if {value : Expression} {body : Statements} (lawful : value.Lawful unit.context)
    (statements : ∀ rest, EndsStatements rest → Takes [.statements] (unit.addLabels 1) body.kinds
      (body.code unit.context (unit.labels + 1)) ((unit.addLabels 1).addLabels body.labels) rest)
    (takes : Takes [.elseBranch (unit.context.label unit.labels), .statements]
      ((unit.addLabels 1).addLabels body.labels) more further after rest) :
    Takes [.statements] unit
      (.keyword .«if» :: .symbol '(' :: value.kinds ++
        .symbol ')' :: .symbol '{' :: body.kinds ++ .symbol '}' :: more)
      (value.code unit.context ++ .operate .not :: .ifGoto (unit.context.label unit.labels) ::
        body.code unit.context (unit.labels + 1) ++ further) after rest := by
  -- The label behind the first block is taken before the condition is read.
  let label := unit.context.label unit.labels
  have lawful : value.Lawful (unit.addLabels 1).context := lawful
  have inside := Expression.takes_condition lawful label (Statements.takes_block statements takes)
  refine .read fun token spelled => ⟨condition label ++ (block ++
    [.elseBranch label, .statements]), unit.addLabels 1, ?_, by simpa using inside⟩
  simp [take?, spelled, TokenKind.keyword?, takeStatement, ClassUnit.newLabel_eq, label]

/-- The second block of a conditional is taken behind its keyword. -/
theorem takes_else {otherwise : Statements} (label : String)
    (statements : ∀ rest, EndsStatements rest → Takes [.statements] (unit.addLabels 1)
      otherwise.kinds (otherwise.code unit.context (unit.labels + 1))
      ((unit.addLabels 1).addLabels otherwise.labels) rest) :
    Takes [.elseBranch label] unit
      (.keyword .«else» :: .symbol '{' :: otherwise.kinds ++ [.symbol '}'])
      ([.goto (unit.context.label unit.labels), .label label] ++
        (otherwise.code unit.context (unit.labels + 1) ++
          [.label (unit.context.label unit.labels)]))
      ((unit.addLabels 1).addLabels otherwise.labels) rest := by
  -- The label behind the second block is taken once the first block is complete.
  let finish := unit.context.label unit.labels
  have due : Takes [.emit [.label finish]] ((unit.addLabels 1).addLabels otherwise.labels) []
      [.label finish] _ rest := .skip rfl fun _ _ => rfl
  have inside := Statements.takes_block statements due
  refine .take fun token spelled => ⟨block ++ [.emit [.label finish]], unit.addLabels 1, ?_,
    by simpa using inside⟩
  simp [take?, spelled, ClassUnit.newLabel_eq, finish]

/-- A loop is taken in one with the statements behind it. -/
theorem takes_while {value : Expression} {body : Statements} (lawful : value.Lawful unit.context)
    (statements : ∀ rest, EndsStatements rest → Takes [.statements] (unit.addLabels 2) body.kinds
      (body.code unit.context (unit.labels + 2)) ((unit.addLabels 2).addLabels body.labels) rest)
    (takes : Takes [.statements] ((unit.addLabels 2).addLabels body.labels) more further after
      rest) :
    Takes [.statements] unit
      (.keyword .«while» :: .symbol '(' :: value.kinds ++
        .symbol ')' :: .symbol '{' :: body.kinds ++ .symbol '}' :: more)
      ([.label (unit.context.label unit.labels)] ++ (value.code unit.context ++
        .operate .not :: .ifGoto (unit.context.label (unit.labels + 1)) ::
        (body.code unit.context (unit.labels + 2) ++ ([.goto (unit.context.label unit.labels),
          .label (unit.context.label (unit.labels + 1))] ++ further)))) after rest := by
  -- Both labels are taken before the condition is read.
  let top := unit.context.label unit.labels
  let bottom := unit.context.label (unit.labels + 1)
  have lawful : value.Lawful (unit.addLabels 2).context := lawful
  have inside := Expression.takes_condition lawful bottom
    (Statements.takes_block statements (takes.emit [.goto top, .label bottom]))
  refine .take fun token spelled => ⟨condition bottom ++ (block ++
    [.emit [.goto top, .label bottom], .statements]), unit.addLabels 2, ?_, by simpa using inside⟩
  simp [take?, spelled, TokenKind.keyword?, takeStatement, ClassUnit.newLabel_eq, top, bottom]

end

mutual

/-- The tokens of a lawful statement, and of those behind it, are taken for statements. -/
theorem Statement.takes (statement : Statement) {unit after : ClassUnit}
    {kinds rest : List TokenKind} {code : List Command} (lawful : statement.Lawful unit.context)
    (behind : Takes [.statements] (unit.addLabels statement.labels) kinds code after rest)
    (single : (kinds ++ rest).head? ≠ some (.keyword .«else»)) :
    Takes [.statements] unit (statement.kinds ++ kinds)
      (statement.code unit.context unit.labels ++ code) after rest := by
  -- The statements behind are given, as what is pending behind a conditional is among them.
  cases statement with
  | assign target value =>
    obtain ⟨⟨symbol, found⟩, lawful⟩ := lawful
    have code : (Statement.assign target value).code unit.context unit.labels =
        value.code unit.context ++ [symbol.pop] := by
      simp [Statement.code, Context.store, found]
    rw [code]
    refine takes_let found (fun location rest => ?_) behind
    exact .pass rfl (unread_of_kind fun token spelled => by simp [take?, spelled])
      (Expression.takes_assignment lawful [symbol.pop])
  | assignElement array index value =>
    obtain ⟨⟨symbol, found, indexable⟩, lawful, lawful'⟩ := lawful
    have code : (Statement.assignElement array index value).code unit.context unit.labels =
        [symbol.push] ++ (index.code unit.context ++
          ([.operate .add] ++ (value.code unit.context ++ storeElement))) := by
      simp [Statement.code, Context.load, found, storeElement]
    rw [code]
    refine takes_let found (fun location rest => ?_) behind
    have inside : Takes _ unit _ _ unit rest := .marked ']' (by decide)
      (fun _ => index.takes lawful)
      ((Expression.takes_assignment lawful' storeElement).emit [.operate .add])
    refine .take fun mark spelled => ⟨expression ++ [.symbol ']', .emit [.operate .add]] ++
      assignment storeElement, unit, ?_, by simpa using inside⟩
    have checked : checkIndexable symbol location = .ok () := checkIndexable_eq_ok_iff.mpr indexable
    simp only [take?, spelled, if_pos]
    exact congrArg some (bind_eq_ok_iff.mpr ⟨(), checked, rfl⟩)
  -- Without an `else`, the pending branch is left when the statements behind are begun.
  | ifThen condition body =>
    let label := unit.context.label unit.labels
    have lawful' : body.Lawful (unit.addLabels 1).context := lawful.2
    have count : unit.addLabels (Statement.ifThen condition body).labels =
        (unit.addLabels 1).addLabels body.labels := by
      simp [Statement.labels, Nat.add_comm]
    rw [count] at behind
    let between := (unit.addLabels 1).addLabels body.labels
    have missing : Takes [.elseBranch label] between [] [.label label] between (kinds ++ rest) := by
      refine .skip rfl fun token first => ?_
      have other : token.kind ≠ .keyword .«else» := fun same => single (by rw [first, same])
      simp [take?, other]
    have whole := takes_if lawful.1 (fun _ => Statements.takes body lawful') (missing.append behind)
    simpa [Statement.kinds, Statement.code] using whole
  | ifThenElse condition body otherwise =>
    let label := unit.context.label unit.labels
    let between := (unit.addLabels 1).addLabels body.labels
    have lawful' : body.Lawful (unit.addLabels 1).context := lawful.2.1
    have lawfulElse : otherwise.Lawful (between.addLabels 1).context := lawful.2.2
    have count : unit.addLabels (Statement.ifThenElse condition body otherwise).labels =
        (between.addLabels 1).addLabels otherwise.labels := by
      simp only [between, Statement.labels, ClassUnit.addLabels_addLabels]
      congr 1
      omega
    rw [count] at behind
    have branch := (takes_else label (fun _ => Statements.takes otherwise lawfulElse)).append behind
    have whole := takes_if lawful.1 (fun _ => Statements.takes body lawful') branch
    simpa [Statement.kinds, Statement.code, between, label, Nat.add_assoc] using whole
  | whileDo condition body =>
    have lawful' : body.Lawful (unit.addLabels 2).context := lawful.2
    have count : unit.addLabels (Statement.whileDo condition body).labels =
        (unit.addLabels 2).addLabels body.labels := by
      simp [Statement.labels, Nat.add_comm]
    rw [count] at behind
    have whole := takes_while lawful.1 (fun _ => Statements.takes body lawful') behind
    simpa [Statement.kinds, Statement.code] using whole
  | call call =>
    refine .read fun token spelled =>
      ⟨[.callee] ++ [.symbol ';', .emit [.pop .temp 0], .statements], unit, ?_, ?_⟩
    · simp [take?, spelled, TokenKind.keyword?, takeStatement]
    · have inside := (call.takes_callee lawful).append ((behind.emit [.pop .temp 0]).symbol ';')
      simpa [Statement.code, Statement.labels] using inside
  | returnNothing =>
    have behind : Takes [.statements] unit kinds code after rest := behind
    refine .read fun token spelled => ⟨[.returnValue] ++ [.statements], unit, ?_, ?_⟩
    · simp [take?, spelled, TokenKind.keyword?, takeStatement]
    · refine .append (.only fun mark spelled => ?_) behind
      simp only [take?, spelled, if_pos]
      rfl
  | returnValue value =>
    have behind : Takes [.statements] unit kinds code after rest := behind
    have inside : Takes _ unit _ _ unit (kinds ++ rest) := .marked ';' (by decide)
      (fun _ => value.takes lawful) (.emit [.ret] .nil)
    have result : Takes [.returnValue] unit (value.kinds ++ [.symbol ';'])
        (value.code unit.context ++ [.ret]) unit (kinds ++ rest) := by
      refine .pass rfl ?_ (by simpa using inside)
      rw [List.append_assoc]
      exact unread_of_expression value fun token _ goes => by simp [take?, goes]
    refine .read fun token spelled => ⟨[.returnValue] ++ [.statements], unit, ?_, ?_⟩
    · simp [take?, spelled, TokenKind.keyword?, takeStatement]
    · exact result.append behind
termination_by structural statement

/-- The tokens of lawful statements are taken for them. -/
theorem Statements.takes (statements : Statements) {unit : ClassUnit} {rest : List TokenKind}
    (lawful : statements.Lawful unit.context) (ends : EndsStatements rest) :
    Takes [.statements] unit statements.kinds (statements.code unit.context unit.labels)
      (unit.addLabels statements.labels) rest := by
  -- The statements are taken from the last one, so that each finds those behind it taken.
  cases statements with
  | nil => exact .skip rfl fun token first => take?_statements_eq_none ends first
  | cons first more =>
    have lawful' : more.Lawful (unit.addLabels first.labels).context := lawful.2
    have behind := Statements.takes more lawful' ends
    rw [ClassUnit.addLabels_addLabels] at behind
    exact Statement.takes first lawful.1 behind (ends.not_else more)
termination_by structural statements

end

end JackCompiler
