import JackCompiler.Proofs.Compilation.Faults
import JackCompiler.Proofs.Compilation.Phrases
import JackCompiler.Proofs.Compilation.Correctness
import JackCompiler.Proofs.Token.Scanned

/-! A syntactic fault is reported at the first token with which no class goes on. -/

namespace JackCompiler

namespace Pending

section

variable {part : Pending} {rest : List Pending} {unit : ClassUnit} {token : Token} {move : Move}
  {kinds : List TokenKind}

/-- Tokens that complete the part, and no more of them than it takes. -/
def completion : Pending → List TokenKind
  | .emit _ | .statements | .elseBranch _ | .operators | .nameRest .. => []
  | .keyword word => [.keyword word]
  | .symbol c => [.symbol c]
  | .className => [.identifier "x"]
  | .classVariables | .subroutines | .localVariables => [.symbol '}']
  | .variableType _ => [.identifier "x", .identifier "x", .symbol ';']
  | .variableName .. => [.identifier "x", .symbol ';']
  | .variableEnd .. | .returnValue => [.symbol ';']
  | .returnType _ => [.keyword .void, .identifier "x", .symbol '(', .symbol ')', .symbol '{',
    .symbol '}']
  | .subroutineName .. => [.identifier "x", .symbol '(', .symbol ')', .symbol '{', .symbol '}']
  | .parameters | .parameterEnd | .arguments .. | .argumentEnd .. => [.symbol ')']
  | .parameterType => [.identifier "x", .identifier "x", .symbol ')']
  | .parameterName _ => [.identifier "x", .symbol ')']
  | .letTarget => [.identifier "x", .symbol '=', .integer 0, .symbol ';']
  | .letPlace .. => [.symbol '=', .integer 0, .symbol ';']
  | .callee | .calleeMember .. => [.identifier "x", .symbol '(', .symbol ')']
  | .callRest .. => [.symbol '(', .symbol ')']
  | .term => [.integer 0]

/-- Every part stands for the tokens that complete it. -/
theorem derives_completion (part : Pending) : part.Derives part.completion := by
  cases part with
  | emit _ | keyword _ | symbol _ => exact rfl
  | className => exact ⟨"x", rfl⟩
  | classVariables => exact ⟨[], [], rfl⟩
  | subroutines | parameters | variableEnd | parameterEnd => exact ⟨[], rfl⟩
  | variableType => exact ⟨⟨.named "x", "x", []⟩, rfl⟩
  | variableName | parameterName => exact ⟨"x", [], rfl⟩
  | returnType | subroutineName => exact ⟨⟨.function, none, "x", [], [], .nil⟩, rfl⟩
  | parameterType => exact ⟨⟨.named "x", "x"⟩, [], rfl⟩
  | localVariables => exact ⟨[], .nil, rfl⟩
  | statements | arguments | argumentEnd | operators => exact ⟨.nil, rfl⟩
  | letTarget => exact ⟨.assign "x" (.mk (.integer 0) .nil), rfl⟩
  | letPlace => exact .inl ⟨.mk (.integer 0) .nil, rfl⟩
  | elseBranch => exact .inl rfl
  | returnValue => exact ⟨.returnNothing, rfl⟩
  | callee => exact ⟨.own "x" .nil, rfl⟩
  | callRest name => exact ⟨.own name .nil, rfl⟩
  | calleeMember name => exact ⟨.member name "x" .nil, rfl⟩
  | term => exact ⟨.integer 0, rfl⟩
  | nameRest name => exact ⟨.name name, rfl⟩

/-- The tokens that complete a part can be written. -/
theorem formed_completion (part : Pending) : ∀ kind ∈ part.completion, kind.Formed := by
  have named : IsName "x" := ⟨⟨'x', [], rfl, by decide, nofun⟩, by rintro ⟨⟩ <;> decide⟩
  cases part <;> simp [completion, TokenKind.Formed, named]

/-- Parts that wait for one another are completed one behind the other. -/
theorem derivesAll_completion (pending : List Pending) :
    DerivesAll pending (pending.flatMap completion) := by
  induction pending with
  | nil => rfl
  | cons part rest ih =>
    exact ⟨part.completion, rest.flatMap completion, rfl, part.derives_completion, ih⟩

/-- What follows does not carry the part on, if that may end without another token. -/
def EndsAt (part : Pending) (kinds : List TokenKind) : Prop :=
  match part with
  | .term | .nameRest .. => EndsName kinds
  | .operators => EndsExpression kinds
  | .statements => EndsStatements kinds
  | .elseBranch _ => kinds.head? ≠ some (.keyword .«else»)
  | _ => True

/-- A part that stands for no tokens does not take those that follow it. -/
theorem not_endsAt_of_take (taken : part.take? unit token = some (.ok move))
    (empty : part.Derives []) : ¬part.EndsAt (token.kind :: kinds) := by
  intro ends
  cases part
  case statements =>
    obtain ⟨_, started, -⟩ := Option.map_eq_some_iff.mp taken
    obtain ⟨word, opened, started⟩ := Option.bind_eq_some_iff.mp started
    refine ends word ?_ (by rw [TokenKind.keyword?_eq_some_iff.mp opened]; rfl)
    unfold takeStatement at started
    split at started <;> first | decide | cases started
  case elseBranch =>
    simp only [take?, Option.ite_none_right_eq_some] at taken
    exact ends (congrArg some taken.1)
  case nameRest =>
    obtain ⟨c, marked, taken⟩ := Option.bind_eq_some_iff.mp taken
    refine ends c ?_ (by rw [TokenKind.symbol?_eq_some_iff.mp marked]; rfl)
    unfold takeNameRest at taken
    split at taken <;> first | decide | cases taken
  case operators =>
    obtain ⟨code, coded, -⟩ := Option.map_eq_some_iff.mp taken
    obtain ⟨c, marked, coded⟩ := Option.bind_eq_some_iff.mp coded
    obtain ⟨operator, rfl, -⟩ := operatorCode?_eq_some coded
    exact ends.2 operator (by rw [TokenKind.symbol?_eq_some_iff.mp marked]; rfl)
  -- All other parts stand for at least one token.
  case emit => cases taken
  case term =>
    obtain ⟨term, same⟩ := empty
    obtain ⟨kind, inner, opened, -⟩ := term.kinds_head
    cases same.trans opened
  case callee =>
    obtain ⟨call, same⟩ := empty
    obtain ⟨name, c, inner, opened, -⟩ := call.kinds_head
    cases same.trans opened
  case letTarget | returnValue =>
    obtain ⟨statement, same⟩ := empty
    cases statement <;> simp [Statement.kinds] at same
  case callRest | calleeMember =>
    obtain ⟨_ | _, same⟩ := empty <;> simp [Call.kinds] at same
  all_goals simp [Derives, VariableList.kinds, Parameter.allKinds, Parameter.kinds] at empty

/-- Each of the parts ends where those behind it may start. -/
def Apart : List Pending → Prop
  | [] => True
  | part :: rest => (∀ kinds, DerivesAll rest kinds → part.EndsAt kinds) ∧ Apart rest

/-- An expression ends in front of parts that do not carry it on. -/
theorem apart_expression (ends : ∀ kinds, DerivesAll rest kinds → EndsExpression kinds)
    (apart : Apart rest) : Apart (expression ++ rest) := by
  refine ⟨?_, ends, apart⟩
  rintro _ ⟨_, more, rfl, ⟨operations, rfl⟩, others⟩
  exact (ends more others).endsName operations

/-- An expression ends at the mark behind it. -/
theorem apart_expression_mark {c : Char} (mark : c ∈ [')', ']', ';', ',']) (apart : Apart rest) :
    Apart (expression ++ .symbol c :: rest) := by
  refine apart_expression ?_ ⟨fun _ _ => trivial, apart⟩
  intro kinds derives
  obtain ⟨more, rfl, -⟩ := derivesAll_symbol_iff.mp derives
  exact endsExpression_mark mark more

/-- An argument ends at a comma, or at the parenthesis behind the last one. -/
theorem apart_argument {target : String} {passed : Nat} (apart : Apart rest) :
    Apart (expression ++ .argumentEnd target passed :: rest) := by
  refine apart_expression ?_ ⟨fun _ _ => trivial, apart⟩
  rintro _ ⟨_, more, rfl, ⟨arguments, rfl⟩, -⟩
  simpa using endsExpression_arguments arguments more

/-- A condition ends at its closing parenthesis. -/
theorem apart_condition {label : String} (apart : Apart rest) :
    Apart (condition label ++ rest) := by
  have inside : Apart (expression ++ .symbol ')' :: .emit [.operate .not, .ifGoto label] :: rest) :=
    apart_expression_mark (by decide) ⟨fun _ _ => trivial, apart⟩
  exact ⟨fun _ _ => trivial, inside⟩

/-- The statements of a block end at its closing brace. -/
theorem apart_block (apart : Apart rest) : Apart (block ++ rest) := by
  refine ⟨fun _ _ => trivial, ?_, fun _ _ => trivial, apart⟩
  intro kinds derives
  obtain ⟨more, rfl, -⟩ := derivesAll_symbol_iff.mp derives
  exact endsStatements_brace more

/-- The value of an assignment ends at its semicolon. -/
theorem apart_assignment {code : List Command} (apart : Apart rest) :
    Apart (assignment code ++ rest) := by
  have inside : Apart (expression ++ .symbol ';' :: .emit code :: rest) :=
    apart_expression_mark (by decide) ⟨fun _ _ => trivial, apart⟩
  exact ⟨fun _ _ => trivial, inside⟩

/-- The arguments of a call stand in front of whatever follows the call. -/
theorem apart_of_weight {part : Pending} (four : part.weight = 4) (apart : Apart rest) :
    Apart (part :: rest) := by
  refine ⟨fun _ _ => ?_, apart⟩
  cases part <;> first | trivial | simp [weight] at four

/-- The parts of a way on end where the parts behind them may start. -/
private abbrev KeepsApart (rest : List Pending) : Option (Except Fault Move) → Prop :=
  GoesOn fun move => Apart (move.pending ++ rest)

/-- Parts that require a token are apart from any others. -/
private theorem keepsApart_move
    (apart : Apart (move.pending ++ rest) := by simpa [Apart, EndsAt]) :
    KeepsApart rest (some (.ok move)) :=
  goesOn_move apart

/-- A term in the place of another one ends where that does, and so does the name it starts with. -/
private theorem keepsApart_term (apart : Apart (.term :: rest)) :
    KeepsApart rest ((takeTerm unit token).map .ok) := by
  have behind : Apart rest := apart.2
  unfold takeTerm
  split
  case h_7 =>
    exact goesOn_move (by simpa using apart_expression_mark (by decide) behind)
  case h_8 | h_9 =>
    -- The code of the operator is due behind its operand.
    refine goesOn_move ⟨fun kinds derives => ?_, fun _ _ => trivial, behind⟩
    exact apart.1 kinds (derivesAll_emit_iff.mp derives)
  case h_10 => exact goesOn_move ⟨apart.1, behind⟩
  case h_11 => exact goesOn_none
  all_goals exact goesOn_move behind

/-- The parts of a statement end in front of the statements behind it. -/
private theorem keepsApart_statement (word : Keyword) (apart : Apart (.statements :: rest)) :
    KeepsApart rest ((takeStatement unit word).map .ok) := by
  have behind : Apart rest := apart.2
  cases word
  case «let» | «do» | «return» =>
    exact goesOn_move ⟨fun _ _ => trivial, by simpa [Apart, EndsAt] using apart⟩
  case «if» =>
    refine goesOn_move ?_
    rw [List.append_assoc, List.append_assoc]
    refine apart_condition (apart_block ⟨?_, apart⟩)
    -- No statement behind a conditional starts with the `else` of another one.
    rintro _ ⟨_, more, rfl, ⟨statements, rfl⟩, others⟩
    exact (apart.1 more others).not_else statements
  case «while» =>
    refine goesOn_move ?_
    rw [List.append_assoc, List.append_assoc]
    exact apart_condition (apart_block ⟨fun _ _ => trivial, apart⟩)
  all_goals exact goesOn_none

/-- The parts that a token brings end where the parts behind them may start. -/
theorem apart_of_take (apart : Apart (part :: rest))
    (taken : part.take? unit token = some (.ok move)) : Apart (move.pending ++ rest) := by
  suffices keeps : KeepsApart rest (part.take? unit token) from keeps move taken
  have behind : Apart rest := apart.2
  -- Only expressions and statements may end without another token.
  cases part <;> simp only [take?]
  case emit => exact goesOn_none
  case keyword | symbol | localVariables | returnValue | callRest | arguments =>
    exact goesOn_if (fun _ => keepsApart_move) fun _ => goesOn_none
  case className | variableType | subroutineName | parameterType | callee =>
    exact goesOn_map fun _ _ => keepsApart_move
  case returnType | parameters =>
    exact goesOn_if (fun _ => keepsApart_move) fun _ => goesOn_map fun _ _ => keepsApart_move
  case variableName | parameterName =>
    exact goesOn_map fun _ _ => goesOn_after fun _ _ => keepsApart_move
  case classVariables | parameterEnd =>
    split
    case h_3 => exact goesOn_none
    all_goals exact keepsApart_move
  case subroutines =>
    split
    · exact keepsApart_move
    · exact goesOn_map fun _ _ => goesOn_after fun _ _ => keepsApart_move
    · exact goesOn_none
  case variableEnd =>
    refine goesOn_bind fun c _ => ?_
    unfold takeVariableEnd
    split
    · exact keepsApart_move
    · split
      · exact goesOn_fault _
      · exact keepsApart_move
    · exact goesOn_none
  case letTarget =>
    refine goesOn_map fun _ _ => ?_
    split
    · exact keepsApart_move
    · exact goesOn_fault _
  case letPlace =>
    refine goesOn_if (fun _ => goesOn_after fun _ _ => goesOn_move ?_) fun _ => goesOn_none
    rw [List.append_assoc, List.append_assoc]
    exact apart_expression_mark (by decide) ⟨fun _ _ => trivial, apart_assignment behind⟩
  case elseBranch =>
    refine goesOn_if (fun _ => goesOn_move ?_) fun _ => goesOn_none
    rw [List.append_assoc]
    exact apart_block ⟨fun _ _ => trivial, behind⟩
  case calleeMember =>
    exact goesOn_map fun _ _ => goesOn_after fun call called =>
      goesOn_move ⟨fun _ _ => trivial, apart_of_weight (weight_memberCall called) behind⟩
  case argumentEnd =>
    split
    · exact goesOn_move (by rw [List.append_assoc]; exact apart_argument behind)
    · exact keepsApart_move
    · exact goesOn_none
  case nameRest name _ =>
    refine goesOn_bind fun c _ => ?_
    unfold takeNameRest
    split
    · exact keepsApart_move
    · exact goesOn_move (apart_of_weight (weight_ownCall unit name) behind)
    · refine goesOn_after fun _ _ => goesOn_after fun _ _ => goesOn_move ?_
      rw [List.append_assoc]
      exact apart_expression_mark (by decide) ⟨fun _ _ => trivial, behind⟩
    · exact goesOn_none
  case term => exact keepsApart_term apart
  case statements =>
    cases token.kind.keyword? with
    | none => exact goesOn_none
    | some word => exact keepsApart_statement word apart
  case operators =>
    refine goesOn_map fun _ _ => goesOn_move ⟨?_, fun _ _ => trivial, apart⟩
    -- Further operators and what ends the expression carry no name on.
    intro kinds derives
    obtain ⟨_, more, rfl, ⟨operations, rfl⟩, others⟩ := derivesAll_emit_iff.mp derives
    exact (apart.1 more others).endsName operations

/-- The parts in the place of one that takes no token end where those behind them may start. -/
theorem apart_of_leave (apart : Apart (part :: rest)) (left : part.leave unit = .go move) :
    Apart (move.pending ++ rest) := by
  have behind : Apart rest := apart.2
  cases part <;> simp only [leave, Leave.go.injEq, reduceCtorEq] at left
  case nameRest =>
    split at left <;> simp only [Leave.go.injEq, reduceCtorEq] at left
    subst left
    exact behind
  all_goals subst left
  case callRest name _ =>
    exact ⟨fun _ _ => trivial, apart_of_weight (weight_ownCall unit name) behind⟩
  case localVariables =>
    refine ⟨?_, fun _ _ => trivial, behind⟩
    intro kinds derives
    obtain ⟨more, rfl, -⟩ := derivesAll_symbol_iff.mp derives
    exact endsStatements_brace more
  case letPlace => exact apart_assignment behind
  case returnValue =>
    rw [List.append_assoc]
    exact apart_expression_mark (by decide) ⟨fun _ _ => trivial, behind⟩
  case arguments =>
    rw [List.append_assoc]
    exact apart_argument behind
  case classVariables => exact ⟨fun _ _ => trivial, behind⟩
  all_goals exact behind

end

end Pending

namespace Compilation

open Pending (DerivesAll Apart Unread)

section

variable {ending : Except Fault Location} {first next last : Compilation} {taken? : Option Token}
  {code : List Command} {kinds : List TokenKind}

/-- A step takes at most the next token. -/
theorem tokens_of_step (went : first.step ending = .go taken? code next) :
    first.tokens = taken?.toList ++ next.tokens := by
  obtain ⟨part, rest, move, -, -, -, -, taken | left⟩ := step_cases went
  · obtain ⟨token, rfl, tokens, -⟩ := taken
    exact tokens
  · obtain ⟨rfl, tokens, -⟩ := left
    exact tokens.symm

/-- What is pending after a step stands for what was pending before it, behind the token taken. -/
theorem derivesAll_of_step (went : first.step ending = .go taken? code next)
    (derives : DerivesAll next.pending kinds) :
    DerivesAll first.pending (taken?.toList.map Token.kind ++ kinds) := by
  obtain ⟨part, rest, move, pending, -, after, -, taken | left⟩ := step_cases went
  · obtain ⟨token, rfl, -, taken⟩ := taken
    rw [after] at derives
    obtain ⟨before, behind, rfl, own, others⟩ := Pending.derivesAll_append_iff.mp derives
    rw [pending]
    exact ⟨token.kind :: before, behind, rfl, (Pending.derives_iff_of_take taken).mpr own, others⟩
  · obtain ⟨rfl, -, left⟩ := left
    rw [after] at derives
    obtain ⟨before, behind, rfl, own, others⟩ := Pending.derivesAll_append_iff.mp derives
    rw [pending]
    exact ⟨before, behind, rfl, Pending.derives_of_leave left own, others⟩

/-- A part is left only where it does not take the next token. -/
theorem unread_of_step {part : Pending} {rest : List Pending}
    (went : first.step ending = .go none code next) (pending : first.pending = part :: rest) :
    ∀ token ∈ first.tokens.head?, part.take? first.unit token = none := by
  intro token seen
  unfold step at went
  split at went
  · -- Code that is due takes no token at all.
    obtain ⟨rfl, -⟩ := List.cons.inj pending
    rfl
  · split at went
    · cases went
    · cases went
    · rename_i unread
      obtain ⟨rfl, -⟩ := List.cons.inj pending
      obtain rfl := Option.some.inj seen
      exact unread
  · cases seen
  · cases pending
  · cases pending

/-- The tokens that go on as the source does are of what is pending after the step. -/
theorem derivesAll_after_step (went : first.step ending = .go taken? code next)
    (apart : Apart first.pending) (seen : kinds.head? = (next.tokens.map Token.kind).head?)
    (derives : DerivesAll first.pending (taken?.toList.map Token.kind ++ kinds)) :
    DerivesAll next.pending kinds := by
  obtain ⟨part, rest, move, pending, -, after, -, taken | left⟩ := step_cases went
  · obtain ⟨token, rfl, -, taken⟩ := taken
    rw [pending] at derives apart
    rw [after]
    obtain ⟨own, behind, same, derived, others⟩ := derives
    cases own with
    | nil =>
      -- The token would belong to the parts behind, and this part ends in front of them.
      rw [List.nil_append] at same
      rw [← same] at others
      exact absurd (apart.1 _ others) (Pending.not_endsAt_of_take taken derived)
    | cons kind more =>
      obtain ⟨rfl, rfl⟩ := List.cons.inj same
      exact Pending.derivesAll_append_iff.mpr
        ⟨more, behind, rfl, (Pending.derives_iff_of_take taken).mp derived, others⟩
  · obtain ⟨rfl, tokens, left⟩ := left
    rw [pending] at derives
    rw [after]
    obtain ⟨own, behind, rfl, derived, others⟩ := derives
    refine Pending.derivesAll_append_iff.mpr
      ⟨own, behind, rfl, Pending.derivesAll_of_leave left ?_ derived, others⟩
    -- The first token of the part is the next one of the source, which is not taken.
    intro kind member
    obtain ⟨more, rfl⟩ := List.head?_eq_some_iff.mp member
    obtain ⟨token, found, spelled⟩ : ∃ token, first.tokens.head? = some token ∧ token.kind = kind :=
      by simpa [tokens] using seen.symm
    exact ⟨token, spelled, unread_of_step went pending token found⟩

/-- Parts that end where those behind them may start do so after every step. -/
theorem apart_of_step (went : first.step ending = .go taken? code next)
    (apart : Apart first.pending) : Apart next.pending := by
  obtain ⟨part, rest, move, pending, -, after, -, taken | left⟩ := step_cases went
  · obtain ⟨token, -, -, taken⟩ := taken
    rw [pending] at apart
    rw [after]
    exact Pending.apart_of_take apart taken
  · obtain ⟨-, -, left⟩ := left
    rw [pending] at apart
    rw [after]
    exact Pending.apart_of_leave apart left

/-- Behind the tokens that steps take, the tokens of a phrase of what was pending at first are those
of a phrase of what is pending at last, as far as both go on as the source does. -/
theorem Steps.derives (steps : Steps ending first code last) (apart : Apart first.pending) :
    ∃ taken, first.tokens = taken ++ last.tokens ∧
      (∀ kinds, DerivesAll last.pending kinds →
        DerivesAll first.pending (taken.map Token.kind ++ kinds)) ∧
      ∀ kinds, kinds.head? = (last.tokens.map Token.kind).head? →
        DerivesAll first.pending (taken.map Token.kind ++ kinds) →
        DerivesAll last.pending kinds := by
  induction steps with
  | refl compilation => exact ⟨[], rfl, fun _ derives => derives, fun _ _ derives => derives⟩
  | @head first next last taken? code more went _ ih =>
    obtain ⟨taken, tokens, sound, complete⟩ := ih (apart_of_step went apart)
    refine ⟨taken?.toList ++ taken, ?_, ?_, ?_⟩
    · rw [tokens_of_step went, tokens, List.append_assoc]
    · intro kinds derives
      simpa using derivesAll_of_step went (sound kinds derives)
    · intro kinds seen derives
      -- The next token after the step is the first one of those still to be taken.
      have next? : (taken.map Token.kind ++ kinds).head? = (next.tokens.map Token.kind).head? := by
        simp [tokens, seen]
      exact complete kinds seen
        (derivesAll_after_step went apart next? (by simpa using derives))

end

/-- The parts that are pending at the start stand for whole classes. -/
theorem derivesAll_start_iff {tokens : List Token} {kinds : List TokenKind} :
    DerivesAll (start tokens).pending kinds ↔ ∃ tree : ClassTree, kinds = tree.kinds := by
  constructor
  · rintro ⟨_, _, rfl, rfl, _, _, rfl, ⟨name, rfl⟩, behind⟩
    obtain ⟨_, rfl, inside⟩ := Pending.derivesAll_symbol_iff.mp behind
    obtain ⟨classVariables, subroutines, rfl⟩ := Pending.derivesAll_single_iff.mp inside
    exact ⟨⟨name, classVariables, subroutines⟩, by simp [ClassTree.kinds]⟩
  · rintro ⟨tree, rfl⟩
    have header : tree.kinds = [.keyword .«class»] ++ ([.identifier tree.name] ++
        .symbol '{' :: (tree.classVariables.flatMap ClassVariables.kinds ++
          (tree.subroutines.flatMap SubroutineTree.kinds ++ [.symbol '}']))) := by
      simp [ClassTree.kinds]
    refine ⟨_, _, header, rfl, _, _, rfl, ⟨tree.name, rfl⟩, ?_⟩
    exact Pending.derivesAll_symbol_iff.mpr ⟨_, rfl, Pending.derivesAll_single_iff.mpr
      ⟨tree.classVariables, tree.subroutines, rfl⟩⟩

/-- The parts of a class are apart at the start. -/
theorem apart_start (tokens : List Token) : Apart (start tokens).pending :=
  ⟨fun _ _ => trivial, fun _ _ => trivial, fun _ _ => trivial, fun _ _ => trivial, trivial⟩

end Compilation

/-- The tokens are the first ones of some class, all of whose tokens can be written. -/
def Viable (kinds : List TokenKind) : Prop :=
  ∃ tree : ClassTree, (∀ kind ∈ tree.kinds, kind.Formed) ∧ kinds <+: tree.kinds

/-- The tokens that a compilation has taken are the first ones of some class. -/
theorem Compilation.Steps.viable {ending : Except Fault Location} {tokens taken : List Token}
    {code : List Command} {last : Compilation} (steps : Steps ending (start tokens) code last)
    (split : tokens = taken ++ last.tokens)
    (formed : ∀ kind ∈ tokens.map Token.kind, kind.Formed) : Viable (taken.map Token.kind) := by
  -- Whatever is pending can be completed.
  obtain ⟨before, tokens', sound, -⟩ := steps.derives (apart_start tokens)
  obtain rfl : before = taken := List.append_cancel_right (tokens'.symm.trans split)
  obtain ⟨tree, same⟩ :=
    derivesAll_start_iff.mp (sound _ (Pending.derivesAll_completion last.pending))
  refine ⟨tree, ?_, _, same⟩
  rw [← same, List.forall_mem_append]
  constructor
  · intro kind member
    exact formed kind (by simp only [split, List.map_append, List.mem_append, member, true_or])
  · intro kind member
    obtain ⟨part, -, inside⟩ := List.mem_flatMap.mp member
    exact part.formed_completion kind inside

/-- A class that starts with the tokens taken goes on with what is pending, as far as its next token
is that of the source. -/
theorem Compilation.Steps.derivesAll_pending {ending : Except Fault Location}
    {tokens taken : List Token} {code : List Command} {last : Compilation}
    (steps : Steps ending (start tokens) code last) (split : tokens = taken ++ last.tokens)
    {tree : ClassTree} (kinds : List TokenKind)
    (spelled : taken.map Token.kind ++ kinds = tree.kinds)
    (seen : kinds.head? = (last.tokens.map Token.kind).head?) :
    Pending.DerivesAll last.pending kinds := by
  obtain ⟨before, tokens', -, complete⟩ := steps.derives (apart_start tokens)
  obtain rfl : before = taken := List.append_cancel_right (tokens'.symm.trans split)
  exact complete kinds seen (derivesAll_start_iff.mpr ⟨tree, spelled⟩)

/-- A syntax fault names the first token with which the source is no start of a class. The end of a
source is at fault when the source is split into tokens to its end, and they start a class, but make
up none. -/
def FirstImpossible (source : String) (location : Location) : SyntaxFault → Prop
  | .unexpected _ found => ∃ before token behind,
    (Scan.ofSource source).tokens = before ++ token :: behind ∧
    token.kind = found ∧ token.location = location ∧
    Viable (before.map Token.kind) ∧
    ∀ tree : ClassTree, ¬(before ++ [token]).map Token.kind <+: tree.kinds
  | .unexpectedEnd => (Scan.ofSource source).fault? = none ∧
    Viable ((Scan.ofSource source).tokens.map Token.kind) ∧
    ∀ tree : ClassTree, tree.kinds ≠ (Scan.ofSource source).tokens.map Token.kind

/-- A syntax fault is raised at the first token that no class goes on with. -/
theorem syntax_fault_at_first_impossible {source : String} {location : Location}
    {cause : SyntaxFault} (failed : compile source = .error ⟨location, .syntactic cause⟩) :
    FirstImpossible source location cause := by
  unfold compile at failed
  obtain ⟨code, last, steps, failing⟩ := Compilation.run_eq_error_iff.mp failed
  obtain ⟨before, split, -⟩ := steps.derives (Compilation.apart_start _)
  have viable : Viable (before.map Token.kind) := steps.viable split (Scan.formed source)
  obtain ⟨tokens, pending, unit⟩ := last
  cases Compilation.fails_of_step failing
  case unexpected token behind part rest expected unread refused =>
    refine ⟨before, token, behind, split, rfl, rfl, viable, ?_⟩
    rintro tree ⟨kinds, spelled⟩
    -- The class would go on with the token, which the part neither takes nor leaves.
    obtain ⟨own, more, same, derived, -⟩ :=
      steps.derivesAll_pending split (token.kind :: kinds) (by simpa using spelled) rfl
    refine Pending.not_derives_of_refuse refused ?_ derived
    intro kind member
    obtain ⟨own, rfl⟩ := List.head?_eq_some_iff.mp member
    exact ⟨token, (List.cons.inj same).1, unread⟩
  case surplus token behind expected =>
    refine ⟨before, token, behind, split, rfl, rfl, viable, ?_⟩
    rintro tree ⟨kinds, spelled⟩
    -- Nothing goes on behind a whole class.
    exact nomatch steps.derivesAll_pending split (token.kind :: kinds) (by simpa using spelled) rfl
  case unexpectedEnd part rest expected refused ended =>
    obtain rfl : (Scan.ofSource source).tokens = before := by simpa [Compilation.start] using split
    refine ⟨(Scan.ending_eq_ok_iff _).mp ⟨location, ended⟩, viable, ?_⟩
    intro tree spelled
    -- The class would have to end here, where the part still requires a token.
    obtain ⟨own, more, same, derived, -⟩ :=
      steps.derivesAll_pending split [] (by simpa using spelled.symm) rfl
    obtain ⟨rfl, -⟩ := List.append_eq_nil_iff.mp same.symm
    exact Pending.not_derives_of_refuse refused (by simp [Pending.Unread]) derived
  -- All other faults have another cause.
  case misuse token behind part rest misused =>
    obtain ⟨_, semantic⟩ := misused.1
    cases semantic
  case unknown part rest semantic place =>
    obtain ⟨_, semantic⟩ := semantic
    cases semantic
  case malformed ended =>
    have holds := Scan.holds_ofSource source
    obtain ⟨-, _, lexical⟩ := holds.result_of_fault (Scan.ending_eq_error_iff.mp ended)
    cases lexical

/-- A loop without a block fails at the brace behind its condition, and a class without a body at
its end. -/
theorem loop_without_block_and_class_without_body :
    compile "class A{function int f(){while(true)}}" =
        .error ⟨⟨1, 37⟩, .syntactic (.unexpected "'\x7b'" (.symbol '}'))⟩ ∧
      compile "class A" = .error ⟨⟨1, 8⟩, .syntactic .unexpectedEnd⟩ ∧
      FirstImpossible "class A{function int f(){while(true)}}" ⟨1, 37⟩
        (.unexpected "'\x7b'" (.symbol '}')) ∧
      FirstImpossible "class A" ⟨1, 8⟩ .unexpectedEnd := by
  have loop : compile "class A{function int f(){while(true)}}" =
      .error ⟨⟨1, 37⟩, .syntactic (.unexpected "'\x7b'" (.symbol '}'))⟩ := by decide +kernel
  have ended : compile "class A" = .error ⟨⟨1, 8⟩, .syntactic .unexpectedEnd⟩ := by decide +kernel
  exact ⟨loop, ended, syntax_fault_at_first_impossible loop, syntax_fault_at_first_impossible ended⟩

end JackCompiler
