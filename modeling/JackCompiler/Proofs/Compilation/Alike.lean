import Mathlib.Data.List.Forall2
import JackCompiler.Proofs.Compilation.Soundness

/-! Compilations that differ only in places and in the numbers of their labels go on alike. -/

namespace JackCompiler

/-- The second label has the same name, and a number that is larger by the shift. -/
def LabelShifted (shift : Nat) (label shifted : String) : Prop :=
  ∃ (name : String) (number : Nat),
    label = s!"{name}.label{number}" ∧ shifted = s!"{name}.label{number + shift}"

/-- The second command is the first one, with its label shifted if it has one. -/
def Command.Shifted (shift : Nat) : Command → Command → Prop
  | .label name, .label other => LabelShifted shift name other
  | .goto name, .goto other => LabelShifted shift name other
  | .ifGoto name, .ifGoto other => LabelShifted shift name other
  | command, other => other = command

/-- Both outcomes succeed with related values, or both fail for the same cause. -/
inductive SameOutcome {α β : Type} (related : α → β → Prop) :
    Except Fault α → Except Fault β → Prop where
  | ok {value : α} {other : β} (same : related value other) :
      SameOutcome related (.ok value) (.ok other)
  | error {fault other : Fault} (same : other.cause = fault.cause) :
      SameOutcome related (.error fault) (.error other)

/-- Values that are related in one way are related in every way that follows from it. -/
theorem SameOutcome.imp {α β : Type} {related further : α → β → Prop} {outcome : Except Fault α}
    {other : Except Fault β} (same : SameOutcome related outcome other)
    (follows : ∀ value otherValue, related value otherValue → further value otherValue) :
    SameOutcome further outcome other := by
  cases same with
  | ok same => exact .ok (follows _ _ same)
  | error same => exact .error same

/-- What follows related values has the same outcome when the values do. -/
theorem SameOutcome.bind {α β γ δ : Type} {related : α → β → Prop} {relatedNext : γ → δ → Prop}
    {outcome : Except Fault α} {other : Except Fault β} {next : α → Except Fault γ}
    {nextOther : β → Except Fault δ} (same : SameOutcome related outcome other)
    (follows : ∀ value otherValue, related value otherValue →
      SameOutcome relatedNext (next value) (nextOther otherValue)) :
    SameOutcome relatedNext (outcome >>= next) (other >>= nextOther) := by
  cases same with
  | ok same => exact follows _ _ same
  | error same => exact .error same

/-- The labels of a context are numbered one behind the other. -/
theorem Context.labelShifted (context : Context) (number shift : Nat) :
    LabelShifted shift (context.label number) (context.label (number + shift)) :=
  ⟨context.className, number, context.label_eq number, context.label_eq (number + shift)⟩

namespace ClassUnit

variable (unit : ClassUnit) (shift : Nat) (location place : Location)

/-- The order in which labels are taken does not matter. -/
theorem addLabels_comm (count : Nat) :
    (unit.addLabels shift).addLabels count = (unit.addLabels count).addLabels shift := by
  rw [addLabels_addLabels, addLabels_addLabels, Nat.add_comm]

/-- A declaration is accepted whatever its place and the labels before it are. -/
theorem sameOutcome_declare (name type : String) (kind : SymbolKind) :
    SameOutcome (fun next other => other = next.addLabels shift)
      (unit.declare location name type kind)
      ((unit.addLabels shift).declare place name type kind) := by
  -- Only the table of symbols is asked.
  have same : (unit.addLabels shift).symbols = unit.symbols := rfl
  simp only [declare, same]
  rcases unit.symbols.define name type kind with ⟨fault | symbol, symbols⟩
  · exact .error rfl
  · exact .ok rfl

/-- A name stands for the same symbol wherever it is used. -/
theorem sameOutcome_lookup (name : String) :
    SameOutcome (fun symbol other => other = symbol) (unit.lookup location name)
      ((unit.addLabels shift).lookup place name) := by
  have same : (unit.addLabels shift).symbols = unit.symbols := rfl
  simp only [lookup, same]
  cases unit.symbols.lookup name with
  | ok result => exact .ok rfl
  | error fault => exact .error rfl

/-- A subroutine is started whatever its place and the labels before it are. -/
theorem sameOutcome_startSubroutine (kind : SubroutineKind) :
    SameOutcome (fun next other => other = next.addLabels shift)
      (unit.startSubroutine location kind)
      ((unit.addLabels shift).startSubroutine place kind) := by
  -- The object of a method is declared in a scope without other names.
  unfold startSubroutine
  cases kind with
  | method => exact sameOutcome_declare { unit with symbols := _ } shift location place _ _ _
  | constructor => exact .ok rfl
  | function => exact .ok rfl

end ClassUnit

namespace Pending

/-- The part holds neither a place nor a label. -/
@[reducible] def Plain : Pending → Prop
  | .emit _ | .elseBranch _ | .variableName .. | .variableEnd .. | .letPlace .. | .callRest ..
  | .calleeMember .. | .nameRest .. => False
  | _ => True

/-- The second part is the first one, with its labels shifted and places of its own. -/
inductive Alike (shift : Nat) : Pending → Pending → Prop where
  | emit {code shifted : List Command} (same : List.Forall₂ (Command.Shifted shift) code shifted) :
      Alike shift (.emit code) (.emit shifted)
  | elseBranch {label shifted : String} (same : LabelShifted shift label shifted) :
      Alike shift (.elseBranch label) (.elseBranch shifted)
  | variableName (kind : SymbolKind) (type : String) (location place : Location) :
      Alike shift (.variableName kind type location) (.variableName kind type place)
  | variableEnd (kind : SymbolKind) (type : String) (location place : Location) :
      Alike shift (.variableEnd kind type location) (.variableEnd kind type place)
  | letPlace (target : Symbol) (location place : Location) :
      Alike shift (.letPlace target location) (.letPlace target place)
  | callRest (name : String) (location place : Location) :
      Alike shift (.callRest name location) (.callRest name place)
  | calleeMember (name : String) (location place : Location) :
      Alike shift (.calleeMember name location) (.calleeMember name place)
  | nameRest (name : String) (location place : Location) :
      Alike shift (.nameRest name location) (.nameRest name place)
  | plain {part : Pending} (plain : part.Plain) : Alike shift part part

end Pending

/-- The second way on is the first one, with its labels shifted and places of its own. -/
structure Move.Alike (shift : Nat) (move other : Move) : Prop where
  code : List.Forall₂ (Command.Shifted shift) move.code other.code
  pending : List.Forall₂ (Pending.Alike shift) move.pending other.pending
  unit : other.unit = move.unit.addLabels shift

namespace Pending

section

variable {shift : Nat}

/-- Plain parts are alike with themselves. -/
@[simp] theorem alike_self {part : Pending} (plain : part.Plain) : Alike shift part part :=
  .plain plain

/-- Code that is due is alike with the shifted code. -/
@[simp] theorem alike_emit_iff {code shifted : List Command} :
    Alike shift (.emit code) (.emit shifted) ↔
      List.Forall₂ (Command.Shifted shift) code shifted := by
  constructor
  · intro alike
    cases alike with
    | emit same => exact same
    | plain plain => cases plain
  · exact .emit

/-- The code of a string has no label. -/
theorem shifted_stringCode (body : String) :
    List.Forall₂ (Command.Shifted shift) (stringCode body) (stringCode body) := by
  -- Every character is a constant and a call.
  refine List.forall₂_same.mpr fun command member => ?_
  simp only [stringCode, List.mem_cons, List.mem_flatMap, List.not_mem_nil, or_false] at member
  obtain rfl | rfl | ⟨c, -, rfl | rfl⟩ := member <;> rfl

/-- The code of an operator has no label. -/
theorem shifted_operatorCode {c : Char} {code : List Command}
    (found : operatorCode? c = some code) :
    List.Forall₂ (Command.Shifted shift) code code := by
  -- An operator is a single call or a single operation.
  obtain ⟨operator, -, rfl⟩ := operatorCode?_eq_some found
  cases operator <;> simp [BinaryOperator.code, Command.Shifted]

/-- The code that opens a subroutine has no label. -/
theorem shifted_opening (unit : ClassUnit) :
    List.Forall₂ (Command.Shifted shift) unit.opening (unit.addLabels shift).opening := by
  change List.Forall₂ _ unit.opening unit.opening
  unfold ClassUnit.opening
  cases unit.subroutine.kind <;> simp [Command.Shifted]

/-- The code of a `return` without a value has no label. -/
theorem shifted_bareReturn (unit : ClassUnit) :
    List.Forall₂ (Command.Shifted shift) unit.bareReturn (unit.addLabels shift).bareReturn := by
  change List.Forall₂ _ unit.bareReturn unit.bareReturn
  unfold ClassUnit.bareReturn
  split <;> simp [Command.Shifted]

/-- Two starts of a call have the same code and go on alike. -/
def AlikeCall (shift : Nat) (call other : List Command × Pending) : Prop :=
  List.Forall₂ (Command.Shifted shift) call.1 other.1 ∧ Alike shift call.2 other.2

/-- A call to a subroutine of the class starts the same whatever the labels before it are. -/
theorem alikeCall_ownCall (unit : ClassUnit) (name : String) :
    AlikeCall shift (ownCall unit name) (ownCall (unit.addLabels shift) name) := by
  change AlikeCall shift (ownCall unit name) (ownCall unit name)
  unfold ownCall AlikeCall
  split <;> simp [Command.Shifted, Plain]

/-- A call with a dot starts the same wherever it stands. -/
theorem sameOutcome_memberCall (unit : ClassUnit) (location place : Location)
    (name member : String) :
    SameOutcome (AlikeCall shift) (memberCall unit location name member)
      (memberCall (unit.addLabels shift) place name member) := by
  have same : (unit.addLabels shift).symbols = unit.symbols := rfl
  simp only [memberCall, same]
  split
  · exact .ok ⟨.nil, .plain trivial⟩
  · split
    · exact .error rfl
    · exact .ok ⟨by simp [Symbol.push, Command.Shifted], .plain trivial⟩

/-- Whether a variable may have an index does not depend on the place of the index. -/
theorem sameOutcome_checkIndexable (target : Symbol) (location place : Location) :
    SameOutcome (fun _ _ => True) (checkIndexable target location)
      (checkIndexable target place) := by
  unfold checkIndexable
  split
  · exact .ok trivial
  · exact .error rfl

end

section

variable {shift : Nat} {unit : ClassUnit}

/-- The outcomes of two parts at tokens of the same kind. -/
private abbrev AlikeTaken (shift : Nat) (outcome other : Option (Except Fault Move)) : Prop :=
  Option.Rel (SameOutcome (Move.Alike shift)) outcome other

/-- Ways on that are alike are the same outcome. -/
private theorem alike_go {move other : Move}
    (code : List.Forall₂ (Command.Shifted shift) move.code other.code := by
      simp [Command.Shifted, Symbol.push])
    (pending : List.Forall₂ (Pending.Alike shift) move.pending other.pending := by
      simp [Plain, expression, block, Command.Shifted])
    (same : other.unit = move.unit.addLabels shift := by rfl) :
    SameOutcome (Move.Alike shift) (.ok move) (.ok other) :=
  .ok ⟨code, pending, same⟩

/-- A choice between two outcomes is the same if both are. -/
private theorem alike_if {condition : Prop} [Decidable condition]
    {first other second further : Option (Except Fault Move)}
    (holds : AlikeTaken shift first other) (fails : AlikeTaken shift second further) :
    AlikeTaken shift (if condition then first else second)
      (if condition then other else further) := by
  split
  · exact holds
  · exact fails

/-- What is done with a chosen value is the same if it is for every value. -/
private theorem alike_map {α : Type} {choice : Option α} {next other : α → Except Fault Move}
    (same : ∀ value, choice = some value →
      SameOutcome (Move.Alike shift) (next value) (other value)) :
    AlikeTaken shift (choice.map next) (choice.map other) := by
  cases choice with
  | none => exact .none
  | some value => exact .some (same value rfl)

/-- A choice made from a chosen value is the same if it is for every value. -/
private theorem alike_bind {α : Type} {choice : Option α}
    {next other : α → Option (Except Fault Move)}
    (same : ∀ value, AlikeTaken shift (next value) (other value)) :
    AlikeTaken shift (choice.bind next) (choice.bind other) := by
  cases choice with
  | none => exact .none
  | some value => exact same value

/-- The marks behind a declared name are taken alike. -/
private theorem alike_variableEnd (kind : SymbolKind) (type : String) (location place : Location)
    (c : Char) :
    AlikeTaken shift (takeVariableEnd unit kind type location c)
      (takeVariableEnd (unit.addLabels shift) kind type place c) := by
  unfold takeVariableEnd
  split
  · exact .some (alike_go .nil (by simpa using .variableName ..))
  · refine .some ?_
    change SameOutcome _ (if _ then _ else _) (if kind = .field ∧
      unit.symbols.count .field > maxOperand then _ else _)
    split
    · exact .error rfl
    · exact alike_go
  · exact .none

/-- A condition is alike with the one that jumps to the shifted label. -/
private theorem alike_condition {label other : String} (same : LabelShifted shift label other) :
    List.Forall₂ (Alike shift) (condition label) (condition other) := by
  simp [condition, expression, Plain, Command.Shifted, same]

/-- A block has no labels and no places of its own. -/
private theorem alike_block : List.Forall₂ (Alike shift) block block := by
  simp [block, Plain]

/-- A statement is begun alike, with the labels that are handed out. -/
private theorem alike_statement (word : Keyword) :
    AlikeTaken shift ((takeStatement unit word).map .ok)
      ((takeStatement (unit.addLabels shift) word).map .ok) := by
  -- The labels that are handed out next are numbered on from those before them.
  have first := unit.context.labelShifted unit.labels shift
  have second := unit.context.labelShifted (unit.labels + 1) shift
  rw [Nat.add_right_comm] at second
  cases word
  case «let» | «do» | «return» => exact .some alike_go
  case «if» =>
    have ahead := List.rel_append (alike_condition first) alike_block
    exact .some (alike_go .nil (List.rel_append ahead (by simpa [Plain] using .elseBranch first))
      (unit.addLabels_comm shift 1))
  case «while» =>
    have ahead := List.rel_append (alike_condition second) alike_block
    have jumps : List.Forall₂ (Command.Shifted shift)
        [.goto (unit.context.label unit.labels), .label (unit.context.label (unit.labels + 1))]
        [.goto (unit.context.label (unit.labels + shift)),
          .label (unit.context.label (unit.labels + shift + 1))] := by
      simp [Command.Shifted, first, second]
    have further : Alike shift .statements .statements := .plain trivial
    have behind := List.rel_append ahead (.cons (.emit jumps) (.cons further .nil))
    exact .some (alike_go (.cons first .nil) behind (unit.addLabels_comm shift 2))
  all_goals exact .none

/-- A term is begun alike at tokens of the same kind. -/
private theorem alike_term {token other : Token} (same : other.kind = token.kind) :
    AlikeTaken shift ((takeTerm unit token).map .ok)
      ((takeTerm (unit.addLabels shift) other).map .ok) := by
  unfold takeTerm
  rw [same]
  split
  case h_2 body _ => exact .some (alike_go (shifted_stringCode body))
  case h_10 name _ => exact .some (alike_go .nil (.cons (.nameRest ..) .nil))
  case h_11 => exact .none
  all_goals exact .some alike_go

/-- The marks behind a name in an expression are taken alike. -/
private theorem alike_nameRest (name : String) (location place : Location) (c : Char) :
    AlikeTaken shift (takeNameRest unit name location c)
      (takeNameRest (unit.addLabels shift) name place c) := by
  -- The mark tells whether the name stands for a class, a subroutine or an array.
  unfold takeNameRest
  split
  · exact .some (alike_go .nil (.cons (.calleeMember ..) .nil))
  · have call : AlikeCall shift (ownCall unit name) _ := alikeCall_ownCall unit name
    obtain ⟨code, rest⟩ := call
    exact .some (alike_go code (.cons rest .nil))
  · refine .some ((unit.sameOutcome_lookup shift location place name).bind ?_)
    rintro _ target rfl
    exact (sameOutcome_checkIndexable target location place).bind fun _ _ _ => alike_go
  · exact .none

/-- Parts that are alike take tokens of the same kind alike. -/
theorem Alike.take? {part other : Pending} (alike : Alike shift part other) {token place : Token}
    (same : place.kind = token.kind) :
    Option.Rel (SameOutcome (Move.Alike shift)) (part.take? unit token)
      (other.take? (unit.addLabels shift) place) := by
  -- Only parts that are not plain hold anything in which they may differ.
  cases alike with
  | emit => exact .none
  | elseBranch label =>
    have finish := unit.context.labelShifted unit.labels shift
    simp only [Pending.take?, same]
    refine alike_if (.some (alike_go ?_ ?_ (unit.addLabels_comm shift 1))) .none
    · exact .cons finish (.cons label .nil)
    · exact List.rel_append alike_block (.cons (.emit (.cons finish .nil)) .nil)
  | variableName kind type location place =>
    simp only [Pending.take?, same]
    refine alike_map fun name _ => (unit.sameOutcome_declare shift _ _ name type kind).bind ?_
    rintro next _ rfl
    exact alike_go .nil (.cons (.variableEnd ..) .nil)
  | variableEnd kind type location place =>
    simp only [Pending.take?, same]
    exact alike_bind fun c => alike_variableEnd kind type location place c
  | letPlace target location place =>
    simp only [Pending.take?, same]
    refine alike_if (.some ?_) .none
    refine (sameOutcome_checkIndexable target location place).bind fun _ _ _ => alike_go ?_ ?_
    · simp [Command.Shifted, Symbol.push]
    · simp [expression, assignment, storeElement, Plain, Command.Shifted]
  | callRest name location place =>
    simp only [Pending.take?, same]
    exact alike_if (.some (alike_go .nil (.cons (.calleeMember ..) .nil))) .none
  | calleeMember name location place =>
    simp only [Pending.take?, same]
    refine alike_map fun member _ =>
      (sameOutcome_memberCall unit location place name member).bind ?_
    rintro ⟨code, rest⟩ ⟨shifted, further⟩ ⟨sameCode, sameRest⟩
    exact alike_go sameCode (.cons (.plain trivial) (.cons sameRest .nil))
  | nameRest name location place =>
    simp only [Pending.take?, same]
    exact alike_bind fun c => alike_nameRest name location place c
  | @plain part plain =>
    cases part <;> simp only [Pending.take?, same]
    case emit | elseBranch | variableName | variableEnd | letPlace | callRest | calleeMember |
        nameRest => cases plain
    case keyword | symbol | localVariables | arguments => exact alike_if (.some alike_go) .none
    case returnValue => exact alike_if (.some (alike_go (shifted_bareReturn unit))) .none
    case className => exact alike_map fun name _ => alike_go
    case classVariables | parameterEnd | argumentEnd =>
      split
      case h_3 => exact .none
      all_goals exact .some alike_go
    case subroutines =>
      split
      · exact .some alike_go
      · refine alike_map fun kind _ => (unit.sameOutcome_startSubroutine shift _ _ kind).bind ?_
        rintro next _ rfl
        exact alike_go
      · exact .none
    case variableType =>
      exact alike_map fun type _ => alike_go .nil (.cons (.variableName ..) .nil)
    case returnType | parameters => exact alike_if (.some alike_go) (alike_map fun _ _ => alike_go)
    case subroutineName | parameterType => exact alike_map fun _ _ => alike_go
    case parameterName type =>
      refine alike_map fun name _ => (unit.sameOutcome_declare shift _ _ name type _).bind ?_
      rintro next _ rfl
      exact alike_go
    case statements =>
      cases token.kind.keyword? with
      | none => exact .none
      | some word => exact alike_statement word
    case letTarget =>
      refine alike_map fun name _ => ?_
      have table : (unit.addLabels shift).symbols = unit.symbols := rfl
      rw [table]
      cases unit.symbols.get? name with
      | none => exact .error rfl
      | some target => exact alike_go .nil (.cons (.letPlace ..) .nil)
    case callee => exact alike_map fun _ _ => alike_go .nil (.cons (.callRest ..) .nil)
    case term => exact alike_term same
    case operators =>
      refine alike_map fun code found => alike_go .nil ?_
      obtain ⟨c, -, found⟩ := Option.bind_eq_some_iff.mp found
      have behind : Alike shift .operators .operators := .plain trivial
      exact .cons (.plain trivial) (.cons (.emit (shifted_operatorCode found)) (.cons behind .nil))

/-- Both parts make way alike, require the same token or fail for the same cause. -/
inductive AlikeLeave (shift : Nat) : Leave → Leave → Prop where
  | go {move other : Move} (alike : move.Alike shift other) :
      AlikeLeave shift (.go move) (.go other)
  | refuse (expected : String) : AlikeLeave shift (.refuse expected) (.refuse expected)
  | fail {fault other : Fault} (same : other.cause = fault.cause) :
      AlikeLeave shift (.fail fault) (.fail other)

/-- Parts that are alike are left alike. -/
theorem Alike.leave {part other : Pending} (alike : Alike shift part other) :
    AlikeLeave shift (part.leave unit) (other.leave (unit.addLabels shift)) := by
  -- A plain variable is the only part whose absence can fail.
  cases alike with
  | emit same => exact .go ⟨same, .nil, rfl⟩
  | elseBranch same => exact .go ⟨.cons same .nil, .nil, rfl⟩
  | variableName | variableEnd | calleeMember => exact .refuse _
  | letPlace target location place =>
    refine .go ⟨.nil, ?_, rfl⟩
    simp [assignment, expression, Plain, Command.Shifted, Symbol.pop]
  | callRest name location place =>
    have call : AlikeCall shift (ownCall unit name) _ := alikeCall_ownCall unit name
    obtain ⟨code, rest⟩ := call
    exact .go ⟨code, .cons (.plain trivial) (.cons rest .nil), rfl⟩
  | nameRest name location place =>
    have found := unit.sameOutcome_lookup shift location place name
    simp only [Pending.leave]
    generalize unit.lookup location name = outcome,
      (unit.addLabels shift).lookup place name = further at found ⊢
    cases found with
    | ok same =>
      subst same
      exact .go ⟨.cons rfl .nil, .nil, rfl⟩
    | error same => exact .fail same
  | @plain part plain =>
    cases part
    case emit | elseBranch | variableName | variableEnd | letPlace | callRest | calleeMember |
        nameRest => cases plain
    case classVariables | statements | operators =>
      exact .go ⟨.nil, by simp [Plain], rfl⟩
    case localVariables => exact .go ⟨shifted_opening unit, by simp [Plain], rfl⟩
    case returnValue => exact .go ⟨.nil, by simp [expression, Plain, Command.Shifted], rfl⟩
    case arguments => exact .go ⟨.nil, by simp [expression, Plain], rfl⟩
    all_goals exact .refuse _

end

end Pending

namespace Compilation

/-- The step of a first part that takes no token, with the fault of a part that needs one. -/
def leaveFirst (tokens : List Token) (part : Pending) (rest : List Pending) (unit : ClassUnit)
    (refusal : String → Fault) : Step :=
  match part.leave unit with
  | .go move => replace tokens rest none move
  | .refuse expected => .fail (refusal expected)
  | .fail fault => .fail fault

section

variable {ending : Except Fault Location} {part : Pending} {rest : List Pending} {unit : ClassUnit}

/-- At a token, the first part takes the token or makes way. -/
theorem step_token {token : Token} {tokens : List Token} :
    step ending ⟨token :: tokens, part :: rest, unit⟩ =
      match part.take? unit token with
      | some (.ok move) => replace tokens rest (some token) move
      | some (.error fault) => .fail fault
      | none => leaveFirst (token :: tokens) part rest unit fun expected =>
        ⟨token.location, .syntactic (.unexpected expected token.kind)⟩ := by
  cases part <;> rfl

/-- At the end of a well-formed source, the first part makes way. -/
theorem step_end {location : Location} :
    step (.ok location) ⟨[], part :: rest, unit⟩ =
      leaveFirst [] part rest unit fun _ => ⟨location, .syntactic .unexpectedEnd⟩ := by
  cases part <;> rfl

end

/-- The second compilation reads tokens of the same kinds, and differs from the first one only in
places and in the numbers of its labels. -/
structure Alike (shift : Nat) (first second : Compilation) : Prop where
  kinds : second.tokens.map Token.kind = first.tokens.map Token.kind
  pending : List.Forall₂ (Pending.Alike shift) first.pending second.pending
  unit : second.unit = first.unit.addLabels shift

/-- The second step goes on like the first one, finishes with it or fails with it. -/
inductive AlikeStep (shift : Nat) : Step → Step → Prop where
  | go {taken? place? : Option Token} {code shifted : List Command} {next other : Compilation}
      (same : List.Forall₂ (Command.Shifted shift) code shifted) (alike : next.Alike shift other) :
      AlikeStep shift (.go taken? code next) (.go place? shifted other)
  | done : AlikeStep shift .done .done
  | fail {fault other : Fault} (same : other.cause = fault.cause) :
      AlikeStep shift (.fail fault) (.fail other)

variable {shift : Nat} {first second : Compilation} {ending endingOther : Except Fault Location}

/-- Parts that are alike make way for parts that are alike. -/
theorem alikeStep_leaveFirst {tokens places : List Token} {part other : Pending}
    {rest others : List Pending} {unit : ClassUnit} {refusal refusalOther : String → Fault}
    (kinds : places.map Token.kind = tokens.map Token.kind)
    (alike : part.Alike shift other) (behind : List.Forall₂ (Pending.Alike shift) rest others)
    (refused : ∀ expected, (refusalOther expected).cause = (refusal expected).cause) :
    AlikeStep shift (leaveFirst tokens part rest unit refusal)
      (leaveFirst places other others (unit.addLabels shift) refusalOther) := by
  have left : Pending.AlikeLeave shift (part.leave unit) _ := alike.leave
  unfold leaveFirst
  generalize part.leave unit = outcome, other.leave (unit.addLabels shift) = further at left ⊢
  cases left with
  | go alike => exact .go alike.code ⟨kinds, List.rel_append alike.pending behind, alike.unit⟩
  | refuse expected => exact .fail (refused expected)
  | fail same => exact .fail same

/-- Compilations that are alike take alike steps. -/
theorem Alike.alikeStep (alike : first.Alike shift second)
    (ends : SameOutcome (fun _ _ => True) ending endingOther) :
    AlikeStep shift (first.step ending) (second.step endingOther) := by
  obtain ⟨tokens, parts, unit⟩ := first
  obtain ⟨places, partsOther, _⟩ := second
  obtain ⟨kinds, pending, rfl⟩ := alike
  simp only at kinds pending
  cases tokens with
  | nil =>
    obtain rfl : places = [] := by simpa using kinds
    cases pending with
    | nil =>
      cases ends with
      | ok => exact .done
      | error same => exact .fail same
    | @cons part other rest others alike behind =>
      cases ends with
      | ok =>
        rw [step_end, step_end]
        exact alikeStep_leaveFirst rfl alike behind fun _ => rfl
      | error same =>
        -- Only code that is due does not wait for the malformed token.
        cases alike with
        | emit shifted => exact .go shifted ⟨rfl, behind, rfl⟩
        | plain plain =>
          cases part
          case emit => cases plain
          all_goals exact .fail same
        | _ => exact .fail same
  | cons token tokens =>
    obtain ⟨place, places, rfl, same, sameKinds⟩ := List.map_eq_cons_iff.mp kinds
    cases pending with
    | nil => exact .fail (congrArg (Cause.syntactic <| .unexpected _ ·) same)
    | @cons part other rest others alike behind =>
      rw [step_token, step_token]
      have taken : Option.Rel _ (part.take? unit token)
          (other.take? (unit.addLabels shift) place) := alike.take? same
      generalize part.take? unit token = outcome,
        other.take? (unit.addLabels shift) place = further at taken ⊢
      cases taken with
      | some outcome =>
        cases outcome with
        | ok move =>
          exact .go move.code ⟨sameKinds, List.rel_append move.pending behind, move.unit⟩
        | error same => exact .fail same
      | none =>
        exact alikeStep_leaveFirst kinds alike behind fun expected =>
          congrArg (Cause.syntactic <| .unexpected expected ·) same

/-- Compilations that are alike come to the same end, with their labels shifted. -/
theorem Alike.sameOutcome (alike : first.Alike shift second)
    (ends : SameOutcome (fun _ _ => True) ending endingOther)
    {emitted emittedOther : Array Command} :
    SameOutcome (fun code other => ∃ more shifted, code = emitted.toList ++ more ∧
        other = emittedOther.toList ++ shifted ∧ List.Forall₂ (Command.Shifted shift) more shifted)
      (first.run ending emitted) (second.run endingOther emittedOther) := by
  -- Both runs are followed step by step.
  fun_induction run ending first emitted generalizing second emittedOther with
  | case1 first emitted taken? code next went ih =>
    have steps := alike.alikeStep ends
    rw [went] at steps
    generalize wentOther : second.step endingOther = outcome at steps
    cases steps with
    | @go _ _ _ codeOther _ nextOther same alike =>
      rw [run_eq_of_steps (.head wentOther (.refl _))]
      refine (ih alike).imp ?_
      rintro _ _ ⟨more, shifted, rfl, rfl, sameMore⟩
      exact ⟨code ++ more, codeOther ++ shifted, by simp, by simp, List.rel_append same sameMore⟩
  | case2 first emitted finished =>
    have steps := alike.alikeStep ends
    rw [finished] at steps
    generalize finishedOther : second.step endingOther = outcome at steps
    cases steps
    have ended : second.run endingOther emittedOther = .ok emittedOther.toList := by
      rw [run]
      split <;> simp_all
    rw [ended]
    exact .ok ⟨[], [], by simp, by simp, .nil⟩
  | case3 first emitted fault failed =>
    have steps := alike.alikeStep ends
    rw [failed] at steps
    generalize failedOther : second.step endingOther = outcome at steps
    cases steps with
    | @fail _ other same =>
      have ended : second.run endingOther emittedOther = .error other := by
        rw [run]
        split <;> simp_all
      rw [ended]
      exact .error same

end Compilation

end JackCompiler
