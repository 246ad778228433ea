import Std.Data.String.ToNat
import JackCompiler.Proofs.Lowering.Occurrence

/-! The labels of a class: each is set once, so that every jump has one place to go. -/

namespace JackCompiler

/-- The command does nothing but compute: it is no label, no jump, no header and no return. -/
def Command.Straight : Command → Prop
  | .push .. | .pop .. | .operate _ | .call .. => True
  | .label _ | .goto _ | .ifGoto _ | .function .. | .ret => False

/-- All commands do nothing but compute. -/
def StraightCode (code : List Command) : Prop := ∀ command ∈ code, command.Straight

/-- The name of the label that a command sets. -/
def Command.label? : Command → Option String
  | .label name => some name
  | _ => none

/-- The names of the labels that some code sets, in the order of the code. -/
def labelNames (code : List Command) : List String := code.filterMap Command.label?

variable {code more : List Command}

/-- Code that computes goes on with a command that computes. -/
theorem StraightCode.cons {command : Command} (first : command.Straight)
    (rest : StraightCode code) : StraightCode (command :: code) :=
  List.forall_mem_cons.mpr ⟨first, rest⟩

/-- Code that computes goes on with code that computes. -/
theorem StraightCode.append (first : StraightCode code) (rest : StraightCode more) :
    StraightCode (code ++ more) :=
  List.forall_mem_append.mpr ⟨first, rest⟩

/-- A single command that computes is code that computes. -/
theorem StraightCode.single {command : Command} (straight : command.Straight) :
    StraightCode [command] :=
  .cons straight nofun

/-- Code that does nothing but compute sets no labels. -/
theorem StraightCode.labelNames_eq (straight : StraightCode code) : labelNames code = [] := by
  -- A command that sets a label is not straight.
  refine List.filterMap_eq_nil_iff.mpr fun command member => ?_
  have computes := straight command member
  cases command <;> first | rfl | cases computes

/-- The labels of code in two parts are the labels of the parts. -/
@[simp] theorem labelNames_append (code more : List Command) :
    labelNames (code ++ more) = labelNames code ++ labelNames more :=
  List.filterMap_append

/-- The labels of a command and of the code behind it. -/
@[simp] theorem labelNames_cons (command : Command) (code : List Command) :
    labelNames (command :: code) = command.label?.toList ++ labelNames code := by
  -- Only one of the commands has a name to add.
  cases command <;> rfl

/-- A constant is computed. -/
theorem WordConstant.straight (constant : WordConstant) : StraightCode constant.code := by
  -- Truth is computed, and the other constants are pushed.
  cases constant with
  | true => exact .cons trivial (.single trivial)
  | false | null | this => exact .single trivial

/-- A unary operator is computed. -/
theorem UnaryOperator.straight (operator : UnaryOperator) : operator.code.Straight := by
  cases operator <;> trivial

/-- A binary operator is computed. -/
theorem BinaryOperator.straight (operator : BinaryOperator) : operator.code.Straight := by
  cases operator <;> trivial

/-- Characters are appended by computation. -/
theorem straight_appendCode (chars : List Char) : StraightCode (appendCode chars) := by
  -- Each character is pushed and appended by a call.
  induction chars with
  | nil => exact nofun
  | cons c rest ih => exact .cons trivial (.cons trivial ih)

/-- A variable is loaded by computation. -/
theorem Context.straight_load (context : Context) (name : String) :
    StraightCode (context.load name) := by
  -- A name that stands for nothing has no code at all.
  unfold load
  cases context.symbol? name with
  | none => exact nofun
  | some symbol => exact .single trivial

/-- A variable is stored by computation. -/
theorem Context.straight_store (context : Context) (name : String) :
    StraightCode (context.store name) := by
  -- A name that stands for nothing has no code at all.
  unfold store
  cases context.symbol? name with
  | none => exact nofun
  | some symbol => exact .single trivial

section

variable (context : Context)

mutual

/-- The code of a term does nothing but compute. -/
theorem Term.straight (term : Term) : StraightCode (term.code context) := by
  -- The only commands besides those of the parts are pushes, pops, operations and calls.
  cases term with
  | integer value => exact .single trivial
  | string body => exact .cons trivial (.cons trivial (straight_appendCode body.toList))
  | word constant => exact constant.straight
  | group inner => exact Expression.straight inner
  | unary operator operand => exact (Term.straight operand).append (.single operator.straight)
  | name name => exact context.straight_load name
  | element array index =>
    exact ((context.straight_load array).append (Expression.straight index)).append
      (.cons trivial (.cons trivial (.single trivial)))
  | call call => exact Call.straight call
termination_by structural term

/-- The code of an expression does nothing but compute. -/
theorem Expression.straight (value : Expression) : StraightCode (value.code context) := by
  cases value with
  | mk first rest => exact (Term.straight first).append (Operations.straight rest)
termination_by structural value

/-- The code of operators does nothing but compute. -/
theorem Operations.straight (operations : Operations) :
    StraightCode (operations.code context) := by
  cases operations with
  | nil => exact nofun
  | cons operator operand rest =>
    exact (Term.straight operand).append (.cons operator.straight (Operations.straight rest))
termination_by structural operations

/-- The code of a call does nothing but compute. -/
theorem Call.straight (call : Call) : StraightCode (call.code context) := by
  cases call with
  | own name arguments =>
    unfold Call.code
    split
    · exact .append (.cons trivial (Arguments.straight arguments)) (.single trivial)
    · exact (Arguments.straight arguments).append (.single trivial)
  | member owner name arguments =>
    unfold Call.code
    split
    · exact .append (.cons trivial (Arguments.straight arguments)) (.single trivial)
    · exact (Arguments.straight arguments).append (.single trivial)
termination_by structural call

/-- The code of arguments does nothing but compute. -/
theorem Arguments.straight (arguments : Arguments) : StraightCode (arguments.code context) := by
  cases arguments with
  | nil => exact nofun
  | cons first rest => exact (Expression.straight first).append (Arguments.straight rest)
termination_by structural arguments

end

/-- An expression sets no labels. -/
@[simp] theorem Expression.labelNames_code (value : Expression) :
    labelNames (value.code context) = [] :=
  (value.straight context).labelNames_eq

/-- A call sets no labels. -/
@[simp] theorem Call.labelNames_code (call : Call) : labelNames (call.code context) = [] :=
  (call.straight context).labelNames_eq

/-- The labels with numbers from the given one on. -/
def Context.labels (next count : Nat) : List String :=
  (List.range' next count).map context.label

/-- The label with the first number stands before the others. -/
theorem Context.labels_succ (next count : Nat) :
    context.labels next (count + 1) = context.label next :: context.labels (next + 1) count := by
  rw [labels, List.range'_succ, List.map_cons]
  rfl

/-- Labels may be counted in two parts. -/
theorem Context.labels_add (next count more : Nat) :
    context.labels next (count + more) =
      context.labels next count ++ context.labels (next + count) more := by
  rw [labels, ← List.range'_append_1, List.map_append]
  rfl

/-- A variable that is loaded sets no labels. -/
@[simp] theorem Context.labelNames_load (name : String) : labelNames (context.load name) = [] :=
  (context.straight_load name).labelNames_eq

/-- A variable that is stored sets no labels. -/
@[simp] theorem Context.labelNames_store (name : String) : labelNames (context.store name) = [] :=
  (context.straight_store name).labelNames_eq

/-- A command that sets no label adds none. -/
@[simp] theorem labelNames_nil : labelNames [] = [] := rfl

mutual

/-- A statement sets the labels that it takes, each once. -/
theorem Statement.labelNames_code (statement : Statement) (next : Nat) :
    (labelNames (statement.code context next)).Perm (context.labels next statement.labels) := by
  -- Labels are set in another order than they are numbered, so the two lists are permutations.
  cases statement with
  | assign target value =>
    simp [Statement.code, Statement.labels, Context.labels]
  | assignElement array index value =>
    simp [Statement.code, Statement.labels, Context.labels, Command.label?]
  | ifThen condition body =>
    have names : labelNames ((Statement.ifThen condition body).code context next) =
        labelNames (body.code context (next + 1)) ++ [context.label next] := by
      simp [Statement.code, Command.label?]
    rw [names, Statement.labels, Context.labels_succ]
    exact (List.perm_append_singleton _ _).trans (.cons _ (Statements.labelNames_code body _))
  | ifThenElse condition body otherwise =>
    let finish := next + 1 + body.labels
    have names : labelNames ((Statement.ifThenElse condition body otherwise).code context next) =
        labelNames (body.code context (next + 1)) ++ context.label next ::
          (labelNames (otherwise.code context (finish + 1)) ++ [context.label finish]) := by
      simp [Statement.code, Command.label?, finish]
    have count : body.labels + otherwise.labels + 2 =
        body.labels + (otherwise.labels + 1) + 1 := by omega
    rw [names, Statement.labels, count, Context.labels_succ, Context.labels_add,
      Context.labels_succ]
    -- The label between the two blocks is numbered before the labels of either.
    refine List.perm_middle.trans (.cons _ (.append (Statements.labelNames_code body _) ?_))
    exact (List.perm_append_singleton _ _).trans (.cons _ (Statements.labelNames_code otherwise _))
  | whileDo condition body =>
    have names : labelNames ((Statement.whileDo condition body).code context next) =
        context.label next ::
          (labelNames (body.code context (next + 2)) ++ [context.label (next + 1)]) := by
      simp [Statement.code, Command.label?]
    rw [names, Statement.labels, Context.labels_succ, Context.labels_succ]
    refine .cons _ ((List.perm_append_singleton _ _).trans (.cons _ ?_))
    exact Statements.labelNames_code body _
  | call call => simp [Statement.code, Statement.labels, Context.labels, Command.label?]
  | returnNothing =>
    unfold Statement.code
    split <;> exact .refl []
  | returnValue value => simp [Statement.code, Statement.labels, Context.labels, Command.label?]
termination_by structural statement

/-- Statements set the labels that they take, each once. -/
theorem Statements.labelNames_code (statements : Statements) (next : Nat) :
    (labelNames (statements.code context next)).Perm (context.labels next statements.labels) := by
  -- Statements behind others take the labels with the next numbers.
  cases statements with
  | nil => exact .refl []
  | cons first rest =>
    rw [Statements.code, Statements.labels, labelNames_append, Context.labels_add]
    exact (Statement.labelNames_code first next).append (Statements.labelNames_code rest _)
termination_by structural statements

end

end

/-- The name of the label that a command jumps to. -/
def Command.target? : Command → Option String
  | .goto name | .ifGoto name => some name
  | _ => none

/-- The names of the labels that some code jumps to, in the order of the code. -/
def targetNames (code : List Command) : List String := code.filterMap Command.target?

/-- The jumps of code in two parts are the jumps of the parts. -/
@[simp] theorem targetNames_append (code more : List Command) :
    targetNames (code ++ more) = targetNames code ++ targetNames more :=
  List.filterMap_append

/-- The jumps of a command and of the code behind it. -/
@[simp] theorem targetNames_cons (command : Command) (code : List Command) :
    targetNames (command :: code) = command.target?.toList ++ targetNames code := by
  cases command <;> rfl

/-- No code jumps nowhere. -/
@[simp] theorem targetNames_nil : targetNames [] = [] := rfl

/-- Code that does nothing but compute jumps nowhere. -/
theorem StraightCode.targetNames_eq {code : List Command} (straight : StraightCode code) :
    targetNames code = [] := by
  -- A command that jumps is not straight.
  refine List.filterMap_eq_nil_iff.mpr fun command member => ?_
  have computes := straight command member
  cases command <;> first | rfl | cases computes

section

variable (context : Context)

/-- An expression jumps nowhere. -/
@[simp] theorem Expression.targetNames_code (value : Expression) :
    targetNames (value.code context) = [] :=
  (value.straight context).targetNames_eq

/-- A call jumps nowhere. -/
@[simp] theorem Call.targetNames_code (call : Call) : targetNames (call.code context) = [] :=
  (call.straight context).targetNames_eq

/-- A variable that is loaded jumps nowhere. -/
@[simp] theorem Context.targetNames_load (name : String) : targetNames (context.load name) = [] :=
  (context.straight_load name).targetNames_eq

/-- A variable that is stored jumps nowhere. -/
@[simp] theorem Context.targetNames_store (name : String) :
    targetNames (context.store name) = [] :=
  (context.straight_store name).targetNames_eq

mutual

/-- A statement jumps to the labels that it takes, to each once. -/
theorem Statement.targetNames_code (statement : Statement) (next : Nat) :
    (targetNames (statement.code context next)).Perm (context.labels next statement.labels) := by
  -- Each of the three forms that jump has one jump for each of its own labels.
  cases statement with
  | assign target value =>
    simp [Statement.code, Statement.labels, Context.labels]
  | assignElement array index value =>
    simp [Statement.code, Statement.labels, Context.labels, Command.target?]
  | ifThen condition body =>
    have names : targetNames ((Statement.ifThen condition body).code context next) =
        context.label next :: targetNames (body.code context (next + 1)) := by
      simp [Statement.code, Command.target?]
    rw [names, Statement.labels, Context.labels_succ]
    exact .cons _ (Statements.targetNames_code body _)
  | ifThenElse condition body otherwise =>
    let finish := next + 1 + body.labels
    have names : targetNames ((Statement.ifThenElse condition body otherwise).code context next) =
        context.label next :: (targetNames (body.code context (next + 1)) ++
          context.label finish :: targetNames (otherwise.code context (finish + 1))) := by
      simp [Statement.code, Command.target?, finish]
    have count : body.labels + otherwise.labels + 2 =
        body.labels + (otherwise.labels + 1) + 1 := by omega
    rw [names, Statement.labels, count, Context.labels_succ, Context.labels_add,
      Context.labels_succ]
    exact .cons _ ((Statements.targetNames_code body _).append
      (.cons _ (Statements.targetNames_code otherwise _)))
  | whileDo condition body =>
    have names : targetNames ((Statement.whileDo condition body).code context next) =
        context.label (next + 1) ::
          (targetNames (body.code context (next + 2)) ++ [context.label next]) := by
      simp [Statement.code, Command.target?]
    rw [names, Statement.labels, Context.labels_succ, Context.labels_succ]
    -- The jump back to the top stands last, and its label is numbered first.
    have inside := Statements.targetNames_code body (next + 2)
    exact (List.Perm.cons _ ((List.perm_append_singleton _ _).trans (.cons _ inside))).trans
      (.swap _ _ _)
  | call call => simp [Statement.code, Statement.labels, Context.labels, Command.target?]
  | returnNothing =>
    unfold Statement.code
    split <;> exact .refl []
  | returnValue value => simp [Statement.code, Statement.labels, Context.labels, Command.target?]
termination_by structural statement

/-- Statements jump to the labels that they take, to each once. -/
theorem Statements.targetNames_code (statements : Statements) (next : Nat) :
    (targetNames (statements.code context next)).Perm
      (context.labels next statements.labels) := by
  -- Statements behind others take the labels with the next numbers.
  cases statements with
  | nil => exact .refl []
  | cons first rest =>
    rw [Statements.code, Statements.labels, targetNames_append, Context.labels_add]
    exact (Statement.targetNames_code first next).append (Statements.targetNames_code rest _)
termination_by structural statements

end

/-- Statements jump to the labels that they set, to each once. -/
theorem Statements.targetNames_perm (statements : Statements) (next : Nat) :
    (targetNames (statements.code context next)).Perm
      (labelNames (statements.code context next)) :=
  (statements.targetNames_code context next).trans (statements.labelNames_code context next).symm

end

/-- Labels with different numbers have different names. -/
theorem Context.label_injective (context : Context) : Function.Injective context.label := by
  -- The number is the only part of a label that varies.
  intro number other same
  simpa [label, member, toString] using same

/-- Labels are named after their class. -/
theorem Context.labels_congr {context other : Context} (same : context.className = other.className)
    (next count : Nat) : context.labels next count = other.labels next count := by
  -- A label depends on nothing but its number and the name of the class.
  have label : context.label = other.label := by
    funext number
    rw [Context.label, Context.label, member, member, same]
  rw [labels, labels, label]

namespace ClassTree

/-- The commands that open a subroutine set no labels. -/
theorem labelNames_opening (tree : ClassTree) (subroutine : SubroutineTree) :
    labelNames (tree.opening subroutine) = [] := by
  -- Opening commands announce, push, call and pop.
  unfold opening prologue
  cases subroutine.kind <;> rfl

/-- The labels of all subroutines of a class are numbered through. -/
theorem labelNames_blocks {tree : ClassTree} {context : Context}
    (named : context.className = tree.name) (subroutines : List SubroutineTree) (next : Nat) :
    (labelNames (tree.blocks next subroutines).flatten).Perm
      (context.labels next (labelsOf subroutines)) := by
  -- Each subroutine goes on with the number behind the labels of those before it.
  induction subroutines generalizing next with
  | nil => exact .refl []
  | cons subroutine rest ih =>
    have own := subroutine.body.labelNames_code (tree.context subroutine) next
    have same : (tree.context subroutine).className = context.className := named.symm
    rw [Context.labels_congr same] at own
    rw [blocks, List.flatten_cons, labelNames_append, labelNames_append, labelNames_opening,
      labelsOf, Context.labels_add, List.nil_append]
    exact own.append (ih _)

/-- The labels of a class are numbered from zero on, up to the number of labels that it takes. -/
theorem labelNames_code {tree : ClassTree} {context : Context}
    (named : context.className = tree.name) :
    (labelNames tree.code).Perm (context.labels 0 (labelsOf tree.subroutines)) :=
  labelNames_blocks named tree.subroutines 0

/-- No label is set twice in a class. -/
theorem nodup_labelNames (tree : ClassTree) : (labelNames tree.code).Nodup := by
  -- The labels are numbered without a gap, and numbers determine labels.
  let context : Context := ⟨tree.name, ⟨.function, true, ""⟩, fun _ => none⟩
  have numbered : (labelNames tree.code).Perm (context.labels 0 _) := labelNames_code rfl
  refine numbered.nodup_iff.mpr (List.Pairwise.map context.label ?_ List.nodup_range')
  intro number other different same
  exact different (context.label_injective same)

end ClassTree

/-- A label that is set once is found where it stands. -/
theorem idxOf?_label {before behind : List Command} {name : String}
    (distinct : (labelNames (before ++ .label name :: behind)).Nodup) :
    (before ++ .label name :: behind).idxOf? (.label name) = some before.length := by
  -- An earlier command that is the same would set the label as well.
  have fresh : Command.label name ∉ before := by
    intro member
    have earlier : name ∈ labelNames before := List.mem_filterMap.mpr ⟨_, member, rfl⟩
    rw [labelNames_append, List.nodup_append] at distinct
    exact distinct.2.2 name earlier name (by simp [Command.label?]) rfl
  rw [List.idxOf?_eq_some_iff]
  refine ⟨by simp, by simp, fun position early same => ?_⟩
  rw [List.getElem_append_left early] at same
  exact fresh (same ▸ List.getElem_mem early)

end JackCompiler
