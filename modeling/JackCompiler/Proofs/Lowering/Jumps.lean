import JackCompiler.Proofs.Lowering.Discipline
import Mathlib.Algebra.GroupWithZero.Nat
import Mathlib.Data.List.Nodup

/-! The labels and jumps of a class: what its words ask for, and where its jumps lead. -/

namespace JackCompiler

/-- Every conditional jump in the code goes to a label that is set behind it. -/
def JumpsAhead : List Command → Prop
  | [] => True
  | command :: rest => (∀ name, command = .ifGoto name → name ∈ labelNames rest) ∧ JumpsAhead rest

/-- Code in two parts jumps ahead when both parts do. -/
theorem JumpsAhead.append {code more : List Command} (first : JumpsAhead code)
    (rest : JumpsAhead more) : JumpsAhead (code ++ more) := by
  -- A label that is set behind a jump is set there in the longer code as well.
  induction code with
  | nil => exact rest
  | cons command code ih =>
    refine ⟨fun name jumps => ?_, ih first.2⟩
    have set : name ∈ labelNames (code ++ more) := by
      rw [labelNames_append]
      exact List.mem_append_left _ (first.1 name jumps)
    exact set

/-- A command that is no conditional jump may stand before any code that jumps ahead. -/
theorem JumpsAhead.cons {command : Command} {code : List Command}
    (plain : ∀ name, command ≠ .ifGoto name) (rest : JumpsAhead code) :
    JumpsAhead (command :: code) :=
  ⟨fun name jumps => absurd jumps (plain name), rest⟩

/-- Code that does nothing but compute has no jumps. -/
theorem StraightCode.jumpsAhead {code : List Command} (straight : StraightCode code) :
    JumpsAhead code := by
  -- A command that computes is no jump.
  induction code with
  | nil => trivial
  | cons command code ih =>
    obtain ⟨computes, others⟩ := List.forall_mem_cons.mp straight
    refine .cons ?_ (ih others)
    rintro name rfl
    exact computes

/-- A jump ahead leads to a later position. -/
theorem JumpsAhead.exists_target {code : List Command} {position : Nat} {name : String}
    (ahead : JumpsAhead code) (found : code[position]? = some (.ifGoto name)) :
    ∃ target, position < target ∧ code[target]? = some (.label name) := by
  -- The jump is reached by passing the commands before it.
  induction code generalizing position with
  | nil => simp at found
  | cons command code ih =>
    cases position with
    | zero =>
      obtain ⟨label, member, named⟩ := List.mem_filterMap.mp (ahead.1 name (by simpa using found))
      cases label <;> cases named
      obtain ⟨target, reached⟩ := List.getElem?_of_mem member
      exact ⟨target + 1, by omega, reached⟩
    | succ position =>
      obtain ⟨target, later, reached⟩ := ih ahead.2 (by simpa using found)
      exact ⟨target + 1, by omega, reached⟩

/-- A label that is set once stands at one position. -/
theorem position_unique {code : List Command} (distinct : (labelNames code).Nodup)
    {position other : Nat} {name : String} (found : code[position]? = some (.label name))
    (again : code[other]? = some (.label name)) : position = other := by
  -- Each of the two is the first position of the label.
  have first {position : Nat} (found : code[position]? = some (.label name)) :
      code.idxOf? (.label name) = some position := by
    obtain ⟨inside, same⟩ := List.getElem?_eq_some_iff.mp found
    have split : code = code.take position ++ .label name :: code.drop (position + 1) := by
      rw [← same, List.getElem_cons_drop, List.take_append_drop]
    rw [split] at distinct ⊢
    rw [idxOf?_label distinct, List.length_take_of_le (Nat.le_of_lt inside)]
  exact Option.some.inj ((first found).symm.trans (first again))

section

variable (context : Context)

/-- The jump behind a condition is ahead of its label when the code behind it sets the label. -/
theorem Expression.jumpsAhead_condition (condition : Expression) {label : String}
    {code : List Command} (set : label ∈ labelNames code) (rest : JumpsAhead code) :
    JumpsAhead (condition.code context ++ .operate .not :: .ifGoto label :: code) := by
  refine (condition.straight context).jumpsAhead.append (.cons nofun ⟨?_, rest⟩)
  rintro name ⟨⟩
  exact set

mutual

/-- The conditional jumps of a statement go ahead. -/
theorem Statement.jumpsAhead (statement : Statement) (next : Nat) :
    JumpsAhead (statement.code context next) := by
  -- A conditional jump passes over a block, and its label is set at the end of that block.
  cases statement with
  | assign target value =>
    exact ((value.straight context).append (context.straight_store target)).jumpsAhead
  | assignElement array index value =>
    have address := (context.straight_load array).append (index.straight context)
    have stored : StraightCode [.pop .temp 0, .pop .pointer 1, .push .temp 0, .pop .that 0] :=
      .cons trivial (.cons trivial (.cons trivial (.single trivial)))
    have summed : StraightCode (.operate .add :: value.code context) :=
      .cons trivial (value.straight context)
    exact ((address.append summed).append stored).jumpsAhead
  | ifThen condition body =>
    have inside := Statements.jumpsAhead body (next + 1)
    simp only [Statement.code, List.append_assoc, List.cons_append]
    exact condition.jumpsAhead_condition context (by simp [Command.label?])
      (inside.append (.cons nofun trivial))
  | ifThenElse condition body otherwise =>
    have inside := Statements.jumpsAhead body (next + 1)
    have other := Statements.jumpsAhead otherwise (next + 1 + body.labels + 1)
    simp only [Statement.code, List.append_assoc, List.cons_append]
    exact condition.jumpsAhead_condition context (by simp [Command.label?])
      (inside.append (.cons nofun (.cons nofun (other.append (.cons nofun trivial)))))
  | whileDo condition body =>
    have inside := Statements.jumpsAhead body (next + 2)
    simp only [Statement.code, List.append_assoc, List.cons_append]
    exact .cons nofun (condition.jumpsAhead_condition context (by simp [Command.label?])
      (inside.append (.cons nofun (.cons nofun trivial))))
  | call call =>
    have discarded : StraightCode [.pop .temp 0] := .single trivial
    exact ((call.straight context).append discarded).jumpsAhead
  | returnNothing =>
    unfold Statement.code
    split
    · exact .cons nofun (.cons nofun trivial)
    · exact .cons nofun trivial
  | returnValue value => exact (value.straight context).jumpsAhead.append (.cons nofun trivial)
termination_by structural statement

/-- The conditional jumps of statements go ahead. -/
theorem Statements.jumpsAhead (statements : Statements) (next : Nat) :
    JumpsAhead (statements.code context next) := by
  cases statements with
  | nil => trivial
  | cons first rest =>
    exact (Statement.jumpsAhead first next).append (Statements.jumpsAhead rest _)
termination_by structural statements

end

end

/-- The labels that a word asks for: two for a loop, one for a condition, and one more for what is
done otherwise. -/
def TokenKind.labels : TokenKind → Nat
  | .keyword .«while» => 2
  | .keyword .«if» | .keyword .«else» => 1
  | _ => 0

/-- The labels that the words of a source ask for. -/
def labelsAskedBy (kinds : List TokenKind) : Nat := (kinds.map TokenKind.labels).sum

/-- Nothing asks for no labels. -/
@[simp] theorem labelsAskedBy_nil : labelsAskedBy [] = 0 := rfl

/-- A token asks for its labels besides those of the tokens behind it. -/
@[simp] theorem labelsAskedBy_cons (kind : TokenKind) (kinds : List TokenKind) :
    labelsAskedBy (kind :: kinds) = kind.labels + labelsAskedBy kinds :=
  List.sum_cons

/-- Tokens in two parts ask for the labels of both parts. -/
@[simp] theorem labelsAskedBy_append (kinds more : List TokenKind) :
    labelsAskedBy (kinds ++ more) = labelsAskedBy kinds + labelsAskedBy more := by
  simp [labelsAskedBy]

/-- Marks ask for no labels. -/
@[simp] theorem TokenKind.labels_symbol (c : Char) : (TokenKind.symbol c).labels = 0 := rfl

/-- Names ask for no labels. -/
@[simp] theorem TokenKind.labels_identifier (name : String) :
    (TokenKind.identifier name).labels = 0 := rfl

mutual

/-- A term asks for no labels. -/
theorem Term.labelsAskedBy_kinds (term : Term) : labelsAskedBy term.kinds = 0 := by
  -- None of the words in a term starts a loop or a condition.
  cases term with
  | integer value => rfl
  | string body => rfl
  | word constant => cases constant <;> rfl
  | group inner => simp [Term.kinds, Expression.labelsAskedBy_kinds inner]
  | unary operator operand => simp [Term.kinds, Term.labelsAskedBy_kinds operand]
  | name name => rfl
  | element array index => simp [Term.kinds, Expression.labelsAskedBy_kinds index]
  | call call => exact Call.labelsAskedBy_kinds call
termination_by structural term

/-- An expression asks for no labels. -/
theorem Expression.labelsAskedBy_kinds (value : Expression) : labelsAskedBy value.kinds = 0 := by
  cases value with
  | mk first rest =>
    simp [Expression.kinds, Term.labelsAskedBy_kinds first, Operations.labelsAskedBy_kinds rest]
termination_by structural value

/-- Operators and their operands ask for no labels. -/
theorem Operations.labelsAskedBy_kinds (operations : Operations) :
    labelsAskedBy operations.kinds = 0 := by
  cases operations with
  | nil => rfl
  | cons operator operand rest =>
    simp [Operations.kinds, Term.labelsAskedBy_kinds operand, Operations.labelsAskedBy_kinds rest]
termination_by structural operations

/-- A call asks for no labels. -/
theorem Call.labelsAskedBy_kinds (call : Call) : labelsAskedBy call.kinds = 0 := by
  cases call with
  | own name arguments => simp [Call.kinds, Arguments.labelsAskedBy_kinds arguments]
  | member owner name arguments => simp [Call.kinds, Arguments.labelsAskedBy_kinds arguments]
termination_by structural call

/-- Arguments ask for no labels. -/
theorem Arguments.labelsAskedBy_kinds (arguments : Arguments) :
    labelsAskedBy arguments.kinds = 0 := by
  cases arguments with
  | nil => rfl
  | cons first rest =>
    simp [Arguments.kinds, Expression.labelsAskedBy_kinds first,
      Arguments.labelsAskedBy_moreKinds rest]
termination_by structural arguments

/-- Further arguments ask for no labels. -/
theorem Arguments.labelsAskedBy_moreKinds (arguments : Arguments) :
    labelsAskedBy arguments.moreKinds = 0 := by
  cases arguments with
  | nil => rfl
  | cons first rest =>
    simp [Arguments.moreKinds, Expression.labelsAskedBy_kinds first,
      Arguments.labelsAskedBy_moreKinds rest]
termination_by structural arguments

end

attribute [simp] Expression.labelsAskedBy_kinds Call.labelsAskedBy_kinds

mutual

/-- A statement takes the labels that its words ask for. -/
theorem Statement.labelsAskedBy_kinds (statement : Statement) :
    labelsAskedBy statement.kinds = statement.labels := by
  -- The words of the statement itself are counted beside those of its blocks.
  cases statement with
  | assign target value => simp [Statement.kinds, Statement.labels, TokenKind.labels]
  | assignElement array index value =>
    simp [Statement.kinds, Statement.labels, TokenKind.labels]
  | ifThen condition body =>
    simp [Statement.kinds, Statement.labels, TokenKind.labels,
      Statements.labelsAskedBy_kinds body, Nat.add_comm]
  | ifThenElse condition body otherwise =>
    simp [Statement.kinds, Statement.labels, TokenKind.labels,
      Statements.labelsAskedBy_kinds body, Statements.labelsAskedBy_kinds otherwise]
    omega
  | whileDo condition body =>
    simp [Statement.kinds, Statement.labels, TokenKind.labels,
      Statements.labelsAskedBy_kinds body, Nat.add_comm]
  | call call => simp [Statement.kinds, Statement.labels, TokenKind.labels]
  | returnNothing => rfl
  | returnValue value => simp [Statement.kinds, Statement.labels, TokenKind.labels]
termination_by structural statement

/-- Statements take the labels that their words ask for. -/
theorem Statements.labelsAskedBy_kinds (statements : Statements) :
    labelsAskedBy statements.kinds = statements.labels := by
  cases statements with
  | nil => rfl
  | cons first rest =>
    simp [Statements.kinds, Statements.labels, Statement.labelsAskedBy_kinds first,
      Statements.labelsAskedBy_kinds rest]
termination_by structural statements

end

/-- A type asks for no labels. -/
@[simp] theorem TypeName.labels_kind (type : TypeName) : type.kind.labels = 0 := by
  cases type with
  | primitive type => cases type <;> rfl
  | named name => rfl

/-- Further names ask for no labels. -/
@[simp] theorem labelsAskedBy_moreNames (names : List String) :
    labelsAskedBy (moreNames names) = 0 := by
  -- Each name stands behind a comma.
  induction names with
  | nil => rfl
  | cons name names ih =>
    rw [moreNames, List.flatMap_cons, ← moreNames]
    simp [ih]

/-- A list of variables asks for no labels. -/
@[simp] theorem VariableList.labelsAskedBy_kinds (list : VariableList) :
    labelsAskedBy list.kinds = 0 := by
  simp [VariableList.kinds]

/-- Phrases ask for the labels of each of them. -/
theorem labelsAskedBy_flatMap {α : Type} (kinds : α → List TokenKind) (phrases : List α) :
    labelsAskedBy (phrases.flatMap kinds) = (phrases.map fun phrase =>
      labelsAskedBy (kinds phrase)).sum := by
  induction phrases with
  | nil => rfl
  | cons phrase phrases ih => simp [ih]

/-- Parameters ask for no labels. -/
@[simp] theorem Parameter.labelsAskedBy_allKinds (parameters : List Parameter) :
    labelsAskedBy (allKinds parameters) = 0 := by
  cases parameters with
  | nil => rfl
  | cons first others => simp [allKinds, moreKinds, kinds, labelsAskedBy_flatMap]

/-- A subroutine takes the labels that its words ask for. -/
theorem SubroutineTree.labelsAskedBy_kinds (tree : SubroutineTree) :
    labelsAskedBy tree.kinds = tree.body.labels := by
  -- All words of a subroutine that ask for labels stand in its body.
  have opens : (TokenKind.keyword tree.kind.keyword).labels = 0 := by cases tree.kind <;> rfl
  have result : (resultKind tree.result?).labels = 0 := by
    unfold resultKind
    cases tree.result? with
    | none => rfl
    | some type => exact type.labels_kind
  have declares : (TokenKind.keyword .var).labels = 0 := rfl
  simp [kinds, restKinds, localKinds, labelsAskedBy_flatMap, opens, result, declares,
    Statements.labelsAskedBy_kinds]

namespace ClassTree

/-- A class takes the labels that its words ask for. -/
theorem labelsAskedBy_kinds (tree : ClassTree) :
    labelsAskedBy tree.kinds = labelsOf tree.subroutines := by
  -- All words of a class that ask for labels stand in its subroutines.
  have opens : (TokenKind.keyword .«class»).labels = 0 := rfl
  have outer (classVariables : ClassVariables) : labelsAskedBy classVariables.kinds = 0 := by
    obtain ⟨kind, list⟩ := classVariables
    cases kind <;> simp [ClassVariables.kinds, ClassVariableKind.keyword, TokenKind.labels]
  have inner (subroutines : List SubroutineTree) :
      labelsAskedBy (subroutines.flatMap SubroutineTree.kinds) = labelsOf subroutines := by
    induction subroutines with
    | nil => rfl
    | cons subroutine rest ih => simp [labelsOf, ih, SubroutineTree.labelsAskedBy_kinds]
  simp [kinds, opens, labelsAskedBy_flatMap _ tree.classVariables, outer, inner]

/-- The commands that open a subroutine have no conditional jumps. -/
theorem jumpsAhead_opening (tree : ClassTree) (subroutine : SubroutineTree) :
    JumpsAhead (tree.opening subroutine) := by
  unfold opening prologue
  refine .cons nofun ?_
  cases subroutine.kind with
  | constructor => exact .cons nofun (.cons nofun (.cons nofun trivial))
  | function => trivial
  | method => exact .cons nofun (.cons nofun trivial)

/-- The conditional jumps of subroutines go ahead. -/
theorem jumpsAhead_blocks (tree : ClassTree) (subroutines : List SubroutineTree) (next : Nat) :
    JumpsAhead (tree.blocks next subroutines).flatten := by
  -- Each jump goes ahead within its own subroutine, whatever stands behind it.
  induction subroutines generalizing next with
  | nil => trivial
  | cons subroutine rest ih =>
    rw [blocks, List.flatten_cons]
    have body := subroutine.body.jumpsAhead (tree.context subroutine) next
    exact ((tree.jumpsAhead_opening subroutine).append body).append (ih _)

/-- The commands that open a subroutine jump nowhere. -/
theorem targetNames_opening (tree : ClassTree) (subroutine : SubroutineTree) :
    targetNames (tree.opening subroutine) = [] := by
  unfold opening prologue
  cases subroutine.kind <;> rfl

/-- Subroutines jump to the labels that they set, to each once. -/
theorem targetNames_blocks (tree : ClassTree) (subroutines : List SubroutineTree) (next : Nat) :
    (targetNames (tree.blocks next subroutines).flatten).Perm
      (labelNames (tree.blocks next subroutines).flatten) := by
  -- What opens a subroutine has neither labels nor jumps, so that only its body counts.
  induction subroutines generalizing next with
  | nil => exact .refl []
  | cons subroutine rest ih =>
    rw [blocks, List.flatten_cons, targetNames_append, targetNames_append, labelNames_append,
      labelNames_append, targetNames_opening, labelNames_opening]
    exact (subroutine.body.targetNames_perm (tree.context subroutine) next).append (ih _)

/-- Each block of a class jumps to its own labels only. -/
theorem targetNames_block {tree : ClassTree} {next : Nat} {subroutines : List SubroutineTree}
    {block : List Command} (member : block ∈ tree.blocks next subroutines) :
    targetNames block ⊆ labelNames block := by
  -- The header of a block has no part in its jumps.
  obtain ⟨before, behind, same⟩ := List.append_of_mem member
  obtain ⟨earlier, later, subroutine, -, -, rfl⟩ := exists_of_blocks_eq same
  exact tree.targetNames_body subroutine _

end ClassTree

/-- The class in whose code a label stands is told by the name of the label. -/
theorem className_of_label {className other : String} {number further : Nat}
    (same : s!"{className}.label{number}" = s!"{other}.label{further}") : className = other := by
  -- The last dot of the name stands behind the class, because a number has no dots.
  let word : List Char := ['l', 'a', 'b', 'e', 'l']
  let suffix (number : Nat) : List Char := word ++ Nat.toDigits 10 number
  have letters : ∀ c ∈ word, (c != '.') = true := by simp [word]
  have plain (number : Nat) : ∀ c ∈ (suffix number).reverse, (c != '.') = true := by
    intro c member
    rcases List.mem_append.mp (List.mem_reverse.mp member) with letter | digit
    · exact letters c letter
    · have isDigit := Nat.isDigit_of_mem_toDigits (by decide) (by decide) digit
      refine bne_iff_ne.mpr ?_
      rintro rfl
      cases isDigit
  have parts (name : String) (number : Nat) :
      (s!"{name}.label{number}").toList.reverse.dropWhile (· != '.') =
        '.' :: name.toList.reverse := by
    have split : (s!"{name}.label{number}").toList = name.toList ++ '.' :: suffix number := by
      simp [suffix, word, toString]
    rw [split, List.reverse_append, List.reverse_cons, List.append_assoc,
      List.dropWhile_append_of_pos (plain number)]
    rfl
  have heads := parts className number
  rw [same, parts, List.cons.injEq] at heads
  exact String.toList_inj.mp (List.reverse_inj.mp heads.2.symm)

/-- The labels of some code, which are those given: each is set once, and one jump leads to it. -/
structure SettledLabels (code : List Command) (labels : List String) : Prop where
  exactly : (labelNames code).Perm labels
  distinct : (labelNames code).Nodup
  /-- No jump leaves its function. -/
  inside : ∀ block ∈ functionBlocks code, targetNames block ⊆ labelNames block
  once : ∀ name ∈ labelNames code, (targetNames code).count name = 1
  /-- Only an unconditional jump may go back. -/
  ahead : ∀ {position target : Nat} {name : String}, code[position]? = some (.ifGoto name) →
    code[target]? = some (.label name) → position < target

/-- The labels of a lawful class are numbered through and settled. -/
theorem ClassTree.settledLabels {tree : ClassTree} (lawful : tree.Lawful) :
    SettledLabels tree.code ((List.range (labelsAskedBy tree.kinds)).map fun number =>
      s!"{tree.name}.label{number}") where
  exactly := by
    let context : Context := ⟨tree.name, ⟨.function, true, ""⟩, fun _ => none⟩
    have numbered : (labelNames tree.code).Perm (context.labels 0 _) := labelNames_code rfl
    rw [Context.labels, ← List.range_eq_range'] at numbered
    rw [labelsAskedBy_kinds, ← funext context.label_eq]
    exact numbered
  distinct := tree.nodup_labelNames
  inside := by
    intro block member
    rw [functionBlocks_code lawful] at member
    exact targetNames_block member
  once := by
    intro name set
    -- The jumps lead to the labels one by one, and no label is set twice.
    have aimed : (targetNames tree.code).Perm (labelNames tree.code) :=
      tree.targetNames_blocks tree.subroutines 0
    rw [aimed.count_eq]
    exact List.count_eq_one_of_mem tree.nodup_labelNames set
  ahead := by
    intro position target name jumps set
    obtain ⟨reached, later, again⟩ :=
      (tree.jumpsAhead_blocks tree.subroutines 0).exists_target jumps
    rw [position_unique tree.nodup_labelNames set again]
    exact later

/-- In the code of an accepted class the labels are numbered through, as many as the words of the
source ask for; each is set once and reached by one jump of its own function, which goes ahead if
it is conditional; and no class of another name has any of them. -/
theorem accepted_labels {source : String} {code : List Command}
    (accepted : compile source = .ok code) :
    ∃ tree : ClassTree, (∀ other, Spells source other ↔ other = tree) ∧
      SettledLabels code ((List.range (labelsAskedBy tree.kinds)).map fun number =>
        s!"{tree.name}.label{number}") ∧
      ∀ {source' : String} {code' : List Command} {tree' : ClassTree},
        compile source' = .ok code' → Spells source' tree' → tree'.name ≠ tree.name →
        (labelNames code).Disjoint (labelNames code') := by
  obtain ⟨tree, spells, lawful, rfl⟩ := (compile_eq_ok_iff source code).mp accepted
  refine ⟨tree, spells.iff_eq, ClassTree.settledLabels lawful, ?_⟩
  intro source' code' tree' accepted' spells' different name set set'
  obtain ⟨other, spellsOther, lawful', rfl⟩ := (compile_eq_ok_iff source' code').mp accepted'
  obtain rfl := spells'.unique spellsOther
  -- A common label would be named after both classes.
  have numbered := (ClassTree.settledLabels lawful).exactly.subset set
  have numbered' := (ClassTree.settledLabels lawful').exactly.subset set'
  obtain ⟨number, -, rfl⟩ := List.mem_map.mp numbered
  obtain ⟨number', -, same⟩ := List.mem_map.mp numbered'
  exact different (className_of_label same)

/-- A loop around a condition takes four labels, which are set out of order. -/
theorem loop_around_condition_labels :
    ∃ code : List Command,
      compile "class Loop { function void run(boolean go) {
        while (go) { if (go) { let go = false; } else { return; } } return; } }" = .ok code ∧
      labelNames code = ["Loop.label0", "Loop.label2", "Loop.label3", "Loop.label1"] ∧
      (targetNames code).count "Loop.label2" = 1 := by
  let code : List Command := [.function "Loop.run" 0, .label "Loop.label0", .push .argument 0,
    .operate .not, .ifGoto "Loop.label1", .push .argument 0, .operate .not, .ifGoto "Loop.label2",
    .push .constant 0, .pop .argument 0, .goto "Loop.label3", .label "Loop.label2",
    .push .constant 0, .ret, .label "Loop.label3", .goto "Loop.label0", .label "Loop.label1",
    .push .constant 0, .ret]
  have accepted : compile "class Loop { function void run(boolean go) {
        while (go) { if (go) { let go = false; } else { return; } } return; } }" = .ok code := by
    decide +kernel
  obtain ⟨tree, -, settled, -⟩ := accepted_labels accepted
  exact ⟨code, accepted, by decide, settled.once _ (by decide)⟩

end JackCompiler
