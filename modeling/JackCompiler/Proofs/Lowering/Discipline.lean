import JackCompiler.Proofs.Compilation.Correctness
import JackCompiler.Proofs.Lowering.Depth
import Mathlib.Data.List.SplitBy

/-! Every command of a class finds the stack at the depth that it needs. -/

namespace JackCompiler

/-- Each command of the code keeps a rule that depends on the code before it. -/
def Throughout (rule : List Command → Command → Prop) (before : List Command) :
    List Command → Prop
  | [] => True
  | command :: rest => rule before command ∧ Throughout rule (before ++ [command]) rest

section

variable {rule : List Command → Command → Prop} {before : List Command}

/-- A rule is kept throughout code in two parts when it is kept throughout the parts. -/
theorem throughout_append_iff {code more : List Command} :
    Throughout rule before (code ++ more) ↔
      Throughout rule before code ∧ Throughout rule (before ++ code) more := by
  -- The commands of the second part stand behind the whole first part.
  induction code generalizing before with
  | nil => simp [Throughout]
  | cons command rest ih => simp [Throughout, ih, and_assoc]

/-- A rule that is kept throughout some code is kept at each position. -/
theorem Throughout.at {code : List Command} {position : Nat} {command : Command}
    (keeps : Throughout rule before code) (found : code[position]? = some command) :
    rule (before ++ code.take position) command := by
  -- The position is reached by passing the commands before it.
  induction code generalizing before position with
  | nil => simp at found
  | cons first rest ih =>
    cases position with
    | zero =>
      obtain rfl : first = command := by simpa using found
      simpa using keeps.1
    | succ position => simpa using ih keeps.2 (by simpa using found)

end

namespace ClassTree

/-- A return without a value stands behind the code, in a subroutine that is not declared `void`. -/
def ReturnsBare (tree : ClassTree) (before : List Command) : Prop :=
  ∃ (subroutine : SubroutineTree) (number : Nat) (rest : Statements) (behind : List Command),
    tree.Contains subroutine before number (.cons .returnNothing rest) behind ∧
      subroutine.result? ≠ none

/-- A command of a body finds the stack at a depth that it may be found at. -/
def Fits (tree : ClassTree) (before : List Command) : Command → Prop
  | .label _ | .goto _ => depthAfter 0 before = 0
  | .ifGoto _ => depthAfter 0 before = 1
  | .ret => depthAfter 0 before = 1 ∨ depthAfter 0 before = 0 ∧ tree.ReturnsBare before
  -- A header belongs to no body.
  | .function .. => False
  | command => command.pops ≤ depthAfter 0 before

variable {tree : ClassTree} {subroutine : SubroutineTree} {before behind code : List Command}
  {number depth depth' : Nat}

end ClassTree

/-- Code that computes fits wherever the stack has the depth that it starts at. -/
theorem Climbs.throughout (tree : ClassTree) {before code : List Command} {depth depth' : Nat}
    (climbs : Climbs depth code depth') (level : depthAfter 0 before = depth) :
    Throughout tree.Fits before code := by
  -- The depth behind each command is the one that the next command starts at.
  induction climbs generalizing before with
  | nil depth => trivial
  | @cons command _ _ _ straight operands _ ih =>
    have alone : Climbs _ [command] _ := .single straight operands rfl
    obtain rfl := level
    constructor
    · -- Labels, jumps, headers and returns do not compute.
      cases command <;> first | exact operands | cases straight
    · apply ih
      rw [depthAfter_append, alone.depthAfter_eq]

section

variable {tree : ClassTree} {subroutine : SubroutineTree}

mutual

/-- The commands of a statement fit where the statement stands. -/
theorem Statement.throughout (statement : Statement) {before behind : List Command} {number : Nat}
    {rest : Statements}
    (contains : tree.Contains subroutine before number (.cons statement rest) behind)
    (lawful : tree.Lawful) :
    Throughout tree.Fits before (statement.code (tree.context subroutine) number) := by
  -- The stack is empty at the statement, from which the depths inside of it follow.
  have level := contains.depthAfter_before lawful
  have own := (contains.lawful lawful).1
  cases statement with
  | assign target value =>
    have stored := (value.climbs own.2 0).append (Context.climbs_store own.1 0)
    exact stored.throughout tree level
  | assignElement array index value =>
    exact (Statement.climbs_assignElement own).throughout tree level
  | ifThen condition body =>
    have tested := (condition.climbs own.1 0).throughout tree level
    have inside := Statements.throughout body (contains.inside (.ifThen (.whole _ body))) lawful
    have passed := body.depthAfter_code own.2 (number + 1)
    simp only [Statement.code, throughout_append_iff, Throughout, List.append_assoc,
      List.cons_append, List.nil_append]
    refine ⟨tested, ?_, ?_, inside, ?_, trivial⟩
    all_goals simp [ClassTree.Fits, level, condition.depthAfter_code own.1, passed,
      Command.depthAfter, Command.pops, Command.pushes]
  | ifThenElse condition body otherwise =>
    have tested := (condition.climbs own.1 0).throughout tree level
    have inside := Statements.throughout body (contains.inside (.ifThenElse (.whole _ body))) lawful
    have other := Statements.throughout otherwise
      (contains.inside (.otherwise (.whole _ otherwise))) lawful
    have passed := body.depthAfter_code own.2.1 (number + 1)
    have passed' := otherwise.depthAfter_code own.2.2 (number + 1 + body.labels + 1)
    simp only [List.append_assoc, List.cons_append] at inside other
    simp only [Statement.code, throughout_append_iff, Throughout, List.append_assoc,
      List.cons_append, List.nil_append]
    refine ⟨tested, ?_, ?_, inside, ?_, ?_, other, ?_, trivial⟩
    all_goals simp [ClassTree.Fits, level, condition.depthAfter_code own.1, passed, passed',
      Command.depthAfter, Command.pops, Command.pushes]
  | whileDo condition body =>
    let label := (tree.context subroutine).label number
    have labelled : depthAfter 0 (before ++ [.label label]) = 0 := by
      simp [level, Command.depthAfter, Command.pops, Command.pushes]
    have tested := (condition.climbs own.1 0).throughout tree labelled
    have inside := Statements.throughout body (contains.inside (.whileDo (.whole _ body))) lawful
    have passed := body.depthAfter_code own.2 (number + 2)
    simp only [List.cons_append] at inside
    simp only [Statement.code, throughout_append_iff, Throughout, List.append_assoc,
      List.cons_append, List.nil_append]
    refine ⟨?_, tested, ?_, ?_, inside, ?_, ?_, trivial⟩
    all_goals simp [ClassTree.Fits, level, condition.depthAfter_code own.1, passed,
      Command.depthAfter, Command.pops, Command.pushes]
  | call call => exact ((call.climbs own 0).append (.pop .temp 0 0)).throughout tree level
  | returnNothing =>
    unfold Statement.code
    split
    · simp [Throughout, ClassTree.Fits, level, Command.depthAfter, Command.pops, Command.pushes]
    · rename_i nonvoid
      have declared : subroutine.result? ≠ none := by
        simpa [ClassTree.context, SubroutineTree.head] using nonvoid
      have bare : tree.ReturnsBare before :=
        ⟨subroutine, number, rest, behind, contains, declared⟩
      exact ⟨.inr ⟨level, bare⟩, trivial⟩
  | returnValue value =>
    have valued := (value.climbs own 0).throughout tree level
    refine throughout_append_iff.mpr ⟨valued, .inl ?_, trivial⟩
    rw [depthAfter_append, level, value.depthAfter_code own]
termination_by structural statement

/-- The commands of statements fit where the statements stand. -/
theorem Statements.throughout (statements : Statements) {before behind : List Command}
    {number : Nat} (contains : tree.Contains subroutine before number statements behind)
    (lawful : tree.Lawful) :
    Throughout tree.Fits before (statements.code (tree.context subroutine) number) := by
  -- The second statement stands in the class as well, behind the first one.
  cases statements with
  | nil => trivial
  | cons first rest =>
    have later := contains.inside (.later (.whole _ rest))
    rw [List.append_nil] at later
    exact throughout_append_iff.mpr ⟨Statement.throughout first contains lawful,
      Statements.throughout rest later lawful⟩
termination_by structural statements

end

end

/-- The command opens a function. -/
def Command.isHeader : Command → Bool
  | .function .. => true
  | _ => false

/-- The functions of some code: pieces from a header up to the next one. -/
def functionBlocks (code : List Command) : List (List Command) :=
  code.splitBy fun _ command => !command.isHeader

namespace ClassTree

variable {tree : ClassTree}

/-- The blocks of subroutines are those of each one, between those of the others. -/
theorem exists_of_blocks_eq {next : Nat} {subroutines : List SubroutineTree}
    {before behind : List (List Command)} {block : List Command}
    (same : tree.blocks next subroutines = before ++ block :: behind) :
    ∃ (earlier later : List SubroutineTree) (subroutine : SubroutineTree),
      subroutines = earlier ++ subroutine :: later ∧ before = tree.blocks next earlier ∧
      block = tree.opening subroutine ++
        subroutine.body.code (tree.context subroutine) (next + labelsOf earlier) := by
  -- Blocks and subroutines are gone through together until the block is found.
  induction subroutines generalizing next before with
  | nil => simp [blocks] at same
  | cons subroutine rest ih =>
    cases before with
    | nil =>
      obtain ⟨rfl, -⟩ := List.cons.inj same
      exact ⟨[], rest, subroutine, rfl, rfl, rfl⟩
    | cons first before =>
      obtain ⟨rfl, others⟩ := List.cons.inj same
      obtain ⟨earlier, later, inner, rfl, rfl, rfl⟩ := ih others
      refine ⟨subroutine :: earlier, later, inner, rfl, rfl, ?_⟩
      rw [labelsOf, Nat.add_assoc]

/-- The stack is empty behind a header. -/
theorem depthAfter_header (tree : ClassTree) (before : List Command)
    (subroutine : SubroutineTree) : depthAfter 0 (before ++ [tree.header subroutine]) = 0 := by
  -- A header starts a new stack.
  rw [depthAfter_append]
  rfl

/-- The stack is empty at the end of a body. -/
theorem depthAfter_body {earlier later : List SubroutineTree} {subroutine : SubroutineTree}
    (same : tree.subroutines = earlier ++ subroutine :: later) (lawful : tree.Lawful)
    (before : List Command) :
    depthAfter 0 (before ++ [tree.header subroutine] ++ (tree.prologue subroutine ++
      subroutine.body.code (tree.context subroutine) (labelsOf earlier))) = 0 := by
  -- The commands behind the header and the statements both leave the stack empty.
  have member : subroutine ∈ tree.subroutines := by simp [same]
  rw [depthAfter_append, depthAfter_header, depthAfter_append,
    (tree.climbs_prologue subroutine).depthAfter_eq]
  exact subroutine.body.depthAfter_code (lawful.bodies subroutine member) _

/-- A body jumps to its own labels only. -/
theorem targetNames_body (tree : ClassTree) (subroutine : SubroutineTree) (next : Nat) :
    targetNames (tree.prologue subroutine ++
        subroutine.body.code (tree.context subroutine) next) ⊆
      labelNames (tree.prologue subroutine ++
        subroutine.body.code (tree.context subroutine) next) := by
  -- Nothing jumps before the statements.
  have straight : targetNames (tree.prologue subroutine) = [] := by
    unfold prologue
    cases subroutine.kind <;> rfl
  rw [targetNames_append, straight, labelNames_append]
  exact List.subset_append_of_subset_right _
    (subroutine.body.targetNames_perm (tree.context subroutine) next).subset

/-- The commands of a body fit, behind the code of the subroutines before it and its header. -/
theorem throughout_body {earlier later : List SubroutineTree} {subroutine : SubroutineTree}
    (same : tree.subroutines = earlier ++ subroutine :: later) (lawful : tree.Lawful) :
    Throughout tree.Fits ((tree.blocks 0 earlier).flatten ++ [tree.header subroutine])
      (tree.prologue subroutine ++
        subroutine.body.code (tree.context subroutine) (labelsOf earlier)) := by
  -- The opening commands compute, and the statements stand in the class behind them.
  have opened := tree.depthAfter_header (tree.blocks 0 earlier).flatten subroutine
  have contains : tree.Contains subroutine _ _ _ _ :=
    ⟨earlier, later, _, _, same, .whole (labelsOf earlier) subroutine.body, rfl, rfl⟩
  have inside := subroutine.body.throughout contains lawful
  have early := (tree.climbs_prologue subroutine).throughout tree opened
  refine throughout_append_iff.mpr ⟨early, ?_⟩
  simpa [opening] using inside

/-- No command of a body opens another function. -/
theorem isHeader_eq_false {before body : List Command} {command : Command}
    (fits : Throughout tree.Fits before body) (member : command ∈ body) :
    command.isHeader = false := by
  -- A header fits nowhere in a body.
  obtain ⟨position, found⟩ := List.getElem?_of_mem member
  have fit := fits.at found
  cases command <;> first | rfl | cases fit

/-- The functions in the code of a lawful class are its subroutines. -/
theorem functionBlocks_code (lawful : tree.Lawful) :
    functionBlocks tree.code = tree.blocks 0 tree.subroutines := by
  -- Each block starts with a header and has no other one, so that the code is split between them.
  have shape (block : List Command) (member : block ∈ tree.blocks 0 tree.subroutines) :
      ∃ header body, block = header :: body ∧ header.isHeader = true ∧
        ∀ command ∈ body, command.isHeader = false := by
    obtain ⟨before, behind, same⟩ := List.append_of_mem member
    obtain ⟨earlier, later, subroutine, split, rfl, rfl⟩ := exists_of_blocks_eq same
    rw [Nat.zero_add]
    exact ⟨_, _, rfl, rfl, fun command => isHeader_eq_false (throughout_body split lawful)⟩
  apply List.splitBy_flatten
  · intro empty
    obtain ⟨header, body, same, -⟩ := shape [] empty
    cases same
  · intro block member
    obtain ⟨header, body, rfl, -, inside⟩ := shape block member
    refine List.Pairwise.isChain (List.pairwise_cons.mpr ⟨fun command later => ?_, ?_⟩)
    · simp [inside command later]
    · exact List.pairwise_of_forall_mem_list fun _ _ command later => by simp [inside command later]
  · refine List.Pairwise.isChain (List.pairwise_of_forall_mem_list fun block first other next => ?_)
    obtain ⟨header, body, rfl, -⟩ := shape block first
    obtain ⟨header', body', rfl, opens, -⟩ := shape other next
    exact ⟨List.cons_ne_nil _ _, List.cons_ne_nil _ _, by simp [opens]⟩

end ClassTree

/-- Control may go on behind a command. -/
def Command.Continues : Command → Prop
  | .goto _ | .ret => False
  | _ => True

/-- Control may go from one position of a body to another. -/
inductive Flows (body : List Command) : Nat → Nat → Prop where
  /-- The command behind is next, also where a conditional jump is not taken. -/
  | next {position : Nat} {command : Command} (found : body[position]? = some command)
      (continues : command.Continues) : Flows body position (position + 1)
  /-- A jump goes to every place where its label is set. -/
  | jump {position target : Nat} {command : Command} {name : String}
      (found : body[position]? = some command) (jumps : command.target? = some name)
      (labelled : body[target]? = some (.label name)) : Flows body position target

/-- Depths of the stack at the positions of a body, some of whose returns are without a value. -/
structure StackDepths (body : List Command) (bare : Nat → Prop) (depth : Nat → Nat) : Prop where
  start : depth 0 = 0
  finish : depth body.length = 0
  operands : ∀ {position : Nat} {command : Command}, body[position]? = some command →
    command.pops ≤ depth position
  /-- Wherever control goes on, it finds the depth that the command leaves. -/
  flows : ∀ {position target : Nat} {command : Command}, body[position]? = some command →
    Flows body position target → depth target = depth position - command.pops + command.pushes
  labels : ∀ {position : Nat} {name : String}, body[position]? = some (.label name) →
    depth position = 0
  /-- No jump leaves the body. -/
  targets : ∀ {position : Nat} {command : Command} {name : String},
    body[position]? = some command → command.target? = some name → .label name ∈ body
  /-- A return gives the only value on the stack, and a bare one finds none. -/
  returns : ∀ {position : Nat}, body[position]? = some .ret →
    depth position = 1 ∧ ¬ bare position ∨ depth position = 0 ∧ bare position

/-- A body has the depths that are counted along it when all of its commands fit. -/
theorem ClassTree.stackDepths {tree : ClassTree} {before body : List Command}
    (lawful : tree.Lawful) (fits : Throughout tree.Fits before body)
    (start : depthAfter 0 before = 0) (finish : depthAfter 0 (before ++ body) = 0)
    (targets : targetNames body ⊆ labelNames body) :
    StackDepths body (fun position => tree.ReturnsBare (before ++ body.take position))
      fun position => depthAfter 0 (before ++ body.take position) where
  start := by simpa using start
  finish := by simpa using finish
  operands := by
    intro position command found
    have fit := fits.at found
    -- Straight commands find their operands, and the others take what is known to be there.
    cases command <;> simp_all [Fits, Command.pops]
  labels found := fits.at found
  flows := by
    intro position target command found flows
    have fit := fits.at found
    cases flows with
    | next found' continues =>
      obtain rfl := Option.some.inj (found.symm.trans found')
      rw [List.take_add_one, found, Option.toList_some, ← List.append_assoc, depthAfter_append]
      cases command with
      | goto | ret => cases continues
      | function => cases fit
      | _ => rfl
    | jump found' jumps labelled =>
      obtain rfl := Option.some.inj (found.symm.trans found')
      have level : depthAfter 0 (before ++ body.take target) = 0 := fits.at labelled
      rw [level]
      cases command with
      | goto | ifGoto =>
        rw [Fits] at fit
        rw [fit]
        rfl
      | _ => cases jumps
  targets := by
    intro position command name found jumps
    have aimed : name ∈ targetNames body :=
      List.mem_filterMap.mpr ⟨command, List.mem_of_getElem? found, jumps⟩
    obtain ⟨label, member, named⟩ := List.mem_filterMap.mp (targets aimed)
    cases label <;> cases named
    exact member
  returns := by
    intro position found
    have fit := fits.at found
    rcases fit with level | ⟨level, bare⟩
    · refine .inl ⟨level, ?_⟩
      rintro ⟨subroutine, number, rest, behind, contains, -⟩
      have empty := contains.depthAfter_before lawful
      omega
    · exact .inr ⟨level, bare⟩

/-- In the code of an accepted class, each function has consistent depths of the stack along its
commands: the stack is empty at its start, at its end and at all labels, no command lacks an
operand, and every return finds its value only, except for a bare one where a value is due. -/
theorem accepted_stack_depths {source : String} {code : List Command}
    (accepted : compile source = .ok code) :
    ∃ tree : ClassTree, (∀ other, Spells source other ↔ other = tree) ∧
      ∀ {earlier later : List (List Command)} {block : List Command},
        functionBlocks code = earlier ++ block :: later →
        ∃ (name : String) (locals : Nat) (body : List Command) (depth : Nat → Nat),
          block = .function name locals :: body ∧
          StackDepths body (fun position => tree.ReturnsBare
            (earlier.flatten ++ [.function name locals] ++ body.take position)) depth := by
  -- The function is a subroutine of the class, whose depths are counted along its code.
  obtain ⟨tree, spells, lawful, rfl⟩ := (compile_eq_ok_iff source code).mp accepted
  refine ⟨tree, spells.iff_eq, fun same => ?_⟩
  rw [ClassTree.functionBlocks_code lawful] at same
  obtain ⟨first, last, subroutine, split, rfl, rfl⟩ := ClassTree.exists_of_blocks_eq same
  rw [Nat.zero_add]
  have fits := ClassTree.throughout_body split lawful
  exact ⟨_, _, _, _, rfl, ClassTree.stackDepths lawful fits (tree.depthAfter_header _ subroutine)
    (ClassTree.depthAfter_body split lawful _) (tree.targetNames_body subroutine _)⟩

/-- A return without a value leaves an empty stack where another one leaves a value. -/
theorem bare_return_depths :
    ∃ (code body : List Command) (bare : Nat → Prop) (depth : Nat → Nat),
      compile "class Bare { function int give(boolean now) {
        if (now) { return 1; } return; } }" = .ok code ∧
      code = .function "Bare.give" 0 :: body ∧ StackDepths body bare depth ∧
      body[4]? = some .ret ∧ depth 4 = 1 ∧ body[6]? = some .ret ∧ depth 6 = 0 := by
  let body : List Command := [.push .argument 0, .operate .not, .ifGoto "Bare.label0",
    .push .constant 1, .ret, .label "Bare.label0", .ret]
  have accepted : compile "class Bare { function int give(boolean now) {
        if (now) { return 1; } return; } }" = .ok (.function "Bare.give" 0 :: body) := by
    decide +kernel
  obtain ⟨tree, -, blocks⟩ := accepted_stack_depths accepted
  have whole : functionBlocks (.function "Bare.give" 0 :: body) =
      [] ++ (.function "Bare.give" 0 :: body) :: [] := by decide
  obtain ⟨name, locals, inside, depth, same, depths⟩ := blocks whole
  obtain ⟨header, rfl⟩ := List.cons.inj same
  have push : body[3]? = some (.push .constant 1) := rfl
  have label : body[5]? = some (.label "Bare.label0") := rfl
  have return4 : body[4]? = some .ret := rfl
  have return6 : body[6]? = some .ret := rfl
  have pushed : depth 4 = depth 3 + 1 := depths.flows push (.next push trivial)
  have labelled : depth 6 = depth 5 := depths.flows label (.next label trivial)
  have returned : depth 4 = 1 := by
    rcases depths.returns return4 with ⟨one, -⟩ | ⟨none, -⟩
    · exact one
    · omega
  exact ⟨_, body, _, depth, accepted, rfl, depths, return4, returned, return6,
    labelled.trans (depths.labels label)⟩

end JackCompiler
