import JackCompiler.Proofs.Compilation.Correctness
import JackCompiler.Proofs.Lowering.Labels
import JackCompiler.Proofs.Lowering.Occurrence
import JackCompiler.Proofs.Machine.Execution
import JackCompiler.Proofs.Machine.Expression
import Mathlib.Order.Basic

/-! The code of statements does what the statements do. -/

namespace JackCompiler

namespace Machine

/-- The code stands in the program, from the given position on. -/
def StandsAt (program : List Command) (position : Nat) (code : List Command) : Prop :=
  ∃ before behind, program = before ++ code ++ behind ∧ position = before.length

section

variable {program code more : List Command} {position : Nat} {command : Command}

/-- The first part of some code stands where the code does. -/
theorem StandsAt.left (stands : StandsAt program position (code ++ more)) :
    StandsAt program position code := by
  -- The second part counts as code behind the first one.
  obtain ⟨before, behind, rfl, rfl⟩ := stands
  exact ⟨before, more ++ behind, by simp, rfl⟩

/-- The second part of some code stands behind the first one. -/
theorem StandsAt.right (stands : StandsAt program position (code ++ more)) :
    StandsAt program (position + code.length) more := by
  -- The first part counts as code before the second one.
  obtain ⟨before, behind, rfl, rfl⟩ := stands
  exact ⟨before ++ code, behind, by simp, by simp⟩

/-- The code behind a command stands at the next position. -/
theorem StandsAt.tail (stands : StandsAt program position (command :: code)) :
    StandsAt program (position + 1) code := by
  -- The command counts as code before the others.
  obtain ⟨before, behind, rfl, rfl⟩ := stands
  exact ⟨before ++ [command], behind, by simp, by simp⟩

/-- The first command of some code stands by itself. -/
theorem StandsAt.single (stands : StandsAt program position (command :: code)) :
    StandsAt program position [command] := by
  -- The others count as code behind the command.
  obtain ⟨before, behind, rfl, rfl⟩ := stands
  exact ⟨before, code ++ behind, by simp, rfl⟩

/-- The first command of some code is the one at its position. -/
theorem StandsAt.head (stands : StandsAt program position (command :: code)) :
    program[position]? = some command := by
  obtain ⟨before, behind, rfl, rfl⟩ := stands
  simp

/-- A label that is set once is found where it stands. -/
theorem StandsAt.idxOf?_label {name : String}
    (stands : StandsAt program position (.label name :: code))
    (distinct : (labelNames program).Nodup) :
    program.idxOf? (.label name) = some position := by
  -- A label that is set twice could be found at another place.
  obtain ⟨before, behind, rfl, rfl⟩ := stands
  rw [List.append_assoc, List.cons_append] at distinct ⊢
  exact JackCompiler.idxOf?_label distinct

end

/-- Where the machine comes to when it starts at some statements: behind them with its stack as it
was, or to a return with the returned value on the top of that stack. -/
def Arrives (world : World) (program : List Command) (start : Point) (finish : Nat)
    (stack : List Word) : Outcome → Prop
  | .finished store => Leads world program start ⟨finish, stack, store⟩
  | .returned value store => ∃ position, program[position]? = some .ret ∧
    Leads world program start ⟨position, value :: stack, store⟩

section

variable {world : World} {program code : List Command} {position target finish finish' : Nat}
  {stack stack' : List Word} {store store' : Store} {start next : Point} {outcome : Outcome}

/-- Code that runs leads from its first position to the one behind it. -/
theorem Runs.leads (runs : Runs world code stack store stack' store')
    (stands : StandsAt program position code) :
    Leads world program ⟨position, stack, store⟩ ⟨position + code.length, stack', store'⟩ := by
  -- Code runs wherever it stands.
  obtain ⟨before, behind, rfl, rfl⟩ := stands
  rw [← List.length_append]
  exact runs before behind

/-- A label is passed. -/
theorem Leads.label {name : String} (command : program[position]? = some (.label name)) :
    Leads world program ⟨position, stack, store⟩ ⟨position + 1, stack, store⟩ :=
  .single fun that temp => ⟨that, temp, by simp [step?, command, State.advance]⟩

/-- A jump leads to its label. -/
theorem Leads.goto {name : String} (command : program[position]? = some (.goto name))
    (found : program.idxOf? (.label name) = some target) :
    Leads world program ⟨position, stack, store⟩ ⟨target, stack, store⟩ :=
  .single fun that temp => ⟨that, temp, by simp [step?, command, jump?, found]⟩

/-- A conditional jump passes zero. -/
theorem Leads.ifGoto_zero {name : String} (command : program[position]? = some (.ifGoto name)) :
    Leads world program ⟨position, 0 :: stack, store⟩ ⟨position + 1, stack, store⟩ :=
  .single fun that temp => ⟨that, temp, by simp [step?, command, State.advance]⟩

/-- A conditional jump leads to its label on any other word. -/
theorem Leads.ifGoto {name : String} {condition : Word} (nonzero : condition ≠ 0)
    (command : program[position]? = some (.ifGoto name))
    (found : program.idxOf? (.label name) = some target) :
    Leads world program ⟨position, condition :: stack, store⟩ ⟨target, stack, store⟩ := by
  refine .single fun that temp => ⟨that, temp, ?_⟩
  simp only [step?, command, if_neg nonzero, jump?, found, Option.map_some]

/-- The machine may come to the statements first. -/
theorem Arrives.of_leads (leads : Leads world program start next)
    (arrives : Arrives world program next finish stack outcome) :
    Arrives world program start finish stack outcome := by
  -- The way to the end or to the return is only made longer.
  cases outcome with
  | finished store => exact leads.trans arrives
  | returned value store =>
    obtain ⟨position, command, further⟩ := arrives
    exact ⟨position, command, leads.trans further⟩

/-- The machine may go on behind the statements. -/
theorem Arrives.andThen (arrives : Arrives world program start finish stack outcome)
    (leads : ∀ store, Leads world program ⟨finish, stack, store⟩ ⟨finish', stack, store⟩) :
    Arrives world program start finish' stack outcome := by
  -- A return is the last command, so only the other way goes on.
  cases outcome with
  | finished store => exact Leads.trans arrives (leads store)
  | returned value store => exact arrives

/-- Two descriptions of the position behind the statements are as good as one another. -/
theorem Arrives.of_eq (arrives : Arrives world program start finish stack outcome)
    (same : finish' = finish) : Arrives world program start finish' stack outcome := by
  rwa [same]

end

end Machine

open Machine

variable {world : World} {context : Context} {program : List Command} {position target : Nat}
  {stack : List Word} {frame : Frame} {memory memory' : Memory} {result : Word}

/-- The new value of a variable is taken off the stack. -/
theorem Symbol.runs_pop (symbol : Symbol) (value : Word) (store : Store) :
    Runs world [symbol.pop] (value :: stack) store stack (store.assign symbol value) := by
  -- The segment and the index of the symbol are where the new value is written.
  refine .single fun program position that temp command => ⟨that, temp, ?_⟩
  obtain ⟨name, type, kind, index⟩ := symbol
  cases kind <;>
    simp_all [step?, Symbol.pop, Symbol.segment, SymbolKind.segment, State.write?, Store.assign,
      State.advance]

/-- A condition leads to its jump, with its value inverted. -/
theorem Expression.leads_not {condition : Expression} {rest : List Command}
    (lawful : condition.Lawful context)
    (evaluates : condition.eval world context frame memory = (result, memory'))
    (stands : StandsAt program position (condition.code context ++ .operate .not :: rest))
    (stack : List Word) :
    Leads world program ⟨position, stack, ⟨frame, memory⟩⟩
      ⟨position + (condition.code context).length + 1, ~~~result :: stack, ⟨frame, memory'⟩⟩ := by
  -- The value is computed on the top of the stack and inverted there.
  have computes := Expression.runs_of_eval lawful evaluates stack
  have inverts : Runs world [.operate .not] (result :: stack) ⟨frame, memory'⟩
      (~~~result :: stack) ⟨frame, memory'⟩ := .operate rfl
  exact (computes.leads stands.left).trans (inverts.leads stands.right.single)

/-- A condition that holds leads past its jump. -/
theorem Expression.leads_past {condition : Expression} {label : String} {rest : List Command}
    (lawful : condition.Lawful context)
    (holds : condition.eval world context frame memory = (.ofBool true, memory'))
    (stands : StandsAt program position
      (condition.code context ++ .operate .not :: .ifGoto label :: rest))
    (stack : List Word) :
    Leads world program ⟨position, stack, ⟨frame, memory⟩⟩
      ⟨position + (condition.code context).length + 1 + 1, stack, ⟨frame, memory'⟩⟩ := by
  -- All bits of truth are set, so none is left by the inversion.
  have zero : ~~~Word.ofBool true = 0 := by decide
  have inverted := Expression.leads_not lawful holds stands stack
  rw [zero] at inverted
  exact inverted.trans (.ifGoto_zero stands.right.tail.head)

/-- A condition that fails leads to the label of its jump. -/
theorem Expression.leads_jump {condition : Expression} {label : String} {rest : List Command}
    (lawful : condition.Lawful context)
    (evaluates : condition.eval world context frame memory = (result, memory'))
    (fails : result ≠ .ofBool true)
    (stands : StandsAt program position
      (condition.code context ++ .operate .not :: .ifGoto label :: rest))
    (found : program.idxOf? (.label label) = some target) (stack : List Word) :
    Leads world program ⟨position, stack, ⟨frame, memory⟩⟩ ⟨target, stack, ⟨frame, memory'⟩⟩ := by
  -- Only truth is inverted to zero, so the jump is taken for all other words.
  have nonzero : ~~~result ≠ 0 := by
    intro zero
    apply fails
    rw [← BitVec.not_not (b := result), zero]
    rfl
  exact (Expression.leads_not lawful evaluates stands stack).trans
    (.ifGoto nonzero stands.right.tail.head found)

mutual

/-- The code of a statement leads to where the statement ends. -/
theorem Statement.arrives : ∀ {statement : Statement} {store : Store} {outcome : Outcome},
    statement.Executes world context store outcome → statement.Lawful context →
    ∀ {next position : Nat}, StandsAt program position (statement.code context next) →
    (labelNames program).Nodup → ∀ stack : List Word,
    Arrives world program ⟨position, stack, store⟩
      (position + (statement.code context next).length) stack outcome
  | .assign target value, _, _, .assign symbol declared evaluates => by
    intro lawful next position stands distinct stack
    have code : (Statement.assign target value).code context next =
        value.code context ++ [symbol.pop] := by
      simp [Statement.code, Context.store, declared]
    rw [code] at stands ⊢
    have runs := (Expression.runs_of_eval lawful.2 evaluates stack).append (symbol.runs_pop _ _)
    exact runs.leads stands
  -- The address waits beneath the value, which may use `that` and `temp` itself.
  | .assignElement array index value, ⟨frame, memory⟩, _, .assignElement indexes evaluates => by
    intro lawful next position stands distinct stack
    obtain ⟨⟨symbol, found, -⟩, lawful, lawful'⟩ := lawful
    have loaded : Runs world (context.load array) stack ⟨frame, memory⟩ _ _ :=
      Context.runs_load ⟨symbol, found⟩
    have indexed := loaded.append (Expression.runs_of_eval lawful indexes _)
    have added (left right : Word) (store : Store) : Runs world [.operate .add]
        (right :: left :: stack) store ((left + right) :: stack) store := .operate rfl
    have valued := indexed.append
      ((added _ _ _).append (Expression.runs_of_eval lawful' evaluates _))
    exact (valued.append (.storeElement _ _ _ _)).leads stands
  -- Where the condition holds, the body is run into its label; else the jump leads there.
  | .ifThen condition body, _, _, .ifThen holds executes => by
    intro lawful next position stands distinct stack
    simp only [Statement.code, List.append_assoc, List.cons_append] at stands ⊢
    have entered := Expression.leads_past lawful.1 holds stands stack
    have block := stands.right.tail.tail
    have inside := Statements.arrives executes lawful.2 block.left distinct stack
    refine .of_eq ((inside.andThen fun store => .label block.right.head).of_leads entered) ?_
    simp only [List.length_append, List.length_cons, List.length_nil]
    omega
  | .ifThen condition body, _, _, .ifSkip evaluates fails => by
    intro lawful next position stands distinct stack
    simp only [Statement.code, List.append_assoc, List.cons_append] at stands ⊢
    have behind := stands.right.tail.tail.right
    have skipped := Expression.leads_jump lawful.1 evaluates fails stands
      (behind.idxOf?_label distinct) stack
    refine .of_eq (.of_leads skipped (.label behind.head)) ?_
    simp only [List.length_append, List.length_cons, List.length_nil]
    omega
  -- The first block jumps over the second one, and the second one runs into the last label.
  | .ifThenElse condition body otherwise, _, _, .ifThenElse holds executes => by
    intro lawful next position stands distinct stack
    simp only [Statement.code, List.append_assoc, List.cons_append] at stands ⊢
    have entered := Expression.leads_past lawful.1 holds stands stack
    have block := stands.right.tail.tail
    have inside := Statements.arrives executes lawful.2.1 block.left distinct stack
    have finish := block.right.tail.tail.right
    have leave (store : Store) : Leads world program _ ⟨_, stack, store⟩ :=
      (Leads.goto block.right.head (finish.idxOf?_label distinct)).trans (.label finish.head)
    refine .of_eq ((inside.andThen leave).of_leads entered) ?_
    simp only [List.length_append, List.length_cons, List.length_nil]
    omega
  | .ifThenElse condition body otherwise, _, _, .otherwise evaluates fails executes => by
    intro lawful next position stands distinct stack
    simp only [Statement.code, List.append_assoc, List.cons_append] at stands ⊢
    have middle := stands.right.tail.tail.right.tail
    have skipped := Expression.leads_jump lawful.1 evaluates fails stands
      (middle.idxOf?_label distinct) stack
    have block := middle.tail
    have inside := Statements.arrives executes lawful.2.2 block.left distinct stack
    have entered := skipped.trans (.label middle.head)
    refine .of_eq ((inside.andThen fun store => .label block.right.head).of_leads entered) ?_
    simp only [List.length_append, List.length_cons, List.length_nil]
    omega
  -- A loop is left through the jump of its condition, or by a return inside of it.
  | .whileDo condition body, _, _, .whileStop evaluates fails => by
    intro lawful next position stands distinct stack
    simp only [Statement.code, List.append_assoc, List.cons_append] at stands ⊢
    have test := stands.tail
    have finish := test.right.tail.tail.right.tail
    have stopped := Expression.leads_jump lawful.1 evaluates fails test
      (finish.idxOf?_label distinct) stack
    have entered := (Leads.label stands.head).trans stopped
    refine .of_eq (.of_leads entered (.label finish.head)) ?_
    simp only [List.length_append, List.length_cons, List.length_nil]
    omega
  | .whileDo condition body, _, _, .whileAgain holds executes again => by
    intro lawful next position stands distinct stack
    -- The rest of the run starts at the same label, and ends where the whole one does.
    have repeated := Statement.arrives again lawful stands distinct stack
    refine .of_leads ?_ repeated
    simp only [Statement.code, List.append_assoc, List.cons_append] at stands
    have test := stands.tail
    have entered := Expression.leads_past lawful.1 holds test stack
    have block := test.right.tail.tail
    have inside : Leads world program _ _ :=
      Statements.arrives executes lawful.2 block.left distinct stack
    have round := ((Leads.label stands.head).trans entered).trans inside
    exact round.trans (.goto block.right.head (stands.idxOf?_label distinct))
  | .whileDo condition body, _, _, .whileReturn holds executes => by
    intro lawful next position stands distinct stack
    simp only [Statement.code, List.append_assoc, List.cons_append] at stands
    have test := stands.tail
    have entered := Expression.leads_past lawful.1 holds test stack
    have block := test.right.tail.tail
    have inside := Statements.arrives executes lawful.2 block.left distinct stack
    exact .of_leads ((Leads.label stands.head).trans entered) inside
  | .call call, _, _, .call evaluates => by
    intro lawful next position stands distinct stack
    have runs := (Call.runs_of_eval lawful evaluates stack).append (.discard _)
    exact runs.leads stands
  -- A return is where the machine stops here, with the value on the top of the stack.
  | _, store, _, .returnNothing void => by
    intro lawful next position stands distinct stack
    rw [Statement.code, if_pos void] at stands
    have pushed : Runs world [.push .constant 0] stack store (0 :: stack) store :=
      .push fun _ _ => rfl
    exact ⟨_, stands.tail.head, pushed.leads stands.single⟩
  | .returnValue value, _, _, .returnValue evaluates => by
    intro lawful next position stands distinct stack
    rw [Statement.code] at stands
    have runs := Expression.runs_of_eval lawful evaluates stack
    exact ⟨_, stands.right.head, runs.leads stands.left⟩

/-- The code of statements leads to where the statements end. -/
theorem Statements.arrives : ∀ {statements : Statements} {store : Store} {outcome : Outcome},
    statements.Executes world context store outcome → statements.Lawful context →
    ∀ {next position : Nat}, StandsAt program position (statements.code context next) →
    (labelNames program).Nodup → ∀ stack : List Word,
    Arrives world program ⟨position, stack, store⟩
      (position + (statements.code context next).length) stack outcome
  | _, _, _, .nil => by
    intro lawful next position stands distinct stack
    exact .refl world program _
  | .cons first rest, _, _, .next executes further => by
    intro lawful next position stands distinct stack
    rw [Statements.code] at stands ⊢
    have early := Statement.arrives executes lawful.1 stands.left distinct stack
    have late := Statements.arrives further lawful.2 stands.right distinct stack
    rw [List.length_append, ← Nat.add_assoc]
    exact .of_leads early late
  | .cons first rest, _, _, .returned executes => by
    intro lawful next position stands distinct stack
    rw [Statements.code] at stands
    exact Statement.arrives executes lawful.1 stands.left distinct stack

end

/-- Statements of an accepted class do in its code what they do by themselves: the machine goes
through their part of the code and leaves its stack as it was, or comes to a return with the
returned value on the top of that stack. -/
theorem accepted_statements_run {source : String} {code : List Command}
    (accepted : compile source = .ok code) :
    ∃ tree : ClassTree, (∀ other, Spells source other ↔ other = tree) ∧
      ∀ {subroutine : SubroutineTree} {before behind : List Command} {number : Nat}
        {statements : Statements},
        tree.Contains subroutine before number statements behind →
        code = before ++ statements.code (tree.context subroutine) number ++ behind ∧
        ∀ {world : World} {store : Store} {outcome : Outcome},
          statements.Executes world (tree.context subroutine) store outcome →
          ∀ stack : List Word, Arrives world code ⟨before.length, stack, store⟩
            (before ++ statements.code (tree.context subroutine) number).length stack outcome := by
  -- The class has one tree, in whose code the statements stand and each label is set once.
  obtain ⟨tree, spells, lawful, rfl⟩ := (compile_eq_ok_iff source code).mp accepted
  refine ⟨tree, spells.iff_eq, fun contains => ⟨contains.code_eq, fun executes stack => ?_⟩⟩
  have stands : StandsAt tree.code _ _ := ⟨_, _, contains.code_eq, rfl⟩
  rw [List.length_append]
  exact Statements.arrives executes (contains.lawful lawful) stands tree.nodup_labelNames stack

/-- A loop that runs once is left for the return behind it. -/
theorem loop_once_runs :
    ∃ (code : List Command) (position : Nat) (that : Word) (temp : Nat → Word),
      compile "class Once { function int run(boolean go) {
        while (go) { let go = false; } return 3; } }" = .ok code ∧
      code[position]? = some .ret ∧
      Reaches ⟨fun _ _ memory => (0, memory), fun _ _ => 0⟩ code
        ⟨⟨1, [7], ⟨⟨fun _ => 0, fun _ => .ofBool true, 0⟩, ⟨fun _ => 0, fun _ => 0⟩⟩⟩, 0,
          fun _ => 0⟩
        ⟨⟨position, [3, 7], ⟨⟨fun _ => 0, Function.update (fun _ => .ofBool true) 0 0, 0⟩,
          ⟨fun _ => 0, fun _ => 0⟩⟩⟩, that, temp⟩ := by
  -- The condition holds once, because the body makes it fail.
  let condition : Expression := ⟨.name "go", .nil⟩
  let body : Statements := .cons (.assign "go" ⟨.word .false, .nil⟩) .nil
  let statements : Statements := .cons (.whileDo condition body)
    (.cons (.returnValue ⟨.integer 3, .nil⟩) .nil)
  let subroutine : SubroutineTree :=
    ⟨.function, some (.primitive .int), "run", [⟨.primitive .boolean, "go"⟩], [], statements⟩
  let tree : ClassTree := ⟨"Once", [], [subroutine]⟩
  have spells : Spells "class Once { function int run(boolean go) {
        while (go) { let go = false; } return 3; } }" tree := ⟨by decide +kernel, by decide +kernel⟩
  have accepted : compile "class Once { function int run(boolean go) {
        while (go) { let go = false; } return 3; } }" = .ok tree.code := by decide +kernel
  obtain ⟨other, only, runs⟩ := accepted_statements_run accepted
  obtain rfl : tree = other := (only tree).mp spells
  have contains : tree.Contains subroutine [.function "Once.run" 0] 0 statements [] :=
    ⟨[], [], [], [], rfl, .whole 0 statements, rfl, rfl⟩
  let world : World := ⟨fun _ _ memory => (0, memory), fun _ _ => 0⟩
  let memory : Memory := ⟨fun _ => 0, fun _ => 0⟩
  let frame : Frame := ⟨fun _ => 0, fun _ => .ofBool true, 0⟩
  let frame' : Frame := ⟨fun _ => 0, Function.update (fun _ => .ofBool true) 0 0, 0⟩
  have stops : (Statement.whileDo condition body).Executes world (tree.context subroutine)
      ⟨frame', memory⟩ (.finished ⟨frame', memory⟩) := .whileStop rfl (by decide)
  have assigns : body.Executes world (tree.context subroutine) ⟨frame, memory⟩
      (.finished ⟨frame', memory⟩) := .next (.assign ⟨"go", "boolean", .argument, 0⟩ rfl rfl) .nil
  have executes : statements.Executes world (tree.context subroutine) ⟨frame, memory⟩
      (.returned 3 ⟨frame', memory⟩) :=
    .next (.whileAgain rfl assigns stops) (.returned (.returnValue rfl))
  obtain ⟨position, found, leads⟩ := (runs contains).2 executes [7]
  obtain ⟨that, temp, reaches⟩ := leads 0 fun _ => 0
  exact ⟨tree.code, position, that, temp, accepted, found, reaches⟩

end JackCompiler
