import Mathlib.Logic.Function.Basic
import Mathlib.Logic.Relation
import JackCompiler.Vm.Command

/-! The stack machine that runs compiled code, between the entry of a subroutine and its return. -/

namespace JackCompiler

/-- The words that the machine computes with. -/
abbrev Word := BitVec 16

/-- The word of a truth value: truth has every bit set. -/
def Word.ofBool (holds : Bool) : Word := if holds then BitVec.allOnes 16 else 0

namespace Machine

/-- The storage that all subroutines share. -/
structure Memory where
  ram : Word → Word
  statics : Nat → Word

/-- The storage that a subroutine has to itself. -/
structure Frame where
  locals : Nat → Word
  arguments : Nat → Word
  /-- The base of the current object. -/
  object : Word

/-- What statements read and write. -/
structure Store where
  frame : Frame
  memory : Memory

/-- A place in a program, with the stack and the store there. -/
structure Point where
  position : Nat
  stack : List Word
  store : Store

/-- A state of the machine: a point, the base of `that` and the contents of `temp`. -/
structure State extends Point where
  that : Word
  temp : Nat → Word

/-- The subroutines that a program calls, and what they leave behind. -/
structure World where
  /-- The result of the named subroutine on its arguments, and the memory after it. -/
  call : String → List Word → Memory → Word × Memory
  /-- What a call leaves in `temp`, of which its caller can know nothing. -/
  leftover : State → Nat → Word

namespace State

/-- The next command is up, with the given stack. -/
def advance (state : State) (stack : List Word) : State :=
  { state with position := state.position + 1, stack }

/-- The value at an index of a segment, where there is one. -/
def read? (state : State) : Segment → Nat → Option Word
  | .constant, index => some (BitVec.ofNat 16 index)
  | .localVars, index => some (state.store.frame.locals index)
  | .argument, index => some (state.store.frame.arguments index)
  | .statics, index => some (state.store.memory.statics index)
  | .this, index =>
    some (state.store.memory.ram (state.store.frame.object + BitVec.ofNat 16 index))
  | .that, index => some (state.store.memory.ram (state.that + BitVec.ofNat 16 index))
  | .pointer, 0 => some state.store.frame.object
  | .pointer, 1 => some state.that
  | .pointer, _ => none
  | .temp, index => some (state.temp index)

/-- A new value at an index of a segment, where there may be one. -/
def write? (state : State) (value : Word) : Segment → Nat → Option State
  | .constant, _ => none
  | .localVars, index => some { state with
      store.frame.locals := Function.update state.store.frame.locals index value }
  | .argument, index => some { state with
      store.frame.arguments := Function.update state.store.frame.arguments index value }
  | .statics, index => some { state with
      store.memory.statics := Function.update state.store.memory.statics index value }
  | .this, index => some { state with
      store.memory.ram := Function.update state.store.memory.ram
        (state.store.frame.object + BitVec.ofNat 16 index) value }
  | .that, index => some { state with
      store.memory.ram := Function.update state.store.memory.ram
        (state.that + BitVec.ofNat 16 index) value }
  | .pointer, 0 => some { state with store.frame.object := value }
  | .pointer, 1 => some { state with that := value }
  | .pointer, _ => none
  | .temp, index => some { state with temp := Function.update state.temp index value }

end State

/-- The stack after an operation, where it holds enough operands. -/
def operate? : Operation → List Word → Option (List Word)
  | .neg, value :: rest => some ((-value) :: rest)
  | .not, value :: rest => some ((~~~value) :: rest)
  | .add, right :: left :: rest => some ((left + right) :: rest)
  | .sub, right :: left :: rest => some ((left - right) :: rest)
  | .and, right :: left :: rest => some ((left &&& right) :: rest)
  | .or, right :: left :: rest => some ((left ||| right) :: rest)
  -- Order is that of signed numbers.
  | .lt, right :: left :: rest => some (.ofBool (left.slt right) :: rest)
  | .gt, right :: left :: rest => some (.ofBool (right.slt left) :: rest)
  | .eq, right :: left :: rest => some (.ofBool (left == right) :: rest)
  | _, _ => none

/-- A jump to the label of the given name, where the program has one. -/
def jump? (program : List Command) (name : String) (state : State) (stack : List Word) :
    Option State :=
  (program.idxOf? (.label name)).map fun position => { state with position, stack }

/-- The next state, where the next command belongs to a body and finds its operands. -/
def step? (world : World) (program : List Command) (state : State) : Option State :=
  match program[state.position]? with
  | some (.push segment index) =>
    (state.read? segment index).map fun value => state.advance (value :: state.stack)
  | some (.pop segment index) =>
    match state.stack with
    | value :: rest => (state.write? value segment index).map fun next => next.advance rest
    | [] => none
  | some (.operate operation) => (operate? operation state.stack).map state.advance
  | some (.label _) => some (state.advance state.stack)
  | some (.goto name) => jump? program name state state.stack
  | some (.ifGoto name) =>
    match state.stack with
    | condition :: rest =>
      if condition = 0 then some (state.advance rest) else jump? program name state rest
    | [] => none
  | some (.call name count) =>
    if count ≤ state.stack.length then
      -- The last argument is on the top of the stack.
      let (result, memory) :=
        world.call name (state.stack.take count).reverse state.store.memory
      some { state.advance (result :: state.stack.drop count) with
        store.memory := memory
        temp := world.leftover state }
    else none
  | some (.function ..) | some .ret | none => none

/-- The states that the machine comes to, step by step. -/
def Reaches (world : World) (program : List Command) : State → State → Prop :=
  Relation.ReflTransGen fun state next => step? world program state = some next

/-- The machine comes from one point to another, whatever `that` and `temp` hold at first. -/
def Leads (world : World) (program : List Command) (start stop : Point) : Prop :=
  ∀ (that : Word) (temp : Nat → Word), ∃ (that' : Word) (temp' : Nat → Word),
    Reaches world program ⟨start, that, temp⟩ ⟨stop, that', temp'⟩

/-- The code takes one stack and store to others, wherever it stands in a program. -/
def Runs (world : World) (code : List Command) (stack : List Word) (store : Store)
    (stack' : List Word) (store' : Store) : Prop :=
  ∀ before behind : List Command, Leads world (before ++ code ++ behind)
    ⟨before.length, stack, store⟩ ⟨(before ++ code).length, stack', store'⟩

variable {world : World} {program : List Command} {start next stop : Point}

/-- Every point leads to itself. -/
theorem Leads.refl (world : World) (program : List Command) (point : Point) :
    Leads world program point point :=
  fun that temp => ⟨that, temp, .refl⟩

/-- A point leads wherever the points that it leads to lead. -/
theorem Leads.trans (first : Leads world program start next)
    (second : Leads world program next stop) : Leads world program start stop := by
  -- What `that` and `temp` hold in between does not matter to the second way.
  intro that temp
  obtain ⟨that, temp, reaches⟩ := first that temp
  obtain ⟨that', temp', further⟩ := second that temp
  exact ⟨that', temp', reaches.trans further⟩

/-- A single step leads on. -/
theorem Leads.single (steps : ∀ that temp, ∃ that' temp',
      step? world program ⟨start, that, temp⟩ = some ⟨stop, that', temp'⟩) :
    Leads world program start stop := by
  intro that temp
  obtain ⟨that', temp', step⟩ := steps that temp
  exact ⟨that', temp', .single step⟩

section

variable {code more : List Command} {stack stack' stack'' : List Word}
  {store store' store'' : Store}

/-- No code changes nothing. -/
theorem Runs.nil : Runs world [] stack store stack store := by
  intro before behind
  rw [List.append_nil]
  exact .refl world _ _

/-- Code runs piece by piece. -/
theorem Runs.append (first : Runs world code stack store stack' store')
    (second : Runs world more stack' store' stack'' store'') :
    Runs world (code ++ more) stack store stack'' store'' := by
  -- The second piece has the first one before it, and the first one has the second one behind it.
  intro before behind
  have early := first before (more ++ behind)
  have late := second (before ++ code) behind
  simp only [List.append_assoc] at early late ⊢
  exact early.trans late

/-- A command runs by itself if it steps on wherever it stands. -/
theorem Runs.single {command : Command} (steps : ∀ (program : List Command) (position : Nat)
      (that : Word) (temp : Nat → Word), program[position]? = some command → ∃ that' temp',
        step? world program ⟨⟨position, stack, store⟩, that, temp⟩ =
          some ⟨⟨position + 1, stack', store'⟩, that', temp'⟩) :
    Runs world [command] stack store stack' store' := by
  -- The command is at the position behind what stands before it.
  intro before behind
  rw [List.length_append]
  refine .single fun that temp => steps _ _ that temp ?_
  simp

/-- A value that depends on nothing but the store is pushed as it is read. -/
theorem Runs.push {segment : Segment} {index : Nat} {value : Word}
    (read : ∀ state : State, state.store = store → state.read? segment index = some value) :
    Runs world [.push segment index] stack store (value :: stack) store := by
  -- The value is the same whatever `that` and `temp` hold.
  refine .single fun program position that temp command => ⟨that, temp, ?_⟩
  simp [step?, command, read ⟨⟨position, stack, store⟩, that, temp⟩ rfl, State.advance]

/-- An operation takes its operands off the stack and leaves its result there. -/
theorem Runs.operate {operation : Operation} (operated : operate? operation stack = some stack') :
    Runs world [.operate operation] stack store stack' store := by
  -- An operation depends on the stack alone.
  refine .single fun program position that temp command => ⟨that, temp, ?_⟩
  simp [step?, command, operated, State.advance]

/-- A call takes its arguments off the stack and leaves its result there. -/
theorem Runs.call (name : String) (values : List Word) (frame : Frame) (memory : Memory) :
    Runs world [.call name values.length] (values.reverse ++ stack) ⟨frame, memory⟩
      ((world.call name values memory).1 :: stack)
      ⟨frame, (world.call name values memory).2⟩ := by
  -- The arguments are the top of the stack in reverse, and the rest of it stays below.
  refine .single fun program position that temp command => ⟨that,
    world.leftover ⟨⟨position, values.reverse ++ stack, ⟨frame, memory⟩⟩, that, temp⟩, ?_⟩
  have taken : (values.reverse ++ stack).take values.length = values.reverse :=
    List.take_left' (List.length_reverse ..)
  have left : (values.reverse ++ stack).drop values.length = stack :=
    List.drop_left' (List.length_reverse ..)
  simp [step?, command, taken, left, State.advance]

/-- The top of the stack may be thrown away. -/
theorem Runs.discard (value : Word) :
    Runs world [.pop .temp 0] (value :: stack) store stack store := by
  -- The word goes to `temp`, of which nothing is said.
  refine .single fun program position that temp command =>
    ⟨that, Function.update temp 0 value, ?_⟩
  simp [step?, command, State.write?, State.advance]

/-- An address on the top of the stack gives way to the word at that address. -/
theorem Runs.fetch (address : Word) :
    Runs world [.pop .pointer 1, .push .that 0] (address :: stack) store
      (store.memory.ram address :: stack) store := by
  -- The address becomes the base of `that`, of which nothing is said afterwards.
  intro before behind that temp
  have aimed : step? world (before ++ [.pop .pointer 1, .push .that 0] ++ behind)
      ⟨⟨before.length, address :: stack, store⟩, that, temp⟩ =
      some ⟨⟨before.length + 1, stack, store⟩, address, temp⟩ := by
    simp [step?, State.write?, State.advance]
  rw [List.length_append]
  refine ⟨address, temp, .head aimed (.single ?_)⟩
  simp [step?, State.read?, State.advance]

/-- The word on the top of the stack is stored at the address beneath it. -/
theorem Runs.storeElement (value address : Word) (frame : Frame) (memory : Memory) :
    Runs world [.pop .temp 0, .pop .pointer 1, .push .temp 0, .pop .that 0]
      (value :: address :: stack) ⟨frame, memory⟩ stack
      ⟨frame, { memory with ram := Function.update memory.ram address value }⟩ := by
  intro before behind that temp
  let program : List Command := before ++
    [.pop .temp 0, .pop .pointer 1, .push .temp 0, .pop .that 0] ++ behind
  let memory' : Memory := { memory with ram := Function.update memory.ram address value }
  -- The value waits in `temp` until the address is the base of `that`.
  have kept : step? world program
      ⟨⟨before.length, value :: address :: stack, ⟨frame, memory⟩⟩, that, temp⟩ =
      some ⟨⟨before.length + 1, address :: stack, ⟨frame, memory⟩⟩, that,
        Function.update temp 0 value⟩ := by
    simp [program, step?, State.write?, State.advance]
  have aimed : step? world program ⟨⟨before.length + 1, address :: stack, ⟨frame, memory⟩⟩, that,
        Function.update temp 0 value⟩ =
      some ⟨⟨before.length + 2, stack, ⟨frame, memory⟩⟩, address,
        Function.update temp 0 value⟩ := by
    simp [program, step?, State.write?, State.advance]
  have back : step? world program ⟨⟨before.length + 2, stack, ⟨frame, memory⟩⟩, address,
        Function.update temp 0 value⟩ =
      some ⟨⟨before.length + 3, value :: stack, ⟨frame, memory⟩⟩, address,
        Function.update temp 0 value⟩ := by
    simp [program, step?, State.read?, State.advance]
  have stored : step? world program ⟨⟨before.length + 3, value :: stack, ⟨frame, memory⟩⟩, address,
        Function.update temp 0 value⟩ =
      some ⟨⟨before.length + 4, stack, ⟨frame, memory'⟩⟩, address,
        Function.update temp 0 value⟩ := by
    simp [program, step?, State.write?, State.advance, memory']
  rw [List.length_append]
  exact ⟨_, _, .head kept (.head aimed (.head back (.single stored)))⟩

end

end Machine

end JackCompiler
