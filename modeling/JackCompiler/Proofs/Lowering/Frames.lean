import JackCompiler.Proofs.Lowering.Discipline
import JackCompiler.Proofs.Lowering.Emission
import Mathlib.Data.Option.Basic

/-! The code of a subroutine addresses nothing outside of the storage that it is given. -/

namespace JackCompiler

/-- A name is resolved to a declaration, and its index is below the number of those of its kind. -/
theorem resolveAfter_bounded {before declared : List Declaration} {name : String} {symbol : Symbol}
    (found : resolveAfter before declared name = some symbol) :
    (∃ declaration ∈ declared, declaration.kind = symbol.kind) ∧
      symbol.index < countOf (before ++ declared) symbol.kind := by
  obtain ⟨earlier, declaration, later, rfl, -, rfl⟩ := exists_of_resolveAfter found
  refine ⟨⟨declaration, by simp, rfl⟩, ?_⟩
  -- The declaration that is found counts itself, besides those before it.
  simp only [Declaration.symbol, countOf, List.countP_append, List.countP_cons,
    beq_self_eq_true, if_true]
  omega

/-- A declared name is resolved to its own declaration where no name is declared twice. -/
theorem resolveAfter_of_getElem? {before declared : List Declaration} {declaration : Declaration}
    {position : Nat} (distinct : (declared.map Declaration.name).Nodup)
    (found : declared[position]? = some declaration) :
    resolveAfter before declared declaration.name =
      some (declaration.symbol (before ++ declared.take position)) := by
  -- The declarations before it have other names, so the search passes all of them.
  induction declared generalizing before position with
  | nil => simp at found
  | cons first rest ih =>
    rw [List.map_cons, List.nodup_cons] at distinct
    cases position with
    | zero =>
      obtain rfl : first = declaration := by simpa using found
      simp [resolveAfter]
    | succ position =>
      have later : rest[position]? = some declaration := by simpa using found
      have other : first.name ≠ declaration.name := by
        intro same
        exact distinct.1 (same ▸ List.mem_map_of_mem (List.mem_of_getElem? later))
      rw [resolveAfter, if_neg other, ih distinct.2 later]
      simp

/-- The number of slots in each segment that a subroutine may use. -/
structure SlotCounts where
  locals : Nat
  arguments : Nat
  fields : Nat
  statics : Nat

namespace SlotCounts

/-- The slot belongs to the frame; one slot each of `that` and of `temp` is used for scratch. -/
def Has (frame : SlotCounts) (segment : Segment) (index : Nat) : Prop :=
  match segment with
  | .localVars => index < frame.locals
  | .argument => index < frame.arguments
  | .this => index < frame.fields
  | .statics => index < frame.statics
  | .that | .temp => index = 0
  | .constant | .pointer => False

/-- A command of a body addresses nothing outside of the frame, and leaves the base of the current
object alone. -/
def Allows (frame : SlotCounts) : Command → Prop
  | .push segment index =>
    segment = .constant ∨ segment = .pointer ∧ index = 0 ∨ frame.Has segment index
  | .pop segment index => segment = .pointer ∧ index = 1 ∨ frame.Has segment index
  -- A header belongs to no body.
  | .function .. => False
  | _ => True

/-- The commands between the header and the body, which set the base of the current object. -/
def entry (frame : SlotCounts) : SubroutineKind → List Command
  | .constructor => [.push .constant frame.fields, .call "Memory.alloc" 1, .pop .pointer 0]
  | .method => [.push .argument 0, .pop .pointer 0]
  | .function => []

/-- Commands that come from tokens are allowed where all variables have their slots. -/
theorem allows_of_emits {frame : SlotCounts} {context : Context} {kinds : List TokenKind}
    {command : Command} (emits : context.Emits kinds command)
    (slots : ∀ {name : String} {symbol : Symbol}, context.symbol? name = some symbol →
      frame.Has symbol.segment symbol.index) : frame.Allows command := by
  -- Only variables have slots of their own, and all other addresses are fixed.
  cases emits with
  | load named found => exact .inr (.inr (slots found))
  | store named found => exact .inr (slots found)
  | integer | stringLength | character | wordConstant => exact .inl rfl
  | object => exact .inr (.inl ⟨rfl, rfl⟩)
  | address => exact .inl ⟨rfl, rfl⟩
  | loadElement | restore => exact .inr (.inr rfl)
  | storeElement | stash => exact .inr rfl
  | operate | library | own | classMember | objectMember | label | goto | ifGoto | ret => trivial

end SlotCounts

namespace SubroutineTree

/-- The names that are declared with `var`. -/
def localNames (tree : SubroutineTree) : List String := tree.locals.flatMap VariableList.names

/-- The number of arguments before the first parameter: a method is passed its object there. -/
def firstParameter (tree : SubroutineTree) : Nat :=
  match tree.kind with
  | .method => 1
  | .constructor | .function => 0

/-- The object of a method is the only argument before the parameters. -/
theorem length_receiver (tree : SubroutineTree) (className : String) :
    (tree.receiver className).length = tree.firstParameter := by
  unfold receiver firstParameter
  cases tree.kind <;> rfl

/-- The object of a method is an argument. -/
theorem kind_of_mem_receiver {tree : SubroutineTree} {className : String}
    {declaration : Declaration} (member : declaration ∈ tree.receiver className) :
    declaration.kind = .argument := by
  unfold receiver at member
  split at member
  · obtain rfl := List.mem_singleton.mp member
    rfl
  all_goals cases member

/-- A list of local variables declares as many of them as it has names. -/
theorem countOf_locals (locals : List VariableList) (kind : SymbolKind) :
    countOf (locals.flatMap (·.declarations .localVar)) kind =
      if kind = .localVar then (locals.flatMap VariableList.names).length else 0 := by
  -- All of the declarations are of one kind.
  have all : ∀ declaration ∈ locals.flatMap (·.declarations .localVar),
      declaration.kind = .localVar := by
    intro declaration member
    obtain ⟨list, -, member⟩ := List.mem_flatMap.mp member
    obtain ⟨name, -, rfl⟩ := List.mem_map.mp member
    rfl
  split
  · rename_i same
    rw [countOf, List.countP_eq_length.mpr fun declaration member => by simp [all _ member, same]]
    simp [VariableList.declarations]
  · rename_i other
    exact List.countP_eq_zero.mpr fun declaration member => by simp [all _ member, Ne.symm other]

/-- As many local variables are in force as there are names. -/
theorem countOf_ownDeclarations (tree : SubroutineTree) :
    countOf tree.ownDeclarations .localVar = tree.localNames.length := by
  have none : (tree.parameters.map Parameter.declaration).countP (·.kind == .localVar) = 0 :=
    List.countP_eq_zero.mpr fun declaration member => by
      obtain ⟨parameter, -, rfl⟩ := List.mem_map.mp member
      simp [Parameter.declaration]
  have own := countOf_locals tree.locals .localVar
  rw [if_pos rfl] at own
  rw [countOf, ownDeclarations, List.countP_append, none, Nat.zero_add]
  exact own

/-- As many local variables and arguments are in force as a subroutine declares. -/
theorem countOf_declarations (tree : SubroutineTree) (className : String) :
    countOf (tree.declarations className) .localVar = tree.localNames.length ∧
      countOf (tree.declarations className) .argument =
        tree.parameters.length + tree.firstParameter := by
  have receiver := tree.length_receiver className
  constructor
  · have none : (tree.receiver className).countP (·.kind == .localVar) = 0 :=
      List.countP_eq_zero.mpr fun declaration member => by simp [kind_of_mem_receiver member]
    have own := tree.countOf_ownDeclarations
    rw [countOf, declarations, List.countP_append, none, Nat.zero_add]
    exact own
  · have first : (tree.receiver className).countP (·.kind == .argument) = tree.firstParameter := by
      rw [List.countP_eq_length.mpr fun declaration member => by simp [kind_of_mem_receiver member],
        receiver]
    have passed : (tree.parameters.map Parameter.declaration).countP (·.kind == .argument) =
        tree.parameters.length := by
      rw [List.countP_eq_length.mpr fun declaration member => ?_, List.length_map]
      obtain ⟨parameter, -, rfl⟩ := List.mem_map.mp member
      rfl
    have none := countOf_locals tree.locals .argument
    rw [if_neg (by decide), countOf] at none
    rw [countOf, declarations, List.countP_append, ownDeclarations, List.countP_append, first,
      passed, none]
    omega

/-- A parameter is resolved to the argument that is passed for it. -/
theorem resolve_parameter {tree : SubroutineTree} {className : String}
    (lawful : LawfulScope (tree.declarations className)) {position : Nat} {parameter : Parameter}
    (found : tree.parameters[position]? = some parameter) :
    resolve (tree.declarations className) parameter.name =
      some ⟨parameter.name, parameter.type.text, .argument, tree.firstParameter + position⟩ := by
  -- All declarations before that of a parameter are arguments.
  have receiver := tree.length_receiver className
  obtain ⟨inside, -⟩ := List.getElem?_eq_some_iff.mp found
  have declared : (tree.declarations className)[tree.firstParameter + position]? =
      some parameter.declaration := by
    rw [declarations, List.getElem?_append_right (by omega), receiver, Nat.add_sub_cancel_left,
      ownDeclarations, List.getElem?_append_left (by simpa using inside)]
    simp [found]
  have before : (tree.declarations className).take (tree.firstParameter + position) =
      tree.receiver className ++ (tree.parameters.take position).map Parameter.declaration := by
    rw [declarations, List.take_append, receiver, Nat.add_sub_cancel_left,
      List.take_of_length_le (by omega), ownDeclarations, List.take_append_of_le_length
      (by simpa using Nat.le_of_lt inside), List.map_take]
  have count : countOf ((tree.declarations className).take (tree.firstParameter + position))
      .argument = tree.firstParameter + position := by
    rw [before, countOf, List.countP_eq_length.mpr fun declaration member => ?_,
      List.length_append, receiver, List.length_map, List.length_take_of_le (Nat.le_of_lt inside)]
    rcases List.mem_append.mp member with object | passed
    · simp [kind_of_mem_receiver object]
    · obtain ⟨earlier, -, rfl⟩ := List.mem_map.mp passed
      rfl
  have own : resolveAfter [] (tree.declarations className) parameter.name = _ :=
    resolveAfter_of_getElem? lawful.distinct declared
  rw [List.nil_append, Declaration.symbol] at own
  exact own.trans (congrArg (fun index => some (Symbol.mk _ _ _ index)) count)

end SubroutineTree

namespace ClassTree

/-- The names that are declared with the keyword of a kind of variables. -/
def variableNames (tree : ClassTree) (kind : ClassVariableKind) : List String :=
  (tree.classVariables.filter (·.kind = kind)).flatMap (·.list.names)

/-- The storage of a subroutine of the class. -/
def frame (tree : ClassTree) (subroutine : SubroutineTree) : SlotCounts where
  locals := subroutine.localNames.length
  arguments := subroutine.parameters.length + subroutine.firstParameter
  fields := (tree.variableNames .field).length
  statics := (tree.variableNames .static).length

/-- As many variables of each kind are in force as the class declares. -/
theorem countOf_declarations (tree : ClassTree) (kind : ClassVariableKind) :
    countOf tree.declarations kind.symbolKind = (tree.variableNames kind).length := by
  -- Each list of variables counts for its own kind only.
  unfold declarations variableNames
  induction tree.classVariables with
  | nil => rfl
  | cons first rest ih =>
    have own : countOf first.declarations kind.symbolKind =
        if first.kind = kind then first.list.names.length else 0 := by
      obtain ⟨firstKind, list⟩ := first
      cases firstKind <;> cases kind <;>
        simp [countOf, ClassVariables.declarations, VariableList.declarations,
          ClassVariableKind.symbolKind, List.countP_eq_zero, Function.comp_def]
    rw [List.flatMap_cons, countOf, List.countP_append, ← countOf, ← countOf, own, ih,
      List.filter_cons]
    split <;> simp_all

/-- Each variable of a subroutine has its slot. -/
theorem frame_has {tree : ClassTree} {subroutine : SubroutineTree} {name : String} {symbol : Symbol}
    (found : (tree.context subroutine).symbol? name = some symbol) :
    (tree.frame subroutine).Has symbol.segment symbol.index := by
  -- A name that the subroutine does not declare is looked up in the class.
  rcases (Option.orElse_eq_some _ _ _).mp found with inner | ⟨-, outer⟩
  · -- The names of a subroutine are its arguments and its local variables.
    obtain ⟨⟨declaration, member, same⟩, bounded⟩ := resolveAfter_bounded inner
    obtain ⟨locals, arguments⟩ := subroutine.countOf_declarations tree.name
    have scope : declaration.kind.scope = .subroutine := by
      rcases List.mem_append.mp member with object | own
      · rw [SubroutineTree.kind_of_mem_receiver object]
        rfl
      · exact ClassUnit.scope_of_mem_ownDeclarations own
    rw [List.nil_append] at bounded
    rw [same] at scope
    rw [Symbol.segment]
    cases kind : symbol.kind <;> rw [kind] at bounded scope
    case static | field => cases scope
    case argument => exact bounded.trans_eq arguments
    case localVar => exact bounded.trans_eq locals
  · -- The names of a class are its fields and its statics.
    obtain ⟨⟨declaration, member, same⟩, bounded⟩ := resolveAfter_bounded outer
    have scope := ClassUnit.scope_of_mem_variables member
    rw [List.nil_append] at bounded
    rw [same] at scope
    rw [Symbol.segment]
    cases kind : symbol.kind <;> rw [kind] at bounded scope
    case argument | localVar => cases scope
    case static => exact bounded.trans_eq (tree.countOf_declarations .static)
    case field => exact bounded.trans_eq (tree.countOf_declarations .field)

/-- The code is the function of a subroutine of the class, and stays within its storage. -/
structure FunctionOf (tree : ClassTree) (subroutine : SubroutineTree) (block : List Command) :
    Prop where
  /-- Behind its header, the function sets the base of its object and goes on with the body. -/
  code : ∃ number, block =
    .function s!"{tree.name}.{subroutine.name}" subroutine.localNames.length ::
      (tree.frame subroutine).entry subroutine.kind ++
      subroutine.body.code (tree.context subroutine) number
  allowed : ∀ number, ∀ command ∈ subroutine.body.code (tree.context subroutine) number,
    (tree.frame subroutine).Allows command
  /-- Parameters stand for the arguments behind the object of a method. -/
  parameters : ∀ {position : Nat} {parameter : Parameter},
    subroutine.parameters[position]? = some parameter →
    (tree.context subroutine).symbol? parameter.name = some
      ⟨parameter.name, parameter.type.text, .argument, subroutine.firstParameter + position⟩

/-- The opening commands count the names that are declared. -/
theorem opening_eq (tree : ClassTree) (subroutine : SubroutineTree) :
    tree.opening subroutine =
      .function s!"{tree.name}.{subroutine.name}" subroutine.localNames.length ::
        (tree.frame subroutine).entry subroutine.kind := by
  -- Only a constructor asks for the number of the fields.
  have fields : countOf tree.declarations .field = (tree.variableNames .field).length :=
    tree.countOf_declarations .field
  rw [opening, header, subroutine.countOf_ownDeclarations]
  unfold prologue SlotCounts.entry
  cases subroutine.kind with
  | constructor => rw [fields]; rfl
  | function | method => rfl

/-- The blocks of lawful subroutines are their functions. -/
theorem functionOf_blocks {tree : ClassTree} {subroutines : List SubroutineTree}
    (lawful : ∀ subroutine ∈ subroutines, LawfulScope (subroutine.declarations tree.name))
    (next : Nat) : List.Forall₂ tree.FunctionOf subroutines (tree.blocks next subroutines) := by
  -- The number of the next label is all that passes from one subroutine to another.
  induction subroutines generalizing next with
  | nil => exact .nil
  | cons subroutine rest ih =>
    obtain ⟨scope, others⟩ := List.forall_mem_cons.mp lawful
    refine .cons ⟨⟨next, by rw [opening_eq]⟩, fun number command member => ?_, fun found => ?_⟩
      (ih others _)
    · have emits := subroutine.body.emitsAll (tree.context subroutine) number
        (List.Subset.refl _) command member
      exact SlotCounts.allows_of_emits emits fun found => frame_has found
    · have resolved := SubroutineTree.resolve_parameter scope found
      exact (Option.orElse_eq_some _ _ _).mpr (.inl resolved)

end ClassTree

/-- The code of an accepted class is one function for each of its subroutines, in their order, and
each of them addresses nothing outside of its storage. -/
theorem accepted_frames {source : String} {code : List Command}
    (accepted : compile source = .ok code) :
    ∃ tree : ClassTree, (∀ other, Spells source other ↔ other = tree) ∧
      (functionBlocks code).flatten = code ∧
      List.Forall₂ tree.FunctionOf tree.subroutines (functionBlocks code) := by
  obtain ⟨tree, spells, lawful, rfl⟩ := (compile_eq_ok_iff source code).mp accepted
  rw [ClassTree.functionBlocks_code lawful]
  exact ⟨tree, spells.iff_eq, rfl, ClassTree.functionOf_blocks lawful.scopes 0⟩

/-- A method is a single function, which finds its parameter behind its object. -/
theorem method_with_parameter_frames :
    ∃ (code : List Command) (tree : ClassTree) (subroutine : SubroutineTree),
      compile "class P { field int n; method int add(int x) { return x + n; } }" = .ok code ∧
      tree.subroutines = [subroutine] ∧ tree.FunctionOf subroutine code := by
  let code : List Command := [.function "P.add" 0, .push .argument 0, .pop .pointer 0,
    .push .argument 1, .push .this 0, .operate .add, .ret]
  have accepted : compile "class P { field int n; method int add(int x) { return x + n; } }" =
      .ok code := by decide +kernel
  obtain ⟨tree, -, -, functions⟩ := accepted_frames accepted
  have single : functionBlocks code = [code] := by decide
  rw [single] at functions
  obtain ⟨subroutine, rest, own, others, same⟩ := List.forall₂_cons_right_iff.mp functions
  obtain rfl := List.forall₂_nil_right_iff.mp others
  exact ⟨code, tree, subroutine, accepted, same, own⟩

end JackCompiler
