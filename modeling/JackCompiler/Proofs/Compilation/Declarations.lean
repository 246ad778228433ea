import JackCompiler.Proofs.Compilation.Reading
import JackCompiler.Proofs.Symbol.Declared

/-! Which declarations a class and its subroutines accept, and what is known behind them. -/

namespace JackCompiler

/-- A scope stays lawful without its last declarations. -/
theorem LawfulScope.of_append {declared more : List Declaration}
    (lawful : LawfulScope (declared ++ more)) : LawfulScope declared := by
  -- Fewer names are as distinct, and their counts are no larger.
  constructor
  · have distinct := lawful.distinct
    rw [List.map_append] at distinct
    exact (List.nodup_append.mp distinct).1
  · intro kind
    have bounded := lawful.bounded kind
    rw [countOf, List.countP_append] at bounded
    exact Nat.le_of_add_right_le bounded

namespace Declared

/-- Declarations that are added stand behind those that have been in force. -/
theorem names_addAll_prefix (declared : Declared) (declarations : List Declaration)
    (scope : Scope) :
    ∃ more, (declared.addAll declarations).names scope = declared.names scope ++ more := by
  -- Every declaration is put behind those of its own scope, and leaves the other scope alone.
  induction declarations generalizing declared with
  | nil => exact ⟨[], by simp [addAll]⟩
  | cons first rest ih =>
    obtain ⟨more, same⟩ := ih (declared.add first)
    rw [names_add] at same
    split at same
    · exact ⟨first :: more, by simpa [addAll] using same⟩
    · exact ⟨more, same⟩

/-- Lawful declarations are lawful without the last ones. -/
theorem Lawful.of_addAll {declared : Declared} {declarations : List Declaration}
    (lawful : (declared.addAll declarations).Lawful) : declared.Lawful := by
  -- In each scope, the declarations in force are the first ones of the larger scope.
  intro scope
  obtain ⟨more, same⟩ := declared.names_addAll_prefix declarations scope
  have larger := lawful scope
  rw [same] at larger
  exact larger.of_append

/-- Each declaration that is added counts for its own kind. -/
theorem countOf_addAll (declared : Declared) (declarations : List Declaration) (kind : SymbolKind) :
    countOf ((declared.addAll declarations).names kind.scope) kind =
      countOf (declared.names kind.scope) kind + countOf declarations kind := by
  -- A declaration of the kind is added to the scope of the kind, and counted there.
  induction declarations generalizing declared with
  | nil => rfl
  | cons first rest ih =>
    have added := ih (declared.add first)
    rw [names_add] at added
    have counted : countOf (first :: rest) kind =
        countOf rest kind + if first.kind = kind then 1 else 0 := by
      simp [countOf, List.countP_cons]
    rw [addAll, List.foldl_cons, ← addAll, added, counted]
    by_cases same : first.kind = kind
    · rw [same, if_pos rfl, if_pos rfl, countOf_append, if_pos same]
      omega
    · rw [if_neg same]
      split
      · rw [countOf_append, if_neg same]
        omega
      · omega

/-- Declarations may be added in two parts. -/
theorem addAll_append (declared : Declared) (first rest : List Declaration) :
    declared.addAll (first ++ rest) = (declared.addAll first).addAll rest :=
  List.foldl_append

end Declared

namespace ClassUnit

/-- The unit knows the declarations in force, which are lawful. -/
structure Knows (unit : ClassUnit) (declared : Declared) : Prop where
  holds : unit.symbols.Holds declared
  lawful : declared.Lawful

variable {unit after : ClassUnit} {declared : Declared} {declarations : List Declaration}

/-- A declaration is accepted exactly when it leaves the declarations in force lawful. -/
theorem Knows.declare_eq_ok_iff (knows : unit.Knows declared) {declaration : Declaration}
    {location : Location} :
    unit.declare location declaration.name declaration.type declaration.kind = .ok after ↔
      (declared.add declaration).Lawful ∧ after = { unit with
        symbols := unit.symbols.insert
          (declaration.symbol (declared.names declaration.kind.scope)) } := by
  -- The table accepts a declaration under the same two conditions.
  rw [Declared.lawful_add_iff knows.lawful]
  unfold declare
  rcases defined : unit.symbols.define declaration.name declaration.type declaration.kind with
    ⟨fault | symbol, larger⟩
  · simp only [reduceCtorEq, false_iff]
    rintro ⟨fits, -⟩
    have accepted := knows.holds.define_eq_ok_iff.mpr ⟨fits, rfl, rfl⟩
    rw [defined] at accepted
    cases accepted
  · obtain ⟨fits, rfl, rfl⟩ := knows.holds.define_eq_ok_iff.mp defined
    simp [fits, eq_comm]

/-- A declaration that is accepted is known from then on. -/
theorem Knows.of_declare (knows : unit.Knows declared) {declaration : Declaration}
    {location : Location}
    (accepted : unit.declare location declaration.name declaration.type declaration.kind =
      .ok after) :
    after.Knows (declared.add declaration) ∧ after = { unit with symbols := after.symbols } := by
  obtain ⟨lawful, rfl⟩ := knows.declare_eq_ok_iff.mp accepted
  have fits := (Declared.lawful_add_iff knows.lawful).mp lawful
  exact ⟨⟨knows.holds.insert fits.1, lawful⟩, rfl⟩

/-- Declarations that are accepted are known from then on. -/
theorem Knows.of_declares (knows : unit.Knows declared)
    (declares : unit.Declares declarations after) :
    after.Knows (declared.addAll declarations) ∧
      after = { unit with symbols := after.symbols } := by
  -- Each accepted declaration hands the knowledge on to the next one.
  induction declarations generalizing unit declared with
  | nil =>
    obtain rfl : after = unit := declares
    exact ⟨knows, rfl⟩
  | cons first rest ih =>
    obtain ⟨next, location, accepted, declares⟩ := declares
    obtain ⟨knows, same⟩ := knows.of_declare accepted
    obtain ⟨knows, same'⟩ := ih knows declares
    refine ⟨knows, ?_⟩
    rw [same', same]

/-- Declarations are accepted where they leave those in force lawful. -/
theorem Knows.exists_declares (knows : unit.Knows declared)
    (lawful : (declared.addAll declarations).Lawful) :
    ∃ after, unit.Declares declarations after := by
  -- What is lawful with all declarations is lawful with the first one alone.
  induction declarations generalizing unit declared with
  | nil => exact ⟨unit, rfl⟩
  | cons first rest ih =>
    have larger : ((declared.add first).addAll rest).Lawful := lawful
    have accepted : unit.declare .start first.name first.type first.kind = .ok _ :=
      knows.declare_eq_ok_iff.mpr ⟨larger.of_addAll, rfl⟩
    obtain ⟨after, declares⟩ := ih (knows.of_declare accepted).1 larger
    exact ⟨after, _, _, accepted, declares⟩

/-- The fields of a class are counted. -/
theorem Knows.fitsObject_iff (knows : unit.Knows declared) (kind : SymbolKind) :
    unit.FitsObject kind ↔ (kind = .field → countOf declared.ofClass .field ≤ maxOperand) := by
  have counted := knows.holds.counted .field
  rw [FitsObject, counted]
  rfl

/-- Only variables of the class are declared with it. -/
theorem scope_of_mem_variables {classVariables : List ClassVariables} {declaration : Declaration}
    (member : declaration ∈ classVariables.flatMap ClassVariables.declarations) :
    declaration.kind.scope = .wholeClass := by
  -- Both kinds of variables of a class belong to the scope of the class.
  obtain ⟨list, -, member⟩ := List.mem_flatMap.mp member
  obtain ⟨name, -, rfl⟩ := List.mem_map.mp member
  cases list with
  | mk kind list => cases kind <;> rfl

/-- Only declarations of fields add to the fields of a class. -/
theorem countOf_static_declarations (list : VariableList) :
    countOf (list.declarations .static) .field = 0 := by
  -- All declarations of the list are of another kind.
  simp [countOf, VariableList.declarations, List.countP_eq_zero]

/-- Variables of a class that are accepted are known from then on, and fit into an object. -/
theorem Knows.of_declaresVariables {classVariables : List ClassVariables}
    (knows : unit.Knows declared) (few : countOf declared.ofClass .field ≤ maxOperand)
    (declares : unit.DeclaresVariables classVariables after) :
    after.Knows (declared.addAll (classVariables.flatMap ClassVariables.declarations)) ∧
      after = { unit with symbols := after.symbols } ∧
      countOf (declared.addAll (classVariables.flatMap ClassVariables.declarations)).ofClass
        .field ≤ maxOperand := by
  -- The limit is checked behind each declaration, which makes it hold at the end.
  induction declares generalizing declared with
  | nil unit => exact ⟨knows, rfl, few⟩
  | @cons unit next after classVariables rest declares fits _ ih =>
    obtain ⟨knows, same⟩ := knows.of_declares declares
    have fits := (knows.fitsObject_iff _).mp fits
    have few : countOf (declared.addAll classVariables.declarations).ofClass .field ≤
        maxOperand := by
      -- Variables that all objects share take no room in an object.
      obtain ⟨kind, list⟩ := classVariables
      cases kind with
      | static =>
        have counted := declared.countOf_addAll (list.declarations .static) .field
        rw [countOf_static_declarations, Nat.add_zero] at counted
        exact Nat.le_trans (Nat.le_of_eq counted) few
      | field => exact fits rfl
    obtain ⟨knows, same', few⟩ := ih knows few
    rw [List.flatMap_cons, Declared.addAll_append]
    refine ⟨knows, ?_, few⟩
    rw [same', same]

/-- Variables of a class are accepted where they are lawful and fit into an object. -/
theorem Knows.exists_declaresVariables {classVariables : List ClassVariables}
    (knows : unit.Knows declared)
    (lawful : (declared.addAll (classVariables.flatMap ClassVariables.declarations)).Lawful)
    (few : countOf (declared.addAll (classVariables.flatMap ClassVariables.declarations)).ofClass
      .field ≤ maxOperand) :
    ∃ after, unit.DeclaresVariables classVariables after := by
  -- The declarations are accepted one by one, each within what all of them allow.
  induction classVariables generalizing unit declared with
  | nil => exact ⟨unit, .nil unit⟩
  | cons first rest ih =>
    rw [List.flatMap_cons, Declared.addAll_append] at lawful few
    obtain ⟨next, declares⟩ := knows.exists_declares lawful.of_addAll
    obtain ⟨knows, -⟩ := knows.of_declares declares
    obtain ⟨after, others⟩ := ih knows lawful few
    -- The fields that are declared later only add to those that are checked here.
    have fewer : countOf (declared.addAll first.declarations).ofClass .field ≤ maxOperand := by
      have counted := (declared.addAll first.declarations).countOf_addAll
        (rest.flatMap ClassVariables.declarations) .field
      have bounded : _ ≤ maxOperand := few
      exact Nat.le_trans (Nat.le_of_add_right_le (Nat.le_of_eq counted.symm)) bounded
    exact ⟨after, .cons declares ((knows.fitsObject_iff _).mpr fun _ => fewer) others⟩

/-- The unit knows the class, at the start of a subroutine or behind it. -/
structure Serves (unit : ClassUnit) (tree : ClassTree) : Prop where
  name : unit.name = tree.name
  knows : ∃ ofSubroutine, unit.Knows ⟨tree.declarations, ofSubroutine⟩

/-- The unit knows the class and all names of a subroutine, in whose body it is. -/
structure ServesBody (unit : ClassUnit) (tree : ClassTree) (subroutine : SubroutineTree) :
    Prop where
  name : unit.name = tree.name
  head : unit.subroutine = subroutine.head
  knows : unit.Knows ⟨tree.declarations, subroutine.declarations tree.name⟩

variable {tree : ClassTree} {subroutine : SubroutineTree}

/-- Every subroutine can be started, and a method then has its object. -/
theorem Serves.startSubroutine (serves : unit.Serves tree) (location : Location)
    (subroutine : SubroutineTree) :
    ∃ begun, unit.startSubroutine location subroutine.kind = .ok begun ∧
      begun.Knows ⟨tree.declarations, subroutine.receiver tree.name⟩ ∧
      begun.name = tree.name ∧ begun.labels = unit.labels := by
  -- A fresh scope has room for the object of a method.
  -- Its name is the first one that is declared there.
  obtain ⟨name, ofSubroutine, holds, lawful⟩ := serves
  let fresh := { unit with symbols := unit.symbols.startSubroutine }
  have empty : LawfulScope [] := ⟨List.nodup_nil, fun kind => Nat.zero_le _⟩
  have knows : fresh.Knows ⟨tree.declarations, []⟩ := by
    refine ⟨holds.startSubroutine, fun scope => ?_⟩
    cases scope with
    | wholeClass => exact lawful .wholeClass
    | subroutine => exact empty
  unfold ClassUnit.startSubroutine SubroutineTree.receiver
  cases subroutine.kind with
  | method =>
    let receiver : Declaration := ⟨"this", tree.name, .argument⟩
    have single : (Declared.add ⟨tree.declarations, []⟩ receiver).Lawful :=
      (Declared.lawful_add_iff knows.lawful).mpr ⟨List.not_mem_nil, Nat.zero_le _⟩
    have accepted : fresh.declare location receiver.name receiver.type receiver.kind = .ok _ :=
      knows.declare_eq_ok_iff.mpr ⟨single, rfl⟩
    refine ⟨_, ?_, (knows.of_declare accepted).1, name, rfl⟩
    rw [← accepted]
    change fresh.declare location "this" unit.name .argument = _
    rw [name]
  | constructor => exact ⟨fresh, rfl, knows, name, rfl⟩
  | function => exact ⟨fresh, rfl, knows, name, rfl⟩

/-- In the body of a subroutine, names stand for what the tree of the class says. -/
theorem ServesBody.context_eq (serves : unit.ServesBody tree subroutine) :
    unit.context = tree.context subroutine := by
  -- The table finds each name where the tree resolves it.
  obtain ⟨name, head, knows⟩ := serves
  have found : unit.symbols.get? = fun name =>
      (resolve (subroutine.declarations tree.name) name <|> resolve tree.declarations name) :=
    funext knows.holds.get?
  rw [context, name, head, found]
  rfl

/-- A subroutine is opened as the tree of the class says. -/
theorem ServesBody.opening_eq (serves : unit.ServesBody tree subroutine) :
    unit.opening = tree.opening subroutine := by
  -- The two counts in the opening commands are those of the tree.
  obtain ⟨name, head, knows⟩ := serves
  have fields : unit.symbols.count .field = countOf tree.declarations .field :=
    knows.holds.counted .field
  -- The object of a method is an argument, so it does not count as a local variable.
  have locals : unit.symbols.count .localVar = countOf subroutine.ownDeclarations .localVar := by
    have counted := knows.holds.counted .localVar
    rw [counted]
    simp only [Declared.names, SymbolKind.scope, SubroutineTree.declarations,
      SubroutineTree.receiver, countOf, List.countP_append]
    cases subroutine.kind <;> simp
  unfold opening ClassTree.opening ClassTree.prologue member
  rw [fields, locals, head, name]
  simp only [SubroutineTree.head]
  cases subroutine.kind <;> rfl

/-- The parameters and the local variables of a subroutine belong to it. -/
theorem scope_of_mem_ownDeclarations {declaration : Declaration}
    (member : declaration ∈ subroutine.ownDeclarations) : declaration.kind.scope = .subroutine := by
  -- Parameters are arguments, and all others are local variables.
  rcases List.mem_append.mp member with member | member
  · obtain ⟨parameter, -, rfl⟩ := List.mem_map.mp member
    rfl
  · obtain ⟨list, -, member⟩ := List.mem_flatMap.mp member
    obtain ⟨name, -, rfl⟩ := List.mem_map.mp member
    rfl

/-- A subroutine adds its own names to its object. -/
theorem addAll_ownDeclarations (tree : ClassTree) (subroutine : SubroutineTree) :
    Declared.addAll ⟨tree.declarations, subroutine.receiver tree.name⟩ subroutine.ownDeclarations =
      ⟨tree.declarations, subroutine.declarations tree.name⟩ := by
  -- The names go to the scope of the subroutine, behind the object of a method.
  refine Declared.eq_of_names fun scope => ?_
  rw [Declared.names_addAll _ fun declaration => scope_of_mem_ownDeclarations]
  cases scope <;> rfl

/-- What a subroutine declares is known in its body. -/
theorem Knows.servesBody {inner : ClassUnit}
    (knows : unit.Knows ⟨tree.declarations, subroutine.receiver tree.name⟩)
    (name : unit.name = tree.name)
    (declares : { unit with subroutine := subroutine.head }.Declares subroutine.ownDeclarations
      inner) :
    inner.ServesBody tree subroutine ∧ inner.labels = unit.labels := by
  have begun : { unit with subroutine := subroutine.head }.Knows _ := ⟨knows.holds, knows.lawful⟩
  obtain ⟨known, same⟩ := begun.of_declares declares
  rw [addAll_ownDeclarations] at known
  exact ⟨⟨by rw [same, name], by rw [same], known⟩, by rw [same]⟩

/-- The class is known behind the body of a subroutine. -/
theorem ServesBody.serves (serves : unit.ServesBody tree subroutine) (labels : Nat) :
    (unit.addLabels labels).Serves tree :=
  ⟨serves.name, _, serves.knows.holds, serves.knows.lawful⟩

/-- Subroutines that are accepted are lawful, and give the code that their trees say. -/
theorem Serves.of_compilesAll {subroutines : List SubroutineTree} {code : List Command}
    (serves : unit.Serves tree) (compiled : unit.CompilesAll subroutines code after) :
    (∀ subroutine ∈ subroutines, LawfulScope (subroutine.declarations tree.name) ∧
      subroutine.body.Lawful (tree.context subroutine)) ∧
    code = (tree.blocks unit.labels subroutines).flatten := by
  -- Each subroutine starts from the class as it is known, with the labels taken so far.
  induction compiled with
  | nil unit => exact ⟨nofun, rfl⟩
  | @cons unit begun next after subroutine rest location code more started compiled _ ih =>
    obtain ⟨begun', started', knows, name, labels⟩ := serves.startSubroutine location subroutine
    obtain rfl : begun = begun' := by simpa [started] using started'
    obtain ⟨inner, declares, lawful, rfl, rfl⟩ := compiled
    obtain ⟨body, same⟩ := knows.servesBody name declares
    obtain ⟨others, rfl⟩ := ih (body.serves _)
    rw [body.context_eq] at lawful
    refine ⟨List.forall_mem_cons.mpr ⟨⟨body.knows.lawful .subroutine, lawful⟩, others⟩, ?_⟩
    rw [body.context_eq, body.opening_eq, labels_addLabels, same, labels]
    rfl

/-- Subroutines are accepted where they are lawful. -/
theorem Serves.exists_compilesAll {subroutines : List SubroutineTree} (serves : unit.Serves tree)
    (lawful : ∀ subroutine ∈ subroutines, LawfulScope (subroutine.declarations tree.name) ∧
      subroutine.body.Lawful (tree.context subroutine)) :
    ∃ code after, unit.CompilesAll subroutines code after := by
  -- A lawful scope accepts its names, and the next subroutine finds the class as it was known.
  induction subroutines generalizing unit with
  | nil => exact ⟨[], unit, .nil unit⟩
  | cons subroutine rest ih =>
    obtain ⟨⟨scope, uses⟩, others⟩ := List.forall_mem_cons.mp lawful
    obtain ⟨begun, started, knows, name, -⟩ := serves.startSubroutine .start subroutine
    have fresh : { begun with subroutine := subroutine.head }.Knows _ :=
      ⟨knows.holds, knows.lawful⟩
    have both : (Declared.addAll ⟨tree.declarations, subroutine.receiver tree.name⟩
        subroutine.ownDeclarations).Lawful := by
      rw [addAll_ownDeclarations]
      intro scope
      cases scope with
      | wholeClass => exact knows.lawful .wholeClass
      | subroutine => assumption
    obtain ⟨inner, declares⟩ := fresh.exists_declares both
    obtain ⟨body, -⟩ := knows.servesBody name declares
    rw [← body.context_eq] at uses
    obtain ⟨more, after, compiled⟩ := ih (body.serves subroutine.body.labels) others
    exact ⟨_, after, .cons started ⟨inner, declares, uses, rfl, rfl⟩ compiled⟩

/-- A class is accepted from its name on exactly when it is lawful, and gives its tree's code. -/
theorem compilesClass_iff (tree : ClassTree) (code : List Command) :
    (∃ next after,
        { name := tree.name : ClassUnit }.DeclaresVariables tree.classVariables next ∧
        next.CompilesAll tree.subroutines code after) ↔
      tree.Lawful ∧ tree.code = code := by
  let start : ClassUnit := { name := tree.name }
  have empty : LawfulScope [] := ⟨List.nodup_nil, fun kind => Nat.zero_le _⟩
  have knows : start.Knows {} := by
    refine ⟨SymbolTable.holds_empty, fun scope => ?_⟩
    cases scope <;> exact empty
  have declared : Declared.addAll {} (tree.classVariables.flatMap ClassVariables.declarations) =
      ⟨tree.declarations, []⟩ := by
    refine Declared.eq_of_names fun scope => ?_
    rw [Declared.names_addAll _ fun declaration => scope_of_mem_variables]
    cases scope <;> rfl
  -- Acceptance establishes the rules one scope after the other, and the rules grant acceptance.
  constructor
  · rintro ⟨next, after, declares, compiled⟩
    obtain ⟨known, same, few⟩ := knows.of_declaresVariables (Nat.zero_le _) declares
    rw [declared] at known few
    have serves : next.Serves tree := ⟨by rw [same], [], known⟩
    obtain ⟨lawful, rfl⟩ := serves.of_compilesAll compiled
    have labels : next.labels = 0 := by rw [same]
    refine ⟨⟨known.lawful .wholeClass, few, fun subroutine member => (lawful subroutine member).1,
      fun subroutine member => (lawful subroutine member).2⟩, ?_⟩
    rw [labels]
    rfl
  · rintro ⟨lawful, rfl⟩
    have both : (Declared.addAll {}
        (tree.classVariables.flatMap ClassVariables.declarations)).Lawful := by
      rw [declared]
      intro scope
      cases scope with
      | wholeClass => exact lawful.scope
      | subroutine => exact empty
    have few : countOf (Declared.addAll {}
        (tree.classVariables.flatMap ClassVariables.declarations)).ofClass .field ≤ maxOperand := by
      rw [declared]
      exact lawful.fields
    obtain ⟨next, declares⟩ := knows.exists_declaresVariables both few
    obtain ⟨known, same, -⟩ := knows.of_declaresVariables (Nat.zero_le _) declares
    rw [declared] at known
    have serves : next.Serves tree := ⟨by rw [same], [], known⟩
    obtain ⟨code, after, compiled⟩ := serves.exists_compilesAll fun subroutine member =>
      ⟨lawful.scopes subroutine member, lawful.bodies subroutine member⟩
    obtain ⟨-, rfl⟩ := serves.of_compilesAll compiled
    have labels : next.labels = 0 := by rw [same]
    rw [labels] at compiled
    exact ⟨next, after, declares, compiled⟩

end ClassUnit

end JackCompiler
