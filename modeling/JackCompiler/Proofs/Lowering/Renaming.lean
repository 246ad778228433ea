import JackCompiler.Proofs.Lowering.Occurrence
import JackCompiler.Proofs.Symbol.Declared
import JackCompiler.Proofs.Tree.Renaming
import Mathlib.Data.List.Nodup
import Mathlib.Data.Option.Basic

/-! The code of a class does not depend on the names of the variables of its subroutines. -/

namespace JackCompiler

/-- A symbol of another name. -/
def Symbol.rename (rename : String → String) (symbol : Symbol) : Symbol :=
  { symbol with name := rename symbol.name }

/-- A symbol whose name stays is the same. -/
theorem Symbol.rename_eq_self {rename : String → String} (symbol : Symbol)
    (stays : rename symbol.name = symbol.name) : symbol.rename rename = symbol :=
  congrArg (fun name => { symbol with name }) stays

/-- Where the first context has a variable, the other one has it under its new name. All other names
stand for the same in both. -/
structure Context.Renamed (context other : Context) (rename : String → String)
    (kinds : List TokenKind) : Prop where
  className : other.className = context.className
  subroutine : other.subroutine = context.subroutine
  symbols : ∀ {name : String}, .identifier name ∈ kinds →
    other.symbol? (rename name) = (context.symbol? name).map (·.rename rename)
  free : ∀ {name : String}, context.symbol? name = none → rename name = name

namespace Context.Renamed

variable {context other : Context} {rename : String → String} {kinds : List TokenKind}
  {name : String}

/-- Members of the class have the same names. -/
theorem member (renamed : context.Renamed other rename kinds) (name : String) :
    other.member name = context.member name := by
  -- Only the name of the class goes into that of a member.
  rw [Context.member, renamed.className, Context.member]

/-- The labels are the same. -/
theorem label (renamed : context.Renamed other rename kinds) (number : Nat) :
    other.label number = context.label number :=
  renamed.member _

/-- A variable is loaded by the same command. -/
theorem load (renamed : context.Renamed other rename kinds) (written : .identifier name ∈ kinds) :
    other.load (rename name) = context.load name := by
  -- A variable is loaded from the place of its symbol, whatever the symbol is called.
  rw [Context.load, renamed.symbols written, Option.map_map]
  rfl

/-- A variable is stored by the same command. -/
theorem store (renamed : context.Renamed other rename kinds) (written : .identifier name ∈ kinds) :
    other.store (rename name) = context.store name := by
  -- The same place is stored to.
  rw [Context.store, renamed.symbols written, Option.map_map]
  rfl

/-- A variable is declared under its new name. -/
theorem declares (renamed : context.Renamed other rename kinds)
    (written : .identifier name ∈ kinds) (declared : context.Declares name) :
    other.Declares (rename name) := by
  -- Under the new name stands the renamed symbol.
  obtain ⟨symbol, found⟩ := declared
  exact ⟨symbol.rename rename, by rw [renamed.symbols written, found, Option.map_some]⟩

/-- An array is declared under its new name. -/
theorem declaresArray (renamed : context.Renamed other rename kinds)
    (written : .identifier name ∈ kinds) (declared : context.DeclaresArray name) :
    other.DeclaresArray (rename name) := by
  -- The renamed symbol is of the same type, that of an array.
  obtain ⟨symbol, found, array⟩ := declared
  exact ⟨symbol.rename rename, by rw [renamed.symbols written, found, Option.map_some], array⟩

/-- A dot may still follow a name. -/
theorem mayOwnCall (renamed : context.Renamed other rename kinds)
    (written : .identifier name ∈ kinds) (may : context.MayOwnCall name) :
    other.MayOwnCall (rename name) := by
  -- What is found under the new name is a renamed symbol, of the type that it had before.
  intro symbol found
  rw [renamed.symbols written] at found
  obtain ⟨own, declared, rfl⟩ := Option.map_eq_some_iff.mp found
  exact may own declared

end Context.Renamed

/-- As many arguments are passed. -/
theorem Arguments.count_rename (rename : String → String) :
    ∀ arguments : Arguments, (arguments.rename rename).count = arguments.count
  | .nil => rfl
  | .cons _ rest => congrArg (· + 1) (count_rename rename rest)

section

variable {context other : Context} {rename : String → String} {kinds : List TokenKind}

mutual

/-- The code of a term stays. -/
theorem Term.code_rename (renamed : context.Renamed other rename kinds) (term : Term)
    (within : term.kinds ⊆ kinds) : (term.rename rename).code other = term.code context := by
  -- Names are looked up in the other context, where they stand for the same places.
  cases term with
  | integer | string | word => rfl
  | group inner =>
    simp only [Term.kinds, List.cons_subset, List.append_subset] at within
    exact Expression.code_rename renamed inner within.1.2
  | unary operator operand =>
    simp only [Term.kinds, List.cons_subset] at within
    exact congrArg (· ++ [operator.code]) (Term.code_rename renamed operand within.2)
  | name name => exact renamed.load (within List.mem_cons_self)
  | element array index =>
    simp only [Term.kinds, List.cons_subset, List.append_subset] at within
    rw [Term.rename, Term.code, Term.code, renamed.load within.1.1,
      Expression.code_rename renamed index within.1.2.2]
  | call call => exact Call.code_rename renamed call within
termination_by structural term

/-- The code of an expression stays. -/
theorem Expression.code_rename (renamed : context.Renamed other rename kinds) (value : Expression)
    (within : value.kinds ⊆ kinds) : (value.rename rename).code other = value.code context := by
  -- The first operand and the others are translated apart from each other.
  cases value with
  | mk first rest =>
    obtain ⟨early, late⟩ := List.append_subset.mp within
    rw [Expression.rename, Expression.code, Expression.code, Term.code_rename renamed first early,
      Operations.code_rename renamed rest late]
termination_by structural value

/-- The code of operands stays. -/
theorem Operations.code_rename (renamed : context.Renamed other rename kinds)
    (operations : Operations) (within : operations.kinds ⊆ kinds) :
    (operations.rename rename).code other = operations.code context := by
  -- An operator names nothing, so that its command stays.
  cases operations with
  | nil => rfl
  | cons operator operand rest =>
    simp only [Operations.kinds, List.cons_subset, List.append_subset] at within
    rw [Operations.rename, Operations.code, Operations.code,
      Term.code_rename renamed operand within.1.2, Operations.code_rename renamed rest within.2]
termination_by structural operations

/-- The code of a call stays. -/
theorem Call.code_rename (renamed : context.Renamed other rename kinds) (call : Call)
    (within : call.kinds ⊆ kinds) : (call.rename rename).code other = call.code context := by
  -- The called name is that of a subroutine; only the owner before a dot can be a variable.
  cases call with
  | own name arguments =>
    simp only [Call.kinds, List.cons_subset, List.append_subset] at within
    obtain ⟨⟨-, -, inside⟩, -⟩ := within
    simp only [Call.rename, Call.code, renamed.subroutine, renamed.member,
      arguments.count_rename, Arguments.code_rename renamed arguments inside]
  | member owner name arguments =>
    simp only [Call.kinds, List.cons_subset, List.append_subset] at within
    obtain ⟨⟨owned, -, -, -, inside⟩, -⟩ := within
    have passed := Arguments.code_rename renamed arguments inside
    rw [Call.rename, Call.code, Call.code, renamed.symbols owned]
    cases found : context.symbol? owner with
    | some symbol => simp only [Option.map_some, passed, arguments.count_rename]; rfl
    | none =>
      -- The name of a class is no name of a variable, and stays.
      simp only [Option.map_none, passed, arguments.count_rename, renamed.free found]
termination_by structural call

/-- The code of arguments stays. -/
theorem Arguments.code_rename (renamed : context.Renamed other rename kinds)
    (arguments : Arguments) (within : arguments.kinds ⊆ kinds) :
    (arguments.rename rename).code other = arguments.code context := by
  -- Only the first argument has no comma before it.
  cases arguments with
  | nil => rfl
  | cons first rest =>
    obtain ⟨early, late⟩ := List.append_subset.mp within
    rw [Arguments.rename, Arguments.code, Arguments.code,
      Expression.code_rename renamed first early, Arguments.code_rename_more renamed rest late]
termination_by structural arguments

/-- The code of further arguments stays. -/
theorem Arguments.code_rename_more (renamed : context.Renamed other rename kinds)
    (arguments : Arguments) (within : arguments.moreKinds ⊆ kinds) :
    (arguments.rename rename).code other = arguments.code context := by
  -- The comma before an argument is no command.
  cases arguments with
  | nil => rfl
  | cons first rest =>
    simp only [Arguments.moreKinds, List.cons_subset, List.append_subset] at within
    rw [Arguments.rename, Arguments.code, Arguments.code,
      Expression.code_rename renamed first within.1.2,
      Arguments.code_rename_more renamed rest within.2]
termination_by structural arguments

end

mutual

/-- A lawful term stays lawful. -/
theorem Term.lawful_rename (renamed : context.Renamed other rename kinds) (term : Term)
    (within : term.kinds ⊆ kinds) (lawful : term.Lawful context) :
    (term.rename rename).Lawful other := by
  -- What is asked of a name is asked of its symbol, and a renamed symbol meets it as well.
  cases term with
  | integer | string | word => trivial
  | group inner =>
    simp only [Term.kinds, List.cons_subset, List.append_subset] at within
    exact Expression.lawful_rename renamed inner within.1.2 lawful
  | unary operator operand =>
    simp only [Term.kinds, List.cons_subset] at within
    exact Term.lawful_rename renamed operand within.2 lawful
  | name name => exact renamed.declares (within List.mem_cons_self) lawful
  | element array index =>
    simp only [Term.kinds, List.cons_subset, List.append_subset] at within
    exact ⟨renamed.declaresArray within.1.1 lawful.1,
      Expression.lawful_rename renamed index within.1.2.2 lawful.2⟩
  | call call => exact Call.lawful_rename renamed call within lawful
termination_by structural term

/-- A lawful expression stays lawful. -/
theorem Expression.lawful_rename (renamed : context.Renamed other rename kinds)
    (value : Expression) (within : value.kinds ⊆ kinds) (lawful : value.Lawful context) :
    (value.rename rename).Lawful other := by
  -- The operands are lawful one by one.
  cases value with
  | mk first rest =>
    obtain ⟨early, late⟩ := List.append_subset.mp within
    exact ⟨Term.lawful_rename renamed first early lawful.1,
      Operations.lawful_rename renamed rest late lawful.2⟩
termination_by structural value

/-- Lawful operands stay lawful. -/
theorem Operations.lawful_rename (renamed : context.Renamed other rename kinds)
    (operations : Operations) (within : operations.kinds ⊆ kinds)
    (lawful : operations.Lawful context) : (operations.rename rename).Lawful other := by
  -- Nothing is asked of an operator.
  cases operations with
  | nil => trivial
  | cons operator operand rest =>
    simp only [Operations.kinds, List.cons_subset, List.append_subset] at within
    exact ⟨Term.lawful_rename renamed operand within.1.2 lawful.1,
      Operations.lawful_rename renamed rest within.2 lawful.2⟩
termination_by structural operations

/-- A lawful call stays lawful. -/
theorem Call.lawful_rename (renamed : context.Renamed other rename kinds) (call : Call)
    (within : call.kinds ⊆ kinds) (lawful : call.Lawful context) :
    (call.rename rename).Lawful other := by
  -- Of the two kinds of calls, only one with a dot asks something of a name.
  cases call with
  | own name arguments =>
    simp only [Call.kinds, List.cons_subset, List.append_subset] at within
    exact Arguments.lawful_rename renamed arguments within.1.2.2 lawful
  | member owner name arguments =>
    simp only [Call.kinds, List.cons_subset, List.append_subset] at within
    obtain ⟨⟨owned, -, -, -, inside⟩, -⟩ := within
    exact ⟨renamed.mayOwnCall owned lawful.1,
      Arguments.lawful_rename renamed arguments inside lawful.2⟩
termination_by structural call

/-- Lawful arguments stay lawful. -/
theorem Arguments.lawful_rename (renamed : context.Renamed other rename kinds)
    (arguments : Arguments) (within : arguments.kinds ⊆ kinds)
    (lawful : arguments.Lawful context) : (arguments.rename rename).Lawful other := by
  -- The arguments are lawful one by one.
  cases arguments with
  | nil => trivial
  | cons first rest =>
    obtain ⟨early, late⟩ := List.append_subset.mp within
    exact ⟨Expression.lawful_rename renamed first early lawful.1,
      Arguments.lawful_rename_more renamed rest late lawful.2⟩
termination_by structural arguments

/-- Further lawful arguments stay lawful. -/
theorem Arguments.lawful_rename_more (renamed : context.Renamed other rename kinds)
    (arguments : Arguments) (within : arguments.moreKinds ⊆ kinds)
    (lawful : arguments.Lawful context) : (arguments.rename rename).Lawful other := by
  cases arguments with
  | nil => trivial
  | cons first rest =>
    simp only [Arguments.moreKinds, List.cons_subset, List.append_subset] at within
    exact ⟨Expression.lawful_rename renamed first within.1.2 lawful.1,
      Arguments.lawful_rename_more renamed rest within.2 lawful.2⟩
termination_by structural arguments

end

mutual

/-- A statement takes as many labels. -/
theorem Statement.labels_rename (rename : String → String) (statement : Statement) :
    (statement.rename rename).labels = statement.labels := by
  -- Labels are counted by the shape of a statement, and names have no part in it.
  cases statement with
  | ifThen condition body | whileDo condition body =>
    rw [Statement.rename, Statement.labels, Statement.labels, Statements.labels_rename rename body]
  | ifThenElse condition body otherwise =>
    rw [Statement.rename, Statement.labels, Statement.labels, Statements.labels_rename rename body,
      Statements.labels_rename rename otherwise]
  | _ => rfl
termination_by structural statement

/-- Statements take as many labels. -/
theorem Statements.labels_rename (rename : String → String) (statements : Statements) :
    (statements.rename rename).labels = statements.labels := by
  -- Each statement takes as many labels, and so do all of them together.
  cases statements with
  | nil => rfl
  | cons first rest =>
    rw [Statements.rename, Statements.labels, Statements.labels,
      Statement.labels_rename rename first, Statements.labels_rename rename rest]
termination_by structural statements

end

mutual

/-- The code of a statement stays. -/
theorem Statement.code_rename (renamed : context.Renamed other rename kinds)
    (statement : Statement) (next : Nat) (within : statement.kinds ⊆ kinds) :
    (statement.rename rename).code other next = statement.code context next := by
  -- The parts take as many labels as before, and so each part starts at the same one.
  cases statement with
  | assign target value =>
    simp only [Statement.kinds, List.cons_subset, List.append_subset] at within
    rw [Statement.rename, Statement.code, Statement.code, renamed.store within.1.2.1,
      value.code_rename renamed within.1.2.2.2]
  | assignElement array index value =>
    simp only [Statement.kinds, List.cons_subset, List.append_subset] at within
    obtain ⟨⟨⟨-, named, -, early⟩, -, -, late⟩, -⟩ := within
    rw [Statement.rename, Statement.code, Statement.code, renamed.load named,
      index.code_rename renamed early, value.code_rename renamed late]
  | ifThen condition body | whileDo condition body =>
    simp only [Statement.kinds, List.cons_subset, List.append_subset] at within
    obtain ⟨⟨⟨-, -, test⟩, -, -, inside⟩, -⟩ := within
    rw [Statement.rename, Statement.code, Statement.code, condition.code_rename renamed test,
      Statements.code_rename renamed body _ inside]
    simp only [renamed.label]
  | ifThenElse condition body otherwise =>
    simp only [Statement.kinds, List.cons_subset, List.append_subset] at within
    obtain ⟨⟨⟨⟨-, -, test⟩, -, -, inside⟩, -, -, -, last⟩, -⟩ := within
    rw [Statement.rename, Statement.code, Statement.code, condition.code_rename renamed test,
      Statements.labels_rename, Statements.code_rename renamed body _ inside,
      Statements.code_rename renamed otherwise _ last]
    simp only [renamed.label]
  | call call =>
    simp only [Statement.kinds, List.cons_subset, List.append_subset] at within
    rw [Statement.rename, Statement.code, Statement.code, call.code_rename renamed within.1.2]
  | returnNothing =>
    rw [Statement.rename, Statement.code, renamed.subroutine, Statement.code]
  | returnValue value =>
    simp only [Statement.kinds, List.cons_subset, List.append_subset] at within
    rw [Statement.rename, Statement.code, Statement.code, value.code_rename renamed within.1.2]
termination_by structural statement

/-- The code of statements stays. -/
theorem Statements.code_rename (renamed : context.Renamed other rename kinds)
    (statements : Statements) (next : Nat) (within : statements.kinds ⊆ kinds) :
    (statements.rename rename).code other next = statements.code context next := by
  -- The first statement takes as many labels, so the others start at the same one.
  cases statements with
  | nil => rfl
  | cons first rest =>
    obtain ⟨early, late⟩ := List.append_subset.mp within
    rw [Statements.rename, Statements.code, Statements.code, Statement.labels_rename,
      Statement.code_rename renamed first next early, Statements.code_rename renamed rest _ late]
termination_by structural statements

end

mutual

/-- A lawful statement stays lawful. -/
theorem Statement.lawful_rename (renamed : context.Renamed other rename kinds)
    (statement : Statement) (within : statement.kinds ⊆ kinds)
    (lawful : statement.Lawful context) : (statement.rename rename).Lawful other := by
  -- A target is declared under its new name, and the parts are lawful one by one.
  cases statement with
  | assign target value =>
    simp only [Statement.kinds, List.cons_subset, List.append_subset] at within
    exact ⟨renamed.declares within.1.2.1 lawful.1,
      value.lawful_rename renamed within.1.2.2.2 lawful.2⟩
  | assignElement array index value =>
    simp only [Statement.kinds, List.cons_subset, List.append_subset] at within
    obtain ⟨⟨⟨-, named, -, early⟩, -, -, late⟩, -⟩ := within
    exact ⟨renamed.declaresArray named lawful.1, index.lawful_rename renamed early lawful.2.1,
      value.lawful_rename renamed late lawful.2.2⟩
  | ifThen condition body | whileDo condition body =>
    simp only [Statement.kinds, List.cons_subset, List.append_subset] at within
    obtain ⟨⟨⟨-, -, test⟩, -, -, inside⟩, -⟩ := within
    exact ⟨condition.lawful_rename renamed test lawful.1,
      Statements.lawful_rename renamed body inside lawful.2⟩
  | ifThenElse condition body otherwise =>
    simp only [Statement.kinds, List.cons_subset, List.append_subset] at within
    obtain ⟨⟨⟨⟨-, -, test⟩, -, -, inside⟩, -, -, -, last⟩, -⟩ := within
    exact ⟨condition.lawful_rename renamed test lawful.1,
      Statements.lawful_rename renamed body inside lawful.2.1,
      Statements.lawful_rename renamed otherwise last lawful.2.2⟩
  | call call =>
    simp only [Statement.kinds, List.cons_subset, List.append_subset] at within
    exact call.lawful_rename renamed within.1.2 lawful
  | returnNothing => trivial
  | returnValue value =>
    simp only [Statement.kinds, List.cons_subset, List.append_subset] at within
    exact value.lawful_rename renamed within.1.2 lawful
termination_by structural statement

/-- Lawful statements stay lawful. -/
theorem Statements.lawful_rename (renamed : context.Renamed other rename kinds)
    (statements : Statements) (within : statements.kinds ⊆ kinds)
    (lawful : statements.Lawful context) : (statements.rename rename).Lawful other := by
  -- The statements are lawful one by one.
  cases statements with
  | nil => trivial
  | cons first rest =>
    obtain ⟨early, late⟩ := List.append_subset.mp within
    exact ⟨Statement.lawful_rename renamed first early lawful.1,
      Statements.lawful_rename renamed rest late lawful.2⟩
termination_by structural statements

end

end

/-- A declaration of another name. -/
def Declaration.rename (rename : String → String) (declaration : Declaration) : Declaration :=
  { declaration with name := rename declaration.name }

section Scopes

variable {rename : String → String} {declared : List Declaration}

/-- As many declarations of each kind are counted. -/
theorem countOf_rename (rename : String → String) (declared : List Declaration)
    (kind : SymbolKind) : countOf (declared.map (·.rename rename)) kind = countOf declared kind := by
  -- Declarations are counted by their kinds.
  rw [countOf, List.countP_map]
  rfl

/-- A name stands under its new name for the same symbol, if no other one gets that name. -/
theorem resolveAfter_rename (before : List Declaration) {name : String}
    (apart : ∀ declaration ∈ declared, rename declaration.name = rename name →
      declaration.name = name) :
    resolveAfter (before.map (·.rename rename)) (declared.map (·.rename rename)) (rename name) =
      (resolveAfter before declared name).map (·.rename rename) := by
  -- A declaration that is passed goes to those before, in both lists.
  induction declared generalizing before with
  | nil => rfl
  | cons first rest ih =>
    obtain ⟨own, others⟩ := List.forall_mem_cons.mp apart
    rw [List.map_cons, resolveAfter, resolveAfter]
    by_cases same : first.name = name
    · -- The index counts the earlier declarations of the kind, whatever their names are.
      have index : (first.rename rename).symbol (before.map (·.rename rename)) =
          (first.symbol before).rename rename :=
        congrArg (Symbol.mk _ _ _) (countOf_rename rename before first.kind)
      have found : (first.rename rename).name = rename name := congrArg rename same
      rw [if_pos same, if_pos found, index, Option.map_some]
    · have other : (first.rename rename).name ≠ rename name := fun equal => same (own equal)
      have further := ih (before ++ [first]) others
      rw [List.map_append] at further
      rw [if_neg same, if_neg other]
      exact further

/-- A name is found in a scope under its new name, if no other one of the scope gets that name. -/
theorem resolve_rename {name : String}
    (apart : ∀ declaration ∈ declared, rename declaration.name = rename name →
      declaration.name = name) :
    resolve (declared.map (·.rename rename)) (rename name) =
      (resolve declared name).map (·.rename rename) :=
  resolveAfter_rename [] apart

/-- A symbol has the name that it is found under. -/
theorem name_of_resolveAfter {before : List Declaration} {name : String} {symbol : Symbol}
    (found : resolveAfter before declared name = some symbol) : symbol.name = name := by
  -- The symbol is made from a declaration of the name that was looked for.
  obtain ⟨earlier, declaration, later, -, same, rfl⟩ := exists_of_resolveAfter found
  exact same

end Scopes

/-- What a list of variables declares is written in it. -/
theorem VariableList.identifier_mem_kinds (list : VariableList) {name : String} (member : name ∈ list.names) :
    .identifier name ∈ list.kinds := by
  -- The first name stands behind the type, and each of the others behind a comma.
  rcases List.mem_cons.mp member with rfl | member
  · simp [VariableList.kinds]
  · have written : .identifier name ∈ moreNames list.others :=
      List.mem_flatMap.mpr ⟨name, member, by simp⟩
    simp [VariableList.kinds, written]

namespace SubroutineTree

/-- The variables of a subroutine can be named like this: only they get other names, which are
names, and no two names among the tokens become the same. -/
structure MayRename (subroutine : SubroutineTree) (kinds : List TokenKind)
    (rename : String → String) : Prop where
  keeps : KeepsNames rename
  own : ∀ {name : String}, name ∉ subroutine.ownDeclarations.map Declaration.name →
    rename name = name
  apart : ∀ {name other : String}, .identifier name ∈ kinds → .identifier other ∈ kinds →
    rename name = rename other → name = other

/-- The body of a subroutine is changed as its statements are. -/
theorem body_rename (subroutine : SubroutineTree) (rename : String → String) :
    (subroutine.rename rename).body = subroutine.body.rename rename := rfl

/-- A subroutine declares the same variables under their new names. -/
theorem ownDeclarations_rename (subroutine : SubroutineTree) (rename : String → String) :
    (subroutine.rename rename).ownDeclarations =
      subroutine.ownDeclarations.map (·.rename rename) := by
  -- The declarations come from the parameters and from the lists of local variables.
  simp [ownDeclarations, SubroutineTree.rename, VariableList.rename, VariableList.declarations,
    VariableList.names, Parameter.rename, Parameter.declaration, Declaration.rename,
    Function.comp_def, List.map_flatMap, List.flatMap_map]

/-- What a subroutine declares is written in it. -/
theorem identifier_mem_kinds {subroutine : SubroutineTree} {declaration : Declaration}
    (declared : declaration ∈ subroutine.ownDeclarations) :
    .identifier declaration.name ∈ subroutine.kinds := by
  -- A parameter is written in the head, and a local variable in one of the lists.
  rcases List.mem_append.mp declared with passed | locals
  · obtain ⟨parameter, member, rfl⟩ := List.mem_map.mp passed
    have written : .identifier parameter.name ∈ parameter.kinds := by simp [Parameter.kinds]
    exact kinds_subset_of_parameter member written
  · obtain ⟨list, member, named⟩ := List.mem_flatMap.mp locals
    obtain ⟨name, inside, rfl⟩ := List.mem_map.mp named
    exact kinds_subset_of_local member (list.identifier_mem_kinds inside)

section Renaming

variable {subroutine : SubroutineTree} {kinds : List TokenKind} {rename : String → String}

/-- The object of a method is no variable that gets another name. -/
theorem MayRename.this (may : subroutine.MayRename kinds rename)
    (formed : ∀ kind ∈ kinds, kind.Formed) (inside : subroutine.kinds ⊆ kinds) :
    rename "this" = "this" := by
  refine may.own fun declared => ?_
  -- A variable of this name could not be written, because the word is reserved.
  obtain ⟨declaration, member, same⟩ := List.mem_map.mp declared
  have named : IsName declaration.name := formed _ (inside (identifier_mem_kinds member))
  exact named.free .this same.symm

/-- A name that stands for nothing in the subroutine stays. -/
theorem MayRename.stays_of_resolve (may : subroutine.MayRename kinds rename) {className name : String}
    (undeclared : resolve (subroutine.declarations className) name = none) :
    rename name = name := by
  -- If the subroutine declared the name itself, the name would stand for something.
  refine may.own fun own => resolve_eq_none_iff.mp undeclared ?_
  rw [declarations, List.map_append]
  exact List.mem_append_right _ own

/-- What is declared for the body of a subroutine is the object of a method, or it is written. -/
theorem known_of_mem_declarations (inside : subroutine.kinds ⊆ kinds) {className : String}
    {declaration : Declaration} (declared : declaration ∈ subroutine.declarations className) :
    declaration.name = "this" ∨ .identifier declaration.name ∈ kinds := by
  -- Nothing but the object of a method is declared without being written.
  rcases List.mem_append.mp declared with object | own
  · unfold receiver at object
    split at object
    · exact .inl (List.mem_singleton.mp object ▸ rfl)
    all_goals cases object
  · exact .inr (inside (identifier_mem_kinds own))

/-- Different names stay different, and different from that of the object. -/
theorem MayRename.apart_known (may : subroutine.MayRename kinds rename)
    (formed : ∀ kind ∈ kinds, kind.Formed) (this : rename "this" = "this") {name other : String}
    (known : name = "this" ∨ .identifier name ∈ kinds)
    (knownOther : other = "this" ∨ .identifier other ∈ kinds)
    (same : rename name = rename other) : name = other := by
  -- What is written is a name, and so is what stands for it, while the object is a reserved word.
  have ne_this {name : String} (written : .identifier name ∈ kinds) : rename name ≠ "this" := by
    intro equal
    have named : IsName "this" := by
      rcases may.keeps name with kept | named
      · have own : IsName name := formed _ written
        rwa [← kept, equal] at own
      · rwa [equal] at named
    exact named.free .this rfl
  rcases known with rfl | written <;> rcases knownOther with rfl | writtenOther
  · rfl
  · exact absurd (same.symm.trans this) (ne_this writtenOther)
  · exact absurd (same.trans this) (ne_this written)
  · exact may.apart written writtenOther same

/-- The names for the body of a subroutine are replaced, but for that of the object. -/
theorem declarations_rename (this : rename "this" = "this") (className : String) :
    (subroutine.rename rename).declarations className =
      (subroutine.declarations className).map (·.rename rename) := by
  -- The object is declared before the variables, and keeps its name.
  have object : (subroutine.rename rename).receiver className =
      (subroutine.receiver className).map (·.rename rename) := by
    cases kind : subroutine.kind <;>
      simp [receiver, SubroutineTree.rename, Declaration.rename, kind, this]
  rw [declarations, declarations, List.map_append, ownDeclarations_rename, object]

end Renaming

end SubroutineTree

namespace ClassTree

section Renaming

variable {tree : ClassTree} {subroutine : SubroutineTree} {index : Nat}
  {rename : String → String}

/-- In the body of a subroutine, names stand under their new names for what they stood for. -/
theorem renamed_context (member : subroutine ∈ tree.subroutines)
    (formed : ∀ kind ∈ tree.kinds, kind.Formed)
    (may : subroutine.MayRename tree.kinds rename) :
    (tree.context subroutine).Renamed (tree.context (subroutine.rename rename)) rename
      tree.kinds where
  className := rfl
  subroutine := rfl
  symbols {name} written := by
    have inside := kinds_subset_of_subroutine member
    have this := may.this formed inside
    -- The names of the subroutine are found under their new names.
    have inner : resolve ((subroutine.rename rename).declarations tree.name) (rename name) =
        (resolve (subroutine.declarations tree.name) name).map (·.rename rename) := by
      rw [SubroutineTree.declarations_rename this]
      exact resolve_rename fun declaration declared =>
        may.apart_known formed this
          (SubroutineTree.known_of_mem_declarations inside declared) (.inr written)
    simp only [context, inner]
    cases found : resolve (subroutine.declarations tree.name) name with
    | some symbol => rfl
    | none =>
      -- A name that the subroutine does not declare stays, and so does what it stands for.
      have stays := may.stays_of_resolve found
      rw [stays]
      cases outer : resolve tree.declarations name with
      | none => rfl
      | some symbol =>
        obtain rfl := name_of_resolveAfter outer
        exact congrArg some (symbol.rename_eq_self stays).symm
  free {name} undeclared := may.stays_of_resolve ((Option.orElse_eq_none _ _).mp undeclared).1

/-- The code of subroutines does not depend on which other ones the class has. -/
theorem blocks_rename (tree : ClassTree) (index : Nat) (rename : String → String)
    (subroutines : List SubroutineTree) (next : Nat) :
    (tree.rename index rename).blocks next subroutines = tree.blocks next subroutines := by
  -- A block is made from its subroutine and from the name of the class.
  induction subroutines generalizing next with
  | nil => rfl
  | cons first rest ih =>
    rw [blocks, blocks, ih]
    rfl

/-- The opening of a subroutine does not depend on the names of its variables. -/
theorem opening_rename (tree : ClassTree) (subroutine : SubroutineTree)
    (rename : String → String) :
    tree.opening (subroutine.rename rename) = tree.opening subroutine := by
  -- The opening gives the number of the local variables, and none of their names.
  rw [opening, header, SubroutineTree.ownDeclarations_rename, countOf_rename]
  rfl

/-- The subroutine with the given index stands between others, and only it is changed. -/
theorem exists_subroutines_rename (found : tree.subroutines[index]? = some subroutine)
    (rename : String → String) :
    ∃ before after, tree.subroutines = before ++ subroutine :: after ∧
      (tree.rename index rename).subroutines = before ++ subroutine.rename rename :: after := by
  -- A list in which one element is modified is the same on both sides of it.
  obtain ⟨inside, own⟩ := List.getElem?_eq_some_iff.mp found
  obtain ⟨before, other, after, split, rfl, modified⟩ :=
    List.exists_of_modify (·.rename rename) inside
  obtain rfl : other = subroutine := by simpa [split] using own
  exact ⟨before, after, split, modified⟩

/-- The code of a class stays. -/
theorem code_rename (found : tree.subroutines[index]? = some subroutine)
    (formed : ∀ kind ∈ tree.kinds, kind.Formed) (may : subroutine.MayRename tree.kinds rename) :
    (tree.rename index rename).code = tree.code := by
  -- The blocks on both sides of the subroutine stay, as it takes as many labels as before.
  obtain ⟨before, after, split, modified⟩ := exists_subroutines_rename found rename
  have member : subroutine ∈ tree.subroutines := by simp [split]
  have within : subroutine.body.kinds ⊆ tree.kinds :=
    List.Subset.trans subroutine.body_kinds_subset (kinds_subset_of_subroutine member)
  have body := subroutine.body.code_rename (renamed_context member formed may)
  rw [code, code, blocks_rename, modified, split, blocks_append, blocks_append, blocks, blocks,
    opening_rename, SubroutineTree.body_rename, Statements.labels_rename, body _ within]

end Renaming

end ClassTree

end JackCompiler
