import JackCompiler.Proofs.Compilation.Correctness
import JackCompiler.Proofs.Lowering.Emission
import JackCompiler.Proofs.Token.Formed
import JackCompiler.Proofs.Vm.Decoding
import Mathlib.Data.Option.Basic

/-! The names in the code of a class are names of members, and the text of its program is read back
as its code. -/

namespace JackCompiler

/-- The name of an owner and the name of its member, with a dot in between. -/
def IsMember (name : String) : Prop :=
  ∃ owner member, name = s!"{owner}.{member}" ∧ IsName owner ∧ IsName member

/-- The subroutines of the library are members of its classes. -/
theorem isMember_library {name : String} (known : name ∈ "Memory.alloc" :: libraryCalls) :
    IsMember name := by
  -- The parts of the five names are written out, so that no dot has to be searched for.
  have names : ∀ name ∈ ["Memory", "alloc", "Math", "multiply", "divide", "String", "new",
      "appendChar"], IsName name := by
    simp only [List.forall_mem_cons]
    refine ⟨?_, ?_, ?_, ?_, ?_, ?_, ?_, ?_, nofun⟩ <;>
      exact isName_of_spelled rfl (by decide) (by decide)
  simp only [libraryCalls, List.mem_cons, List.not_mem_nil, or_false] at known
  rcases known with rfl | rfl | rfl | rfl | rfl
  · exact ⟨"Memory", "alloc", rfl, names _ (by simp), names _ (by simp)⟩
  · exact ⟨"Math", "multiply", rfl, names _ (by simp), names _ (by simp)⟩
  · exact ⟨"Math", "divide", rfl, names _ (by simp), names _ (by simp)⟩
  · exact ⟨"String", "new", rfl, names _ (by simp), names _ (by simp)⟩
  · exact ⟨"String", "appendChar", rfl, names _ (by simp), names _ (by simp)⟩

/-- Labels are numbered behind a word that is not reserved. -/
theorem isName_label (number : Nat) : IsName s!"label{number}" := by
  have spelled : (s!"label{number}").toList = 'l' :: "abel".toList ++ number.repr.toList := by
    simp [toString]
  constructor
  · -- The number goes on with digits, which may stand anywhere but at the start of a name.
    refine ⟨'l', "abel".toList ++ number.repr.toList, spelled, by decide, ?_⟩
    intro c member
    rcases List.mem_append.mp member with letter | digit
    · have letters : "abel".toList.all continuesWord = true := by decide
      exact List.all_eq_true.mp letters c letter
    · simp [continuesWord, isDigit_of_mem_repr digit]
  · -- No reserved word starts like a label.
    intro word same
    have start : word.text.toList.take 5 = "label".toList := by
      rw [same, spelled]
      rfl
    cases word <;> exact absurd start (by decide)

/-- All names in the code are names of members. -/
def NamesMembers (code : List Command) : Prop :=
  ∀ command ∈ code, ∀ name ∈ command.name?, IsMember name

/-- There is no name in no code. -/
@[simp] theorem namesMembers_nil : NamesMembers [] := nofun

/-- Code names members if its first command and the rest do. -/
@[simp] theorem namesMembers_cons {command : Command} {code : List Command} :
    NamesMembers (command :: code) ↔
      (∀ name ∈ command.name?, IsMember name) ∧ NamesMembers code :=
  List.forall_mem_cons

/-- Code names members if both of its parts do. -/
@[simp] theorem namesMembers_append {code more : List Command} :
    NamesMembers (code ++ more) ↔ NamesMembers code ∧ NamesMembers more :=
  List.forall_mem_append

/-- What the names in the code are made of: the class has a name, all identifiers among the tokens
are names, and so are all types but the primitive ones. -/
structure Context.Named (context : Context) (kinds : List TokenKind) : Prop where
  className : IsName context.className
  identifiers : ∀ {name : String}, .identifier name ∈ kinds → IsName name
  types : ∀ {name : String} {symbol : Symbol}, context.symbol? name = some symbol →
    symbol.type ∉ ["int", "char", "boolean"] → IsName symbol.type

namespace Context.Named

variable {context : Context} {kinds : List TokenKind}

/-- A member of the class has the name of the class and one of its own. -/
theorem member (named : context.Named kinds) {name : String} (own : IsName name) :
    IsMember (context.member name) :=
  ⟨context.className, name, rfl, named.className, own⟩

/-- A label belongs to the class. -/
theorem label (named : context.Named kinds) (number : Nat) : IsMember (context.label number) :=
  named.member (isName_label number)

end Context.Named

section

variable {context : Context} {kinds : List TokenKind}

/-- A variable is loaded without its name. -/
@[simp] theorem namesMembers_load (name : String) : NamesMembers (context.load name) := by
  -- The command has the segment and the index of the symbol, if there is one.
  unfold Context.load
  cases context.symbol? name with
  | none => exact nofun
  | some symbol => simp [Symbol.push, Command.name?]

/-- A variable is stored without its name. -/
@[simp] theorem namesMembers_store (name : String) : NamesMembers (context.store name) := by
  -- As for loading, a segment and an index are all that the command has.
  unfold Context.store
  cases context.symbol? name with
  | none => exact nofun
  | some symbol => simp [Symbol.pop, Command.name?]

/-- Strings are built by the library. -/
@[simp] theorem namesMembers_literalCode (body : String) : NamesMembers (literalCode body) := by
  -- A string is created once, and each of its characters is appended by a call.
  have appended : ∀ chars, NamesMembers (appendCode chars) := by
    intro chars
    induction chars with
    | nil => exact nofun
    | cons c rest ih =>
      have append : IsMember "String.appendChar" := isMember_library (by decide)
      simp [appendCode, Command.name?, append, ih]
  have create : IsMember "String.new" := isMember_library (by decide)
  simp [literalCode, Command.name?, create, appended]

/-- Constants have no name. -/
@[simp] theorem WordConstant.namesMembers (constant : WordConstant) :
    NamesMembers constant.code := by
  -- The constants are pushed, and some of them are changed by an operation.
  cases constant <;> simp [code, Command.name?]

/-- Operators are operations or calls to the library. -/
theorem BinaryOperator.isMember (operator : BinaryOperator) :
    ∀ name ∈ operator.code.name?, IsMember name := by
  -- Multiplication and division are the two operators that are calls.
  cases operator with
  | multiply | divide => simpa [code, Command.name?] using isMember_library (by decide)
  | _ => exact nofun

mutual

/-- The code of a lawful term names members. -/
theorem Term.namesMembers (named : context.Named kinds) (term : Term) (within : term.kinds ⊆ kinds)
    (lawful : term.Lawful context) : NamesMembers (term.code context) := by
  -- Calls are the only terms with a name in their code; the other terms have parts with calls.
  cases term with
  | integer value => simp [Term.code, Command.name?]
  | string body => exact namesMembers_literalCode body
  | word constant => exact constant.namesMembers
  | group inner =>
    simp only [Term.kinds, List.cons_subset, List.append_subset] at within
    exact Expression.namesMembers named inner within.1.2 lawful
  | unary operator operand =>
    simp only [Term.kinds, List.cons_subset] at within
    have inner := Term.namesMembers named operand within.2 lawful
    cases operator <;> simp [Term.code, UnaryOperator.code, Command.name?, inner]
  | name name => exact namesMembers_load name
  | element array index =>
    simp only [Term.kinds, List.cons_subset, List.append_subset] at within
    have inner := Expression.namesMembers named index within.1.2.2 lawful.2
    simp [Term.code, Command.name?, inner]
  | call call => exact Call.namesMembers named call within lawful
termination_by structural term

/-- The code of a lawful expression names members. -/
theorem Expression.namesMembers (named : context.Named kinds) (value : Expression)
    (within : value.kinds ⊆ kinds)
    (lawful : value.Lawful context) : NamesMembers (value.code context) := by
  -- The code of the first operand is followed by that of the others.
  cases value with
  | mk first rest =>
    obtain ⟨early, late⟩ := List.append_subset.mp within
    exact namesMembers_append.mpr ⟨Term.namesMembers named first early lawful.1,
      Operations.namesMembers named rest late lawful.2⟩
termination_by structural value

/-- The code of lawful operands names members. -/
theorem Operations.namesMembers (named : context.Named kinds) (operations : Operations)
    (within : operations.kinds ⊆ kinds)
    (lawful : operations.Lawful context) : NamesMembers (operations.code context) := by
  -- The command of an operator stands behind the code of its operand.
  cases operations with
  | nil => exact nofun
  | cons operator operand rest =>
    simp only [Operations.kinds, List.cons_subset, List.append_subset] at within
    have first := Term.namesMembers named operand within.1.2 lawful.1
    have others := Operations.namesMembers named rest within.2 lawful.2
    exact namesMembers_append.mpr ⟨first, namesMembers_cons.mpr ⟨operator.isMember, others⟩⟩
termination_by structural operations

/-- The code of a lawful call names members, among them the one that is called. -/
theorem Call.namesMembers (named : context.Named kinds) (call : Call) (within : call.kinds ⊆ kinds)
    (lawful : call.Lawful context) : NamesMembers (call.code context) := by
  -- The called name has the class, a type or a written word as its owner.
  cases call with
  | own name arguments =>
    simp only [Call.kinds, List.cons_subset, List.append_subset] at within
    obtain ⟨⟨own, -, inside⟩, -⟩ := within
    have passed := Arguments.namesMembers named arguments inside lawful
    have called := named.member (named.identifiers own)
    unfold Call.code
    split <;> simp [Command.name?, passed, called]
  | member owner name arguments =>
    simp only [Call.kinds, List.cons_subset, List.append_subset] at within
    obtain ⟨⟨owned, -, own, -, inside⟩, -⟩ := within
    have passed := Arguments.namesMembers named arguments inside lawful.2
    unfold Call.code
    split
    · -- A variable may be called only if its type is the name of a class.
      rename_i symbol found
      have called : IsMember s!"{symbol.type}.{name}" :=
        ⟨_, _, rfl, named.types found (lawful.1 symbol found), named.identifiers own⟩
      simpa [Symbol.push, Command.name?, passed] using called
    · have called : IsMember s!"{owner}.{name}" :=
        ⟨_, _, rfl, named.identifiers owned, named.identifiers own⟩
      simpa [Command.name?, passed] using called
termination_by structural call

/-- The code of lawful arguments names members. -/
theorem Arguments.namesMembers (named : context.Named kinds) (arguments : Arguments)
    (within : arguments.kinds ⊆ kinds)
    (lawful : arguments.Lawful context) : NamesMembers (arguments.code context) := by
  -- The arguments stand one behind the other in the code, as they do in the text.
  cases arguments with
  | nil => exact nofun
  | cons first rest =>
    obtain ⟨early, late⟩ := List.append_subset.mp within
    exact namesMembers_append.mpr ⟨Expression.namesMembers named first early lawful.1,
      Arguments.namesMembers_more named rest late lawful.2⟩
termination_by structural arguments

/-- The code of further lawful arguments names members. -/
theorem Arguments.namesMembers_more (named : context.Named kinds) (arguments : Arguments)
    (within : arguments.moreKinds ⊆ kinds)
    (lawful : arguments.Lawful context) : NamesMembers (arguments.code context) := by
  -- The comma before an argument leaves nothing in the code.
  cases arguments with
  | nil => exact nofun
  | cons first rest =>
    simp only [Arguments.moreKinds, List.cons_subset, List.append_subset] at within
    exact namesMembers_append.mpr ⟨Expression.namesMembers named first within.1.2 lawful.1,
      Arguments.namesMembers_more named rest within.2 lawful.2⟩
termination_by structural arguments

end

mutual

/-- The code of a lawful statement names members, among them its labels. -/
theorem Statement.namesMembers (named : context.Named kinds) (statement : Statement) (next : Nat)
    (within : statement.kinds ⊆ kinds) (lawful : statement.Lawful context) :
    NamesMembers (statement.code context next) := by
  -- Beside those of its parts, a statement only has the names of its labels.
  have labels := named.label
  cases statement with
  | assign target value =>
    simp only [Statement.kinds, List.cons_subset, List.append_subset] at within
    simp [Statement.code, Expression.namesMembers named value within.1.2.2.2 lawful.2]
  | assignElement array index value =>
    simp only [Statement.kinds, List.cons_subset, List.append_subset] at within
    obtain ⟨⟨⟨-, -, -, early⟩, -, -, late⟩, -⟩ := within
    have address := Expression.namesMembers named index early lawful.2.1
    have stored := Expression.namesMembers named value late lawful.2.2
    simp [Statement.code, Command.name?, address, stored]
  | ifThen condition body =>
    simp only [Statement.kinds, List.cons_subset, List.append_subset] at within
    obtain ⟨⟨⟨-, -, test⟩, -, -, inside⟩, -⟩ := within
    have jump := Expression.namesMembers named condition test lawful.1
    have inner := Statements.namesMembers named body (next + 1) inside lawful.2
    simp [Statement.code, Command.name?, labels, jump, inner]
  | ifThenElse condition body otherwise =>
    simp only [Statement.kinds, List.cons_subset, List.append_subset] at within
    obtain ⟨⟨⟨⟨-, -, test⟩, -, -, inside⟩, -, -, -, other⟩, -⟩ := within
    have jump := Expression.namesMembers named condition test lawful.1
    have inner := Statements.namesMembers named body (next + 1) inside lawful.2.1
    have outer := Statements.namesMembers named otherwise (next + 1 + body.labels + 1) other
      lawful.2.2
    simp [Statement.code, Command.name?, labels, jump, inner, outer]
  | whileDo condition body =>
    simp only [Statement.kinds, List.cons_subset, List.append_subset] at within
    obtain ⟨⟨⟨-, -, test⟩, -, -, inside⟩, -⟩ := within
    have jump := Expression.namesMembers named condition test lawful.1
    have inner := Statements.namesMembers named body (next + 2) inside lawful.2
    simp [Statement.code, Command.name?, labels, jump, inner]
  | call call =>
    simp only [Statement.kinds, List.cons_subset, List.append_subset] at within
    simp [Statement.code, Command.name?, Call.namesMembers named call within.1.2 lawful]
  | returnNothing =>
    unfold Statement.code
    split <;> simp [Command.name?]
  | returnValue value =>
    simp only [Statement.kinds, List.cons_subset, List.append_subset] at within
    simp [Statement.code, Command.name?, Expression.namesMembers named value within.1.2 lawful]
termination_by structural statement

/-- The code of lawful statements names members. -/
theorem Statements.namesMembers (named : context.Named kinds) (statements : Statements) (next : Nat)
    (within : statements.kinds ⊆ kinds) (lawful : statements.Lawful context) :
    NamesMembers (statements.code context next) := by
  -- Where the labels of a statement start does not matter for what they are.
  cases statements with
  | nil => exact nofun
  | cons first rest =>
    obtain ⟨early, late⟩ := List.append_subset.mp within
    exact namesMembers_append.mpr ⟨Statement.namesMembers named first next early lawful.1,
      Statements.namesMembers named rest _ late lawful.2⟩
termination_by structural statements

end

end

/-- A name has the type that one of the declarations gives it. -/
theorem exists_type_of_resolveAfter {before declared : List Declaration} {name : String}
    {symbol : Symbol} (found : resolveAfter before declared name = some symbol) :
    ∃ declaration ∈ declared, declaration.type = symbol.type := by
  -- The symbol that is found is made from one of the declarations.
  obtain ⟨earlier, declaration, later, rfl, -, rfl⟩ := exists_of_resolveAfter found
  exact ⟨declaration, by simp, rfl⟩

/-- A type that is not primitive is written as a name. -/
theorem TypeName.isName_text {type : TypeName} (formed : type.kind.Formed)
    (other : type.text ∉ ["int", "char", "boolean"]) : IsName type.text := by
  -- Of the two kinds of types, only the primitive ones are written as keywords.
  cases type with
  | primitive type => exact absurd (by cases type <;> decide) other
  | named name => exact formed

namespace ClassTree

variable {tree : ClassTree} (formed : ∀ kind ∈ tree.kinds, kind.Formed)
include formed

/-- A class has a name. -/
theorem isName_name : IsName tree.name := formed (.identifier tree.name) (by simp [kinds])

/-- The types of the variables of a class are primitive or names. -/
theorem isName_type {declaration : Declaration} (declared : declaration ∈ tree.declarations)
    (other : declaration.type ∉ ["int", "char", "boolean"]) : IsName declaration.type := by
  obtain ⟨classVariables, member, inside⟩ := List.mem_flatMap.mp declared
  obtain ⟨name, -, rfl⟩ := List.mem_map.mp inside
  -- The type is written in front of the names.
  have written : classVariables.list.type.kind ∈ classVariables.kinds := by
    simp [ClassVariables.kinds, VariableList.kinds]
  exact TypeName.isName_text (formed _ (kinds_subset_of_classVariables member written)) other

/-- The types of what a subroutine declares are primitive or names. -/
theorem isName_type_of_subroutine {subroutine : SubroutineTree}
    (member : subroutine ∈ tree.subroutines) {declaration : Declaration}
    (declared : declaration ∈ subroutine.declarations tree.name)
    (other : declaration.type ∉ ["int", "char", "boolean"]) : IsName declaration.type := by
  have inside := kinds_subset_of_subroutine member
  rcases List.mem_append.mp declared with object | own
  · -- The object of a method is one of the class.
    unfold SubroutineTree.receiver at object
    split at object
    · obtain rfl := List.mem_singleton.mp object
      exact isName_name formed
    all_goals cases object
  · -- A variable has its type written before it, in the head or in a list.
    rcases List.mem_append.mp own with passed | locals
    · obtain ⟨parameter, taken, rfl⟩ := List.mem_map.mp passed
      have written : parameter.type.kind ∈ parameter.kinds := by simp [Parameter.kinds]
      have inner := SubroutineTree.kinds_subset_of_parameter taken written
      exact TypeName.isName_text (formed _ (inside inner)) other
    · obtain ⟨list, inLocals, named⟩ := List.mem_flatMap.mp locals
      obtain ⟨name, -, rfl⟩ := List.mem_map.mp named
      have written : list.type.kind ∈ list.kinds := by simp [VariableList.kinds]
      have inner := SubroutineTree.kinds_subset_of_local inLocals written
      exact TypeName.isName_text (formed _ (inside inner)) other

/-- The names in the code of a subroutine are made of names. -/
theorem named_context {subroutine : SubroutineTree} (member : subroutine ∈ tree.subroutines) :
    (tree.context subroutine).Named subroutine.kinds where
  className := isName_name formed
  identifiers written := formed _ (kinds_subset_of_subroutine member written)
  types found other := by
    -- A variable belongs to the subroutine, or else to the class.
    rcases (Option.orElse_eq_some _ _ _).mp found with inner | ⟨-, outer⟩
    · obtain ⟨declaration, declared, same⟩ := exists_type_of_resolveAfter inner
      rw [← same] at other ⊢
      exact isName_type_of_subroutine formed member declared other
    · obtain ⟨declaration, declared, same⟩ := exists_type_of_resolveAfter outer
      rw [← same] at other ⊢
      exact isName_type formed declared other

/-- The code of a lawful class names members. -/
theorem namesMembers (lawful : tree.Lawful) : NamesMembers tree.code := by
  -- Each subroutine adds its opening and its body, wherever its labels start.
  have blocks : ∀ subroutines ⊆ tree.subroutines, ∀ next,
      NamesMembers (tree.blocks next subroutines).flatten := by
    intro subroutines members
    induction subroutines with
    | nil => exact fun _ => nofun
    | cons subroutine rest ih =>
      intro next
      obtain ⟨member, others⟩ := List.cons_subset.mp members
      have named := named_context formed member
      have own : IsName subroutine.name :=
        named.identifiers (by simp [SubroutineTree.kinds])
      have header : IsMember s!"{tree.name}.{subroutine.name}" :=
        ⟨_, _, rfl, isName_name formed, own⟩
      have alloc : IsMember "Memory.alloc" := isMember_library (by decide)
      -- A constructor allocates its object, which is the only call in an opening.
      have opening : NamesMembers (tree.opening subroutine) := by
        unfold ClassTree.opening ClassTree.header prologue
        split <;> simpa [Command.name?, alloc] using header
      have body := subroutine.body.namesMembers named next subroutine.body_kinds_subset
        (lawful.bodies _ member)
      simp [ClassTree.blocks, opening, body, ih others]
  exact blocks tree.subroutines (List.Subset.refl _) 0

end ClassTree

end JackCompiler
