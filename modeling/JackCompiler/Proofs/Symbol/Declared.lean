import Std.Data.TreeMap.Lemmas
import JackCompiler.Proofs.Lowering.Class

/-! A table of symbols stands for the declarations that are in force. -/

namespace JackCompiler

/-- One more declaration counts for its own kind. -/
theorem countOf_append (declared : List Declaration) (declaration : Declaration)
    (kind : SymbolKind) :
    countOf (declared ++ [declaration]) kind =
      countOf declared kind + if declaration.kind = kind then 1 else 0 := by
  -- Counting goes through the two parts of the list, the second of which is one declaration.
  simp only [countOf, List.countP_append, List.countP_singleton, beq_iff_eq]

/-- A name is resolved to the first declaration of that name. -/
theorem resolveAfter_append (before declared : List Declaration) (declaration : Declaration)
    (name : String) :
    resolveAfter before (declared ++ [declaration]) name =
      (resolveAfter before declared name <|>
        if declaration.name = name then some (declaration.symbol (before ++ declared))
        else none) := by
  -- The search stops at the first declaration of the name.
  -- Each one that is passed moves to the declarations before.
  induction declared generalizing before with
  | nil => simp [resolveAfter]
  | cons first rest ih =>
    simp only [List.cons_append, resolveAfter]
    split
    · rfl
    · rw [ih]
      simp

/-- A name that is declared last is resolved to its declaration if there is no earlier one. -/
theorem resolve_append (declared : List Declaration) (declaration : Declaration) (name : String) :
    resolve (declared ++ [declaration]) name =
      (resolve declared name <|>
        if declaration.name = name then some (declaration.symbol declared) else none) :=
  resolveAfter_append [] declared declaration name

/-- A name stands for nothing exactly when it is not declared. -/
theorem resolveAfter_eq_none_iff {before declared : List Declaration} {name : String} :
    resolveAfter before declared name = none ↔ name ∉ declared.map Declaration.name := by
  -- The search fails when it passes every declaration.
  induction declared generalizing before with
  | nil => simp [resolveAfter]
  | cons first rest ih =>
    simp only [resolveAfter, List.map_cons, List.mem_cons]
    split
    · rename_i same
      simp [same]
    · rename_i different
      rw [ih]
      simp [Ne.symm different]

/-- A name that stands for something is declared, and stands for the symbol of its declaration. -/
theorem exists_of_resolveAfter {before declared : List Declaration} {name : String}
    {symbol : Symbol} (found : resolveAfter before declared name = some symbol) :
    ∃ earlier declaration later, declared = earlier ++ declaration :: later ∧
      declaration.name = name ∧ symbol = declaration.symbol (before ++ earlier) := by
  -- The declarations that the search passes are those before the one that is found.
  induction declared generalizing before with
  | nil => cases found
  | cons first rest ih =>
    rw [resolveAfter] at found
    split at found
    · rename_i same
      cases found
      exact ⟨[], first, rest, rfl, same, by rw [List.append_nil]⟩
    · obtain ⟨earlier, declaration, later, rfl, same, rfl⟩ := ih found
      exact ⟨first :: earlier, declaration, later, rfl, same, by rw [← List.append_cons]⟩

/-- A name stands for nothing in a scope exactly when it is not declared there. -/
theorem resolve_eq_none_iff {declared : List Declaration} {name : String} :
    resolve declared name = none ↔ name ∉ declared.map Declaration.name :=
  resolveAfter_eq_none_iff

/-- A scope stays lawful exactly with a new name for which there is room. -/
theorem lawfulScope_append_iff {declared : List Declaration} {declaration : Declaration}
    (lawful : LawfulScope declared) :
    LawfulScope (declared ++ [declaration]) ↔
      declaration.name ∉ declared.map Declaration.name ∧
        countOf declared declaration.kind ≤ maxOperand := by
  -- Both rules concern the new declaration alone.
  -- Names must differ from its name, and its kind has one more member.
  constructor
  · intro larger
    have room := larger.bounded declaration.kind
    have distinct := larger.distinct
    rw [countOf_append, if_pos rfl] at room
    rw [List.map_append, List.nodup_append] at distinct
    refine ⟨fun member => distinct.2.2 _ member _ (by simp) rfl, Nat.le_of_lt_succ room⟩
  · rintro ⟨fresh, room⟩
    constructor
    · rw [List.map_append, List.nodup_append]
      refine ⟨lawful.distinct, by simp, ?_⟩
      rintro name member other single rfl
      simp only [List.map_cons, List.map_nil, List.mem_singleton] at single
      exact fresh (single ▸ member)
    · intro kind
      rw [countOf_append]
      split
      · rename_i same
        subst same
        exact Nat.succ_le_succ room
      · exact lawful.bounded kind

/-- The declarations in force at a point of a class. -/
structure Declared where
  ofClass : List Declaration := []
  ofSubroutine : List Declaration := []

namespace Declared

/-- The declarations of one scope. -/
def names (declared : Declared) : Scope → List Declaration
  | .wholeClass => declared.ofClass
  | .subroutine => declared.ofSubroutine

/-- One more declaration is in force, in the scope of its kind. -/
def add (declared : Declared) (declaration : Declaration) : Declared :=
  match declaration.kind.scope with
  | .wholeClass => { declared with ofClass := declared.ofClass ++ [declaration] }
  | .subroutine => { declared with ofSubroutine := declared.ofSubroutine ++ [declaration] }

/-- More declarations are in force. -/
def addAll (declared : Declared) (declarations : List Declaration) : Declared :=
  declarations.foldl add declared

/-- Both scopes are lawful. -/
def Lawful (declared : Declared) : Prop := ∀ scope, LawfulScope (declared.names scope)

/-- A declaration is added to the names of its own scope. -/
theorem names_add (declared : Declared) (declaration : Declaration) (scope : Scope) :
    (declared.add declaration).names scope =
      if declaration.kind.scope = scope then declared.names scope ++ [declaration]
      else declared.names scope := by
  -- A kind belongs to one scope, and only the names of that scope are changed.
  unfold add
  cases scope <;> cases declaration.kind <;> rfl

/-- The names of both scopes make up what is declared. -/
theorem eq_of_names {declared other : Declared}
    (same : ∀ scope, declared.names scope = other.names scope) : declared = other := by
  -- There are no other scopes than the two.
  obtain ⟨ofClass, ofSubroutine⟩ := declared
  obtain rfl : ofClass = other.ofClass := same .wholeClass
  obtain rfl : ofSubroutine = other.ofSubroutine := same .subroutine
  rfl

/-- Declarations of one scope are all added to the names of that scope. -/
theorem names_addAll (declared : Declared) {declarations : List Declaration} {scope : Scope}
    (owned : ∀ declaration ∈ declarations, declaration.kind.scope = scope) (other : Scope) :
    (declared.addAll declarations).names other =
      if scope = other then declared.names other ++ declarations else declared.names other := by
  -- The declarations are added from the left, and all of them go to the same scope.
  induction declarations generalizing declared with
  | nil => simp [addAll]
  | cons first rest ih =>
    have added := ih (declared.add first) fun declaration member =>
      owned declaration (List.mem_cons_of_mem first member)
    rw [addAll, List.foldl_cons, ← addAll, added, names_add, owned first (by simp)]
    split <;> simp

/-- Both scopes stay lawful exactly with a new name for which there is room. -/
theorem lawful_add_iff {declared : Declared} {declaration : Declaration}
    (lawful : declared.Lawful) :
    (declared.add declaration).Lawful ↔
      declaration.name ∉ (declared.names declaration.kind.scope).map Declaration.name ∧
        countOf (declared.names declaration.kind.scope) declaration.kind ≤ maxOperand := by
  -- Only the scope of the new declaration changes, so only its rules are at stake.
  constructor
  · intro larger
    have own := larger declaration.kind.scope
    rw [names_add, if_pos rfl] at own
    exact (lawfulScope_append_iff (lawful _)).mp own
  · intro fits scope
    rw [names_add]
    split
    · rename_i same
      subst same
      exact (lawfulScope_append_iff (lawful _)).mpr fits
    · exact lawful scope

end Declared

namespace SymbolTable

/-- The table holds the declarations in force, and no others. -/
structure Holds (table : SymbolTable) (declared : Declared) : Prop where
  found : ∀ (scope : Scope) (name : String),
    (table.names scope)[name]? = resolve (declared.names scope) name
  counted : ∀ kind : SymbolKind, table.count kind = countOf (declared.names kind.scope) kind

variable {table : SymbolTable} {declared : Declared}

/-- An empty table holds no declarations. -/
theorem holds_empty : ({} : SymbolTable).Holds {} := by
  -- All maps and all counts of an empty table are empty, and so is what is declared.
  constructor
  · intro scope name
    cases scope <;> rfl
  · intro kind
    cases kind <;> rfl

/-- A name is looked up in the subroutine first, and then in the class. -/
theorem Holds.get? (holds : table.Holds declared) (name : String) :
    table.get? name = (resolve declared.ofSubroutine name <|> resolve declared.ofClass name) := by
  -- The two maps of the table stand for the two scopes.
  have inner := holds.found .subroutine name
  have outer := holds.found .wholeClass name
  simp only [names, Declared.names] at inner outer
  rw [SymbolTable.get?, inner, outer]

/-- A new subroutine keeps the declarations of the class. -/
theorem Holds.startSubroutine (holds : table.Holds declared) :
    table.startSubroutine.Holds { ofClass := declared.ofClass } := by
  -- The names and counts of the class stay, and those of the subroutine are cleared.
  constructor
  · intro scope name
    cases scope with
    | wholeClass => exact holds.found .wholeClass name
    | subroutine => rfl
  · intro kind
    cases kind with
    | static => exact holds.counted .static
    | field => exact holds.counted .field
    | argument => rfl
    | localVar => rfl

/-- A symbol is found under its own name, in the scope of its kind. -/
theorem getElem?_names_insert (table : SymbolTable) (symbol : Symbol) (scope : Scope)
    (name : String) :
    ((table.insert symbol).names scope)[name]? =
      if symbol.kind.scope = scope ∧ symbol.name = name then some symbol
      else (table.names scope)[name]? := by
  -- The kind decides which of the two maps takes the symbol up.
  obtain ⟨own, type, kind, index⟩ := symbol
  cases kind <;> cases scope <;>
    simp [insert, names, SymbolKind.scope, Std.TreeMap.getElem?_insert]

/-- A symbol counts for its own kind. -/
theorem count_insert (table : SymbolTable) (symbol : Symbol) (kind : SymbolKind) :
    (table.insert symbol).count kind = table.count kind + if symbol.kind = kind then 1 else 0 := by
  -- Each kind has a counter of its own.
  obtain ⟨own, type, ownKind, index⟩ := symbol
  cases ownKind <;> cases kind <;> rfl

/-- A table that takes up the symbol of a new name holds its declaration as well. -/
theorem Holds.insert (holds : table.Holds declared) {declaration : Declaration}
    (fresh : declaration.name ∉ (declared.names declaration.kind.scope).map Declaration.name) :
    (table.insert (declaration.symbol (declared.names declaration.kind.scope))).Holds
      (declared.add declaration) := by
  -- Lookup changes for the new name only, and counting for its kind only.
  -- The new name was not declared before, so that it hides no other.
  constructor
  · intro scope name
    rw [getElem?_names_insert, Declared.names_add, holds.found]
    by_cases own : declaration.kind.scope = scope
    · subst own
      rw [if_pos rfl, resolve_append]
      by_cases same : declaration.name = name
      · subst same
        simp [Declaration.symbol, resolve_eq_none_iff.mpr fresh]
      · simp [Declaration.symbol, same]
    · simp [Declaration.symbol, own]
  · intro kind
    rw [count_insert, Declared.names_add, holds.counted]
    by_cases same : declaration.kind = kind
    · subst same
      rw [if_pos rfl, countOf_append]
      rfl
    · -- A declaration of another kind counts for nothing, in whichever scope it is.
      have other : (declaration.symbol (declared.names declaration.kind.scope)).kind ≠ kind := same
      rw [if_neg other]
      split
      · rw [countOf_append, if_neg same]
      · rfl

/-- A declaration is accepted exactly when its name is new in its scope and there is room. -/
theorem Holds.define_eq_ok_iff (holds : table.Holds declared) {declaration : Declaration}
    {symbol : Symbol} {larger : SymbolTable} :
    table.define declaration.name declaration.type declaration.kind = (.ok symbol, larger) ↔
      (declaration.name ∉ (declared.names declaration.kind.scope).map Declaration.name ∧
        countOf (declared.names declaration.kind.scope) declaration.kind ≤ maxOperand) ∧
      symbol = declaration.symbol (declared.names declaration.kind.scope) ∧
      larger = table.insert (declaration.symbol (declared.names declaration.kind.scope)) := by
  -- The table refuses a name that it finds and a kind that is full.
  -- Otherwise the index is the number of declarations of the kind.
  unfold define
  rw [holds.found, holds.counted, ← resolve_eq_none_iff]
  cases resolve (declared.names declaration.kind.scope) declaration.name with
  | some existing => simp
  | none =>
    by_cases full : countOf (declared.names declaration.kind.scope) declaration.kind > maxOperand
    · simp [full, Nat.not_le.mpr full]
    · simp [full, Nat.le_of_not_lt full, Declaration.symbol, eq_comm]

/-- A declaration that is refused leaves the table as it was. -/
theorem define_of_error {table : SymbolTable} {name type : String} {kind : SymbolKind}
    {fault : SymbolFault} (refused : (table.define name type kind).1 = .error fault) :
    (table.define name type kind).2 = table := by
  unfold define at refused ⊢
  -- Of the three ways through a declaration, the one that changes the table ends with a symbol.
  split
  · rfl
  · rename_i new
    rw [new] at refused
    dsimp only at refused ⊢
    split
    · rfl
    · rename_i room
      rw [if_neg room] at refused
      cases refused

end SymbolTable

end JackCompiler
