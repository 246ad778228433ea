import Mathlib.Data.List.DropRight
import Mathlib.Data.List.Nodup
import JackCompiler.Proofs.Symbol.Declared

/-! What a table of symbols holds after any number of calls: the symbols that the calls created. -/

namespace JackCompiler

/-- A call on a table of symbols. -/
inductive TableCall where
  | startSubroutine
  | define (name type : String) (kind : SymbolKind)
  | get (name : String)
  | lookup (name : String)
  | contains (name : String)
deriving DecidableEq

/-- Whether a call leaves the scope of the subroutine open. -/
def TableCall.keepsScope : TableCall → Bool
  | .startSubroutine => false
  | .define .. | .get _ | .lookup _ | .contains _ => true

namespace SymbolTable

/-- The table after a call; one that only asks for a name changes nothing. -/
def after (table : SymbolTable) : TableCall → SymbolTable
  | .startSubroutine => table.startSubroutine
  | .define name type kind => (table.define name type kind).2
  | .get _ | .lookup _ | .contains _ => table

/-- The table after some calls, one after the other. -/
def afterAll (table : SymbolTable) (calls : List TableCall) : SymbolTable :=
  calls.foldl after table

/-- The symbol that a call creates, which only an accepted declaration does. -/
def created? (table : SymbolTable) : TableCall → Option Symbol
  | .define name type kind => (table.define name type kind).1.toOption
  | .startSubroutine | .get _ | .lookup _ | .contains _ => none

/-- The symbols that calls create, in the order in which their declarations are accepted. -/
def createdAll (table : SymbolTable) : List TableCall → List Symbol
  | [] => []
  | call :: rest => (table.created? call).toList ++ (table.after call).createdAll rest

end SymbolTable

/-- The symbols that calls on an empty table have put in force in a scope, in order. -/
def inForce (calls : List TableCall) : Scope → List Symbol
  | .wholeClass =>
    (SymbolTable.createdAll {} calls).filter fun symbol => symbol.kind.scope = .wholeClass
  | .subroutine =>
    -- A new subroutine ends the scope of the one before it.
    let opened := SymbolTable.afterAll {} (calls.rdropWhile TableCall.keepsScope)
    let since := calls.rtakeWhile TableCall.keepsScope
    (opened.createdAll since).filter fun symbol => symbol.kind.scope = .subroutine

namespace SymbolTable

/-- Calls one after another are made one after another. -/
theorem afterAll_append (table : SymbolTable) (calls more : List TableCall) :
    table.afterAll (calls ++ more) = (table.afterAll calls).afterAll more := List.foldl_append

/-- The last of some calls is made on the table that the others leave. -/
theorem afterAll_concat (table : SymbolTable) (calls : List TableCall) (call : TableCall) :
    table.afterAll (calls ++ [call]) = (table.afterAll calls).after call :=
  afterAll_append table calls [call]

/-- Later calls create their symbols on the table that the earlier ones leave. -/
theorem createdAll_append (table : SymbolTable) (calls more : List TableCall) :
    table.createdAll (calls ++ more) =
      table.createdAll calls ++ (table.afterAll calls).createdAll more := by
  induction calls generalizing table with
  | nil => rfl
  | cons call calls ih =>
    rw [List.cons_append, createdAll, ih, createdAll, List.append_assoc]
    rfl

end SymbolTable

section InForce

variable (calls : List TableCall) {call : TableCall}

/-- A new subroutine ends the scope of the last one, and leaves the scope of the class. -/
theorem inForce_startSubroutine (scope : Scope) :
    inForce (calls ++ [.startSubroutine]) scope =
      if scope = .subroutine then [] else inForce calls scope := by
  cases scope with
  | wholeClass => simp [inForce, SymbolTable.createdAll_append, SymbolTable.createdAll,
      SymbolTable.created?]
  | subroutine => simp [inForce, TableCall.keepsScope, SymbolTable.createdAll]

/-- Any other call puts the symbol that it creates in force, in the scope of its kind. -/
theorem inForce_append (keeps : call.keepsScope = true) (scope : Scope) :
    inForce (calls ++ [call]) scope =
      inForce calls scope ++ ((SymbolTable.afterAll {} calls).created? call).toList.filter
        fun symbol => symbol.kind.scope = scope := by
  cases scope with
  | wholeClass => simp [inForce, SymbolTable.createdAll_append, SymbolTable.createdAll]
  | subroutine =>
    -- The call is one more since the scope was opened, on the table that all calls before it left.
    have whole : SymbolTable.afterAll {} calls =
        (SymbolTable.afterAll {} (calls.rdropWhile TableCall.keepsScope)).afterAll
          (calls.rtakeWhile TableCall.keepsScope) := by
      rw [← SymbolTable.afterAll_append, List.rdropWhile_append_rtakeWhile]
    rw [whole]
    simp [inForce, keeps, SymbolTable.createdAll_append, SymbolTable.createdAll]

end InForce

/-- The symbols of declarations, when some declarations stand before the given ones. -/
def symbolsAfter (before : List Declaration) : List Declaration → List Symbol
  | [] => []
  | declaration :: rest =>
    declaration.symbol before :: symbolsAfter (before ++ [declaration]) rest

/-- The symbols of the declarations of a scope. -/
def symbolsOf (declared : List Declaration) : List Symbol := symbolsAfter [] declared

section Symbols

variable (before declared : List Declaration)

/-- One more declaration adds its symbol behind the others. -/
theorem symbolsAfter_append (declaration : Declaration) :
    symbolsAfter before (declared ++ [declaration]) =
      symbolsAfter before declared ++ [declaration.symbol (before ++ declared)] := by
  -- Each declaration that is passed moves to the declarations before.
  induction declared generalizing before with
  | nil => simp [symbolsAfter]
  | cons first rest ih => simp [symbolsAfter, ih]

/-- A name stands for the first symbol of that name. -/
theorem find?_symbolsAfter (name : String) :
    (symbolsAfter before declared).find? (fun symbol => symbol.name = name) =
      resolveAfter before declared name := by
  induction declared generalizing before with
  | nil => rfl
  | cons first rest ih =>
    rw [symbolsAfter, List.find?_cons, resolveAfter, ih]
    by_cases same : first.name = name
    · simp [Declaration.symbol, same]
    · simp [Declaration.symbol, same]

/-- Symbols have the names of their declarations. -/
theorem map_name_symbolsAfter :
    (symbolsAfter before declared).map Symbol.name = declared.map Declaration.name := by
  induction declared generalizing before with
  | nil => rfl
  | cons first rest ih =>
    rw [symbolsAfter, List.map_cons, ih, List.map_cons]
    rfl

/-- Symbols are of kinds that their declarations have. -/
theorem kind_of_mem_symbolsAfter {before declared : List Declaration} {scope : Scope}
    (owned : ∀ declaration ∈ declared, declaration.kind.scope = scope) {symbol : Symbol}
    (member : symbol ∈ symbolsAfter before declared) : symbol.kind.scope = scope := by
  induction declared generalizing before with
  | nil => cases member
  | cons first rest ih =>
    obtain ⟨own, others⟩ := List.forall_mem_cons.mp owned
    rcases List.mem_cons.mp member with rfl | later
    · exact own
    · exact ih others later

/-- The symbols of a kind are numbered from zero in the order of their declarations. -/
theorem indices_symbolsOf (kind : SymbolKind) :
    ((symbolsOf declared).filter fun symbol => symbol.kind = kind).map Symbol.index =
      List.range (countOf declared kind) := by
  -- The last symbol of the kind has the number of those before it as its index.
  induction declared using List.reverseRecOn with
  | nil => rfl
  | append_singleton declared declaration ih =>
    rw [symbolsOf, symbolsAfter_append, ← symbolsOf, List.filter_append, List.map_append, ih,
      countOf_append]
    by_cases same : declaration.kind = kind
    · subst same
      simp [Declaration.symbol, List.range_succ]
    · simp [Declaration.symbol, same]

/-- The symbols of a scope are those that its names stand for, if no name is declared twice. -/
theorem mem_symbolsOf_iff (distinct : (declared.map Declaration.name).Nodup) (symbol : Symbol) :
    symbol ∈ symbolsOf declared ↔ resolve declared symbol.name = some symbol := by
  rw [resolve, ← find?_symbolsAfter, ← symbolsOf]
  constructor
  · intro member
    -- The symbol found under the name has the same name, so it is no other symbol.
    have finds : ((symbolsOf declared).find? fun other => other.name = symbol.name).isSome :=
      List.find?_isSome.mpr ⟨symbol, member, decide_eq_true rfl⟩
    obtain ⟨found, search⟩ := Option.isSome_iff_exists.mp finds
    have names : ((symbolsOf declared).map Symbol.name).Nodup := by
      rw [symbolsOf, map_name_symbolsAfter]
      exact distinct
    have same : found.name = symbol.name := by simpa using List.find?_some search
    rw [search, List.inj_on_of_nodup_map names (List.mem_of_find?_eq_some search) member same]
  · exact List.mem_of_find?_eq_some

end Symbols

/-- The declarations that calls on an empty table have put in force. -/
structure Records (calls : List TableCall) (declared : Declared) : Prop where
  holds : (SymbolTable.afterAll {} calls).Holds declared
  lawful : declared.Lawful
  owned : ∀ scope, ∀ declaration ∈ declared.names scope, declaration.kind.scope = scope
  symbols : ∀ scope, inForce calls scope = symbolsOf (declared.names scope)

namespace Records

variable {calls : List TableCall} {declared : Declared}

/-- No calls put nothing in force. -/
theorem nil : Records [] {} where
  holds := SymbolTable.holds_empty
  lawful scope := by
    cases scope <;> exact ⟨List.nodup_nil, fun kind => Nat.zero_le _⟩
  owned scope declaration member := by
    cases scope <;> cases member
  symbols scope := by
    cases scope <;> rfl

/-- A new subroutine keeps the declarations of the class only. -/
theorem startSubroutine (records : Records calls declared) :
    Records (calls ++ [.startSubroutine]) { ofClass := declared.ofClass } where
  holds := by
    rw [SymbolTable.afterAll_concat]
    exact records.holds.startSubroutine
  lawful scope := by
    cases scope with
    | wholeClass => exact records.lawful .wholeClass
    | subroutine => exact ⟨List.nodup_nil, fun kind => Nat.zero_le _⟩
  owned scope := by
    cases scope with
    | wholeClass => exact records.owned .wholeClass
    | subroutine => nofun
  symbols scope := by
    rw [inForce_startSubroutine]
    cases scope with
    | wholeClass => exact records.symbols .wholeClass
    | subroutine => rfl

/-- A call that creates nothing and starts no subroutine changes nothing. -/
theorem unchanged (records : Records calls declared) {call : TableCall}
    (keeps : call.keepsScope = true)
    (same : (SymbolTable.afterAll {} calls).after call = SymbolTable.afterAll {} calls)
    (creates : (SymbolTable.afterAll {} calls).created? call = none) :
    Records (calls ++ [call]) declared where
  holds := by
    rw [SymbolTable.afterAll_concat, same]
    exact records.holds
  lawful := records.lawful
  owned := records.owned
  symbols scope := by
    rw [inForce_append calls keeps, creates, records.symbols]
    exact List.append_nil _

/-- An accepted declaration is in force from then on. -/
theorem define (records : Records calls declared) (declaration : Declaration) {symbol : Symbol}
    {larger : SymbolTable} (accepted : (SymbolTable.afterAll {} calls).define declaration.name
      declaration.type declaration.kind = (.ok symbol, larger)) :
    Records (calls ++ [.define declaration.name declaration.type declaration.kind])
      (declared.add declaration) := by
  obtain ⟨fits, rfl, rfl⟩ := records.holds.define_eq_ok_iff.mp accepted
  refine ⟨?_, (Declared.lawful_add_iff records.lawful).mpr fits, fun scope => ?_, fun scope => ?_⟩
  · rw [SymbolTable.afterAll_concat, SymbolTable.after, accepted]
    exact records.holds.insert fits.1
  · rw [Declared.names_add]
    split
    · rename_i own
      intro other member
      rcases List.mem_append.mp member with old | new
      · exact records.owned scope other old
      · rw [List.mem_singleton.mp new, own]
    · exact records.owned scope
  · -- The new symbol counts for its own scope only.
    rw [inForce_append calls rfl, records.symbols, Declared.names_add, SymbolTable.created?,
      accepted]
    by_cases own : declaration.kind.scope = scope
    · subst own
      rw [if_pos rfl, symbolsOf, symbolsOf, symbolsAfter_append]
      simp [Except.toOption, Declaration.symbol]
    · simp [Except.toOption, Declaration.symbol, own]

end Records

/-- Any calls put some declarations in force, which the table then holds. -/
theorem exists_records (calls : List TableCall) : ∃ declared, Records calls declared := by
  -- The induction is on the calls, the last of which is made on the table that the others leave.
  induction calls using List.reverseRecOn with
  | nil => exact ⟨{}, .nil⟩
  | append_singleton calls call ih =>
    obtain ⟨declared, records⟩ := ih
    cases call with
    | startSubroutine => exact ⟨_, records.startSubroutine⟩
    | define name type kind =>
      rcases accepted : (SymbolTable.afterAll {} calls).define name type kind with
        ⟨fault | symbol, table⟩
      · have refused := congrArg Prod.fst accepted
        refine ⟨declared, records.unchanged rfl (SymbolTable.define_of_error refused) ?_⟩
        rw [SymbolTable.created?, refused]
        rfl
      · exact ⟨_, records.define ⟨name, type, kind⟩ accepted⟩
    | get name => exact ⟨declared, records.unchanged rfl rfl rfl⟩
    | lookup name => exact ⟨declared, records.unchanged rfl rfl rfl⟩
    | contains name => exact ⟨declared, records.unchanged rfl rfl rfl⟩

namespace SymbolTable

/-- The table holds the symbols that calls have put in force, numbered without gaps. -/
structure Represents (table : SymbolTable) (calls : List TableCall) : Prop where
  /-- A scope keeps each symbol under its own name, and only symbols of its own kinds. -/
  owned : ∀ (scope : Scope) (name : String) (symbol : Symbol),
    (table.names scope)[name]? = some symbol → symbol.name = name ∧ symbol.kind.scope = scope
  stored : ∀ (scope : Scope) (symbol : Symbol),
    (table.names scope)[symbol.name]? = some symbol ↔ symbol ∈ inForce calls scope
  distinct : ∀ scope : Scope, ((inForce calls scope).map Symbol.name).Nodup
  /-- The symbols of a kind are numbered in the order in which they were accepted. -/
  numbered : ∀ kind : SymbolKind,
    ((inForce calls kind.scope).filter fun symbol => symbol.kind = kind).map Symbol.index =
      List.range (table.count kind)
  bounded : ∀ kind : SymbolKind, table.count kind ≤ 32768

/-- A table represents the calls whose declarations it holds. -/
theorem represents_of_records {calls : List TableCall} {declared : Declared}
    (records : Records calls declared) : (afterAll {} calls).Represents calls := by
  have stored : ∀ (scope : Scope) (symbol : Symbol),
      ((afterAll {} calls).names scope)[symbol.name]? = some symbol ↔
        symbol ∈ inForce calls scope := by
    intro scope symbol
    rw [records.symbols, mem_symbolsOf_iff _ (records.lawful scope).distinct,
      records.holds.found]
  constructor
  case owned =>
    intro scope name symbol found
    -- What stands under a name is found among the symbols of the scope.
    rw [records.holds.found, resolve, ← find?_symbolsAfter] at found
    refine ⟨by simpa using List.find?_some found, ?_⟩
    exact kind_of_mem_symbolsAfter (records.owned scope) (List.mem_of_find?_eq_some found)
  case stored => exact stored
  case distinct =>
    intro scope
    rw [records.symbols, symbolsOf, map_name_symbolsAfter]
    exact (records.lawful scope).distinct
  case numbered =>
    intro kind
    rw [records.symbols, indices_symbolsOf, records.holds.counted]
  case bounded =>
    intro kind
    rw [records.holds.counted]
    exact (records.lawful kind.scope).bounded kind

variable {table : SymbolTable} {calls : List TableCall}

/-- An index is smaller than the number of symbols of its kind. -/
theorem Represents.index_lt (represents : table.Represents calls) {scope : Scope} {name : String}
    {symbol : Symbol} (found : (table.names scope)[name]? = some symbol) :
    symbol.index < table.count symbol.kind := by
  obtain ⟨rfl, rfl⟩ := represents.owned scope name symbol found
  -- The symbol is one of those of its kind, which are numbered below their count.
  have own : symbol ∈ (inForce calls symbol.kind.scope).filter
      fun other => other.kind = symbol.kind :=
    List.mem_filter.mpr ⟨(represents.stored _ symbol).mp found, decide_eq_true rfl⟩
  have numbered := List.mem_map_of_mem (f := Symbol.index) own
  rw [represents.numbered symbol.kind] at numbered
  exact List.mem_range.mp numbered

/-- A declaration is refused for a name that is taken, and otherwise for a kind that is full. -/
theorem define_eq_error_iff (bounded : ∀ kind : SymbolKind, table.count kind ≤ 32768)
    {name type : String} {kind : SymbolKind} {fault : SymbolFault} :
    (table.define name type kind).1 = .error fault ↔
      (∃ existing : Symbol, (table.names kind.scope)[name]? = some existing ∧
        fault = .alreadyDefined name existing.kind) ∨
      (table.names kind.scope)[name]? = none ∧ table.count kind = 32768 ∧
        fault = .tooMany name kind := by
  unfold define
  cases (table.names kind.scope)[name]? with
  | some existing => simp [eq_comm]
  | none =>
    have bound := bounded kind
    have limit : maxOperand = 32767 := rfl
    by_cases full : table.count kind > maxOperand
    · have last : table.count kind = 32768 := by omega
      rw [if_pos full]
      simp [last, eq_comm]
    · have room : table.count kind ≠ 32768 := by omega
      simp [full, room]

end SymbolTable

/-- Whatever calls are made on an empty table, refused ones included, it holds the symbols that they
have put in force: each once, under its own name and in the scope of its kind, with the symbols of a
kind numbered from zero in the order of their declarations and never more than 32768 of them. A
declaration is refused exactly for a name that its scope holds, and otherwise for a kind that is
full, and changes nothing then. -/
theorem table_represents_calls (calls : List TableCall) :
    let table := SymbolTable.afterAll {} calls
    let fresh := SymbolTable.afterAll {} (calls ++ [.startSubroutine])
    table.Represents calls ∧
    (∀ (scope : Scope) (name : String) (symbol : Symbol),
      (table.names scope)[name]? = some symbol → symbol.index ≤ 32767) ∧
    (∀ (name type : String) (kind : SymbolKind) (fault : SymbolFault),
      ((table.define name type kind).1 = .error fault ↔
        (∃ existing : Symbol, (table.names kind.scope)[name]? = some existing ∧
          fault = .alreadyDefined name existing.kind) ∨
        (table.names kind.scope)[name]? = none ∧ table.count kind = 32768 ∧
          fault = .tooMany name kind) ∧
      ((table.define name type kind).1 = .error fault →
        SymbolTable.afterAll {} (calls ++ [.define name type kind]) = table)) ∧
    (∀ name : String, (fresh.names .subroutine)[name]? = none) ∧
    fresh.count .argument = 0 ∧ fresh.count .localVar = 0 ∧
    fresh.names .wholeClass = table.names .wholeClass ∧
    fresh.count .static = table.count .static ∧ fresh.count .field = table.count .field := by
  intro table fresh
  obtain ⟨declared, records⟩ := exists_records calls
  have represents : table.Represents calls := SymbolTable.represents_of_records records
  have starts : fresh = table.startSubroutine := SymbolTable.afterAll_concat {} calls _
  refine ⟨represents, ?_, ?_, ?_⟩
  · intro scope name symbol found
    have below := represents.index_lt found
    have bound := represents.bounded symbol.kind
    omega
  · intro name type kind fault
    refine ⟨SymbolTable.define_eq_error_iff represents.bounded, fun refused => ?_⟩
    rw [SymbolTable.afterAll_concat]
    exact SymbolTable.define_of_error refused
  · rw [starts]
    exact ⟨fun name => rfl, rfl, rfl, rfl, rfl, rfl⟩

end JackCompiler
