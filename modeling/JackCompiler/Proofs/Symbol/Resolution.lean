import JackCompiler.Proofs.Symbol.History

/-! What a name stands for is told by the calls that declared it. -/

namespace JackCompiler

/-- What a name stands for after calls: the names of the subroutine hide those of the class. -/
def StandsFor (calls : List TableCall) (name : String) (symbol : Symbol) : Prop :=
  symbol.name = name ∧ (symbol ∈ inForce calls .subroutine ∨
    (∀ inner ∈ inForce calls .subroutine, inner.name ≠ name) ∧ symbol ∈ inForce calls .wholeClass)

/-- A symbol comes from a call that declared it, with the next index of its kind at that call, and
the scope of that call still lives. -/
structure ComesFrom (calls before : List TableCall) (scope : Scope) (symbol : Symbol)
    (behind : List TableCall) : Prop where
  calls_eq : calls = before ++ .define symbol.name symbol.type symbol.kind :: behind
  index_eq : symbol.index = (SymbolTable.afterAll {} before).count symbol.kind
  accepted : (SymbolTable.afterAll {} before).created?
    (.define symbol.name symbol.type symbol.kind) = some symbol
  scope_eq : symbol.kind.scope = scope
  lives : scope = .subroutine → ∀ call ∈ behind, call.keepsScope = true

/-- A symbol that is created has the name, the type and the kind that its call gives it. -/
theorem SymbolTable.created?_eq_some {table : SymbolTable} {call : TableCall} {symbol : Symbol}
    (creates : table.created? call = some symbol) :
    call = .define symbol.name symbol.type symbol.kind ∧
      symbol.index = table.count symbol.kind := by
  cases call with
  | define name type kind =>
    simp only [created?, define] at creates
    -- Of the three outcomes only the last creates a symbol.
    split at creates
    · cases creates
    · split at creates
      · cases creates
      · cases creates
        exact ⟨rfl, rfl⟩
  | startSubroutine => cases creates
  | get name => cases creates
  | lookup name => cases creates
  | contains name => cases creates

/-- Only the start of a subroutine ends the scope of the one before it. -/
theorem TableCall.eq_startSubroutine {call : TableCall} (ends : ¬call.keepsScope = true) :
    call = .startSubroutine := by
  cases call with
  | startSubroutine => rfl
  | _ => exact absurd rfl ends

section InForce

variable {calls : List TableCall} {scope : Scope} {symbol : Symbol}

/-- A call that keeps a scope open keeps its symbols in force. -/
theorem mem_inForce_concat (member : symbol ∈ inForce calls scope) {call : TableCall}
    (lives : scope = .subroutine → call.keepsScope = true) :
    symbol ∈ inForce (calls ++ [call]) scope := by
  -- Calls that keep the scope open only add symbols to those in force.
  by_cases keeps : call.keepsScope = true
  · rw [inForce_append calls keeps]
    exact List.mem_append_left _ member
  · -- The start of a subroutine does not end the scope of the class.
    obtain rfl := TableCall.eq_startSubroutine keeps
    rw [inForce_startSubroutine, if_neg fun inner => keeps (lives inner)]
    exact member

/-- Calls that keep a scope open keep its symbols in force. -/
theorem mem_inForce_append (member : symbol ∈ inForce calls scope) (more : List TableCall)
    (lives : scope = .subroutine → ∀ call ∈ more, call.keepsScope = true) :
    symbol ∈ inForce (calls ++ more) scope := by
  -- The further calls are made one by one, each behind those that were made already.
  induction more generalizing calls with
  | nil => rwa [List.append_nil]
  | cons call more ih =>
    rw [List.append_cons]
    apply ih (mem_inForce_concat member fun inner => lives inner call List.mem_cons_self)
    intro inner other later
    exact lives inner other (List.mem_cons_of_mem call later)

/-- Every symbol in force comes from a call that declared it. -/
theorem exists_comesFrom (member : symbol ∈ inForce calls scope) :
    ∃ before behind, ComesFrom calls before scope symbol behind := by
  -- The induction is on the calls: the last one either created the symbol or kept it in force.
  induction calls using List.reverseRecOn with
  | nil => cases scope <;> cases member
  | append_singleton calls call ih =>
    have kept : symbol ∈ inForce calls scope → (scope = .subroutine → call.keepsScope = true) →
        ∃ before behind, ComesFrom (calls ++ [call]) before scope symbol behind := by
      intro earlier lives
      obtain ⟨before, behind, comes⟩ := ih earlier
      refine ⟨before, behind ++ [call], ?_, comes.index_eq, comes.accepted, comes.scope_eq, ?_⟩
      · rw [comes.calls_eq, List.append_assoc, List.cons_append]
      · intro inner other later
        rcases List.mem_append.mp later with old | last
        · exact comes.lives inner other old
        · rw [List.mem_singleton.mp last]
          exact lives inner
    by_cases keeps : call.keepsScope = true
    · rw [inForce_append calls keeps] at member
      rcases List.mem_append.mp member with earlier | last
      · exact kept earlier fun _ => keeps
      · obtain ⟨creates, own⟩ := List.mem_filter.mp last
        have creates : (SymbolTable.afterAll {} calls).created? call = some symbol :=
          Option.mem_toList.mp creates
        obtain ⟨rfl, index⟩ := SymbolTable.created?_eq_some creates
        exact ⟨calls, [], rfl, index, creates, of_decide_eq_true own, nofun⟩
    · obtain rfl := TableCall.eq_startSubroutine keeps
      rw [inForce_startSubroutine] at member
      split at member
      · cases member
      · rename_i outer
        exact kept member fun inner => absurd inner outer

end InForce

namespace SymbolTable.Represents

variable {table : SymbolTable} {calls : List TableCall} {name : String} {symbol : Symbol}

/-- A scope finds under a name the symbol of that name that is in force. -/
theorem found_iff (represents : table.Represents calls) (scope : Scope) :
    (table.names scope)[name]? = some symbol ↔ symbol.name = name ∧ symbol ∈ inForce calls scope := by
  constructor
  · intro found
    obtain ⟨rfl, -⟩ := represents.owned scope name symbol found
    exact ⟨rfl, (represents.stored scope symbol).mp found⟩
  · rintro ⟨rfl, member⟩
    exact (represents.stored scope symbol).mpr member

/-- A scope finds nothing under a name that no symbol in force has. -/
theorem found_eq_none_iff (represents : table.Represents calls) (scope : Scope) :
    (table.names scope)[name]? = none ↔ ∀ symbol ∈ inForce calls scope, symbol.name ≠ name := by
  rw [Option.eq_none_iff_forall_not_mem]
  constructor
  · intro none symbol member same
    exact none symbol ((represents.found_iff scope).mpr ⟨same, member⟩)
  · intro none symbol found
    obtain ⟨same, member⟩ := (represents.found_iff scope).mp found
    exact none symbol member same

/-- A name is resolved to the symbol that it stands for. -/
theorem get?_eq_some_iff (represents : table.Represents calls) :
    table.get? name = some symbol ↔ StandsFor calls name symbol := by
  have inner : table.ofSubroutine[name]? = some symbol ↔ _ := represents.found_iff .subroutine
  have outer : table.ofClass[name]? = some symbol ↔ _ := represents.found_iff .wholeClass
  have hidden : table.ofSubroutine[name]? = none ↔ _ := represents.found_eq_none_iff .subroutine
  -- The scope of the class is asked only for a name that the subroutine's scope does not have.
  rw [get?, Option.orElse_eq_orElse, Option.orElse_eq_or, Option.or_eq_some_iff, inner, outer,
    hidden]
  constructor
  · rintro (⟨same, member⟩ | ⟨free, same, member⟩)
    · exact ⟨same, .inl member⟩
    · exact ⟨same, .inr ⟨free, member⟩⟩
  · rintro ⟨same, member | ⟨free, member⟩⟩
    · exact .inl ⟨same, member⟩
    · exact .inr ⟨free, same, member⟩

/-- A name is found exactly when it stands for something. -/
theorem get?_eq_none_iff (represents : table.Represents calls) :
    table.get? name = none ↔ ∀ symbol : Symbol, ¬StandsFor calls name symbol := by
  rw [Option.eq_none_iff_forall_ne_some]
  exact forall_congr' fun symbol => not_congr represents.get?_eq_some_iff

end SymbolTable.Represents

/-- Whatever calls are made on an empty table, a name is resolved to the symbol that the one
accepted declaration of it created since the last subroutine started, or else to the one that the
class has in force, or else to nothing. Each symbol is as its declaration gave it, stays so while
its scope lives, and a symbol of the class that was hidden is found again in a new subroutine. -/
theorem resolution_follows_calls (calls : List TableCall) (name : String) :
    let table := SymbolTable.afterAll {} calls
    (∀ scope : Scope, (inForce calls scope).countP (·.name == name) ≤ 1) ∧
    (∀ symbol : Symbol, table.get? name = some symbol ↔ StandsFor calls name symbol) ∧
    (∀ symbol : Symbol, table.lookup name = .ok symbol ↔ StandsFor calls name symbol) ∧
    (∀ fault : SymbolFault, table.lookup name = .error fault ↔
      (∀ symbol : Symbol, ¬StandsFor calls name symbol) ∧ fault = .undefined name) ∧
    (table.contains name = true ↔ ∃ symbol : Symbol, StandsFor calls name symbol) ∧
    (∀ scope : Scope, ∀ symbol ∈ inForce calls scope,
      (∃ before behind, ComesFrom calls before scope symbol behind) ∧
      ∀ more : List TableCall,
        (scope = .subroutine → ∀ call ∈ more, call.keepsScope = true) →
          symbol ∈ inForce (calls ++ more) scope) ∧
    ∀ symbol ∈ inForce calls .wholeClass, symbol.name = name →
      (SymbolTable.afterAll {} (calls ++ [.startSubroutine])).get? name = some symbol := by
  intro table
  obtain ⟨declared, records⟩ := exists_records calls
  have represents : table.Represents calls := SymbolTable.represents_of_records records
  refine ⟨fun scope => ?once, fun symbol => represents.get?_eq_some_iff, fun symbol => ?found,
    fun fault => ?missing, ?contained, fun scope symbol member => ⟨exists_comesFrom member,
      fun more lives => mem_inForce_append member more lives⟩, fun symbol member same => ?again⟩
  case once =>
    have once := List.nodup_iff_count_le_one.mp (represents.distinct scope) name
    simpa [List.count, List.countP_map, Function.comp_def] using once
  case found =>
    rw [← represents.get?_eq_some_iff, SymbolTable.lookup]
    cases table.get? name <;> simp
  case missing =>
    rw [← represents.get?_eq_none_iff, SymbolTable.lookup]
    cases table.get? name <;> simp [eq_comm]
  case contained =>
    simp only [SymbolTable.contains, Option.isSome_iff_exists, represents.get?_eq_some_iff]
  case again =>
    -- The new subroutine has nothing in force yet that could hide the symbol.
    obtain ⟨_, fresh⟩ := exists_records (calls ++ [.startSubroutine])
    rw [(SymbolTable.represents_of_records fresh).get?_eq_some_iff]
    refine ⟨same, .inr ?_⟩
    rw [inForce_startSubroutine, inForce_startSubroutine]
    exact ⟨nofun, member⟩

end JackCompiler
