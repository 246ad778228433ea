import JackCompiler.Proofs.Checked.Counters

/-! No counter of a compilation outgrows its word. -/

namespace JackCompiler

namespace ClassUnit

variable {unit next : ClassUnit} {location : Location}

/-- A name is declared where its kind has room, and counts for that kind alone. -/
theorem counts_of_declare {name type : String} {kind : SymbolKind}
    (declared : unit.declare location name type kind = .ok next) :
    unit.symbols.count kind ≤ maxOperand ∧ next.labels = unit.labels ∧
      ∀ other, next.symbols.count other =
        unit.symbols.count other + if kind = other then 1 else 0 := by
  -- Of the three outcomes of a declaration, only one is no fault.
  unfold declare at declared
  split at declared <;> cases declared
  rename_i symbol symbols defined
  unfold SymbolTable.define at defined
  split at defined
  · cases defined
  · dsimp only at defined
    split at defined <;> cases defined
    rename_i room
    exact ⟨Nat.le_of_not_lt room, rfl, SymbolTable.count_insert _ _⟩

/-- A subroutine starts with no name of its own, except for its object. -/
theorem counts_of_startSubroutine {kind : SubroutineKind}
    (started : unit.startSubroutine location kind = .ok next) :
    next.labels = unit.labels ∧
      ∀ other, next.symbols.count other ≤ max 1 (unit.symbols.count other) := by
  have fresh : ∀ other, ({ unit with symbols := unit.symbols.startSubroutine } :
      ClassUnit).symbols.count other ≤ unit.symbols.count other := by
    -- The names of the last subroutine are forgotten, and those of the class are kept.
    intro other
    cases other with
    | static | field => exact Nat.le_refl _
    | argument | localVar => exact Nat.zero_le _
  unfold startSubroutine at started
  cases kind with
  | constructor | function =>
    cases started
    exact ⟨rfl, fun other => Nat.le_trans (fresh other) (Nat.le_max_right _ _)⟩
  | method =>
    obtain ⟨-, labels, counts⟩ := counts_of_declare started
    refine ⟨labels, fun other => ?_⟩
    have before := fresh other
    rw [counts]
    -- The object is the first argument, and the other counts are as they were.
    cases other with
    | argument => exact Nat.le_max_left _ _
    | _ => exact Nat.le_trans before (Nat.le_max_right _ _)

end ClassUnit

namespace Pending

/-- The kind of the names that a part of a declaration belongs to. -/
def declares? : Pending → Option SymbolKind
  | .variableName kind _ _ | .variableEnd kind _ _ => some kind
  | _ => none

/-- What a part does with a token, as far as names and labels are counted. -/
inductive Counts (unit : ClassUnit) (token : Token) : Pending → Move → Prop where
  | variableType {kind : SymbolKind} {type : String} {place : Location} :
      Counts unit token (.variableType kind) { pending := [.variableName kind type place], unit }
  | variableName {kind : SymbolKind} {name type : String} {place : Location} {next : ClassUnit}
      (declared : unit.declare token.location name type kind = .ok next) :
      Counts unit token (.variableName kind type place)
        { pending := [.variableEnd kind type place], unit := next }
  | comma {kind : SymbolKind} {type : String} {place : Location}
      (spelled : token.kind = .symbol ',') :
      Counts unit token (.variableEnd kind type place)
        { pending := [.variableName kind type place], unit }
  | semicolon {kind : SymbolKind} {type : String} {place : Location} :
      Counts unit token (.variableEnd kind type place) { unit }
  | parameterName {name type : String} {next : ClassUnit}
      (declared : unit.declare token.location name type .argument = .ok next) :
      Counts unit token (.parameterName type) { pending := [.parameterEnd], unit := next }
  | subroutine {kind : SubroutineKind} {next : ClassUnit}
      (started : unit.startSubroutine token.location kind = .ok next) :
      Counts unit token .subroutines { pending := [.returnType kind, .subroutines], unit := next }
  /-- Only statements and their branches take labels, no more than their words ask for. -/
  | other {part : Pending} {move : Move} (own : part.declares? = none)
      (brings : ∀ behind ∈ move.pending, behind.declares? = none)
      (symbols : move.unit.symbols = unit.symbols)
      (labels : move.unit.labels ≤ unit.labels + token.kind.labels) : Counts unit token part move

variable {unit : ClassUnit} {token : Token}

/-- A way on that declares nothing and takes no more labels than it may. -/
theorem goesOn_other {part : Pending} {move : Move}
    (labels : move.unit.labels ≤ unit.labels + token.kind.labels := by exact Nat.le_add_right _ _)
    (own : part.declares? = none := by rfl)
    (brings : ∀ behind ∈ move.pending, behind.declares? = none := by
      simp [expression, condition, block, assignment, declares?])
    (symbols : move.unit.symbols = unit.symbols := by rfl) :
    GoesOn (Counts unit token part) (some (.ok move)) :=
  goesOn_move (.other own brings symbols labels)

/-- The names of a declaration are among the lightest parts. -/
theorem declares?_eq_none {part : Pending} (heavy : 1 < part.weight) : part.declares? = none := by
  cases part with
  | variableName | variableEnd => exact absurd heavy (by simp [weight])
  | _ => rfl

/-- A declared name is followed by another one, or by nothing more. -/
theorem goesOn_counts_variableEnd {kind : SymbolKind} {type : String} {place : Location} {c : Char}
    (spelled : token.kind = .symbol c) :
    GoesOn (Counts unit token (.variableEnd kind type place))
      (takeVariableEnd unit kind type place c) := by
  unfold takeVariableEnd
  split
  · exact goesOn_move (.comma spelled)
  · split
    · exact goesOn_fault _
    · exact goesOn_move .semicolon
  · exact goesOn_none

/-- A condition takes one label and a loop takes two. -/
theorem goesOn_counts_statement {word : Keyword} (spelled : token.kind = .keyword word) :
    GoesOn (Counts unit token .statements) ((takeStatement unit word).map .ok) := by
  cases word
  case «let» | «do» | «return» => exact goesOn_other
  case «if» | «while» => exact goesOn_other (by rw [spelled]; exact Nat.le_refl _)
  all_goals exact goesOn_none

/-- An index or a call after a name declares nothing. -/
theorem goesOn_counts_nameRest {name : String} {location : Location} (c : Char) :
    GoesOn (Counts unit token (.nameRest name location)) (takeNameRest unit name location c) := by
  unfold takeNameRest
  split
  · exact goesOn_other
  · have called : (ownCall unit name).2.declares? = none := declares?_eq_none (by simp)
    exact goesOn_other (Nat.le_add_right _ _) rfl (List.forall_mem_singleton.mpr called)
  · exact goesOn_after fun _ _ => goesOn_after fun _ _ => goesOn_other
  · exact goesOn_none

/-- A term declares nothing. -/
theorem goesOn_counts_term : GoesOn (Counts unit token .term) ((takeTerm unit token).map .ok) := by
  unfold takeTerm
  split
  case h_11 => exact goesOn_none
  all_goals exact goesOn_other

/-- Whatever part takes a token, names and labels are counted as they may be. -/
theorem goesOn_counts (part : Pending) :
    GoesOn (Counts unit token part) (part.take? unit token) := by
  -- Only declarations, the starts of subroutines and statements count anything.
  cases part <;> simp only [take?]
  case emit => exact goesOn_none
  case keyword | symbol | localVariables | returnValue | callRest | arguments =>
    exact goesOn_if (fun _ => goesOn_other) fun _ => goesOn_none
  case className | subroutineName | parameterType | callee | operators =>
    exact goesOn_map fun _ _ => goesOn_other
  case returnType | parameters =>
    exact goesOn_if (fun _ => goesOn_other) fun _ => goesOn_map fun _ _ => goesOn_other
  case classVariables | parameterEnd | argumentEnd =>
    split
    case h_3 => exact goesOn_none
    all_goals exact goesOn_other
  case variableType => exact goesOn_map fun _ _ => goesOn_move .variableType
  case variableName =>
    exact goesOn_map fun _ _ => goesOn_after fun _ declared => goesOn_move (.variableName declared)
  case parameterName =>
    exact goesOn_map fun _ _ => goesOn_after fun _ declared => goesOn_move (.parameterName declared)
  case variableEnd =>
    exact goesOn_bind fun _ spelled =>
      goesOn_counts_variableEnd (TokenKind.symbol?_eq_some_iff.mp spelled)
  case subroutines =>
    split
    · exact goesOn_other
    · exact goesOn_map fun _ _ => goesOn_after fun _ started => goesOn_move (.subroutine started)
    · exact goesOn_none
  case statements =>
    cases word : token.kind.keyword? with
    | none => exact goesOn_none
    | some word => exact goesOn_counts_statement (TokenKind.keyword?_eq_some_iff.mp ‹_›)
  case letTarget =>
    refine goesOn_map fun _ _ => ?_
    split
    · exact goesOn_other
    · exact goesOn_fault _
  case letPlace =>
    exact goesOn_if (fun _ => goesOn_after fun _ _ => goesOn_other) fun _ => goesOn_none
  case elseBranch =>
    refine goesOn_if (fun spelled => ?_) fun _ => goesOn_none
    exact goesOn_other (by rw [spelled]; exact Nat.le_refl _)
  case calleeMember =>
    refine goesOn_map fun _ _ => goesOn_after fun call called => ?_
    have rest : call.2.declares? = none := declares?_eq_none (by simp [weight_memberCall called])
    exact goesOn_other (Nat.le_add_right _ _) rfl (by simpa [declares?] using rest)
  case nameRest => exact goesOn_bind fun c _ => goesOn_counts_nameRest c
  case term => exact goesOn_counts_term

/-- A part that takes no token declares nothing, and leaves what is known as it is. -/
theorem counts_of_leave {part : Pending} {move : Move} (left : part.leave unit = .go move) :
    move.unit = unit ∧ ∀ behind ∈ move.pending, behind.declares? = none := by
  cases part <;> simp only [leave, Leave.go.injEq, reduceCtorEq] at left
  case nameRest =>
    split at left <;> simp only [Leave.go.injEq, reduceCtorEq] at left
    subst left
    exact ⟨rfl, nofun⟩
  all_goals subst left
  case callRest name _ =>
    have called : (ownCall unit name).2.declares? = none := declares?_eq_none (by simp)
    exact ⟨rfl, by simpa [declares?] using called⟩
  all_goals exact ⟨rfl, by simp [expression, assignment, declares?]⟩

namespace Counts

variable {part : Pending} {move : Move}

/-- No kind has more symbols than there are indices. -/
theorem symbols_le (counts : Counts unit token part move)
    (bounded : ∀ kind, unit.symbols.count kind ≤ 32768) (kind : SymbolKind) :
    move.unit.symbols.count kind ≤ 32768 := by
  have before := bounded kind
  cases counts with
  | variableType | comma | semicolon => exact before
  | other _ _ symbols _ => rwa [symbols]
  | variableName declared | parameterName declared =>
    -- A symbol more is declared only where there is room for it.
    obtain ⟨room, -, counts⟩ := ClassUnit.counts_of_declare declared
    rw [counts]
    split
    · rename_i own
      rw [← own]
      exact Nat.succ_le_succ room
    · exact before
  | subroutine started =>
    obtain ⟨-, counts⟩ := ClassUnit.counts_of_startSubroutine started
    exact Nat.le_trans (counts kind) (Nat.max_le.mpr ⟨by decide, before⟩)

/-- A token is taken with no more labels than its word asks for. -/
theorem labels_le (counts : Counts unit token part move) :
    move.unit.labels ≤ unit.labels + token.kind.labels := by
  cases counts with
  | variableType | comma | semicolon => exact Nat.le_add_right _ _
  | other _ _ _ labels => exact labels
  | variableName declared | parameterName declared =>
    obtain ⟨-, labels, -⟩ := ClassUnit.counts_of_declare declared
    exact labels ▸ Nat.le_add_right _ _
  | subroutine started =>
    obtain ⟨labels, -⟩ := ClassUnit.counts_of_startSubroutine started
    exact labels ▸ Nat.le_add_right _ _

end Counts

end Pending

namespace Tally

variable {tally : Tally} {unit : ClassUnit} {token : Token} {part : Pending} {rest : List Pending}
  {move : Move}

/-- A part of no declaration counts no names, and may forget those of other subroutines. -/
theorem take_other (tally : Tally) (token : Token) (own : part.declares? = none) :
    ∃ after, tally.take token part = .ok after ∧ after.locals ≤ tally.locals := by
  cases part with
  | variableName | variableEnd => cases own
  | subroutines => exact ⟨_, rfl, Nat.zero_le _⟩
  | _ => exact ⟨_, rfl, Nat.le_refl _⟩

/-- No more names are counted than are declared. -/
structure Within (tally : Tally) (unit : ClassUnit) (pending : List Pending) : Prop where
  locals : tally.locals ≤ unit.symbols.count .localVar
  /-- The names of the present declaration are declared besides the local ones before it. -/
  names : ∀ kind, pending.head?.bind Pending.declares? = some kind →
    tally.names + (if kind = .localVar then tally.locals else 0) ≤ unit.symbols.count kind
  /-- No declaration waits for another one. -/
  alone : ∀ part ∈ pending.tail, part.declares? = none

/-- Where no declaration is pending, only the local variables are to be declared. -/
theorem Within.of_undeclared {pending : List Pending}
    (locals : tally.locals ≤ unit.symbols.count .localVar)
    (undeclared : ∀ part ∈ pending, part.declares? = none) : tally.Within unit pending where
  locals := locals
  names kind declares := by
    obtain ⟨part, first, declares⟩ := Option.bind_eq_some_iff.mp declares
    rw [undeclared part (List.mem_of_head? first)] at declares
    cases declares
  alone part member := undeclared part (List.mem_of_mem_tail member)

/-- The names that are counted when a token is taken are words, and are declared. -/
theorem Within.take (declared : tally.Within unit (part :: rest))
    (bounded : ∀ kind, unit.symbols.count kind ≤ 32768)
    (counts : part.Counts unit token move) :
    ∃ after, tally.take token part = .ok after ∧
      after.Within move.unit (move.pending ++ rest) := by
  have locals := declared.locals
  have alone : ∀ part ∈ rest, part.declares? = none := declared.alone
  -- A name is counted after it is declared, so the table bounds the counts.
  cases counts with
  | @variableType kind =>
    refine ⟨_, rfl, locals, ?_, alone⟩
    -- No name of the new declaration is counted yet.
    rintro _ ⟨⟩
    by_cases own : kind = .localVar
    · subst own
      simpa using locals
    · simp [own]
  | @variableName kind name type place next defined =>
    obtain ⟨-, -, counts⟩ := ClassUnit.counts_of_declare defined
    have before := declared.names kind rfl
    have most := bounded kind
    have fits : tally.names + 1 < 2 ^ 16 := by omega
    refine ⟨_, Checked.bind_eq (Checked.word_eq fits) _, ?_, ?_, alone⟩
    · rw [counts]
      exact Nat.le_trans locals (Nat.le_add_right _ _)
    · -- The name is one more in the table, too.
      rintro _ ⟨⟩
      rw [counts, if_pos rfl, Nat.add_right_comm]
      exact Nat.succ_le_succ before
  | @comma kind type place spelled =>
    refine ⟨tally, ?_, locals, declared.names, alone⟩
    cases kind with
    | localVar => exact if_neg (by simp [spelled])
    | _ => rfl
  | @semicolon kind =>
    have before := declared.names kind rfl
    have most := bounded kind
    -- Only the names of local variables are counted across declarations.
    cases kind with
    | localVar =>
      -- The names of the declaration join those of the declarations before it.
      rw [if_pos rfl, Nat.add_comm] at before
      have fits : tally.locals + tally.names < 2 ^ 16 := by omega
      rw [Tally.take]
      split
      · exact ⟨_, Checked.bind_eq (Checked.word_eq fits) _, .of_undeclared before alone⟩
      · exact ⟨tally, rfl, .of_undeclared locals alone⟩
    | _ => exact ⟨tally, rfl, .of_undeclared locals alone⟩
  | parameterName defined =>
    obtain ⟨-, -, counts⟩ := ClassUnit.counts_of_declare defined
    refine ⟨tally, rfl, .of_undeclared ?_ (List.forall_mem_cons.mpr ⟨rfl, alone⟩)⟩
    -- A parameter is no local variable.
    rw [counts]
    exact locals
  | subroutine started =>
    refine ⟨_, rfl, .of_undeclared (Nat.zero_le _) ?_⟩
    exact List.forall_mem_cons.mpr ⟨rfl, List.forall_mem_cons.mpr ⟨rfl, alone⟩⟩
  | other own brings symbols =>
    obtain ⟨after, took, fewer⟩ := tally.take_other token own
    refine ⟨after, took, .of_undeclared ?_ (List.forall_mem_append.mpr ⟨brings, alone⟩)⟩
    rw [symbols]
    exact Nat.le_trans fewer locals

end Tally

namespace Compilation

/-- At some point of a compilation all counts are small, if at most so many labels are taken. -/
structure Counted (bound : Nat) (tally : Tally) (compilation : Compilation) : Prop where
  symbols : ∀ kind, compilation.unit.symbols.count kind ≤ 32768
  /-- The labels taken, and those that the words to come ask for. -/
  labels : compilation.unit.labels + labelsAskedBy (compilation.tokens.map Token.kind) ≤ bound
  declared : tally.Within compilation.unit compilation.pending

namespace Counted

variable {ending : Except Fault Location} {first next : Compilation} {bound : Nat} {tally : Tally}
  {taken? : Option Token} {code : List Command}

/-- Every step counts in words, and all counts stay small. -/
theorem step (counted : first.Counted bound tally)
    (went : first.step ending = .go taken? code next) :
    ∃ after, first.tallied taken? tally = .ok after ∧ next.Counted bound after := by
  obtain ⟨part, rest, move, pending, -, replaced, known, way⟩ := step_cases went
  obtain ⟨symbols, labels, declared⟩ := counted
  rw [pending] at declared
  rcases way with ⟨token, rfl, tokens, taken⟩ | ⟨rfl, tokens, left⟩
  · have counts := Pending.goesOn_counts part move taken
    obtain ⟨after, took, further⟩ := declared.take symbols counts
    refine ⟨after, by simp [tallied, pending, took], ?_, ?_, ?_⟩
    · rw [known]
      exact counts.symbols_le symbols
    · -- Labels that are taken are no longer asked for.
      have more := counts.labels_le
      rw [tokens, List.map_cons, labelsAskedBy_cons] at labels
      rw [known]
      omega
    · rwa [known, replaced]
  · -- Without a token nothing is counted.
    obtain ⟨same, brings⟩ := Pending.counts_of_leave left
    rw [same] at known
    refine ⟨tally, by simp [tallied], ?_, ?_, ?_⟩
    · rwa [known]
    · rwa [known, tokens]
    · rw [known, replaced]
      exact .of_undeclared declared.locals (List.forall_mem_append.mpr ⟨brings, declared.alone⟩)

/-- Small counts are words. -/
theorem checkWords_eq (counted : next.Counted bound tally) (small : bound < 2 ^ 32)
    (few : next.passed ≤ 65535) : next.checkWords = .ok () := by
  have symbols (kind : SymbolKind) : next.unit.symbols.count kind < 2 ^ 16 :=
    Nat.lt_of_le_of_lt (counted.symbols kind) (by decide)
  have labels : next.unit.labels < 2 ^ 32 := by
    have most := counted.labels
    omega
  have passed : next.passed < 2 ^ 16 := Nat.lt_of_le_of_lt few (by decide)
  simp only [checkWords, Checked.word_eq (symbols _), Checked.word_eq labels,
    Checked.word_eq passed]
  rfl

end Counted

variable {ending : Except Fault Location} {first next : Compilation} {bound : Nat} {tally : Tally}
  {taken? : Option Token} {code : List Command}

/-- A run goes on behind a step if its counts are words. -/
theorem checkedRun_of_go (went : first.step ending = .go taken? code next)
    (emitted : Array Command) : first.checkedRun ending tally emitted = (do
      let tally ← first.tallied taken? tally
      next.checkWords
      next.checkedRun ending tally (emitted ++ code)) := by
  rw [checkedRun]
  split <;> simp_all [checkedStep_eq]

/-- The calls of a run are those of its steps. -/
theorem mostPassed_of_go (went : first.step ending = .go taken? code next) :
    first.mostPassed ending = max next.passed (next.mostPassed ending) := by
  rw [mostPassed]
  split <;> simp_all

/-- A run with machine words for its counters is the run without any bounds, if the labels and the
values passed by each call can be counted. -/
theorem checkedRun_eq (counted : first.Counted bound tally) (small : bound < 2 ^ 32)
    (few : first.mostPassed ending ≤ 65535) (emitted : Array Command) :
    first.checkedRun ending tally emitted = .ok (first.run ending emitted) := by
  -- The counts are small after each step, and the steps are the same.
  fun_induction run ending first emitted generalizing tally with
  | case1 first emitted taken? code next went ih =>
    rw [mostPassed_of_go went, Nat.max_le] at few
    obtain ⟨after, tallies, further⟩ := counted.step went
    rw [checkedRun_of_go went, Checked.bind_eq tallies,
      Checked.bind_eq (further.checkWords_eq small few.1), ih further few.2]
  | case2 first emitted finished =>
    rw [checkedRun]
    split <;> simp_all [checkedStep_eq]
  | case3 first emitted fault failed =>
    rw [checkedRun]
    split <;> simp_all [checkedStep_eq]

end Compilation

end JackCompiler
