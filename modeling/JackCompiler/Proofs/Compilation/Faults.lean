import JackCompiler.Proofs.Compilation.Steps

/-! Where a compilation fails, and which places its faults report. -/

namespace JackCompiler

namespace ClassUnit

variable {unit : ClassUnit} {location : Location} {fault : Fault}

/-- A refused declaration is a misuse of its name. -/
theorem fault_of_declare {name type : String} {kind : SymbolKind}
    (refused : unit.declare location name type kind = .error fault) :
    ∃ cause, fault = ⟨location, .semantic cause⟩ := by
  -- The table refuses a name only as one that is declared already.
  unfold declare at refused
  split at refused <;> cases refused
  exact ⟨_, rfl⟩

/-- A refused reference is a misuse of its name. -/
theorem fault_of_lookup {name : String} (refused : unit.lookup location name = .error fault) :
    ∃ cause, fault = ⟨location, .semantic cause⟩ := by
  -- The table has no entry for the name.
  unfold lookup at refused
  split at refused <;> cases refused
  exact ⟨_, rfl⟩

/-- Only the object of a method is declared at the start of a subroutine. -/
theorem fault_of_startSubroutine {kind : SubroutineKind}
    (refused : unit.startSubroutine location kind = .error fault) :
    ∃ cause, fault = ⟨location, .semantic cause⟩ := by
  unfold startSubroutine at refused
  cases kind with
  | method => exact fault_of_declare refused
  | constructor | function => cases refused

end ClassUnit

namespace Pending

/-- The place of an earlier token that a part remembers, for the faults that it may still meet. -/
def place? : Pending → Option Location
  | .variableName _ _ place | .variableEnd _ _ place | .letPlace _ place | .callRest _ place
  | .calleeMember _ place | .nameRest _ place => some place
  | _ => none

/-- A part of the given form reports its faults at the token before it, or where it remembers. -/
def ReportsAt (token : Token) (part : Pending) (place : Location) : Prop :=
  place = token.location ∨ part.place? = some place

section

variable {unit : ClassUnit} {token : Token} {part : Pending} {move : Move}

/-- Parts that remember nothing, or what is known already, may take the place of another one. -/
private abbrev Remembers (token : Token) (part : Pending) : Option (Except Fault Move) → Prop :=
  GoesOn fun move => ∀ behind ∈ move.pending, ∀ place, behind.place? = some place →
    part.ReportsAt token place

/-- The parts of a way on are gone through one by one. -/
private theorem remembers_move
    (known : ∀ behind ∈ move.pending, ∀ place, behind.place? = some place →
      part.ReportsAt token place := by
        simp [expression, condition, block, assignment, place?, ReportsAt]) :
    Remembers token part (some (.ok move)) :=
  goesOn_move known

/-- The arguments of a call remember nothing. -/
theorem place?_eq_none_of_weight (four : part.weight = 4) : part.place? = none := by
  -- The parts that remember a place are of other weights.
  cases part <;> first | rfl | simp [weight] at four

/-- Everything holds of the places of a part that remembers none. -/
theorem forall_place?_of_none {behind : Pending} {holds : Location → Prop}
    (none : behind.place? = none) : ∀ place, behind.place? = some place → holds place := by
  intro place found
  cases none.symm.trans found

/-- The parts that a token brings remember its place, or what the part before them did. -/
theorem reportsAt_of_take (taken : part.take? unit token = some (.ok move)) :
    ∀ behind ∈ move.pending, ∀ place, behind.place? = some place →
      part.ReportsAt token place := by
  suffices remembers : Remembers token part (part.take? unit token) from remembers move taken
  -- Names are remembered while it is open what they are used for, and types of declarations.
  cases part <;> simp only [take?]
  case emit => exact goesOn_none
  case keyword | symbol | localVariables | elseBranch | returnValue | callRest | arguments =>
    exact goesOn_if (fun _ => remembers_move) fun _ => goesOn_none
  case className | variableType | subroutineName | parameterType | callee | operators =>
    exact goesOn_map fun _ _ => remembers_move
  case returnType | parameters =>
    exact goesOn_if (fun _ => remembers_move) fun _ => goesOn_map fun _ _ => remembers_move
  case variableName | parameterName =>
    exact goesOn_map fun _ _ => goesOn_after fun _ _ => remembers_move
  case classVariables | parameterEnd | argumentEnd =>
    split
    case h_3 => exact goesOn_none
    all_goals exact remembers_move
  case subroutines =>
    split
    · exact remembers_move
    · exact goesOn_map fun _ _ => goesOn_after fun _ _ => remembers_move
    · exact goesOn_none
  case letTarget =>
    refine goesOn_map fun _ _ => ?_
    split
    · exact remembers_move
    · exact goesOn_fault _
  case letPlace =>
    exact goesOn_if (fun _ => goesOn_after fun _ _ => remembers_move) fun _ => goesOn_none
  case calleeMember =>
    refine goesOn_map fun _ _ => goesOn_after fun call called => remembers_move ?_
    -- The rest of the call is that of its arguments, whatever the call is made on.
    have rest := place?_eq_none_of_weight (weight_memberCall called)
    exact List.forall_mem_cons.mpr
      ⟨forall_place?_of_none rfl, List.forall_mem_singleton.mpr (forall_place?_of_none rest)⟩
  case variableEnd =>
    -- Another name may follow, or the type of the declaration is checked at its end.
    refine goesOn_bind fun c _ => ?_
    unfold takeVariableEnd
    split
    · exact remembers_move
    · split
      · exact goesOn_fault _
      · exact remembers_move
    · exact goesOn_none
  case nameRest name _ =>
    refine goesOn_bind fun c _ => ?_
    have rest := place?_eq_none_of_weight (weight_ownCall unit name)
    unfold takeNameRest
    split
    · exact remembers_move
    · exact remembers_move (List.forall_mem_singleton.mpr (forall_place?_of_none rest))
    · exact goesOn_after fun _ _ => goesOn_after fun _ _ => remembers_move
    · exact goesOn_none
  case term =>
    unfold takeTerm
    split
    case h_11 => exact goesOn_none
    all_goals exact remembers_move
  case statements =>
    cases token.kind.keyword? with
    | none => exact goesOn_none
    | some word =>
      cases word
      case «let» | «do» | «if» | «while» | «return» => exact remembers_move
      all_goals exact goesOn_none

/-- The parts in the place of one that takes no token remember what that did. -/
theorem place?_of_leave (left : part.leave unit = .go move) :
    ∀ behind ∈ move.pending, ∀ place, behind.place? = some place →
      part.place? = some place := by
  cases part <;> simp only [leave, Leave.go.injEq, reduceCtorEq] at left
  case nameRest =>
    -- A name that nothing follows is looked up, and then it is done with.
    split at left <;> simp only [Leave.go.injEq, reduceCtorEq] at left
    subst left
    exact List.forall_mem_nil _
  all_goals subst left
  case callRest name _ =>
    have rest := place?_eq_none_of_weight (weight_ownCall unit name)
    exact List.forall_mem_cons.mpr
      ⟨forall_place?_of_none rfl, List.forall_mem_singleton.mpr (forall_place?_of_none rest)⟩
  all_goals simp [expression, assignment, place?]

end

section

variable {unit : ClassUnit} {token : Token} {part : Pending} {fault : Fault}

/-- The fault is a misuse of a name, at the token or where the part remembers. -/
def Misuse (token : Token) (part : Pending) (fault : Fault) : Prop :=
  (∃ cause, fault.cause = .semantic cause) ∧ part.ReportsAt token fault.location

/-- What comes after a check fails with the check, or by itself. -/
theorem bind_eq_error_iff {α β : Type} {checked : Except Fault α} {next : α → Except Fault β} :
    checked >>= next = .error fault ↔
      checked = .error fault ∨ ∃ value, checked = .ok value ∧ next value = .error fault := by
  cases checked with
  | error other =>
    constructor
    · intro failed
      cases failed
      exact .inl rfl
    · rintro (failed | ⟨_, passed, -⟩)
      · cases failed
        rfl
      · cases passed
  | ok value =>
    constructor
    · intro failed
      exact .inr ⟨value, rfl, failed⟩
    · rintro (failed | ⟨_, passed, failed⟩)
      · cases failed
      · cases passed
        exact failed

/-- A token is refused only for a misuse of a name. -/
theorem misuse_of_take (refused : part.take? unit token = some (.error fault)) :
    part.Misuse token fault := by
  -- Names are declared and looked up, and what they stand for is checked.
  cases part <;> simp only [take?] at refused
  case subroutines =>
    split at refused
    · cases refused
    · obtain ⟨kind, -, refused⟩ := Option.map_eq_some_iff.mp refused
      rcases bind_eq_error_iff.mp refused with refused | ⟨_, _, refused⟩
      · obtain ⟨cause, rfl⟩ := ClassUnit.fault_of_startSubroutine refused
        exact ⟨⟨cause, rfl⟩, .inl rfl⟩
      · cases refused
    · cases refused
  case variableName | parameterName =>
    -- The name that is taken is the one that cannot be declared.
    obtain ⟨name, -, refused⟩ := Option.map_eq_some_iff.mp refused
    rcases bind_eq_error_iff.mp refused with refused | ⟨_, _, refused⟩
    · obtain ⟨cause, rfl⟩ := ClassUnit.fault_of_declare refused
      exact ⟨⟨cause, rfl⟩, .inl rfl⟩
    · cases refused
  case variableEnd =>
    obtain ⟨c, -, refused⟩ := Option.bind_eq_some_iff.mp refused
    unfold takeVariableEnd at refused
    split at refused
    · cases refused
    · split at refused <;> cases refused
      exact ⟨⟨_, rfl⟩, .inr rfl⟩
    · cases refused
  case letTarget =>
    obtain ⟨name, -, refused⟩ := Option.map_eq_some_iff.mp refused
    split at refused <;> cases refused
    exact ⟨⟨_, rfl⟩, .inl rfl⟩
  case letPlace =>
    -- The bracket is taken, and what cannot be indexed is the name before it.
    simp only [Option.ite_none_right_eq_some, Option.some.injEq] at refused
    rcases bind_eq_error_iff.mp refused.2 with refused | ⟨_, _, refused⟩
    · unfold checkIndexable at refused
      split at refused <;> cases refused
      exact ⟨⟨_, rfl⟩, .inr rfl⟩
    · cases refused
  case calleeMember =>
    obtain ⟨name, -, refused⟩ := Option.map_eq_some_iff.mp refused
    rcases bind_eq_error_iff.mp refused with refused | ⟨_, _, refused⟩
    · unfold memberCall at refused
      split at refused
      · cases refused
      · split at refused <;> cases refused
        exact ⟨⟨_, rfl⟩, .inr rfl⟩
    · cases refused
  case nameRest =>
    obtain ⟨c, -, refused⟩ := Option.bind_eq_some_iff.mp refused
    unfold takeNameRest at refused
    split at refused
    · cases refused
    · cases refused
    · simp only [Option.some.injEq] at refused
      rcases bind_eq_error_iff.mp refused with refused | ⟨_, _, refused⟩
      · obtain ⟨cause, rfl⟩ := ClassUnit.fault_of_lookup refused
        exact ⟨⟨cause, rfl⟩, .inr rfl⟩
      rcases bind_eq_error_iff.mp refused with refused | ⟨_, _, refused⟩
      · unfold checkIndexable at refused
        split at refused <;> cases refused
        exact ⟨⟨_, rfl⟩, .inr rfl⟩
      · cases refused
    · cases refused
  -- All other parts take whatever token belongs to them.
  case classVariables | parameterEnd | argumentEnd =>
    split at refused <;> cases refused
  case returnType | parameters =>
    split at refused
    · cases refused
    · obtain ⟨_, -, refused⟩ := Option.map_eq_some_iff.mp refused
      cases refused
  case className | variableType | subroutineName | parameterType | callee | operators | term |
      statements =>
    obtain ⟨_, -, refused⟩ := Option.map_eq_some_iff.mp refused
    cases refused
  case emit => cases refused
  case keyword | symbol | localVariables | elseBranch | returnValue | callRest | arguments =>
    split at refused <;> cases refused

/-- A part that no token belongs to fails only for a name that stands for nothing. -/
theorem misuse_of_leave (failed : part.leave unit = .fail fault) :
    (∃ cause, fault.cause = .semantic cause) ∧ part.place? = some fault.location := by
  -- Only a name that nothing follows is looked up without a token.
  cases part <;> simp only [leave, reduceCtorEq] at failed
  split at failed <;> cases failed
  rename_i refused
  obtain ⟨cause, rfl⟩ := ClassUnit.fault_of_lookup refused
  exact ⟨⟨cause, rfl⟩, rfl⟩

end

end Pending

namespace Compilation

/-- The next step fails: at a token or an end of the source that the first part does not allow, at
a misuse of a name, behind the class, or at something malformed. -/
inductive Fails (ending : Except Fault Location) : Compilation → Fault → Prop where
  | unexpected {token : Token} {tokens : List Token} {part : Pending} {rest : List Pending}
      {unit : ClassUnit} {expected : String} (unread : part.take? unit token = none)
      (refused : part.leave unit = .refuse expected) :
      Fails ending ⟨token :: tokens, part :: rest, unit⟩
        ⟨token.location, .syntactic (.unexpected expected token.kind)⟩
  | surplus {token : Token} {tokens : List Token} {unit : ClassUnit} {expected : String} :
      Fails ending ⟨token :: tokens, [], unit⟩
        ⟨token.location, .syntactic (.unexpected expected token.kind)⟩
  | unexpectedEnd {location : Location} {part : Pending} {rest : List Pending} {unit : ClassUnit}
      {expected : String} (ended : ending = .ok location)
      (refused : part.leave unit = .refuse expected) :
      Fails ending ⟨[], part :: rest, unit⟩ ⟨location, .syntactic .unexpectedEnd⟩
  | misuse {token : Token} {tokens : List Token} {part : Pending} {rest : List Pending}
      {unit : ClassUnit} {fault : Fault} (misused : part.Misuse token fault) :
      Fails ending ⟨token :: tokens, part :: rest, unit⟩ fault
  | unknown {tokens : List Token} {part : Pending} {rest : List Pending} {unit : ClassUnit}
      {fault : Fault} (semantic : ∃ cause, fault.cause = .semantic cause)
      (place : part.place? = some fault.location) : Fails ending ⟨tokens, part :: rest, unit⟩ fault
  | malformed {pending : List Pending} {unit : ClassUnit} {fault : Fault}
      (ended : ending = .error fault) : Fails ending ⟨[], pending, unit⟩ fault

variable {ending : Except Fault Location} {first : Compilation} {fault : Fault}

/-- A step that fails does so in one of these ways. -/
theorem fails_of_step (failed : first.step ending = .fail fault) : first.Fails ending fault := by
  -- The cases are those of a step: tokens and parts left, only parts, only tokens, or neither.
  unfold step at failed
  split at failed
  · cases failed
  · split at failed
    · cases failed
    · cases failed
      exact .misuse (Pending.misuse_of_take ‹_›)
    · split at failed <;> cases failed
      · exact .unexpected ‹_› ‹_›
      · obtain ⟨semantic, place⟩ := Pending.misuse_of_leave ‹_›
        exact .unknown semantic place
  · split at failed
    · cases failed
      exact .malformed rfl
    · split at failed <;> cases failed
      · exact .unexpectedEnd rfl ‹_›
      · obtain ⟨semantic, place⟩ := Pending.misuse_of_leave ‹_›
        exact .unknown semantic place
  · cases failed
    exact .surplus
  · split at failed <;> cases failed
    exact .malformed rfl

/-- A run fails exactly when steps lead to one that fails. -/
theorem run_eq_error_iff {emitted : Array Command} :
    first.run ending emitted = .error fault ↔
      ∃ code last, Steps ending first code last ∧ last.step ending = .fail fault := by
  constructor
  · intro ran
    -- The run is followed step by step up to the one that fails.
    fun_induction run ending first emitted with
    | case1 first emitted taken? code next went ih =>
      obtain ⟨more, last, steps, failed⟩ := ih ran
      exact ⟨code ++ more, last, .head went steps, failed⟩
    | case2 first emitted finished => cases ran
    | case3 first emitted other failed =>
      cases ran
      exact ⟨[], first, .refl first, failed⟩
  · -- The steps lead the run to where it can only fail.
    rintro ⟨code, last, steps, failed⟩
    rw [run_eq_of_steps steps, run]
    split <;> simp_all

end Compilation

end JackCompiler
