import JackCompiler.Compile

/-! Runs of a compilation as sequences of steps, with the code that the steps emit. -/

namespace JackCompiler

namespace Compilation

/-- Some steps lead from one compilation to another, and emit the given code on the way. -/
inductive Steps (ending : Except Fault Location) :
    Compilation → List Command → Compilation → Prop where
  | refl (compilation : Compilation) : Steps ending compilation [] compilation
  | head {first next last : Compilation} {taken? : Option Token} {code more : List Command}
      (went : first.step ending = .go taken? code next) (steps : Steps ending next more last) :
      Steps ending first (code ++ more) last

variable {ending : Except Fault Location} {first next last : Compilation}
  {code more : List Command}

/-- Steps that follow one another emit their code one behind the other. -/
theorem Steps.trans (steps : Steps ending first code next) (further : Steps ending next more last) :
    Steps ending first (code ++ more) last := by
  -- The steps are gone through from the front, and the code of each stays where it is.
  induction steps with
  | refl compilation => exact further
  | head went _ ih =>
    rw [List.append_assoc]
    exact .head went (ih further)

/-- A step takes the next token for the first part, or leaves that part without a token. -/
theorem step_cases {taken? : Option Token} (went : first.step ending = .go taken? code next) :
    ∃ part rest move, first.pending = part :: rest ∧ code = move.code ∧
      next.pending = move.pending ++ rest ∧ next.unit = move.unit ∧
      ((∃ token, taken? = some token ∧ first.tokens = token :: next.tokens ∧
          part.take? first.unit token = some (.ok move)) ∨
        (taken? = none ∧ next.tokens = first.tokens ∧ part.leave first.unit = .go move)) := by
  -- A step looks at the next token and at the first part, and each way on is one of the two.
  unfold step at went
  split at went
  · -- Code that is due is a part that is left at once.
    rename_i tokens emitted rest unit
    cases went
    exact ⟨.emit code, rest, { code, unit }, rfl, rfl, rfl, rfl, .inr ⟨rfl, rfl, rfl⟩⟩
  · rename_i token tokens part rest unit _
    split at went
    · rename_i move taken
      cases went
      exact ⟨part, rest, move, rfl, rfl, rfl, rfl, .inl ⟨token, rfl, rfl, taken⟩⟩
    · cases went
    · split at went <;> cases went
      rename_i move left
      exact ⟨part, rest, move, rfl, rfl, rfl, rfl, .inr ⟨rfl, rfl, left⟩⟩
  · rename_i part rest unit _
    split at went
    · cases went
    · split at went <;> cases went
      rename_i move left
      exact ⟨part, rest, move, rfl, rfl, rfl, rfl, .inr ⟨rfl, rfl, left⟩⟩
  · cases went
  · split at went <;> cases went

/-- Taking the next token for the first part is a step. -/
theorem Steps.take {token : Token} {tokens : List Token} {part : Pending} {rest : List Pending}
    {unit : ClassUnit} {move : Move} (taken : part.take? unit token = some (.ok move))
    (steps : Steps ending ⟨tokens, move.pending ++ rest, move.unit⟩ more last) :
    Steps ending ⟨token :: tokens, part :: rest, unit⟩ (move.code ++ more) last := by
  have went : step ending ⟨token :: tokens, part :: rest, unit⟩ =
      .go (some token) move.code ⟨tokens, move.pending ++ rest, move.unit⟩ := by
    -- Code that is due takes no token, so the part is of another form.
    cases part with
    | emit code => simp [Pending.take?] at taken
    | _ => simp [step, taken, replace]
  exact .head went steps

/-- The first part is left where the source is well formed and no token belongs to the part. -/
theorem step_leave {location : Location} {tokens : List Token} {part : Pending}
    {rest : List Pending} {unit : ClassUnit} {move : Move}
    (unread : ∀ token ∈ tokens.head?, part.take? unit token = none)
    (left : part.leave unit = .go move) :
    step (.ok location) ⟨tokens, part :: rest, unit⟩ = replace tokens rest none move := by
  -- Code that is due is emitted without a look at the tokens.
  cases part with
  | emit code => cases left; cases tokens <;> rfl
  | _ =>
    cases tokens with
    | nil => simp [step, left]
    | cons token tokens => simp [step, unread token rfl, left]

/-- Leaving the first part is a step where no token belongs to it. -/
theorem Steps.leave {location : Location} {tokens : List Token} {part : Pending}
    {rest : List Pending} {unit : ClassUnit} {move : Move}
    (unread : ∀ token ∈ tokens.head?, part.take? unit token = none)
    (left : part.leave unit = .go move)
    (steps : Steps (.ok location) ⟨tokens, move.pending ++ rest, move.unit⟩ more last) :
    Steps (.ok location) ⟨tokens, part :: rest, unit⟩ (move.code ++ more) last :=
  .head (step_leave unread left) steps

/-- A compilation is complete once nothing is pending and the source ends without a fault. -/
theorem step_eq_done_iff :
    first.step ending = .done ↔
      ∃ after location, ending = .ok location ∧ first = ⟨[], [], after⟩ := by
  -- All other states go on or fail.
  constructor
  · intro finished
    unfold step at finished
    split at finished
    · cases finished
    · split at finished
      · cases finished
      · cases finished
      · split at finished <;> cases finished
    · split at finished
      · cases finished
      · split at finished <;> cases finished
    · cases finished
    · rename_i after
      split at finished
      · cases finished
      · exact ⟨after, _, rfl, rfl⟩
  · rintro ⟨after, location, rfl, rfl⟩
    rfl

/-- A run goes on from wherever some steps lead, with their code behind the code before them. -/
theorem run_eq_of_steps (steps : Steps ending first code last) (emitted : Array Command) :
    first.run ending emitted = last.run ending (emitted ++ code) := by
  -- Each step adds its code to what is emitted so far.
  induction steps generalizing emitted with
  | refl compilation => simp
  | @head _ _ _ _ code more went _ ih =>
    have same : emitted ++ code ++ more = emitted ++ (code ++ more) :=
      Array.toList_inj.mp (by simp)
    rw [run]
    split <;> simp_all

/-- A run succeeds exactly when steps lead to the end of a class in a well-formed source. -/
theorem run_eq_ok_iff {emitted : Array Command} {result : List Command} :
    first.run ending emitted = .ok result ↔
      ∃ code after location, ending = .ok location ∧ result = emitted.toList ++ code ∧
        Steps ending first code ⟨[], [], after⟩ := by
  constructor
  · intro ran
    -- The run is followed step by step until nothing is pending.
    fun_induction run ending first emitted with
    | case1 first emitted taken? code next went ih =>
      obtain ⟨more, after, location, ended, same, steps⟩ := ih ran
      exact ⟨code ++ more, after, location, ended, by simp [same], .head went steps⟩
    | case2 first emitted finished =>
      obtain ⟨after, location, ended, rfl⟩ := step_eq_done_iff.mp finished
      exact ⟨[], after, location, ended, by simpa using ran.symm, .refl _⟩
    | case3 first emitted fault failed => cases ran
  · rintro ⟨code, after, location, rfl, rfl, steps⟩
    have finished : step (.ok location) ⟨[], [], after⟩ = .done := rfl
    rw [run_eq_of_steps steps, run]
    split <;> simp_all

end Compilation

end JackCompiler
