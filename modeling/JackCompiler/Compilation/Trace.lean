import JackCompiler.Compilation.Basic

/-! The course of a compilation, event by event. -/

namespace JackCompiler

/-- Something that happens while a class is compiled. -/
inductive Event where
  /-- A token is looked at for the first time. -/
  | token (token : Token)
  | startClass (name : String)
  | startSubroutine (kind : SubroutineKind) (className name : String)
  | command (command : Command)

namespace Compilation

/-- The token that the next step looks at. -/
def lookedAt? (compilation : Compilation) : Option Token :=
  if compilation.looks then compilation.tokens.head? else none

/-- The beginning of a class or of a subroutine, which the token taken for its name announces. -/
def announcement? (compilation : Compilation) (taken? : Option Token) : Option Event := do
  let name ← (← taken?).kind.identifier?
  match ← compilation.pending.head? with
  | .className => some (.startClass name)
  | .subroutineName kind _ => some (.startSubroutine kind compilation.unit.name name)
  | _ => none

/-- The events of a compilation after those before it, when its next token may be known already. -/
def trace (ending : Except Fault Location) (known : Bool) (compilation : Compilation)
    (events : Array Event) : Array Event :=
  let look? := if known then none else compilation.lookedAt?
  let events := events ++ (look?.map Event.token).toList
  match _ : compilation.step ending with
  | .go taken? code next =>
    let events := events ++ (compilation.announcement? taken?).toList ++ code.map Event.command
    trace ending (taken?.isNone && (known || compilation.looks)) next events
  | .done | .fail _ => events
termination_by compilation.potential
decreasing_by exact potential_step ‹_›

end Compilation

end JackCompiler
