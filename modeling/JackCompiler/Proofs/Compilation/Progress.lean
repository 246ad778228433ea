import JackCompiler.Proofs.Compilation.Steps
import Mathlib.Algebra.GroupWithZero.Nat

/-! Every rule of the grammar takes tokens or was not needed, and no loop turns without a token. -/

namespace JackCompiler

namespace Pending

/-- The least number of tokens that a part is read for. -/
def demand : Pending → Nat
  | .emit _ | .statements | .elseBranch _ | .nameRest .. | .operators => 0
  | _ => 1

/-- Parts that wait for one another are read for their own tokens each. -/
def totalDemand (pending : List Pending) : Nat := (pending.map demand).sum

/-- No part requires more than one token by itself. -/
theorem demand_le_one (part : Pending) : part.demand ≤ 1 := by
  cases part <;> simp [demand]

/-- A part requires its tokens besides those of the parts behind it. -/
@[simp] theorem totalDemand_cons (part : Pending) (rest : List Pending) :
    totalDemand (part :: rest) = part.demand + totalDemand rest := rfl

/-- Parts placed before others require their tokens besides those of the others. -/
@[simp] theorem totalDemand_append (first rest : List Pending) :
    totalDemand (first ++ rest) = totalDemand first + totalDemand rest := by
  simp [totalDemand]

/-- The parts in the place of one that takes no token require what that did. -/
theorem demand_le_of_leave {unit : ClassUnit} {part : Pending} {move : Move}
    (left : part.leave unit = .go move) : part.demand ≤ totalDemand move.pending := by
  -- Parts that may be left out require nothing, and the others hand on what they require.
  cases part <;> simp only [leave, Leave.go.injEq, reduceCtorEq] at left
  case emit | statements | elseBranch | nameRest | operators => exact Nat.zero_le _
  all_goals
    subst left
    simp [demand, totalDemand, expression, assignment]

end Pending

namespace Compilation

open Pending (totalDemand totalWeight)

variable {ending : Except Fault Location} {first next last : Compilation} {taken? : Option Token}
  {code : List Command}

/-- A step takes the next token or none, and no fewer tokens than are no longer required. -/
theorem step_tokens (went : first.step ending = .go taken? code next) :
    next.tokens <:+ first.tokens ∧ totalDemand first.pending + next.tokens.length ≤
      totalDemand next.pending + first.tokens.length := by
  obtain ⟨part, rest, move, pending, -, after, -, taken | left⟩ := step_cases went
  · -- The token makes up for the part that took it, which required no more than one.
    obtain ⟨token, -, split, -⟩ := taken
    have single := part.demand_le_one
    refine ⟨⟨[token], split.symm⟩, ?_⟩
    rw [pending, after, split, Pending.totalDemand_cons, Pending.totalDemand_append,
      List.length_cons]
    omega
  · -- Without a token no requirement is dropped.
    obtain ⟨-, same, left⟩ := left
    have least := Pending.demand_le_of_leave left
    refine ⟨same ▸ List.suffix_refl _, ?_⟩
    rw [pending, after, same, Pending.totalDemand_cons, Pending.totalDemand_append]
    omega

/-- Steps take the first of the tokens, and no fewer than are no longer required. -/
theorem Steps.tokens (steps : Steps ending first code last) :
    last.tokens <:+ first.tokens ∧ totalDemand first.pending + last.tokens.length ≤
      totalDemand last.pending + first.tokens.length := by
  -- Requirements and tokens are balanced in each step, and so over all of them.
  induction steps with
  | refl compilation => exact ⟨List.suffix_refl _, Nat.le_refl _⟩
  | head went _ ih =>
    obtain ⟨suffix, least⟩ := step_tokens went
    exact ⟨ih.1.trans suffix, by omega⟩

/-- Steps leave fewer steps to go. -/
theorem Steps.potential_le (steps : Steps ending first code last) :
    last.potential ≤ first.potential := by
  induction steps with
  | refl compilation => exact Nat.le_refl _
  | head went _ ih => exact Nat.le_trans ih (Nat.le_of_lt (potential_step went))

/-- At least one step leads from one compilation to another. -/
def Advances (ending : Except Fault Location) (first last : Compilation) : Prop :=
  ∃ taken? code next more, first.step ending = .go taken? code next ∧ Steps ending next more last

/-- What is at least as heavy as before is only reached by taking a token. -/
theorem Advances.takes (advances : Advances ending first last)
    (heavy : totalWeight first.pending ≤ totalWeight last.pending) :
    last.tokens.length < first.tokens.length := by
  -- The steps that are left are counted by the tokens and by the weight of what is pending.
  obtain ⟨taken?, code, next, more, went, steps⟩ := advances
  have fewer := Nat.lt_of_le_of_lt steps.potential_le (potential_step went)
  refine Nat.lt_of_not_le fun none => ?_
  have kept := Nat.mul_le_mul_left Pending.tokenWeight none
  simp only [potential] at fewer
  omega

end Compilation

/-- The rules of the grammar: each reads the parts that it opens with, down to those that are left
when it closes. -/
inductive Rule where
  | term
  | expression
  /-- One of several statements. -/
  | statement
  /-- Statements, as many as there are. -/
  | statements
  | block
  /-- The rest of a call behind the name with which it starts. -/
  | call (name : String) (location : Location)
  /-- The arguments of a call, up to their closing parenthesis. -/
  | arguments (target : String) (passed : Nat)
  /-- One declaration of variables of a class. -/
  | classVariables
  /-- One declaration of local variables. -/
  | localVariables
  /-- The type and the names of a declaration, up to its semicolon. -/
  | variables (kind : SymbolKind)
  /-- The parameters of a subroutine, up to their closing parenthesis. -/
  | parameters
  /-- One subroutine. -/
  | subroutine
  /-- The local variables and the statements of a subroutine, up to its closing brace. -/
  | body

namespace Rule

/-- The parts with which a rule starts. -/
def opens : Rule → List Pending
  | .term => [.term]
  | .expression => Pending.expression
  | .statement | .statements => [.statements]
  | .block => Pending.block
  | .call name location => [.callRest name location]
  | .arguments target passed => [.arguments target passed]
  | .classVariables => [.classVariables]
  | .localVariables | .body => [.localVariables]
  | .variables kind => [.variableType kind]
  | .parameters => [.parameters]
  | .subroutine => [.subroutines]

/-- The parts that are left when a rule has been read: one of several is followed by the others. -/
def closes : Rule → List Pending
  | .statement => [.statements]
  | .classVariables => [.classVariables]
  | .localVariables => [.localVariables]
  | .subroutine => [.subroutines]
  | _ => []

/-- A rule has been read: at least one step leads from the parts with which it starts to those that
are left, in front of whatever follows the rule. -/
def Reads (rule : Rule) (ending : Except Fault Location) (tokens left : List Token) : Prop :=
  ∃ rest unit after, Compilation.Advances ending ⟨tokens, rule.opens ++ rest, unit⟩
    ⟨left, rule.closes ++ rest, after⟩

/-- A rule that has been read has taken tokens, if it is not the one that may match nothing. -/
theorem Reads.takes {rule : Rule} {ending : Except Fault Location} {tokens left : List Token}
    (reads : rule.Reads ending tokens left) :
    left.length < tokens.length ∨ rule = .statements ∧ left = tokens := by
  obtain ⟨rest, unit, after, advances⟩ := reads
  obtain ⟨taken?, code, next, more, went, steps⟩ := advances
  obtain ⟨suffix, least⟩ := (Compilation.Steps.head went steps).tokens
  simp only [Pending.totalDemand_append] at least
  cases rule
  case statements =>
    -- What is left are the last of the tokens, and all of them if none is missing.
    rcases Nat.lt_or_ge left.length tokens.length with fewer | all
    · exact .inl fewer
    · exact .inr ⟨rfl, suffix.eq_of_length_le all⟩
  case statement | classVariables | localVariables | subroutine =>
    -- One of several leaves what it started with, which is only reached behind a token.
    exact .inl (Compilation.Advances.takes ⟨taken?, code, next, more, went, steps⟩ (Nat.le_refl _))
  -- The other rules require a token for the part with which they start.
  all_goals
    simp only [opens, closes, Pending.totalDemand, Pending.demand, Pending.expression,
      Pending.block, List.map_cons, List.map_nil, List.sum_cons, List.sum_nil] at least
    exact .inl (by omega)

end Rule

/-- The same part of a class is to be read once more, where arguments are counted on. -/
inductive Pending.Again : Pending → Pending → Prop
  | same (part : Pending) : Again part part
  | argumentEnd (target : String) (passed more : Nat) :
    Again (.argumentEnd target passed) (.argumentEnd target more)

/-- A part is not to be read once more, in front of the same other parts, before a token is
taken. -/
theorem Pending.Again.takes {part again : Pending} (repeats : part.Again again)
    {ending : Except Fault Location} {tokens left : List Token} {rest : List Pending}
    {unit after : ClassUnit}
    (advances : Compilation.Advances ending ⟨tokens, part :: rest, unit⟩
      ⟨left, again :: rest, after⟩) :
    left.length < tokens.length := by
  -- What is read once more weighs as much as before.
  cases repeats <;> exact advances.takes (Nat.le_refl _)

end JackCompiler
