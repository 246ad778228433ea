import JackCompiler.Proofs.Lowering.Class

/-! Where the statements of a class stand in its code. -/

namespace JackCompiler

/-- The inner statements are blocks of the outer ones, or the last statements of such a block: their
code, with labels numbered from the second number on, stands between the two pieces of code. -/
inductive Statements.Contains (context : Context) :
    (next : Nat) → (outer : Statements) → (before : List Command) → (number : Nat) →
      (inner : Statements) → (behind : List Command) → Prop where
  | whole (next : Nat) (statements : Statements) :
      Contains context next statements [] next statements []
  | later {next number : Nat} {first : Statement} {rest inner : Statements}
      {before behind : List Command}
      (inside : Contains context (next + first.labels) rest before number inner behind) :
      Contains context next (.cons first rest) (first.code context next ++ before) number inner
        behind
  | ifThen {next number : Nat} {condition : Expression} {body rest inner : Statements}
      {before behind : List Command}
      (inside : Contains context (next + 1) body before number inner behind) :
      Contains context next (.cons (.ifThen condition body) rest)
        (condition.code context ++ .operate .not :: .ifGoto (context.label next) :: before) number
        inner
        (behind ++ .label (context.label next) :: rest.code context (next + (body.labels + 1)))
  | ifThenElse {next number : Nat} {condition : Expression}
      {body otherwise rest inner : Statements} {before behind : List Command}
      (inside : Contains context (next + 1) body before number inner behind) :
      Contains context next (.cons (.ifThenElse condition body otherwise) rest)
        (condition.code context ++ .operate .not :: .ifGoto (context.label next) :: before) number
        inner
        (behind ++ .goto (context.label (next + 1 + body.labels)) :: .label (context.label next) ::
          otherwise.code context (next + 1 + body.labels + 1) ++
          .label (context.label (next + 1 + body.labels)) ::
          rest.code context (next + (body.labels + otherwise.labels + 2)))
  | otherwise {next number : Nat} {condition : Expression}
      {body otherwise rest inner : Statements} {before behind : List Command}
      (inside : Contains context (next + 1 + body.labels + 1) otherwise before number inner
        behind) :
      Contains context next (.cons (.ifThenElse condition body otherwise) rest)
        (condition.code context ++ .operate .not :: .ifGoto (context.label next) ::
          body.code context (next + 1) ++ .goto (context.label (next + 1 + body.labels)) ::
          .label (context.label next) :: before) number inner
        (behind ++ .label (context.label (next + 1 + body.labels)) ::
          rest.code context (next + (body.labels + otherwise.labels + 2)))
  | whileDo {next number : Nat} {condition : Expression} {body rest inner : Statements}
      {before behind : List Command}
      (inside : Contains context (next + 2) body before number inner behind) :
      Contains context next (.cons (.whileDo condition body) rest)
        (.label (context.label next) :: condition.code context ++
          .operate .not :: .ifGoto (context.label (next + 1)) :: before) number inner
        (behind ++ .goto (context.label next) :: .label (context.label (next + 1)) ::
          rest.code context (next + (body.labels + 2)))

namespace Statements.Contains

variable {context : Context} {next number : Nat} {outer inner : Statements}
  {before behind : List Command}

/-- The code of the outer statements is that of the inner ones with the code around it. -/
theorem code_eq (contains : Contains context next outer before number inner behind) :
    outer.code context next = before ++ inner.code context number ++ behind := by
  -- The code around the inner statements grows with each step from the inside out.
  induction contains with
  | whole next statements => simp
  | later _ ih => simp [Statements.code, ih]
  | ifThen _ ih | ifThenElse _ ih | otherwise _ ih | whileDo _ ih =>
    simp [Statements.code, Statement.code, Statement.labels, ih]

/-- Statements inside of lawful ones are lawful. -/
theorem lawful (contains : Contains context next outer before number inner behind)
    (lawful : outer.Lawful context) : inner.Lawful context := by
  -- Every part of a lawful statement is lawful.
  induction contains with
  | whole next statements => exact lawful
  | later _ ih => exact ih lawful.2
  | ifThen _ ih => exact ih lawful.1.2
  | ifThenElse _ ih => exact ih lawful.1.2.1
  | otherwise _ ih => exact ih lawful.1.2.2
  | whileDo _ ih => exact ih lawful.1.2

/-- Statements inside of inner statements stand inside of the outer ones, too. -/
theorem trans {number' : Nat} {innermost : Statements} {first last : List Command}
    (contains : Contains context next outer before number inner behind)
    (inside : Contains context number inner first number' innermost last) :
    Contains context next outer (before ++ first) number' innermost (last ++ behind) := by
  -- The way to the inner statements is followed, and then the way from there on.
  induction contains with
  | whole next statements =>
    rw [List.append_nil]
    exact inside
  | later _ ih =>
    rw [List.append_assoc]
    exact .later (ih inside)
  | ifThen _ ih => simpa using Contains.ifThen (ih inside)
  | ifThenElse _ ih => simpa using Contains.ifThenElse (ih inside)
  | otherwise _ ih => simpa using Contains.otherwise (ih inside)
  | whileDo _ ih => simpa using Contains.whileDo (ih inside)

end Statements.Contains

namespace ClassTree

/-- The number of labels that subroutines take. -/
def labelsOf : List SubroutineTree → Nat
  | [] => 0
  | subroutine :: rest => subroutine.body.labels + labelsOf rest

/-- The statements stand in a subroutine of the class, between two pieces of the class's code. -/
def Contains (tree : ClassTree) (subroutine : SubroutineTree) (before : List Command)
    (number : Nat) (inner : Statements) (behind : List Command) : Prop :=
  ∃ (earlier later : List SubroutineTree) (first last : List Command),
    tree.subroutines = earlier ++ subroutine :: later ∧
    subroutine.body.Contains (tree.context subroutine) (labelsOf earlier) first number inner last ∧
    before = (tree.blocks 0 earlier).flatten ++ tree.opening subroutine ++ first ∧
    behind = last ++ (tree.blocks (labelsOf earlier + subroutine.body.labels) later).flatten

/-- The code of subroutines may be read in two parts. -/
theorem blocks_append (tree : ClassTree) (earlier later : List SubroutineTree) (next : Nat) :
    tree.blocks next (earlier ++ later) =
      tree.blocks next earlier ++ tree.blocks (next + labelsOf earlier) later := by
  -- The labels of the later subroutines start behind those of the earlier ones.
  induction earlier generalizing next with
  | nil => rfl
  | cons subroutine rest ih => simp [blocks, labelsOf, ih, Nat.add_assoc]

variable {tree : ClassTree} {subroutine : SubroutineTree} {before behind : List Command}
  {number : Nat} {inner : Statements}

/-- The code of a class is that of the statements with the code around it. -/
theorem Contains.code_eq (contains : tree.Contains subroutine before number inner behind) :
    tree.code = before ++ inner.code (tree.context subroutine) number ++ behind := by
  -- The code of the class is split at the subroutine, and that of its body at the statements.
  obtain ⟨earlier, later, first, last, same, inside, rfl, rfl⟩ := contains
  rw [code, same, blocks_append, Nat.zero_add, blocks, inside.code_eq]
  simp

/-- Statements inside of statements of a class stand in the class, too. -/
theorem Contains.inside {number' : Nat} {innermost : Statements} {first last : List Command}
    (contains : tree.Contains subroutine before number inner behind)
    (inside : inner.Contains (tree.context subroutine) number first number' innermost last) :
    tree.Contains subroutine (before ++ first) number' innermost (last ++ behind) := by
  -- The subroutine and what stands around it stay the same.
  obtain ⟨earlier, later, outer, rest, same, contains, rfl, rfl⟩ := contains
  exact ⟨earlier, later, outer ++ first, last ++ rest, same, contains.trans inside, by simp,
    by simp⟩

/-- Statements inside of a lawful class are lawful. -/
theorem Contains.lawful (contains : tree.Contains subroutine before number inner behind)
    (lawful : tree.Lawful) : inner.Lawful (tree.context subroutine) := by
  -- The body of the subroutine is lawful, and the statements are part of it.
  obtain ⟨earlier, later, first, last, same, inside, -, -⟩ := contains
  have member : subroutine ∈ tree.subroutines := by simp [same]
  exact inside.lawful (lawful.bodies subroutine member)

end ClassTree

end JackCompiler
