import JackCompiler.Proofs.Compilation.ClassCompleteness
import JackCompiler.Proofs.Compilation.Declarations

/-! Compiling a source is parsing it to a tree, checking the tree and lowering it. -/

namespace JackCompiler

/-- The source is split into tokens without a fault, and they are the tokens of the class. -/
def Spells (source : String) (tree : ClassTree) : Prop :=
  (Scan.ofSource source).fault? = none ∧ (Scan.ofSource source).tokens.map Token.kind = tree.kinds

/-- A source spells at most one class. -/
theorem Spells.unique {source : String} {tree other : ClassTree} (spells : Spells source tree)
    (spellsOther : Spells source other) : tree = other :=
  ClassTree.eq_of_kinds (spells.2.symm.trans spellsOther.2)

/-- A source that spells a class spells no other one. -/
theorem Spells.iff_eq {source : String} {tree : ClassTree} (spells : Spells source tree)
    (other : ClassTree) : Spells source other ↔ other = tree := by
  constructor
  · intro spellsOther
    exact spellsOther.unique spells
  · rintro rfl
    exact spells

/-- A source ends well exactly when it is split into tokens without a fault. -/
theorem Scan.ending_eq_ok_iff (scan : Scan) :
    (∃ location, scan.ending = .ok location) ↔ scan.fault? = none := by
  -- The end of a source is where its last token ends, unless splitting it failed.
  unfold ending
  cases scan.fault? with
  | none => exact ⟨fun _ => rfl, fun _ => ⟨_, rfl⟩⟩
  | some fault => exact ⟨nofun, nofun⟩

namespace Compilation

/-- The parts of a class are read for the tree of a class whose declarations are accepted. -/
theorem reads_start {kinds : List TokenKind} {code : List Command} {after : ClassUnit}
    {tokens : List Token}
    (reads : Pending.ReadsAll (start tokens).pending (start tokens).unit kinds code after) :
    ∃ tree : ClassTree, kinds = tree.kinds ∧ tree.Lawful ∧ tree.code = code := by
  -- Four parts are pending at the start: the keyword, the name, the brace and the variables.
  cases reads with
  | cons word others =>
    obtain ⟨rfl, rfl, rfl⟩ := word
    cases others with
    | cons named others =>
      obtain ⟨name, rfl, rfl, rfl⟩ := named
      obtain ⟨_, rfl, inside⟩ := others.of_symbol
      obtain ⟨classVariables, subroutines, next, rfl, declares, compiled⟩ := inside.of_single
      have lawful := (ClassUnit.compilesClass_iff ⟨name, classVariables, subroutines⟩ _).mp
        ⟨next, after, declares, compiled⟩
      exact ⟨⟨name, classVariables, subroutines⟩, by simp [ClassTree.kinds], lawful⟩

/-- A class starts with its keyword, its name and its opening brace. -/
theorem takes_header (name : String) (rest : List TokenKind) :
    Pending.Takes [.keyword .«class», .className, .symbol '{'] {}
      [.keyword .«class», .identifier name, .symbol '{'] [] { name } rest := by
  -- The three parts take one token each.
  have word : ∀ rest, Pending.Takes [.keyword .«class»] {} [.keyword .«class»] [] {} rest :=
    fun rest => .only fun token spelled => by simp [Pending.take?, spelled]
  have named : ∀ rest, Pending.Takes [.className] {} [.identifier name] [] { name } rest :=
    fun rest => .only fun token spelled => by simp [Pending.take?, spelled, TokenKind.identifier?]
  exact (word _).append ((named _).append (Pending.Takes.nil.symbol '{'))

/-- The tokens of a lawful class are taken for the parts of a class. -/
theorem takes_start {tree : ClassTree} (lawful : tree.Lawful) (tokens : List Token) :
    ∃ after, Pending.Takes (start tokens).pending (start tokens).unit tree.kinds tree.code after
      [] := by
  -- Behind the header, the variables are taken and then the subroutines.
  obtain ⟨next, after, declares, compiled⟩ :=
    (ClassUnit.compilesClass_iff tree tree.code).mpr ⟨lawful, rfl⟩
  have brace : ∀ kind ∈ [TokenKind.symbol '}'].head?,
      ¬(kind = .keyword .static ∨ kind = .keyword .field) := by simp
  have inside : Pending.Takes _ _ _ _ after [] := Pending.takes_classVariables declares
    (Pending.takes_subroutines compiled)
    (by simpa using SubroutineTree.head_ne_variables tree.subroutines brace)
  exact ⟨after, by simpa [start, ClassTree.kinds] using (takes_header tree.name _).append inside⟩

end Compilation

/-- A source is accepted exactly when it spells a lawful class, which gives the code. -/
theorem compile_eq_ok_iff (source : String) (code : List Command) :
    compile source = .ok code ↔
      ∃ tree : ClassTree, Spells source tree ∧ tree.Lawful ∧ tree.code = code := by
  unfold compile
  rw [Compilation.run_eq_ok_iff]
  constructor
  -- What the steps of the run have taken is a tree, and its code is theirs.
  · rintro ⟨code, after, location, ended, rfl, steps⟩
    obtain ⟨kinds, spelled, reads⟩ := steps.reads rfl
    obtain ⟨tree, rfl, lawful, rfl⟩ := Compilation.reads_start reads
    refine ⟨tree, ⟨(Scan.ending_eq_ok_iff _).mp ⟨location, ended⟩, ?_⟩, lawful, by simp⟩
    simpa [Compilation.start] using spelled
  -- The tokens of the tree are taken to their end, and then the run is complete.
  · rintro ⟨tree, ⟨sound, spelled⟩, lawful, rfl⟩
    obtain ⟨location, ended⟩ := (Scan.ending_eq_ok_iff _).mpr sound
    obtain ⟨after, takes⟩ := Compilation.takes_start lawful (Scan.ofSource source).tokens
    obtain ⟨left, none, steps⟩ :=
      takes location (Scan.ofSource source).tokens [] (by simp [spelled])
    obtain rfl : left = [] := List.map_eq_nil_iff.mp none
    rw [ended]
    refine ⟨tree.code, after, location, rfl, by simp, ?_⟩
    rw [List.append_nil] at steps
    exact steps

/-- The compiler parses a source to its only tree, checks the tree and lowers it. -/
theorem compile_eq_ok_iff_unique_tree (source : String) (code : List Command) :
    compile source = .ok code ↔
      ∃ tree : ClassTree, (Spells source tree ∧ ∀ other, Spells source other → other = tree) ∧
        tree.Lawful ∧ tree.code = code := by
  -- The tokens determine the tree, so the tree that is found is the only one.
  rw [compile_eq_ok_iff]
  constructor
  · rintro ⟨tree, spells, lawful, coded⟩
    exact ⟨tree, ⟨spells, fun other spellsOther => spellsOther.unique spells⟩, lawful, coded⟩
  · rintro ⟨tree, ⟨spells, -⟩, lawful, coded⟩
    exact ⟨tree, spells, lawful, coded⟩

end JackCompiler
