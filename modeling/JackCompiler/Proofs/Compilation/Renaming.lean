import JackCompiler.Proofs.Compilation.Correctness
import JackCompiler.Proofs.Lowering.Renaming

/-! A variable of a subroutine may be given another name without any change to the code. -/

namespace JackCompiler

variable {source : String} {tree : ClassTree}

/-- The tokens of a class that is spelled can be written. -/
theorem Spells.formed (spells : Spells source tree) : ∀ kind ∈ tree.kinds, kind.Formed :=
  spells.2 ▸ Scan.formed source

/-- A source in which the variables of a subroutine are given other names spells the class in which
they have these names. -/
theorem Spells.respell (spells : Spells source tree) (index : Nat) {rename : String → String}
    (keeps : KeepsNames rename) :
    Spells (respell source (tree.rename index rename).kinds) (tree.rename index rename) :=
  splits_respell spells.1 spells.2 (tree.respells keeps index)

end JackCompiler
