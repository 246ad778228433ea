import JackCompiler.Compilation.Trace
import JackCompiler.Vm.Program

/-! Compiling the source of one class. -/

namespace JackCompiler

/-- The machine commands of the class in a source, or the first fault of the source. -/
def compile (source : String) : Except Fault (List Command) :=
  let scan := Scan.ofSource source
  (Compilation.start scan.tokens).run scan.ending #[]

/-- The machine program of the class in a source. -/
def compileToText (source : String) : Except Fault String := (compile source).map renderProgram

/-- What happens while the class in a source is compiled, up to its end or its first fault. -/
def compileEvents (source : String) : List Event :=
  let scan := Scan.ofSource source
  ((Compilation.start scan.tokens).trace scan.ending false #[]).toList

end JackCompiler
