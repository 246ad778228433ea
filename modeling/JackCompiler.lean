import JackCompiler.CommandLine.FileTree
import JackCompiler.CommandLine.Run
import JackCompiler.Main
import JackCompiler.Proofs.Compilation.Correctness
import JackCompiler.Proofs.Lowering.Discipline
import JackCompiler.Proofs.Machine.Statement
import JackCompiler.Token.Stream
import JackCompiler.Proofs.Lowering.Jumps
import JackCompiler.Proofs.Lowering.Emission
import JackCompiler.Proofs.Lowering.Frames
import JackCompiler.Proofs.Compilation.Alike
import JackCompiler.Proofs.Compilation.Independence
import JackCompiler.Proofs.Token.Decomposition
import JackCompiler.Proofs.Symbol.History
import JackCompiler.Proofs.Symbol.Resolution
import JackCompiler.Proofs.Token.Results
import JackCompiler.Proofs.Token.Placement
import JackCompiler.Proofs.Token.Lookahead
import JackCompiler.Proofs.Token.Formed
import JackCompiler.Proofs.Compilation.Layout
import JackCompiler.Proofs.Vm.Decoding
import JackCompiler.Proofs.Lowering.Names
import JackCompiler.Proofs.Lowering.Operands
import JackCompiler.Proofs.Checked.Safety
import JackCompiler.Proofs.Compilation.Faults
import JackCompiler.Proofs.Compilation.Phrases
import JackCompiler.Proofs.Compilation.Viability
import JackCompiler.Proofs.Compilation.FaultPlaces
import JackCompiler.Proofs.Compilation.OnDemand
import JackCompiler.Proofs.CommandLine.Directory
import JackCompiler.Proofs.Token.Resumption
import JackCompiler.Proofs.Token.Printing
import JackCompiler.Proofs.Token.Respelling
import JackCompiler.Proofs.Tree.Renaming
import JackCompiler.Proofs.Lowering.Renaming
import JackCompiler.Proofs.Compilation.Renaming
