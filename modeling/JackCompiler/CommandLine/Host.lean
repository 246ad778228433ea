import JackCompiler.CommandLine.Log
import JackCompiler.CommandLine.Path

/-! What a command line needs of the system it runs on. -/

namespace JackCompiler

/-- Why a file cannot be read or written. -/
inductive FileFault where
  | notFound
  /-- The path goes on below something that is no directory. -/
  | notDirectory
  | isDirectory
  | notText
  | other (message : String)
deriving DecidableEq

/-- The wording of a file fault. -/
def FileFault.message : FileFault → String
  | .notFound => "No such file or directory (os error 2)"
  | .notDirectory => "Not a directory (os error 20)"
  | .isDirectory => "Is a directory (os error 21)"
  | .notText => "stream did not contain valid UTF-8"
  | .other message => message

/-- Files, a place for output and a logger, whatever they are. -/
structure Host (m : Type → Type) where
  /-- Writes to the standard output. -/
  print : String → m Unit
  /-- Hands a report to the logger, which decides whether and how it is shown. -/
  report : LogRecord → m Unit
  isDirectory : Path → m Bool
  isFile : Path → m Bool
  /-- The names in a directory, in any order. -/
  list : Path → m (Except FileFault (List ByteString))
  read : Path → m (Except FileFault ByteArray)
  /-- Replaces the content of a file, or makes the file. -/
  write : Path → String → m (Except FileFault Unit)

namespace Host

/-- The content of a file that holds text. -/
def readText {m : Type → Type} [Monad m] (host : Host m) (path : Path) :
    m (Except FileFault String) := do
  match ← host.read path with
  | .error fault => return .error fault
  | .ok bytes =>
    match String.fromUTF8? bytes with
    | some text => return .ok text
    | none => return .error .notText

end Host

end JackCompiler
