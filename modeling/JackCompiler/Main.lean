import JackCompiler.CommandLine.Run

/-! The compiler as a program, on the files and the output of the system. -/

namespace JackCompiler

/-- The fault that an error of the system stands for. -/
def FileFault.ofError : IO.Error → FileFault
  | .noFileOrDirectory .. => .notFound
  | .inappropriateType _ code _ =>
    -- Of the two errors of this form, the system numbers one 21, and some calls negate the number.
    if code = 21 ∨ 0 - code = 21 then .isDirectory else .notDirectory
  | error => .other error.toString

/-- The outcome of an action, with its error as a fault. -/
def attempt {α : Type} (action : IO α) : IO (Except FileFault α) := do
  try return .ok (← action)
  catch error => return .error (.ofError error)

/-- The text of a path, as the calls of the system take it. -/
def textOfPath (path : Path) : IO String :=
  match String.fromUTF8? path.bytes.toByteArray with
  | some text => return text
  | none => throw (IO.userError s!"no text: {path.display}")

/-- The files and the output of the system, with a logger; an empty path names nothing. -/
def systemHost (logger : LogRecord → IO Unit) : Host IO where
  print := IO.print
  report := logger
  isDirectory path := do
    match ← attempt (textOfPath path) with
    | .error _ => return false
    | .ok text => if text.isEmpty then return false else ((← IO.currentDir) / text).isDir
  isFile path := do
    match ← attempt do ((← IO.currentDir) / (← textOfPath path)).metadata with
    | .ok data => return data.type == .file
    | .error _ => return false
  list path := attempt do
    let entries ← ((← IO.currentDir) / (← textOfPath path)).readDir
    return entries.toList.map fun entry => utf8 entry.fileName
  read path := attempt do IO.FS.readBinFile (← textOfPath path)
  write path text := attempt do IO.FS.writeFile (← textOfPath path) text

/-- A logger that writes what went well and what failed, and leaves the details out. -/
def writeReport (record : LogRecord) : IO Unit :=
  match record.level with
  | .error | .info => IO.println s!"[{record.target}] {record.message}"
  | .debug | .trace => return

end JackCompiler

/-- Runs the compiler on the files of the system. -/
def main (arguments : List String) : IO UInt32 := do
  let host := JackCompiler.systemHost JackCompiler.writeReport
  let code ← JackCompiler.CommandLine.run host (arguments.map JackCompiler.utf8)
  return code.toUInt32
