import JackCompiler.Compile
import JackCompiler.CommandLine.Host

/-! Compiling files, and listing their tokens, from the command line. -/

namespace JackCompiler.CommandLine

/-- What the arguments ask for. -/
inductive Request where
  /-- Compiles a file, or every source in a directory. -/
  | compile (path : Path)
  | listTokens (path : Path)
  | usage
  /-- An argument that had to be read is no text. -/
  | unreadable
deriving DecidableEq

/-- The word that asks for a list of tokens. -/
def tokensWord : String := "tokens"

/-- The words that ask for the usage. -/
def helpWords : List String := ["-h", "--help", "help"]

namespace Request

/-- A request that no argument may follow. -/
def last (request : Request) : List ByteString → Request
  | [] => request
  | argument :: _ => if isText argument then .usage else .unreadable

/-- The request that arguments make, each of which must be a text when it is read. -/
def ofArguments : List ByteString → Request
  | [] => .usage
  | word :: arguments =>
    if !isText word then .unreadable
    else if word = utf8 tokensWord then
      match arguments with
      | [] => .usage
      | path :: arguments =>
        if isText path then last (.listTokens ⟨path⟩) arguments else .unreadable
    -- What follows a call for help is not read.
    else if word ∈ helpWords.map utf8 then .usage
    else last (.compile ⟨word⟩) arguments

end Request

/-- Why a request fails. -/
inductive Failure where
  | source (fault : Fault)
  | file (fault : FileFault)
  /-- The path is neither a source nor a directory. -/
  | notSource (path : Path)
  | uncompiled (count : Nat)

/-- The wording of a failure. -/
def Failure.message : Failure → String
  | .source fault => fault.diagnostic.text
  | .file fault => fault.message
  | .notSource path => s!"expected a .jack file or a directory: {path.display}"
  | .uncompiled count =>
    if count = 1 then "1 file failed to compile" else s!"{count} files failed to compile"

/-- The version of the program, and the arguments it takes. -/
def usage : String :=
  "\n".intercalate [
    "Jack compiler v0.1.0",
    "",
    "usage: jackc PATH",
    "       jackc tokens FILE",
    "",
    "commands:",
    "    PATH    Compile a .jack file, or every .jack file in a directory,",
    "            into .vm files placed next to the sources",
    "    tokens  Print the token stream of the target .jack file",
    "",
    "examples:",
    "    jackc Main.jack",
    "    jackc Pong/",
    "    jackc tokens Main.jack",
    "",
    ""]

/-- Sources are the files with this extension. -/
def sourceExtension : String := "jack"

/-- Programs are written to files with this extension. -/
def programExtension : String := "vm"

/-- Whether a path has the form of a source's. -/
def isSource (path : Path) : Bool := path.extension? == some (utf8 sourceExtension)

/-- The path of the program that a source is compiled to. -/
def programPath (path : Path) : Path :=
  path.replaceExtension (utf8 sourceExtension) (utf8 programExtension)

section

variable {m : Type → Type} [Monad m] (host : Host m)

/-- Compiles a source and writes its program beside it; a source with a fault leaves no trace. -/
def compileFile (path : Path) : m (Except Failure Path) := do
  match ← host.readText path with
  | .error fault => return .error (.file fault)
  | .ok source =>
    for event in compileEvents source do
      host.report (.ofEvent event)
    match compileToText source with
    | .error fault => return .error (.source fault)
    | .ok program =>
      let target := programPath path
      match ← host.write target program with
      | .error fault => return .error (.file fault)
      | .ok () => return .ok target

/-- The sources that a path stands for, in the order of their names. -/
def sources (path : Path) : m (Except Failure (List Path)) := do
  if ← host.isDirectory path then
    match ← host.list path with
    | .error fault => return .error (.file fault)
    | .ok names =>
      let candidates := (names.mergeSort fun a b => a ≤ b).map path.join |>.filter isSource
      return .ok (← candidates.filterM host.isFile)
  else if isSource path then return .ok [path]
  else return .error (.notSource path)

/-- Compiles sources one after the other, and gives the number of those that failed. -/
def compileAll : List Path → m Nat
  | [] => return 0
  | path :: paths => do
    let outcome ← compileFile host path
    host.report <| match outcome with
      | .ok target => .ofApplication .info s!"compiled {path.display} -> {target.display}"
      | .error failure => .ofApplication .error s!"{path.display}: {failure.message}"
    let failed ← compileAll paths
    return if outcome.isOk then failed else failed + 1

/-- Compiles the sources that a path stands for; a source that fails does not stop the others. -/
def compilePath (path : Path) : m (Except Failure Unit) := do
  match ← sources host path with
  | .error failure => return .error failure
  | .ok paths =>
    if paths.isEmpty then
      host.report <| .ofApplication .info s!"no .{sourceExtension} files in {path.display}"
    match ← compileAll host paths with
    | 0 => return .ok ()
    | failed => return .error (.uncompiled failed)

/-- Lists the tokens of a file, up to the first malformed one. -/
def listTokens (path : Path) : m (Except Failure Unit) := do
  match ← host.readText path with
  | .error fault => return .error (.file fault)
  | .ok source =>
    host.print (listingHeader ++ "\n")
    let scan := Scan.ofSource source
    for token in scan.tokens do
      host.report (.ofToken token)
      host.print (token.listing ((token.span.fragment? source).getD "") ++ "\n")
    match scan.fault? with
    | some fault => return .error (.source fault)
    | none => return .ok ()

/-- The exit code of a request that succeeds, of one that fails, and of one that is no request. -/
def exitCode : Except Failure Unit → Nat
  | .ok () => 0
  | .error (.notSource _) => 64
  | .error _ => 1

/-- The exit code of a program that stops at an argument which is no text. -/
def unreadableCode : Nat := 101

/-- Runs the program with the given arguments, and gives its exit code. -/
def run (arguments : List ByteString) : m Nat := do
  let outcome ← match Request.ofArguments arguments with
    | .unreadable => return unreadableCode
    | .usage =>
      host.print usage
      return 64
    | .compile path => compilePath host path
    | .listTokens path => listTokens host path
  if let .error failure := outcome then
    host.report (.ofApplication .error s!"application error: {failure.message}")
    if let .notSource _ := failure then host.print usage
  return exitCode outcome

end

end JackCompiler.CommandLine
