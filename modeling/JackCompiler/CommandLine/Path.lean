import JackCompiler.Text.Bytes

/-! Paths of files, as bytes with slashes. -/

namespace JackCompiler

/-- A path as it was written. -/
structure Path where
  bytes : ByteString
deriving DecidableEq

namespace Path

/-- The byte between two names of a path. -/
def slash : UInt8 := 0x2F

/-- The byte before an extension. -/
def dot : UInt8 := 0x2E

/-- The name by which a directory calls itself. -/
def here : ByteString := [dot]

/-- The name by which a directory calls the one that it is in. -/
def parent : ByteString := [dot, dot]

/-- The text that is shown for a path. -/
def display (path : Path) : String := displayText path.bytes

/-- The names between the slashes of a path; two slashes have an empty name between them. -/
def names (path : Path) : List ByteString := path.bytes.splitOn slash

/-- The file a path names, unless the path ends in a parent directory or names nothing. -/
def fileName? (path : Path) : Option ByteString :=
  -- Empty names and single dots stay where they are, so the name before them counts.
  match (path.names.filter fun name => name ≠ [] ∧ name ≠ here).getLast? with
  | some name => if name = parent then none else some name
  | none => none

/-- What follows the last dot of a name, unless nothing stands before that dot. -/
def extensionOfName? (name : ByteString) : Option ByteString :=
  let (extension, before) := name.reverse.span (· ≠ dot)
  match before with
  | _ :: _ :: _ => some extension.reverse
  | _ => none

/-- The extension of the file a path names. -/
def extension? (path : Path) : Option ByteString := path.fileName?.bind extensionOfName?

/-- The path of a file in a directory; a slash is put between unless there is one or no path. -/
def join (path : Path) (name : ByteString) : Path :=
  if path.bytes.getLast?.all (· = slash) then ⟨path.bytes ++ name⟩
  else ⟨path.bytes ++ slash :: name⟩

/-- The path with another extension, for a path that ends in the one given first. -/
def replaceExtension (path : Path) (old new : ByteString) : Path :=
  let stem : Path := ⟨path.bytes.take (path.bytes.length - old.length)⟩
  -- Two dots that are left over name the parent directory, which takes no extension.
  if stem.fileName?.isSome then ⟨stem.bytes ++ new⟩ else stem

end Path

end JackCompiler
