import JackCompiler.CommandLine.Run
import JackCompiler.Proofs.CommandLine.Bytes
import Mathlib.Data.List.TakeDrop

/-! The names in the path of a source, and the path of its program. -/

namespace JackCompiler

/-- Bytes that an entry of a directory can have as its name. -/
structure IsFileName (name : ByteString) : Prop where
  nonempty : name ≠ []
  notHere : name ≠ Path.here
  notParent : name ≠ Path.parent
  noSlash : Path.slash ∉ name

instance (name : ByteString) : Decidable (IsFileName name) :=
  decidable_of_iff (name ≠ [] ∧ name ≠ Path.here ∧ name ≠ Path.parent ∧ Path.slash ∉ name)
    ⟨fun ⟨nonempty, notHere, notParent, noSlash⟩ => ⟨nonempty, notHere, notParent, noSlash⟩,
      fun ⟨nonempty, notHere, notParent, noSlash⟩ => ⟨nonempty, notHere, notParent, noSlash⟩⟩

namespace Path

/-- The names before and behind a slash are those of the one and then those of the other. -/
theorem names_append_slash (before behind : ByteString) :
    names ⟨before ++ slash :: behind⟩ = names ⟨before⟩ ++ names ⟨behind⟩ :=
  List.splitOn_append_cons_self before behind

/-- Bytes without a slash are one name. -/
theorem names_of_noSlash {name : ByteString} (noSlash : slash ∉ name) : names ⟨name⟩ = [name] :=
  List.splitOn_eq_singleton noSlash

/-- A path to a file goes through the names of its directory, less an empty name at their end. -/
theorem exists_names_join (path : Path) :
    ∃ above, (path.names = above ∨ path.names = above ++ [[]]) ∧
      ∀ name, slash ∉ name → (path.join name).names = above ++ [name] := by
  obtain ⟨bytes⟩ := path
  have nothing : names ⟨[]⟩ = [[]] := names_of_noSlash List.not_mem_nil
  rcases List.eq_nil_or_concat bytes with rfl | ⟨before, final, rfl⟩
  · -- The path of nothing is an empty name, whose place the file takes.
    exact ⟨[], .inr nothing, fun name noSlash => names_of_noSlash noSlash⟩
  · rw [List.concat_eq_append]
    by_cases ends : final = slash
    · -- Behind the slash at the end there is an empty name, whose place the file takes.
      subst ends
      refine ⟨names ⟨before⟩, .inr ?_, fun name noSlash => ?_⟩
      · rw [names_append_slash, nothing]
      · have joined : join ⟨before ++ [slash]⟩ name = ⟨before ++ slash :: name⟩ := by simp [join]
        rw [joined, names_append_slash, names_of_noSlash noSlash]
    · refine ⟨_, .inl rfl, fun name noSlash => ?_⟩
      have joined : join ⟨before ++ [final]⟩ name = ⟨before ++ [final] ++ slash :: name⟩ := by
        simp [join, ends]
      rw [joined, names_append_slash, names_of_noSlash noSlash]

/-- A joined path begins as the path to the directory does. -/
theorem head?_join {path : Path} (nonempty : path.bytes ≠ []) (name : ByteString) :
    (path.join name).bytes.head? = path.bytes.head? := by
  -- Whatever is put behind the path, its first byte stays.
  obtain ⟨first, rest, written⟩ := List.exists_cons_of_ne_nil nonempty
  unfold join
  split <;> simp [written]

/-- A joined path is not empty where the path to the directory is not. -/
theorem join_ne_nil {path : Path} (nonempty : path.bytes ≠ []) (name : ByteString) :
    (path.join name).bytes ≠ [] := by
  intro empty
  have first := head?_join nonempty name
  rw [empty] at first
  exact nonempty (List.head?_eq_none_iff.mp first.symm)

/-- The file that a joined path names. -/
theorem fileName?_join (path : Path) {name : ByteString} (noSlash : slash ∉ name)
    (nonempty : name ≠ []) (notHere : name ≠ here) :
    (path.join name).fileName? = if name = parent then none else some name := by
  obtain ⟨above, -, joined⟩ := exists_names_join path
  simp [fileName?, joined name noSlash, nonempty, notHere]

/-- A name that goes on makes the joined path go on. -/
theorem join_append (path : Path) (name more : ByteString) :
    path.join (name ++ more) = ⟨(path.join name).bytes ++ more⟩ := by
  unfold join
  split <;> simp

/-- Joined paths name different files where their last names differ. -/
theorem join_injective (path : Path) : Function.Injective path.join := by
  intro name other same
  -- Both names stand behind the same bytes, with a slash at their end.
  unfold join at same
  split at same <;> simpa using same

/-- The last dot of a name parts it, for whatever stands before it. -/
private theorem span_last_dot {extension : ByteString} (noDot : dot ∉ extension)
    (stem : ByteString) :
    (extension.reverse ++ dot :: stem).span (· ≠ dot) = (extension.reverse, dot :: stem) := by
  -- The span goes through the extension, which has no dot, and stops at the dot before it.
  have noneBehind : ∀ byte ∈ extension.reverse, decide (byte ≠ dot) = true := by
    intro byte inside
    refine decide_eq_true fun same => noDot ?_
    rwa [same, List.mem_reverse] at inside
  rw [List.span_eq_takeWhile_dropWhile, List.takeWhile_append_of_pos noneBehind,
    List.dropWhile_append_of_pos noneBehind]
  simp

/-- A name has an extension when something stands before the last of its dots. -/
theorem extensionOfName?_eq_some_iff {name extension : ByteString} :
    extensionOfName? name = some extension ↔
      ∃ stem, stem ≠ [] ∧ dot ∉ extension ∧ name = stem ++ dot :: extension := by
  constructor
  · intro found
    simp only [extensionOfName?, List.span_eq_takeWhile_dropWhile] at found
    split at found
    · rename_i last first more rest
      -- What stands behind the last dot has no dot; before that dot there is a byte.
      have parts := List.takeWhile_append_dropWhile (p := (· ≠ dot)) (l := name.reverse)
      have noneBehind := List.all_takeWhile (p := (· ≠ dot)) (l := name.reverse)
      have stopped := List.head?_dropWhile_not (· ≠ dot) name.reverse
      rw [rest] at parts stopped
      obtain rfl : last = dot := by simpa using stopped
      generalize List.takeWhile _ _ = behind at parts noneBehind found
      obtain rfl : _ = extension := Option.some.inj found
      refine ⟨(first :: more).reverse, by simp, ?_, ?_⟩
      · simpa using fun inside => List.all_eq_true.mp noneBehind dot inside
      · rw [← List.reverse_inj, ← parts]
        simp
    · cases found
  · rintro ⟨stem, nonempty, noDot, rfl⟩
    -- Read from behind, the stem goes on with a byte, so that the dot does not come first.
    obtain ⟨first, more, bytes⟩ : ∃ first more, stem.reverse = first :: more :=
      List.exists_cons_of_ne_nil (by simpa using nonempty)
    have reversed : (stem ++ dot :: extension).reverse =
        extension.reverse ++ dot :: first :: more := by
      simp [bytes]
    rw [extensionOfName?, reversed, span_last_dot noDot]
    simp

end Path

namespace CommandLine

/-- The name of a source is a dot and the extension behind some bytes. -/
theorem utf8_sourceExtension : utf8 ".jack" = Path.dot :: utf8 sourceExtension := by decide

/-- The sources in a directory are called `jack`, behind a dot that is not the first byte. -/
theorem isSource_join_iff (path : Path) {name : ByteString} (named : IsFileName name) :
    isSource (path.join name) = true ↔ ∃ stem, stem ≠ [] ∧ name = stem ++ utf8 ".jack" := by
  -- The path names the file itself, so that its extension is that of the name.
  have file := path.fileName?_join named.noSlash named.nonempty named.notHere
  have noDot : Path.dot ∉ utf8 sourceExtension := by decide
  rw [if_neg named.notParent] at file
  simp only [isSource, Path.extension?, file, Option.bind_some, beq_iff_eq,
    Path.extensionOfName?_eq_some_iff, utf8_sourceExtension, noDot, not_false_eq_true, true_and]

/-- What the program of a source is called, given the name of the source without its extension. -/
def programName (stem : ByteString) : ByteString :=
  -- The dot behind a single dot makes it the name of the parent directory, which stays.
  if stem = Path.here then Path.parent else stem ++ utf8 ".vm"

/-- The path of a program is that of its source, but for its last name. -/
theorem programPath_join (path : Path) {stem : ByteString} (noSlash : Path.slash ∉ stem)
    (nonempty : stem ≠ []) :
    programPath (path.join (stem ++ utf8 ".jack")) = path.join (programName stem) := by
  -- Without the extension the path ends in the dot, which is part of a name of its own.
  have split : stem ++ utf8 ".jack" = stem ++ [Path.dot] ++ utf8 sourceExtension := by
    rw [utf8_sourceExtension, List.append_assoc]
    rfl
  have cut : (path.join (stem ++ utf8 ".jack")).bytes.take
      ((path.join (stem ++ utf8 ".jack")).bytes.length - (utf8 sourceExtension).length) =
        (path.join (stem ++ [Path.dot])).bytes := by
    rw [split, Path.join_append, List.length_append, Nat.add_sub_cancel, List.take_left]
  have noSlash' : Path.slash ∉ stem ++ [Path.dot] := by simpa [Path.slash, Path.dot] using noSlash
  have name := path.fileName?_join noSlash' (by simp) (by simpa [Path.here] using nonempty)
  simp only [programPath, Path.replaceExtension, cut, name]
  by_cases single : stem = Path.here
  · subst single
    simp [programName, Path.here, Path.parent]
  · have notParent : stem ++ [Path.dot] ≠ Path.parent := by
      intro same
      exact single (List.append_cancel_right (same.trans (by rfl : Path.parent = Path.here ++ [_])))
    have whole : stem ++ [Path.dot] ++ utf8 programExtension = stem ++ utf8 ".vm" := by
      rw [List.append_assoc]
      rfl
    simp [programName, single, notParent, ← Path.join_append, whole]

end CommandLine

end JackCompiler
