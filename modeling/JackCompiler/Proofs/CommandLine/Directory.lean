import JackCompiler.Proofs.CommandLine.Batch

/-! A directory is compiled as each of its sources is compiled alone. -/

namespace JackCompiler.CommandLine

section

variable {session : Session}

/-- Whether a path names a file. -/
def isFileIn (session : Session) (path : Path) : Bool :=
  match session.files.find session.working path with
  | .ok (.file _) => true
  | _ => false

/-- Files are told from what is no file without any change. -/
theorem filterAuxM_isFile_run (paths kept : List Path) :
    (paths.filterAuxM Session.host.isFile kept).run session =
      pure ((paths.filter (isFileIn session)).reverse ++ kept, session) := by
  have test (path : Path) :
      (Session.host.isFile path).run session = pure (isFileIn session path, session) := rfl
  -- The kept paths come in reverse, behind those that were kept before.
  induction paths generalizing kept with
  | nil => rfl
  | cons path paths ih =>
    rw [List.filterAuxM, StateT.run_bind, test, pure_bind, ih]
    cases file : isFileIn session path <;> simp [file]

/-- The paths of files are kept, in the order in which they stand. -/
theorem filterM_isFile_run (paths : List Path) :
    (paths.filterM Session.host.isFile).run session =
      pure (paths.filter (isFileIn session), session) := by
  rw [List.filterM, StateT.run_bind, filterAuxM_isFile_run, pure_bind]
  simp

variable {path : Path} {place : Place}

/-- A path names a file when a file stands at the place that it leads to. -/
theorem isFileIn_iff (leads : session.files.resolve session.working path = .ok place) :
    isFileIn session path = true ↔
      ∃ content, session.files.get? place = some (.file content) := by
  simp only [isFileIn, FileTree.find, leads, Bind.bind, Except.bind]
  rcases session.files.get? place with _ | (_ | content) <;>
    simp [throw, throwThe, MonadExceptOf.throw, Pure.pure, Except.pure]

/-- What stands at its place tells whether a path names a directory. -/
theorem isDirectory_run (leads : session.files.resolve session.working path = .ok place)
    {entry : Entry} (stands : session.files.get? place = some entry) :
    (Session.host.isDirectory path).run session = pure (entry matches .directory, session) := by
  have found := FileTree.find_of_resolve leads stands
  simp only [Session.host, StateT.run_bind, StateT.run_get, pure_bind, StateT.run_pure, found]
  cases entry <;> rfl

/-- A path to a file stands for that file, if it has the form of a source's. -/
theorem sources_of_file {content : ByteArray}
    (leads : session.files.resolve session.working path = .ok place)
    (file : session.files.get? place = some (.file content)) (source : isSource path = true) :
    (sources Session.host path).run session = pure (.ok [path], session) := by
  -- A file is no directory, so only the form of its path is looked at.
  rw [sources, StateT.run_bind, isDirectory_run leads file, pure_bind]
  simp [source]

/-- No path of a source in a directory is a command. -/
theorem join_notMem_commands (path : Path) (stem : ByteString) :
    (path.join (stem ++ utf8 ".jack")).bytes ∉ commandWords.map utf8 := by
  -- The path ends in the last byte of the extension, as no command does.
  have extension : (utf8 ".jack").getLast? = some 0x6B := by decide
  have last : (path.join (stem ++ utf8 ".jack")).bytes.getLast? = some 0x6B := by
    rw [Path.join_append, List.getLast?_append, extension]
    rfl
  have others : ∀ word ∈ commandWords.map utf8, word.getLast? ≠ some 0x6B := by decide
  exact fun inside => others _ inside last

/-- A request to compile one of the sources alone. -/
theorem compilePath_single {after : Session} {paths : List Path} (apart : Apart session paths)
    (outputs : Outputs session paths after) (inside : path ∈ paths)
    (found : (sources Session.host path).run session = pure (.ok [path], session)) :
    ∃ single, (compilePath Session.host path).run session =
        pure (resultOf (failing session [path]), single) ∧
      Outputs session [path] single ∧
      single.messages = session.messages ++ reportsOf session path ∧
      ∀ target, session.files.resolve session.working (programPath path) = .ok target →
        single.files.get? target = after.files.get? target := by
  -- The request has this source as its only one.
  have own := apart.of_subset (List.nodup_singleton path) (by simpa using inside)
  obtain ⟨single, ran, alone, messages⟩ := compilePath_run found own
  refine ⟨single, ran, alone, ?_, fun target goes =>
    outputs.get?_eq_of_single alone apart inside goes⟩
  simpa [emptyReports] using messages

/-- The place of the program of a source in a directory. -/
def programPlace (directory : Place) (stem : ByteString) : Place :=
  -- The path of the program of a source that is called by two dots leads out of the directory.
  if stem = Path.here then directory.dropLast else directory ++ [stem ++ utf8 ".vm"]

/-- Programs go where no source is. -/
theorem programPlace_ne (directory : Place) (stem stem' : ByteString) :
    programPlace directory stem ≠ directory ++ [stem' ++ utf8 ".jack"] := by
  unfold programPlace
  split
  · -- What is outside of the directory is not in it.
    intro same
    have lengths := congrArg List.length same
    simp at lengths
  · intro same
    -- The two extensions end in different bytes.
    have last : (stem ++ utf8 ".vm").getLast? = (stem' ++ utf8 ".jack").getLast? :=
      congrArg _ (by simpa using same)
    have program : (utf8 ".vm").getLast? = some 0x6D := by decide
    have source : (utf8 ".jack").getLast? = some 0x6B := by decide
    rw [List.getLast?_append, List.getLast?_append, program, source] at last
    simp at last

/-- Programs of different sources go to different places. -/
theorem programPlace_injective (directory : Place) :
    Function.Injective (programPlace directory) := by
  -- Only one source has its program outside of the directory.
  have above (stem : ByteString) : directory.dropLast ≠ directory ++ [stem ++ utf8 ".vm"] := by
    intro same
    have lengths := congrArg List.length same
    simp at lengths
  intro stem stem' same
  unfold programPlace at same
  split at same <;> split at same
  · simp [*]
  · exact absurd same (above stem')
  · exact absurd same.symm (above stem)
  · simpa using same

/-- Names that are in order are all different. -/
theorem nodup_of_ordered {names : List ByteString} (ordered : names.Pairwise (· < ·)) :
    names.Nodup := by
  refine ordered.imp fun less same => ?_
  rw [same] at less
  exact List.lt_irrefl _ less

section

variable (leads : session.files.resolve session.working path = .ok place)
  (directory : session.files.get? place = some .directory)

include leads directory

/-- A name in a directory leads to the entry of the directory that it is the name of. -/
theorem resolve_name {name : ByteString} (named : IsFileName name) :
    session.files.resolve session.working (path.join name) = .ok (place ++ [name]) := by
  rw [FileTree.resolve_join leads named.noSlash, FileTree.follow_name directory named]

/-- The path of a program leads beside its source. -/
theorem resolve_programPath {stem : ByteString} (named : IsFileName (stem ++ utf8 ".jack"))
    (nonempty : stem ≠ []) :
    session.files.resolve session.working (programPath (path.join (stem ++ utf8 ".jack"))) =
      .ok (programPlace place stem) := by
  -- The name of the program has no slash either, and is too long for one or two dots.
  have noSlash : Path.slash ∉ stem := fun slash => named.noSlash (List.mem_append_left _ slash)
  rw [programPath_join path noSlash nonempty, programName, programPlace]
  split
  · rw [FileTree.resolve_join leads (by decide), FileTree.follow_parent directory]
  · have long : 2 < (stem ++ utf8 ".vm").length := by
      have width : (utf8 ".vm").length = 3 := by decide
      rw [List.length_append, width]
      omega
    have extension : Path.slash ∉ utf8 ".vm" := by decide
    have program : IsFileName (stem ++ utf8 ".vm") :=
      ⟨fun same => absurd (same ▸ long) (by decide), fun same => absurd (same ▸ long) (by decide),
        fun same => absurd (same ▸ long) (by decide),
        fun slash => (List.mem_append.mp slash).elim noSlash extension⟩
    rw [resolve_name leads directory program]

/-- The sources of a directory are the files in it with the extension, ordered by their bytes. -/
theorem exists_sourceNames (formed : session.files.Formed) :
    ∃ names : List ByteString,
      (sources Session.host path).run session = pure (.ok (names.map path.join), session) ∧
      names.Pairwise (· < ·) ∧
      (∀ name ∈ names, IsFileName name) ∧
      ∀ name, name ∈ names ↔
        (∃ content, session.files.get? (place ++ [name]) = some (.file content)) ∧
          ∃ stem, stem ≠ [] ∧ name = stem ++ utf8 ".jack" := by
  obtain ⟨listed, list, distinct, named, inside⟩ := FileTree.exists_list formed leads
  have run : (Session.host.list path).run session = pure (.ok listed, session) := by
    rw [← list]
    rfl
  refine ⟨(listed.mergeSort fun a b => a ≤ b).filter fun name =>
    isFileIn session (path.join name) && isSource (path.join name), ?_, ?_, ?_, fun name => ?_⟩
  · rw [sources, StateT.run_bind, isDirectory_run leads directory, pure_bind]
    simp only [if_true, StateT.run_bind, run, pure_bind, filterM_isFile_run, List.filter_map,
      List.filter_filter, StateT.run_pure]
    rfl
  · -- Names that are sorted and different from each other are strictly in order.
    have sorted : (listed.mergeSort fun a b => a ≤ b).Pairwise fun a b => decide (a ≤ b) = true :=
      List.pairwise_mergeSort (fun a b c => by simpa using List.le_trans)
        (fun a b => by simpa using List.le_total a b) listed
    have distinct' := (List.mergeSort_perm listed fun a b => decide (a ≤ b)).nodup_iff.mpr distinct
    exact ((sorted.and distinct').imp fun both =>
      (List.le_iff_lt_or_eq.mp (of_decide_eq_true both.1)).resolve_right both.2).filter _
  · intro name inside
    exact named name (by simpa using (List.mem_filter.mp inside).1)
  · simp only [List.mem_filter, List.mem_mergeSort, Bool.and_eq_true]
    constructor
    · rintro ⟨among, file, source⟩
      exact ⟨(isFileIn_iff (resolve_name leads directory (named name among))).mp file,
        (isSource_join_iff path (named name among)).mp source⟩
    · rintro ⟨⟨content, file⟩, source⟩
      have among := (inside name).mpr (by simp [file])
      exact ⟨among,
        (isFileIn_iff (resolve_name leads directory (named name among))).mpr ⟨content, file⟩,
        (isSource_join_iff path (named name among)).mpr source⟩

/-- No program of a source in a directory goes to a source of it, or where another program goes. -/
theorem apart_of_names {names : List ByteString} (distinct : names.Nodup)
    (found : ∀ name ∈ names, IsFileName name ∧
      (∃ content, session.files.get? (place ++ [name]) = some (.file content)) ∧
        ∃ stem, stem ≠ [] ∧ name = stem ++ utf8 ".jack") :
    Apart session (names.map path.join) := by
  -- Where a source and its program are is told by the name of the source without its extension.
  have located : ∀ source ∈ names.map path.join, ∃ stem content,
      source = path.join (stem ++ utf8 ".jack") ∧
      session.files.get? (place ++ [stem ++ utf8 ".jack"]) = some (.file content) ∧
      session.files.resolve session.working source = .ok (place ++ [stem ++ utf8 ".jack"]) ∧
      session.files.resolve session.working (programPath source) =
        .ok (programPlace place stem) := by
    intro source inside
    obtain ⟨name, among, rfl⟩ := List.mem_map.mp inside
    obtain ⟨named, ⟨content, file⟩, stem, nonempty, rfl⟩ := found name among
    exact ⟨stem, content, rfl, file, resolve_name leads directory named,
      resolve_programPath leads directory named nonempty⟩
  refine ⟨distinct.map path.join_injective, fun source inside => ?_, fun source inside => ?_,
    fun source inside other inside' reached here => ?_,
    fun source inside other inside' target here there => ?_⟩
  · obtain ⟨stem, content, -, file, leads, -⟩ := located source inside
    exact ⟨_, content, leads, file⟩
  · obtain ⟨stem, -, -, -, -, leads⟩ := located source inside
    exact ⟨_, leads⟩
  · obtain ⟨stem, -, -, -, leads, -⟩ := located source inside
    obtain ⟨stem', -, -, -, -, beside⟩ := located other inside'
    obtain rfl : place ++ [stem ++ utf8 ".jack"] = reached := by simpa [leads] using here
    rw [beside, ne_eq, Except.ok.injEq]
    exact programPlace_ne place stem' stem
  · obtain ⟨stem, -, rfl, -, -, leads⟩ := located source inside
    obtain ⟨stem', -, rfl, -, -, leads'⟩ := located other inside'
    rw [leads, Except.ok.injEq] at here
    rw [leads', Except.ok.injEq] at there
    rw [programPlace_injective place (here.trans there.symm)]

end

end

/-- The path that is written as a text. -/
abbrev pathOf (word : String) : Path := ⟨utf8 word⟩

/-- The paths of names in a directory. -/
abbrev pathsIn (directory : Path) (names : List ByteString) : List Path := names.map directory.join

/-- A run on a directory: the names of its sources, those that failed, what is reported of each, and
what the run leaves. -/
structure DirectoryRun (before : Session) (word : String) (place : Place)
    (names : List ByteString) (failed : List Path) (reports : Path → List Message)
    (after : Session) : Prop where
  /-- The sources are the files right in the directory that have the extension. -/
  sources_iff : ∀ name, name ∈ names ↔
    (∃ content, before.files.get? (place ++ [name]) = some (.file content)) ∧
      ∃ stem, stem ≠ [] ∧ name = stem ++ utf8 ".jack"
  /-- They are taken in the order of the bytes of their names. -/
  ordered : names.Pairwise (· < ·)
  found : (sources Session.host (pathOf word)).run before =
    (.ok (pathsIn (pathOf word) names), before)
  /-- A source stands in the directory, and its program goes beside it. -/
  places : ∀ stem, stem ++ utf8 ".jack" ∈ names →
    before.files.resolve before.working ((pathOf word).join (stem ++ utf8 ".jack")) =
        .ok (place ++ [stem ++ utf8 ".jack"]) ∧
      before.files.resolve before.working
        (programPath ((pathOf word).join (stem ++ utf8 ".jack"))) = .ok (programPlace place stem)
  /-- The sources that compile leave their programs, and everything else is as it was. -/
  outputs : Outputs before (pathsIn (pathOf word) names) after
  failed_sublist : failed.Sublist (pathsIn (pathOf word) names)
  failed_iff : ∀ source ∈ pathsIn (pathOf word) names,
    source ∈ failed ↔ ∀ target program, ¬ CompilesTo before source target program
  /-- Whatever stood where the program of a failed source would go still stands there. -/
  unwritten : ∀ source ∈ failed, ∀ target,
    before.files.resolve before.working (programPath source) = .ok target →
      after.files.get? target = before.files.get? target
  /-- The number of failed sources is counted, and the status tells if it is zero. -/
  counted : ((compilePath Session.host (pathOf word)).run before).1 =
    if failed = [] then .ok () else .error (.uncompiled failed.length)
  ended : (run Session.host [utf8 word]).run before = (if failed = [] then 0 else 1, after)
  /-- The reports are those of the sources, and at their end the number of those that failed. -/
  reported : after.messages = before.messages ++
    ((if names = [] then [.report ⟨.info, "jackc", "no .jack files in " ++ word⟩] else []) ++
      (pathsIn (pathOf word) names).flatMap reports ++
      if failed.length = 0 then []
      else if failed.length = 1 then
        [.report ⟨.error, "jackc", "application error: 1 file failed to compile"⟩]
      else [.report ⟨.error, "jackc",
        s!"application error: {failed.length} files failed to compile"⟩])
  /-- A source by itself fails if it fails here, with the same reports, and leaves in the place of
  its program what this run leaves there. A run on it ends so, if its path is a text, as it has to
  be for an argument. -/
  alone : ∀ source ∈ pathsIn (pathOf word) names, ∃ single,
    (compilePath Session.host source).run before =
        (if source ∈ failed then .error (.uncompiled 1) else .ok (), single) ∧
      Outputs before [source] single ∧
      single.messages = before.messages ++ reports source ∧
      (∀ target, before.files.resolve before.working (programPath source) = .ok target →
        single.files.get? target = after.files.get? target) ∧
      (isText source.bytes = true → (run Session.host [source.bytes]).run before =
        if source ∈ failed then
          (1, single.putOut
            [.report ⟨.error, "jackc", "application error: 1 file failed to compile"⟩])
        else (0, single))
  /-- A source comes to the same behind others as by itself. -/
  outcomes : ∀ earlier source later,
    pathsIn (pathOf word) names = earlier ++ source :: later →
      ((compileFile Session.host source).run
          ((compileAll Session.host earlier).run before).2).1 =
        ((compileFile Session.host source).run before).1
  /-- In another order as many sources fail, and the files come to be the same. -/
  anyOrder : ∀ order : List Path, order.Perm (pathsIn (pathOf word) names) → ∃ last,
    (compileAll Session.host order).run before = (failed.length, last) ∧
      ∀ place, last.files.get? place = after.files.get? place

/-- A directory is compiled source by source, each as if it were alone. -/
theorem directory_compiles_source_by_source (before : Session) (word : String) (place : Place)
    (formed : before.files.Formed) (ordinary : word ∉ ["tokens", "-h", "--help", "help"])
    (leads : before.files.resolve before.working (pathOf word) = .ok place)
    (directory : before.files.get? place = some .directory) :
    ∃ names failed reports after,
      DirectoryRun before word place names failed reports after := by
  -- The sources are apart, and so the run compiles them as each would be compiled alone.
  obtain ⟨names, found, sorted, named, sources_iff⟩ := exists_sourceNames leads directory formed
  have distinct : names.Nodup := nodup_of_ordered sorted
  have apart : Apart before (pathsIn (pathOf word) names) :=
    apart_of_names leads directory distinct fun name inside =>
      ⟨named name inside, (sources_iff name).mp inside⟩
  obtain ⟨last, compiled, outputs, messages⟩ := compilePath_run found apart
  have noCommand : utf8 word ∉ commandWords.map utf8 := by
    rwa [List.mem_map_of_injective utf8_injective]
  have written : isText (pathOf word).bytes = true := isText_utf8 word
  have ended := run_path written noCommand compiled
  refine ⟨names, failing before (pathsIn (pathOf word) names), reportsOf before,
    last.putOut (countReports (failing before (pathsIn (pathOf word) names)).length), ?_⟩
  constructor
  case sources_iff => exact sources_iff
  case ordered => exact sorted
  case found => exact found
  case ended => exact ended
  case outputs => exact ⟨outputs.working, outputs.written, outputs.kept⟩
  case failed_sublist => exact List.filter_sublist
  case failed_iff =>
    intro source inside
    simp only [mem_failing_iff, inside, true_and]
  case counted =>
    rw [compiled]
    rfl
  case reported =>
    -- The path is a text, and so it is shown as it was written.
    have shown : (pathOf word).display = word := displayText_utf8 word
    simp only [Session.putOut, messages, emptyReports, shown, List.map_eq_nil_iff, countReports,
      List.append_assoc]
  case places =>
    intro stem inside
    -- A name ends in the extension in one way only.
    obtain ⟨-, stem', nonempty, same⟩ := (sources_iff _).mp inside
    obtain rfl : stem = stem' := List.append_cancel_right same
    exact ⟨resolve_name leads directory (named _ inside),
      resolve_programPath leads directory (named _ inside) nonempty⟩
  case unwritten =>
    intro source inside target leads
    obtain ⟨among, fails⟩ := mem_failing_iff.mp inside
    exact outputs.get?_of_fails apart among leads fails
  case alone =>
    intro source inside
    obtain ⟨name, among, rfl⟩ := List.mem_map.mp inside
    obtain ⟨⟨content, file⟩, stem, nonempty, rfl⟩ := (sources_iff name).mp among
    have itself := sources_of_file (resolve_name leads directory (named _ among)) file
      ((isSource_join_iff (pathOf word) (named _ among)).mpr ⟨stem, nonempty, rfl⟩)
    obtain ⟨single, ran, own, told, same⟩ := compilePath_single apart outputs inside itself
    have ended := fun written => run_path written (join_notMem_commands (pathOf word) stem) ran
    -- The source is the only one, and fails or not as it does among the others.
    rw [failing_singleton inside] at ran ended
    refine ⟨single, ?_, own, told, same, fun written => ?_⟩
    · rw [ran]
      split <;> rfl
    · rw [ended written]
      split <;> simp [countReports, pure]
  case outcomes =>
    intro earlier source later split
    exact compileFile_run_behind (split ▸ apart)
  case anyOrder =>
    intro order permuted
    exact compileAll_run_perm apart ⟨outputs.working, outputs.written, outputs.kept⟩ permuted

/-- A source is counted as failed once. -/
theorem DirectoryRun.nodup_failed {before after : Session} {word : String} {place : Place}
    {names : List ByteString} {failed : List Path} {reports : Path → List Message}
    (ran : DirectoryRun before word place names failed reports after) : failed.Nodup := by
  -- The names are in order, and so no two of them are the same.
  have distinct : names.Nodup := nodup_of_ordered ran.ordered
  exact (distinct.map (pathOf word).join_injective).sublist ran.failed_sublist

/-- A directory with a source that compiles and one that does not, beside an older program. The name
of the source that does not compile is no text. -/
def mixedDirectory : Session where
  files := ⟨[
    ([utf8 "src"], .directory),
    ([utf8 "src", 0xE9 :: utf8 ".jack"], .file "class B".toUTF8),
    ([utf8 "src", 0xE9 :: utf8 ".vm"], .file "older".toUTF8),
    ([utf8 "src", utf8 "A.jack"],
      .file "class A \x7b function int f() \x7b return 1; \x7d \x7d".toUTF8)]⟩
  working := []

/-- The files of the directory with the extension are its two sources. -/
theorem mixedDirectory_sources {stem : ByteString} {content : ByteArray}
    (file : mixedDirectory.files.get? ([utf8 "src"] ++ [stem ++ utf8 ".jack"]) =
      some (.file content)) :
    stem ++ utf8 ".jack" = 0xE9 :: utf8 ".jack" ∨ stem ++ utf8 ".jack" = utf8 "A.jack" := by
  have entry := FileTree.mem_entries_of_get? file (by simp)
  simp only [mixedDirectory, List.cons_append, List.nil_append, List.mem_cons, Prod.mk.injEq,
    List.cons.injEq, reduceCtorEq, and_false, true_and, and_true, false_or, List.not_mem_nil,
    or_false] at entry
  rcases entry with ⟨refused, -⟩ | ⟨older, -⟩ | ⟨compiling, -⟩
  · exact .inl refused
  · -- The older program ends in another letter.
    have ends := congrArg List.getLast? older
    rw [List.getLast?_append] at ends
    exact absurd (show some (0x6B : UInt8) = some 0x6D from ends) (by decide)
  · exact .inr compiling

/-- The source that holds a class compiles to a program beside it. -/
theorem mixedDirectory_compiles :
    CompilesTo mixedDirectory ((pathOf "src").join (utf8 "A.jack")) [utf8 "src", utf8 "A.vm"]
      "function A.f 0\n  push constant 1\n  return\n" := by
  have stands : mixedDirectory.files.resolve mixedDirectory.working
      ((pathOf "src").join (utf8 "A.jack")) = .ok [utf8 "src", utf8 "A.jack"] := rfl
  have read := FileTree.read_of_resolve stands rfl
  have beside : mixedDirectory.files.resolve mixedDirectory.working
      (programPath ((pathOf "src").join (utf8 "A.jack"))) = .ok [utf8 "src", utf8 "A.vm"] := rfl
  -- Nothing stands in the place of the program.
  have free : mixedDirectory.files.get? [utf8 "src", utf8 "A.vm"] ≠ some .directory := by
    intro taken
    cases taken
  have spelled : String.fromUTF8? "class A \x7b function int f() \x7b return 1; \x7d \x7d".toUTF8 =
      some "class A \x7b function int f() \x7b return 1; \x7d \x7d" := by decide +kernel
  exact ⟨⟨_, _, read, spelled, by decide +kernel⟩, beside, free⟩

/-- The source that breaks off behind the name of its class compiles to nothing. -/
theorem mixedDirectory_refuses (target : Place) (program : String) :
    ¬ CompilesTo mixedDirectory ((pathOf "src").join (0xE9 :: utf8 ".jack")) target program := by
  intro compiles
  have stands : mixedDirectory.files.resolve mixedDirectory.working
      ((pathOf "src").join (0xE9 :: utf8 ".jack")) = .ok [utf8 "src", 0xE9 :: utf8 ".jack"] := rfl
  -- The content and its text are known, and the text has no body of a class.
  obtain ⟨content, text, read, decoded, compiled⟩ := compiles.compiles
  obtain rfl : "class B".toUTF8 = content :=
    Except.ok.inj ((FileTree.read_of_resolve stands rfl).symm.trans read)
  have spelled : String.fromUTF8? "class B".toUTF8 = some "class B" := by decide +kernel
  obtain rfl : "class B" = text := Option.some.inj (spelled.symm.trans decoded)
  have refused : compileToText "class B" =
      .error ⟨⟨1, 8⟩, .syntactic .unexpectedEnd⟩ := by decide +kernel
  cases refused.symm.trans compiled

/-- One source is compiled, the other keeps its older program, and one failure is reported. -/
theorem compiles_one_and_keeps_other :
    mixedDirectory.files.Formed ∧ "src" ∉ ["tokens", "-h", "--help", "help"] ∧
      mixedDirectory.files.resolve mixedDirectory.working (pathOf "src") = .ok [utf8 "src"] ∧
      mixedDirectory.files.get? [utf8 "src"] = some .directory ∧
      ∃ after, (run Session.host [utf8 "src"]).run mixedDirectory = (1, after) ∧
        after.files.get? [utf8 "src", utf8 "A.vm"] =
          some (.file "function A.f 0\n  push constant 1\n  return\n".toUTF8) ∧
        after.files.get? [utf8 "src", 0xE9 :: utf8 ".vm"] = some (.file "older".toUTF8) ∧
        after.messages.getLast? = some (.report
          ⟨.error, "jackc", "application error: 1 file failed to compile"⟩) := by
  have formed : mixedDirectory.files.Formed := ⟨by decide, by decide⟩
  have ordinary : "src" ∉ ["tokens", "-h", "--help", "help"] := by decide
  have leads : mixedDirectory.files.resolve mixedDirectory.working (pathOf "src") =
      .ok [utf8 "src"] := by rfl
  have directory : mixedDirectory.files.get? [utf8 "src"] = some .directory := by rfl
  obtain ⟨names, failed, reports, after, ran⟩ :=
    directory_compiles_source_by_source mixedDirectory "src" [utf8 "src"] formed ordinary leads
      directory
  have first : utf8 "A.jack" ∈ names :=
    (ran.sources_iff _).mpr ⟨⟨_, rfl⟩, utf8 "A", by decide, rfl⟩
  have second : 0xE9 :: utf8 ".jack" ∈ names :=
    (ran.sources_iff _).mpr ⟨⟨_, rfl⟩, [0xE9], by decide, rfl⟩
  have fails : (pathOf "src").join (0xE9 :: utf8 ".jack") ∈ failed :=
    (ran.failed_iff _ (List.mem_map_of_mem second)).mpr mixedDirectory_refuses
  -- The only other file with the extension compiles, so that no more than one source fails.
  have single : failed = [(pathOf "src").join (0xE9 :: utf8 ".jack")] := by
    by_contra more
    obtain none | ⟨other, inside, different⟩ := (ran.nodup_failed.ne_singleton_iff _).mp more
    · exact List.ne_nil_of_mem fails none
    · obtain ⟨name, among, rfl⟩ := List.mem_map.mp (ran.failed_sublist.subset inside)
      obtain ⟨⟨content, file⟩, stem, -, rfl⟩ := (ran.sources_iff name).mp among
      obtain refused | compiling := mixedDirectory_sources file
      · exact different (refused ▸ rfl)
      · rw [compiling] at inside
        exact (ran.failed_iff _ (List.mem_map_of_mem first)).mp inside _ _ mixedDirectory_compiles
  refine ⟨formed, ordinary, leads, directory, after, ?_, ?_, ?_, ?_⟩
  · rw [ran.ended, if_neg (List.ne_nil_of_mem fails)]
  · exact ran.outputs.written _ (List.mem_map_of_mem first) _ _ mixedDirectory_compiles
  · rw [ran.unwritten _ fails [utf8 "src", 0xE9 :: utf8 ".vm"] rfl]
    rfl
  · rw [ran.reported, single, List.getLast?_append, List.getLast?_append]
    rfl

end JackCompiler.CommandLine
