import JackCompiler.Proofs.CommandLine.Outcome

/-! Sources that are compiled one after the other come to what each comes to alone. -/

namespace JackCompiler.CommandLine

/-- Sources are files, and the program of none goes to the place of another or of its program. -/
structure Apart (session : Session) (sources : List Path) : Prop where
  distinct : sources.Nodup
  file : ∀ source ∈ sources, ∃ place content,
    session.files.resolve session.working source = .ok place ∧
      session.files.get? place = some (.file content)
  program : ∀ source ∈ sources, ∃ target,
    session.files.resolve session.working (programPath source) = .ok target
  unread : ∀ source ∈ sources, ∀ other ∈ sources, ∀ place,
    session.files.resolve session.working source = .ok place →
      session.files.resolve session.working (programPath other) ≠ .ok place
  unshared : ∀ source ∈ sources, ∀ other ∈ sources, ∀ target,
    session.files.resolve session.working (programPath source) = .ok target →
      session.files.resolve session.working (programPath other) = .ok target → source = other

/-- Fewer sources are apart as well, in whatever order. -/
theorem Apart.of_subset {session : Session} {sources chosen : List Path}
    (apart : Apart session sources) (distinct : chosen.Nodup) (subset : chosen ⊆ sources) :
    Apart session chosen where
  distinct := distinct
  file source inside := apart.file source (subset inside)
  program source inside := apart.program source (subset inside)
  unread source inside other inside' := apart.unread source (subset inside) other (subset inside')
  unshared source inside other inside' :=
    apart.unshared source (subset inside) other (subset inside')

/-- What compiling sources leaves: their programs, and otherwise the files as they were. -/
structure Outputs (before : Session) (sources : List Path) (after : Session) : Prop where
  working : after.working = before.working
  written : ∀ source ∈ sources, ∀ target program, CompilesTo before source target program →
    after.files.get? target = some (.file program.toUTF8)
  kept : ∀ place, (∀ source ∈ sources, ∀ program, ¬ CompilesTo before source place program) →
    after.files.get? place = before.files.get? place

namespace Outputs

variable {before after : Session} {sources done : List Path}

/-- Nothing has been compiled at first. -/
theorem nil (session : Session) (more : List Message) :
    Outputs session [] (session.putOut more) :=
  ⟨rfl, fun _ inside => absurd inside List.not_mem_nil, fun _ _ => rfl⟩

/-- Directories stay, as programs only go where there is none. -/
theorem directory (outputs : Outputs before sources after) (place : Place)
    (directory : before.files.get? place = some .directory) :
    after.files.get? place = some .directory := by
  -- No program compiles to a place with a directory, so what stands there is kept.
  rw [outputs.kept place fun _ _ _ compiles => compiles.free directory, directory]

/-- Paths go on leading to the same places. -/
theorem resolve_eq (outputs : Outputs before sources after) {path : Path} {place : Place}
    (resolved : before.files.resolve before.working path = .ok place) :
    after.files.resolve after.working path = .ok place := by
  rw [outputs.working]
  exact FileTree.resolve_of_directories outputs.directory resolved

variable {source : Path}

/-- A source that is apart from those compiled before still holds the same text. -/
theorem textOf_eq (outputs : Outputs before done after) (apart : Apart before sources)
    (subset : done ⊆ sources) (inside : source ∈ sources) :
    textOf after source = textOf before source := by
  obtain ⟨place, content, leads, stands⟩ := apart.file source inside
  -- No program went to the place of the source, so its content is kept.
  have kept := outputs.kept place fun other earlier _ compiles =>
    apart.unread source inside other (subset earlier) place leads compiles.leads
  rw [textOf, textOf, FileTree.read_of_resolve leads stands,
    FileTree.read_of_resolve (outputs.resolve_eq leads) (kept.trans stands)]

/-- The place of its program is taken now if it was taken before. -/
theorem targetOf_eq (outputs : Outputs before done after) (apart : Apart before sources)
    (subset : done ⊆ sources) (inside : source ∈ sources) (new : source ∉ done) :
    targetOf after source = targetOf before source := by
  obtain ⟨target, leads⟩ := apart.program source inside
  -- A program in the same place would be that of the source itself, which comes only now.
  have kept := outputs.kept target fun other earlier _ compiles => by
    have same := apart.unshared source inside other (subset earlier) target leads compiles.leads
    exact new (same ▸ earlier)
  rw [targetOf, targetOf, leads, outputs.resolve_eq leads]
  simp only [kept]

/-- A source comes to what it comes to without those compiled before. -/
theorem outcome_eq (outputs : Outputs before done after) (apart : Apart before sources)
    (subset : done ⊆ sources) (inside : source ∈ sources) (new : source ∉ done) :
    outcome after source = outcome before source := by
  rw [outcome, outcome, outputs.textOf_eq apart subset inside,
    outputs.targetOf_eq apart subset inside new]

/-- One source leaves its program, if it compiles. -/
theorem single (session : Session) (source : Path) :
    Outputs session [source] (afterSource session source) := by
  by_cases compiled : ∃ target program, CompilesTo session source target program
  · obtain ⟨target, program, compiles⟩ := compiled
    refine ⟨rfl, fun other among target' program' compiles' => ?_, fun place none => ?_⟩
    · obtain rfl := List.mem_singleton.mp among
      obtain ⟨rfl, rfl⟩ := compiles.unique compiles'
      rw [afterSource, get?_filesAfter compiles, if_pos rfl]
    · -- A place in which no program goes is not the one that was written.
      have different : place ≠ target := by
        rintro rfl
        exact none source List.mem_cons_self program compiles
      rw [afterSource, get?_filesAfter compiles, if_neg different]
  · push Not at compiled
    refine ⟨rfl, fun other among target program compiles => ?_, fun place _ => ?_⟩
    · obtain rfl := List.mem_singleton.mp among
      exact absurd compiles (compiled target program)
    · rw [afterSource, filesAfter_of_fails compiled]

/-- A turn adds the program of its source, if the source compiles. -/
theorem turn (outputs : Outputs before done after) (apart : Apart before sources)
    (subset : done ⊆ sources) (inside : source ∈ sources) (new : source ∉ done) :
    Outputs before (done ++ [source]) (afterSource after source) := by
  have added := single after source
  -- The source compiles now to what it compiled to before any other source was written.
  have compilesTo_iff (target : Place) (program : String) :
      CompilesTo after source target program ↔ CompilesTo before source target program := by
    rw [← outcome_eq_ok_iff, outputs.outcome_eq apart subset inside new, outcome_eq_ok_iff]
  refine ⟨outputs.working, fun other among target program compiles => ?_, fun place none => ?_⟩
  · rcases List.mem_append.mp among with earlier | last
    · -- The programs of two sources are in different places, so the earlier one is still there.
      rw [added.kept target, outputs.written other earlier target program compiles]
      intro newest isNewest program' compiles'
      obtain rfl := List.mem_singleton.mp isNewest
      have leads := ((compilesTo_iff target program').mp compiles').leads
      have equal := apart.unshared newest inside other (subset earlier) target leads compiles.leads
      exact new (equal ▸ earlier)
    · obtain rfl := List.mem_singleton.mp last
      exact added.written other List.mem_cons_self target program
        ((compilesTo_iff target program).mpr compiles)
  · rw [added.kept place, outputs.kept place]
    · exact fun other earlier => none other (List.mem_append_left _ earlier)
    · intro newest isNewest program compiles
      obtain rfl := List.mem_singleton.mp isNewest
      exact none newest (by simp) program ((compilesTo_iff place program).mp compiles)

/-- The outputs of sources are the same in whatever order. -/
theorem get?_eq_of_perm {order : List Path} {last : Session}
    (outputs : Outputs before sources after) (outputs' : Outputs before order last)
    (permuted : order.Perm sources) (place : Place) :
    last.files.get? place = after.files.get? place := by
  -- Every place either has a program that one of the sources compiles to, or is kept by both.
  by_cases compiled : ∃ source ∈ sources, ∃ program, CompilesTo before source place program
  · obtain ⟨source, inside, program, compiles⟩ := compiled
    rw [outputs.written source inside place program compiles,
      outputs'.written source (permuted.mem_iff.mpr inside) place program compiles]
  · push Not at compiled
    rw [outputs.kept place compiled,
      outputs'.kept place fun source inside => compiled source (permuted.mem_iff.mp inside)]

/-- What stood where the program of a failed source would go still stands there. -/
theorem get?_of_fails (outputs : Outputs before sources after) (apart : Apart before sources)
    (inside : source ∈ sources) {target : Place}
    (leads : before.files.resolve before.working (programPath source) = .ok target)
    (fails : ∀ target program, ¬ CompilesTo before source target program) :
    after.files.get? target = before.files.get? target := by
  -- The only source whose program could go there is the one that failed.
  refine outputs.kept target fun other inside' program compiles => ?_
  obtain rfl := apart.unshared source inside other inside' target leads compiles.leads
  exact fails target program compiles

/-- A source has the same output alone as among others. -/
theorem get?_eq_of_single {single : Session} (outputs : Outputs before sources after)
    (alone : Outputs before [source] single) (apart : Apart before sources)
    (inside : source ∈ sources) {target : Place}
    (leads : before.files.resolve before.working (programPath source) = .ok target) :
    single.files.get? target = after.files.get? target := by
  -- Both runs write the program of the source, or both leave its place alone.
  by_cases compiled : ∃ place program, CompilesTo before source place program
  · obtain ⟨place, program, compiles⟩ := compiled
    obtain rfl : target = place := Except.ok.inj (leads.symm.trans compiles.leads)
    rw [outputs.written source inside target program compiles,
      alone.written source List.mem_cons_self target program compiles]
  · push Not at compiled
    have subset : [source] ⊆ sources := by simpa using inside
    rw [outputs.get?_of_fails apart inside leads compiled,
      alone.get?_of_fails (apart.of_subset (List.nodup_singleton source) subset)
        List.mem_cons_self leads compiled]

end Outputs

/-- The sources that do not compile. -/
def failing (session : Session) (sources : List Path) : List Path :=
  sources.filter fun source => !(outcome session source).isOk

/-- One more source counts if it fails. -/
theorem failing_cons (session : Session) (source : Path) (sources : List Path) :
    (failing session (source :: sources)).length =
      if (outcome session source).isOk then (failing session sources).length
      else (failing session sources).length + 1 := by
  rw [failing, List.filter_cons]
  cases (outcome session source).isOk <;> rfl

/-- The sources that fail are those that compile to nothing. -/
theorem mem_failing_iff {session : Session} {sources : List Path} {source : Path} :
    source ∈ failing session sources ↔
      source ∈ sources ∧ ∀ target program, ¬ CompilesTo session source target program := by
  simp only [failing, List.mem_filter, ← outcome_eq_ok_iff]
  cases outcome session source with
  | error failure => simp [Except.isOk, Except.toBool]
  | ok written =>
    obtain ⟨target, program⟩ := written
    simp [Except.isOk, Except.toBool]

/-- A source fails by itself if it fails among others. -/
theorem failing_singleton {session : Session} {sources : List Path} {source : Path}
    (inside : source ∈ sources) :
    failing session [source] = if source ∈ failing session sources then [source] else [] := by
  simp only [failing, List.filter_singleton, List.mem_filter, inside, true_and, cond_eq_ite]

/-- Sources that come after others fail, write and report as they do alone. -/
theorem compileAll_run {before : Session} (rest : List Path) :
    ∀ {done : List Path} {session : Session}, Apart before (done ++ rest) →
      Outputs before done session →
        ∃ last, (compileAll Session.host rest).run session =
            pure ((failing before rest).length, last) ∧
          Outputs before (done ++ rest) last ∧
          last.messages = session.messages ++ rest.flatMap (reportsOf before) := by
  -- The sources done so far are the state of the induction: what they wrote is all that changed.
  induction rest with
  | nil =>
    intro done session _ outputs
    refine ⟨session, rfl, ?_, ?_⟩
    · rwa [List.append_nil]
    · rw [List.flatMap_nil, List.append_nil]
  | cons source rest ih =>
    intro done session apart outputs
    have moved : done ++ source :: rest = done ++ [source] ++ rest := by simp
    have subset : done ⊆ done ++ source :: rest := List.subset_append_left _ _
    have inside : source ∈ done ++ source :: rest := by simp
    have new : source ∉ done := fun earlier =>
      (List.disjoint_of_nodup_append apart.distinct) earlier List.mem_cons_self
    -- What the turn of this source leaves is where the others start.
    obtain ⟨last, ran, finished, messages⟩ :=
      ih (moved ▸ apart) (outputs.turn apart subset inside new)
    refine ⟨last, ?_, ?_, ?_⟩
    · rw [compileAll_cons_run, ran, failing_cons, outputs.outcome_eq apart subset inside new]
      rfl
    · rwa [moved]
    · -- The source reports what it reports alone, as its text and its outcome are the same.
      have own : reportsOf session source = reportsOf before source := by
        rw [reportsOf, reportsOf, eventReports, eventReports, endReport, endReport,
          outputs.textOf_eq apart subset inside, outputs.outcome_eq apart subset inside new]
      rw [messages, List.flatMap_cons, ← List.append_assoc, ← own]
      rfl

/-- Sources all fail, write and report as they do alone when they are compiled from the first. -/
theorem compileAll_run_start {before : Session} {sources : List Path}
    (apart : Apart before sources) (more : List Message) :
    ∃ last, (compileAll Session.host sources).run (before.putOut more) =
        pure ((failing before sources).length, last) ∧
      Outputs before sources last ∧
      last.messages = before.messages ++ (more ++ sources.flatMap (reportsOf before)) := by
  obtain ⟨last, ran, outputs, messages⟩ :=
    compileAll_run sources (by simpa using apart) (.nil before more)
  refine ⟨last, ran, outputs, ?_⟩
  rw [messages, Session.putOut, List.append_assoc]

/-- A source that is compiled behind others comes to what it comes to alone. -/
theorem compileFile_run_behind {before : Session} {source : Path} {earlier later : List Path}
    (apart : Apart before (earlier ++ source :: later)) :
    ((compileFile Session.host source).run
        ((compileAll Session.host earlier).run before).2).1 =
      ((compileFile Session.host source).run before).1 := by
  have subset : earlier ⊆ earlier ++ source :: later := List.subset_append_left _ _
  have inside : source ∈ earlier ++ source :: later := by simp
  have new : source ∉ earlier := fun among =>
    List.disjoint_of_nodup_append apart.distinct among List.mem_cons_self
  obtain ⟨last, ran, outputs, -⟩ := compileAll_run_start
    (apart.of_subset apart.distinct.of_append_left subset) []
  have session : ((compileAll Session.host earlier).run before).2 = last := by
    rw [putOut_nil] at ran
    exact congrArg Prod.snd ran
  -- The outcome decides the result, and the sources before have not changed it.
  rw [session, compileFile_run, compileFile_run]
  exact congrArg (Except.map fun _ => programPath source)
    (outputs.outcome_eq apart subset inside new)

/-- Sources that are apart fail and write the same in whatever order they are compiled. -/
theorem compileAll_run_perm {before after : Session} {sources order : List Path}
    (apart : Apart before sources) (outputs : Outputs before sources after)
    (permuted : order.Perm sources) :
    ∃ last, (compileAll Session.host order).run before =
        pure ((failing before sources).length, last) ∧
      ∀ place, last.files.get? place = after.files.get? place := by
  have apart' := apart.of_subset (permuted.nodup_iff.mpr apart.distinct) permuted.subset
  obtain ⟨last, ran, outputs', -⟩ := compileAll_run_start apart' []
  rw [putOut_nil] at ran
  refine ⟨last, ?_, outputs.get?_eq_of_perm outputs' permuted⟩
  rw [ran, failing, failing, (permuted.filter _).length_eq]

/-- What a request to compile comes to when some sources failed, or none. -/
def resultOf (failed : List Path) : Except Failure Unit :=
  if failed = [] then .ok () else .error (.uncompiled failed.length)

/-- The report of a path with nothing to compile. -/
def emptyReports (path : Path) (paths : List Path) : List Message :=
  if paths = [] then [.report ⟨.info, "jackc", "no .jack files in " ++ path.display⟩] else []

/-- A path with nothing to compile is reported as such. -/
theorem emptyReports_of_nil (path : Path) :
    emptyReports path [] =
      [.report (.ofApplication .info s!"no .{sourceExtension} files in {path.display}")] := by
  have words : s!"no .{sourceExtension} files in {path.display}" =
      "no .jack files in " ++ path.display := by
    -- The words before the path are put together from parts.
    have parts : "no ." ++ sourceExtension ++ " files in " = "no .jack files in " := by decide
    rw [← parts]
    rfl
  rw [words]
  rfl

/-- A request to compile writes what its sources compile to, and counts those that fail. -/
theorem compilePath_run {before : Session} {path : Path} {paths : List Path}
    (found : (sources Session.host path).run before = pure (.ok paths, before))
    (apart : Apart before paths) :
    ∃ last, (compilePath Session.host path).run before =
        pure (resultOf (failing before paths), last) ∧
      Outputs before paths last ∧
      last.messages =
        before.messages ++ (emptyReports path paths ++ paths.flatMap (reportsOf before)) := by
  obtain ⟨last, ran, outputs, messages⟩ := compileAll_run_start apart (emptyReports path paths)
  refine ⟨last, ?_, outputs, messages⟩
  -- Whatever was put out before, the count of the sources that fail decides the result.
  have compiled {finish : Nat × Session → Id (Except Failure Unit × Session)}
      (counts : ∀ failed after, finish (failed, after) =
        pure (if failed = 0 then .ok () else .error (.uncompiled failed), after)) :
      (compileAll Session.host paths).run (before.putOut (emptyReports path paths)) >>= finish =
        pure (resultOf (failing before paths), last) := by
    rw [ran, pure_bind, counts]
    simp only [resultOf, List.length_eq_zero_iff]
  unfold compilePath
  simp only [StateT.run_bind, found, pure_bind, List.isEmpty_iff]
  split
  · rename_i none
    subst none
    simp only [StateT.run_bind, report_run, pure_bind]
    rw [← emptyReports_of_nil]
    refine compiled fun failed after => ?_
    cases failed <;> rfl
  · rename_i some
    rw [emptyReports, if_neg some, putOut_nil] at compiled
    rw [StateT.run_bind]
    refine compiled fun failed after => ?_
    cases failed <;> rfl

/-- The report of how many sources failed, if any did. -/
def countReports (failed : Nat) : List Message :=
  if failed = 0 then []
  else if failed = 1 then
    [.report ⟨.error, "jackc", "application error: 1 file failed to compile"⟩]
  else [.report ⟨.error, "jackc", s!"application error: {failed} files failed to compile"⟩]

/-- A failure to compile some sources is reported with their number. -/
theorem countReports_of_ne_zero {failed : Nat} (some : failed ≠ 0) :
    countReports failed = [.report (.ofApplication .error
      s!"application error: {(Failure.uncompiled failed).message}")] := by
  have message : (Failure.uncompiled failed).message =
      if failed = 1 then "1 file failed to compile" else s!"{failed} files failed to compile" := rfl
  rw [countReports, if_neg some, message]
  -- One failed source has words of its own.
  split
  · have words : "application error: " ++ "1 file failed to compile" =
        "application error: 1 file failed to compile" := by decide
    rw [← words]
    rfl
  · have words : s!"application error: {failed} files failed to compile" =
        "application error: " ++ s!"{failed} files failed to compile" := String.append_assoc
    rw [words]
    rfl

/-- The words that the program takes for something else than a path. -/
def commandWords : List String := ["tokens", "-h", "--help", "help"]

/-- An argument that is a text and no command is a path to compile. -/
theorem ofArguments_path {path : Path} (written : isText path.bytes = true)
    (ordinary : path.bytes ∉ commandWords.map utf8) :
    Request.ofArguments [path.bytes] = .compile path := by
  obtain ⟨notTokens, notHelp⟩ : path.bytes ≠ utf8 tokensWord ∧
      path.bytes ∉ helpWords.map utf8 := by
    simpa [commandWords, tokensWord, helpWords] using ordinary
  simp only [Request.ofArguments, written, Bool.not_true, Bool.false_eq_true, if_false,
    if_neg notTokens, if_neg notHelp, Request.last]

/-- A run on a path that is no command ends as the request to compile it does. -/
theorem run_path {before last : Session} {path : Path} (written : isText path.bytes = true)
    (ordinary : path.bytes ∉ commandWords.map utf8) {failed : List Path}
    (compiled : (compilePath Session.host path).run before = pure (resultOf failed, last)) :
    (run Session.host [path.bytes]).run before =
      pure (if failed = [] then 0 else 1, last.putOut (countReports failed.length)) := by
  -- A failure is reported at the very end, and is never one that asks for the usage.
  unfold run
  simp only [ofArguments_path written ordinary, StateT.run_bind, compiled, pure_bind]
  by_cases none : failed = []
  · simp [resultOf, none, exitCode, countReports]
  · have some : failed.length ≠ 0 := by simpa using none
    simp [resultOf, none, exitCode, report_run, countReports_of_ne_zero some]

end JackCompiler.CommandLine
