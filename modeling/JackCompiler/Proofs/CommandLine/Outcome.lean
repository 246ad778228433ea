import JackCompiler.Proofs.CommandLine.Files

/-! What compiling one source comes to, as the files of a session alone decide it. -/

namespace JackCompiler

namespace CommandLine

/-- A source holds text that compiles to a program, whose place is not taken by a directory. -/
structure CompilesTo (session : Session) (source : Path) (target : Place) (program : String) :
    Prop where
  compiles : ∃ content text, session.files.read session.working source = .ok content ∧
    String.fromUTF8? content = some text ∧ compileToText text = .ok program
  leads : session.files.resolve session.working (programPath source) = .ok target
  free : session.files.get? target ≠ some .directory

/-- The text of a source. -/
def textOf (session : Session) (source : Path) : Except FileFault String :=
  match session.files.read session.working source with
  | .error fault => .error fault
  | .ok content =>
    match String.fromUTF8? content with
    | some text => .ok text
    | none => .error .notText

/-- The place of the program of a source, unless there is a directory. -/
def targetOf (session : Session) (source : Path) : Except FileFault Place :=
  match session.files.resolve session.working (programPath source) with
  | .error fault => .error fault
  | .ok target =>
    match session.files.get? target with
    | some .directory => .error .isDirectory
    | _ => .ok target

/-- The place and the text of the program that a source is compiled to, or why it is not. -/
def outcome (session : Session) (source : Path) : Except Failure (Place × String) :=
  match textOf session source with
  | .error fault => .error (.file fault)
  | .ok text =>
    match compileToText text with
    | .error fault => .error (.source fault)
    | .ok program =>
      match targetOf session source with
      | .error fault => .error (.file fault)
      | .ok target => .ok (target, program)

/-- A source has a text when it can be read and its content encodes one. -/
theorem textOf_eq_ok_iff {session : Session} {source : Path} {text : String} :
    textOf session source = .ok text ↔
      ∃ content, session.files.read session.working source = .ok content ∧
        String.fromUTF8? content = some text := by
  unfold textOf
  split
  · simp [*]
  · split <;> simp [*]

/-- A program has a place when its path leads to one that no directory takes. -/
theorem targetOf_eq_ok_iff {session : Session} {source : Path} {target : Place} :
    targetOf session source = .ok target ↔
      session.files.resolve session.working (programPath source) = .ok target ∧
        session.files.get? target ≠ some .directory := by
  unfold targetOf
  split
  · simp [*]
  · rename_i reached resolved
    split
    · -- A directory in the place contradicts that the place is free.
      rename_i directory
      simp only [resolved, reduceCtorEq, Except.ok.injEq, false_iff]
      rintro ⟨rfl, free⟩
      exact free directory
    · rename_i free
      simp only [resolved, Except.ok.injEq]
      exact ⟨fun same => ⟨same, same ▸ free⟩, And.left⟩

/-- The outcomes without a failure are those of the sources that compile. -/
theorem outcome_eq_ok_iff {session : Session} {source : Path} {target : Place}
    {program : String} :
    outcome session source = .ok (target, program) ↔
      CompilesTo session source target program := by
  constructor
  · -- Only the last of the branches ends without a failure, with every earlier step behind it.
    intro compiled
    unfold outcome at compiled
    split at compiled
    · cases compiled
    · rename_i text holds
      split at compiled
      · cases compiled
      · rename_i written compiles
        split at compiled
        · cases compiled
        · rename_i reached leads
          obtain ⟨rfl, rfl⟩ : reached = target ∧ written = program := by simpa using compiled
          obtain ⟨content, contained, decoded⟩ := textOf_eq_ok_iff.mp holds
          obtain ⟨resolved, free⟩ := targetOf_eq_ok_iff.mp leads
          exact ⟨⟨content, text, contained, decoded, compiles⟩, resolved, free⟩
  · rintro ⟨⟨content, text, contained, decoded, compiles⟩, resolved, free⟩
    have holds := textOf_eq_ok_iff.mpr ⟨content, contained, decoded⟩
    have leads := targetOf_eq_ok_iff.mpr ⟨resolved, free⟩
    simp only [outcome, holds, compiles, leads]

/-- A source compiles to one program, in one place. -/
theorem CompilesTo.unique {session : Session} {source : Path} {target target' : Place}
    {program program' : String} (compiles : CompilesTo session source target program)
    (compiles' : CompilesTo session source target' program') :
    target = target' ∧ program = program' := by
  -- Both are the one outcome of the source.
  have same := (outcome_eq_ok_iff.mpr compiles).symm.trans (outcome_eq_ok_iff.mpr compiles')
  simpa using same

/-- The reports of the events of a compilation. -/
def eventReports (session : Session) (source : Path) : List Message :=
  match textOf session source with
  | .error _ => []
  | .ok text => (compileEvents text).map fun event => .report (.ofEvent event)

/-- The report of how a compilation ended. -/
def endReport (session : Session) (source : Path) : Message :=
  .report <| match outcome session source with
    | .ok _ =>
      .ofApplication .info s!"compiled {source.display} -> {(programPath source).display}"
    | .error failure => .ofApplication .error s!"{source.display}: {failure.message}"

/-- The files when a source has been compiled. -/
def filesAfter (session : Session) (source : Path) : FileTree :=
  match outcome session source with
  | .ok (target, program) => session.files.insert target (.file program.toUTF8)
  | .error _ => session.files

/-- A source that compiles changes what stands in the place of its program. -/
theorem get?_filesAfter {session : Session} {source : Path} {target : Place} {program : String}
    (compiles : CompilesTo session source target program) (place : Place) :
    (filesAfter session source).get? place =
      if place = target then some (.file program.toUTF8) else session.files.get? place := by
  -- The root is a directory, and so no place of a program.
  have below : target ≠ [] := by
    rintro rfl
    exact compiles.free rfl
  rw [filesAfter, outcome_eq_ok_iff.mpr compiles]
  exact FileTree.get?_insert session.files below _ place

/-- A source that fails changes nothing. -/
theorem filesAfter_of_fails {session : Session} {source : Path}
    (fails : ∀ target program, ¬ CompilesTo session source target program) :
    filesAfter session source = session.files := by
  unfold filesAfter
  split
  · rename_i compiled
    exact absurd (outcome_eq_ok_iff.mp compiled) (fails _ _)
  · rfl

/-- A report is put out, and changes nothing else. -/
theorem report_run (record : LogRecord) (session : Session) :
    (Session.host.report record).run session = pure ((), session.putOut [.report record]) := rfl

/-- What is put out in two turns comes one behind the other. -/
@[simp] theorem putOut_putOut (session : Session) (first second : List Message) :
    (session.putOut first).putOut second = session.putOut (first ++ second) := by
  simp [Session.putOut]

/-- Putting nothing out changes nothing. -/
@[simp] theorem putOut_nil (session : Session) : session.putOut [] = session := by
  simp [Session.putOut]

/-- Reports that are made one after the other are put out one after the other. -/
theorem reportEvents_run (events : List Event) (session : Session) :
    (forIn events PUnit.unit fun event _ => do
      Session.host.report (.ofEvent event)
      pure (ForInStep.yield PUnit.unit) : StateM Session PUnit).run session =
      pure (PUnit.unit, session.putOut (events.map fun event => .report (.ofEvent event))) := by
  -- Each report starts from what the reports before it have put out.
  induction events generalizing session with
  | nil => simp
  | cons event events ih =>
    simp only [List.forIn_cons, StateT.run_bind, report_run, pure_bind, StateT.run_pure]
    rw [ih, putOut_putOut]
    rfl

/-- Reading a source changes nothing. -/
theorem readText_run (session : Session) (source : Path) :
    (Session.host.readText source).run session = pure (textOf session source, session) := by
  have bytes : (Session.host.read source).run session =
      pure (session.files.read session.working source, session) := rfl
  unfold Host.readText textOf
  simp only [StateT.run_bind, bytes, pure_bind]
  -- The content is either missing or decoded, and the session is handed on in both cases.
  cases session.files.read session.working source with
  | error fault => rfl
  | ok content => cases decoded : String.fromUTF8? content <;> simp [decoded]

/-- A program is written to its place. -/
theorem write_programPath (session : Session) (source : Path) (content : ByteArray) :
    session.files.write session.working (programPath source) content =
      (targetOf session source).map fun target => session.files.insert target (.file content) := by
  unfold FileTree.write targetOf
  cases session.files.resolve session.working (programPath source) with
  | error fault => rfl
  | ok target =>
    -- Nothing, a directory or a file can stand there; only the directory is in the way.
    simp only [Bind.bind, Except.bind]
    rcases session.files.get? target with _ | (_ | _) <;> rfl

/-- Writing a program changes nothing but what stands in its place. -/
theorem write_run (session : Session) (source : Path) (program : String) :
    (Session.host.write (programPath source) program).run session =
      pure ((targetOf session source).map fun _ => (),
        { session with
          files := match targetOf session source with
            | .error _ => session.files
            | .ok target => session.files.insert target (.file program.toUTF8) }) := by
  have written := write_programPath session source program.toUTF8
  simp only [Session.host, StateT.run_bind, StateT.run_get, pure_bind, written]
  cases targetOf session source <;> rfl

/-- Compiling a source changes the files as its outcome says, and reports its events. -/
theorem compileFile_run (session : Session) (source : Path) :
    (compileFile Session.host source).run session =
      pure ((outcome session source).map fun _ => programPath source,
        { session.putOut (eventReports session source) with
          files := filesAfter session source }) := by
  unfold compileFile outcome eventReports filesAfter
  simp only [StateT.run_bind, readText_run, pure_bind]
  cases holds : textOf session source with
  | error fault => simp [outcome, holds, Except.map]
  | ok text =>
    -- The events are reported whether or not the text compiles, and nothing is written before.
    simp only [outcome, holds, StateT.run_bind, reportEvents_run, pure_bind]
    cases compileToText text with
    | error fault => rfl
    | ok program =>
      -- What was put out has no bearing on where the program goes.
      have unaffected (more : List Message) :
          targetOf (session.putOut more) source = targetOf session source := rfl
      simp only [StateT.run_bind, write_run, pure_bind, unaffected]
      cases targetOf session source <;> rfl

/-- The reports of a source, from its first event to the end of its compilation. -/
def reportsOf (session : Session) (source : Path) : List Message :=
  eventReports session source ++ [endReport session source]

/-- The session when a source has been compiled and the end of its compilation reported. -/
def afterSource (session : Session) (source : Path) : Session :=
  { session.putOut (reportsOf session source) with files := filesAfter session source }

/-- A source that fails counts as one, and the others are compiled all the same. -/
theorem compileAll_cons_run (source : Path) (sources : List Path) (session : Session) :
    (compileAll Session.host (source :: sources)).run session =
      (do
        let (failed, last) ←
          (compileAll Session.host sources).run (afterSource session source)
        pure (if (outcome session source).isOk then failed else failed + 1, last) : Id _) := by
  -- The report at the end joins those of the events, and the count waits for the other sources.
  have joined (record : LogRecord) :
      Session.putOut { session.putOut (eventReports session source) with
        files := filesAfter session source } [.report record] =
      { session.putOut (eventReports session source ++ [.report record]) with
        files := filesAfter session source } := by
    simp [Session.putOut]
  rw [compileAll]
  simp only [StateT.run_bind, compileFile_run, pure_bind, afterSource, reportsOf, endReport]
  cases outcome session source <;> simp only [Except.map, report_run, pure_bind, joined] <;> rfl

end CommandLine

end JackCompiler
