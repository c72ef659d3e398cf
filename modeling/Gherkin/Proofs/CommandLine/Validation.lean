import Gherkin.CommandLine.Output
import Gherkin.Proofs.Parser.Dialects
import Gherkin.Proofs.Parser.Independence
import Gherkin.Proofs.Parser.WellFormed
import Mathlib.Algebra.Ring.Nat

/-!
# Validating several files

The report on several files is the reports on each of them, one behind the other.  They share a
parser, and with it the dialects that its resolver keeps, but what it keeps for one file does not
show in the report on another.
-/

namespace Gherkin.CommandLine

/-! ### Files on the command line -/

/-- To the reader of its arguments the command line validates files, whose documents are in the
given language unless they name another one. -/
def Validates (read : ArgumentReader) (environment : Option String)
    (arguments paths : List String) (tag : String) : Prop :=
  ∃ o, read arguments = .ok (.validate paths, o) ∧ language o environment = tag

/-- A command line that validates files whatever their names look like. -/
def validating (tag : String) (paths : List String) : List String :=
  ["--language=" ++ tag, "validate", "--"] ++ paths

/-- A reader of command lines takes one or more files to be validated, all of which have names,
and it takes any such files behind `--`. -/
structure ArgumentReader.TakesFiles (read : ArgumentReader) : Prop where
  named : ∀ {arguments paths : List String} {o : Options},
    read arguments = .ok (.validate paths, o) → paths ≠ [] ∧ "" ∉ paths
  validating : ∀ (tag : String) {paths : List String}, paths ≠ [] → "" ∉ paths →
    read (validating tag paths) = .ok (.validate paths, { language := some tag })

theorem exists_of_bind_eq_ok {ε α β : Type} {x : Except ε α} {f : α → Except ε β} {b : β}
    (h : x >>= f = .ok b) : ∃ a, x = .ok a ∧ f a = .ok b := by
  cases x with
  | error e => cases h
  | ok a => exact ⟨a, rfl, h⟩

section

variable {c : CommandName} {files files' paths : List String} {file : String}
  {o o' : Options} {arguments : List String}

theorem of_addFile (h : c.addFile files file = .ok files') :
    file ≠ "" ∧ files' = files ++ [file] := by
  rw [CommandName.addFile] at h
  split at h
  · cases h
  · next hfine =>
      obtain rfl := Except.ok.inj h
      refine ⟨?_, rfl⟩
      rintro rfl
      simp at hfine

theorem not_mem_of_addFile (h : c.addFile files file = .ok files') (hfiles : "" ∉ files) :
    "" ∉ files' := by
  obtain ⟨hfile, rfl⟩ := of_addFile h
  simpa [hfiles] using hfile.symm

theorem not_mem_of_addFiles (h : arguments.foldlM c.addFile files = .ok files')
    (hfiles : "" ∉ files) : "" ∉ files' := by
  induction arguments generalizing files with
  | nil =>
      obtain rfl := Except.ok.inj h
      exact hfiles
  | cons file arguments ih =>
      obtain ⟨more, hmore, h⟩ := exists_of_bind_eq_ok h
      exact ih h (not_mem_of_addFile hmore hfiles)

theorem not_mem_of_filesAndOptions (h : filesAndOptions c files o arguments = .ok (files', o'))
    (hfiles : "" ∉ files) : "" ∉ files' := by
  fun_induction filesAndOptions c files o arguments with
  | case1 files o =>
      cases h
      exact hfiles
  | case2 files o s rest hform =>
      obtain ⟨more, hmore, h⟩ := exists_of_bind_eq_ok h
      cases h
      exact not_mem_of_addFiles hmore hfiles
  | case3 files o s rest name hform ih =>
      obtain ⟨more, hmore, h⟩ := exists_of_bind_eq_ok h
      exact ih more h (not_mem_of_addFile hmore hfiles)
  | case4 files o s rest name value hform ih =>
      obtain ⟨o, -, h⟩ := exists_of_bind_eq_ok h
      exact ih o h hfiles
  | case7 files o s name hform hhelp value rest hvalue ih =>
      obtain ⟨o, -, h⟩ := exists_of_bind_eq_ok h
      exact ih o h hfiles
  | case5 | case6 | case8 | case9 => cases h

theorem addFiles (files : List String) (hpaths : "" ∉ paths) :
    paths.foldlM CommandName.validate.addFile files = .ok (files ++ paths) := by
  induction paths generalizing files with
  | nil =>
      rw [List.append_nil]
      rfl
  | cons path paths ih =>
      obtain ⟨hpath, hpaths⟩ : "" ≠ path ∧ "" ∉ paths := by simpa using hpaths
      have hadded : CommandName.validate.addFile files path = .ok (files ++ [path]) := by
        simp [CommandName.addFile, hpath.symm]
      rw [List.foldlM_cons, hadded]
      exact (ih (files ++ [path]) hpaths).trans (by rw [List.append_assoc, List.singleton_append])

theorem files_of_onFiles (h : c.onFiles files = .ok (.validate paths)) :
    paths ≠ [] ∧ paths = files := by
  unfold CommandName.onFiles at h
  split at h <;> cases h
  exact ⟨List.cons_ne_nil _ _, rfl⟩

/-- The files of a command line have names, and there is one at least. -/
theorem named_of_readArguments (h : readArguments o arguments = .ok (.validate paths, o')) :
    paths ≠ [] ∧ "" ∉ paths := by
  fun_induction readArguments o arguments with
  | case3 outer s rest name hform c hname =>
      obtain ⟨⟨files, inner⟩, hfiles, h⟩ := exists_of_bind_eq_ok h
      obtain ⟨command, hcommand, h⟩ := exists_of_bind_eq_ok h
      cases h
      obtain ⟨hpaths, rfl⟩ := files_of_onFiles hcommand
      exact ⟨hpaths, not_mem_of_filesAndOptions hfiles List.not_mem_nil⟩
  | case5 outer s rest name value hform ih =>
      obtain ⟨o, -, h⟩ := exists_of_bind_eq_ok h
      exact ih o h
  | case8 outer s name hform hhelp value rest hvalue ih =>
      obtain ⟨o, -, h⟩ := exists_of_bind_eq_ok h
      exact ih o h
  | case1 | case2 | case4 | case6 | case7 | case9 | case10 => cases h

end

theorem readArguments_validating (tag : String) {paths : List String} (hpaths : paths ≠ [])
    (hnamed : "" ∉ paths) :
    readArguments {} (validating tag paths) = .ok (.validate paths, { language := some tag }) := by
  have hlanguage : Argument.ofString ("--language=" ++ tag) = .assigned "language" tag := by
    simp [Argument.ofString, String.toList_append]
  have hvalidate : Argument.ofString "validate" = .word "validate" := by decide
  have hfilesOnly : Argument.ofString "--" = .filesOnly := by decide
  obtain ⟨path, paths, rfl⟩ := List.exists_cons_of_ne_nil hpaths
  have hcommand : filesAndOptions .validate [] {} ("--" :: path :: paths) =
      .ok (path :: paths, {}) := by
    rw [filesAndOptions, hfilesOnly]
    simp only
    rw [addFiles [] hnamed]
    rfl
  rw [validating, List.cons_append, List.cons_append, List.cons_append, List.nil_append,
    readArguments, hlanguage]
  change readArguments { language := some tag } _ = _
  rw [readArguments, hvalidate]
  change (filesAndOptions .validate [] {} _ >>= _) = _
  rw [hcommand]
  rfl

theorem takesFiles_readArguments : ArgumentReader.TakesFiles (readArguments {}) where
  named := named_of_readArguments
  validating := readArguments_validating

section

variable {read : ArgumentReader} {environment : Option String} {arguments paths : List String}
  {tag : String}

/-- The files that a command line can validate are those that have names. -/
theorem ArgumentReader.TakesFiles.exists_validates_iff (hread : read.TakesFiles) :
    (∃ arguments, Validates read environment arguments paths tag) ↔ paths ≠ [] ∧ "" ∉ paths := by
  constructor
  · rintro ⟨arguments, o, h, -⟩
    exact hread.named h
  · rintro ⟨hpaths, hnamed⟩
    exact ⟨_, _, hread.validating tag hpaths hnamed, rfl⟩

/-- Files that can be validated together can be validated one by one. -/
theorem ArgumentReader.TakesFiles.exists_alone (hread : read.TakesFiles)
    (h : Validates read environment arguments paths tag) {path : String} (hpath : path ∈ paths) :
    ∃ alone, Validates read environment alone [path] tag := by
  have hnamed := (hread.exists_validates_iff.mp ⟨arguments, h⟩).2
  have hne : path ≠ "" := ne_of_mem_of_not_mem hpath hnamed
  exact hread.exists_validates_iff.mpr ⟨List.cons_ne_nil _ _, mt List.mem_singleton.mp hne.symm⟩

theorem run_of_validates (files : Files) (h : Validates read environment arguments paths tag) :
    runWith read files environment arguments =
      validate files { resolver := Resolver.builtin.withDefaultLanguage tag } paths := by
  obtain ⟨o, harguments, rfl⟩ := h
  rw [runWith, harguments]
  rfl

end

/-! ### The report on a file -/

/-- What may be reported on a file: that it cannot be opened, why it holds no document, or what the
document holds. -/
inductive FileReport (files : Files) (p : Parser) (path : String) : Output → Prop where
  | unopened {message : String} (hfile : files path = .error message) :
      FileReport files p path { exitCode := 1, stderr := s!"{path}: {message}\n" }
  | invalid {source : Source} {failure : Failure} (hfile : files path = .ok source)
      (hparse : p.parse source = .error failure) :
      FileReport files p path { exitCode := 1, stderr := s!"{path}: {failure.message}\n" }
  | empty {source : Source} {document : Document} (hfile : files path = .ok source)
      (hparse : p.parse source = .ok document) (hfeature : document.feature = none) :
      FileReport files p path { stderr := s!"{path}: valid (no feature)\n" }
  /-- The summary counts the definitions, a background among them, and the steps of all of them,
  and names the language of the dialect that the document is written in. -/
  | valid {source : Source} {start : Run} {document : Document} {f : Feature}
      (hfile : files path = .ok source) (hparse : p.parse source = .ok document)
      (hfeature : document.feature = some f) (hrun : p.run source = .ok start)
      (hwritten : document.WrittenIn start.complete.matcher.dialect) :
      FileReport files p path
        { stderr :=
            let definitions := f.definitions.length
            let steps := (f.definitions.map fun d => d.steps.length).sum
            let language := start.complete.matcher.dialect.language
            let counts :=
              s!"{definitions} scenario definition(s), {steps} step(s), language {language}"
            s!"{path}: valid ({counts})\n" }

theorem stepCount_eq (f : Feature) :
    f.stepCount = (f.definitions.map fun d => d.steps.length).sum := by
  rw [Feature.stepCount, List.sum_eq_foldr, List.foldr_map]

/-- The report depends on the parser by no more than what the file is parsed to. -/
theorem validateFile_congr (files : Files) {p q : Parser} {path : String}
    (h : ∀ source, files path = .ok source → q.parse source = p.parse source) :
    (validateFile files q path).1 = (validateFile files p path).1 := by
  rw [validateFile, validateFile]
  cases hfile : files path with
  | error message => rfl
  | ok source =>
      have hsame : (q.report source).outcome = (p.report source).outcome := h source hfile
      dsimp only
      rw [hsame]
      cases (p.report source).outcome <;> rfl

theorem fileReport_validateFile (files : Files) (p : Parser) (path : String) :
    FileReport files p path (validateFile files p path).1 := by
  rw [validateFile]
  cases hfile : files path with
  | error message => exact .unopened hfile
  | ok source =>
      dsimp only
      cases hparse : (p.report source).outcome with
      | error failure => exact .invalid hfile hparse
      | ok document =>
          dsimp only
          cases hfeature : document.feature with
          | none =>
              have hempty := FileReport.empty hfile hparse hfeature
              have hsummary : s!"{path}: valid ({summary document})\n" =
                  s!"{path}: valid (no feature)\n" := by
                rw [summary, hfeature]
                simp only [String.append_assoc]
                rfl
              rwa [← hsummary] at hempty
          | some f =>
              obtain ⟨lines, rfl⟩ := Parser.exists_lines_of_parse hparse
              obtain ⟨start, hrun, -⟩ := Parser.exists_run_of_parse hparse
              have hwritten := Parser.writtenIn_of_parse hrun hparse
              have hvalid := FileReport.valid hfile hparse hfeature hrun hwritten
              rw [← stepCount_eq, ← hwritten.language f hfeature] at hvalid
              rwa [summary, hfeature]

/-- A file leaves nothing behind but what the resolver keeps. -/
theorem exists_used_of_validateFile (files : Files) {p : Parser} (h : p.resolver.Coherent)
    (path : String) :
    ∃ resolver, (validateFile files p path).2 = { p with resolver := resolver } ∧
      p.Used resolver := by
  rw [validateFile]
  cases files path with
  | error message => exact ⟨p.resolver, rfl, h, rfl, rfl⟩
  | ok source =>
      refine ⟨(p.report source).resolver, ?_, Parser.used_report h source⟩
      dsimp only
      cases (p.report source).outcome <;> rfl

/-! ### One report behind the other -/

/-- The reports on several files behind one another. -/
def Output.together (reports : List Output) : Output where
  exitCode := if ∀ report ∈ reports, report.exitCode = 0 then 0 else 1
  stderr := String.join (reports.map Output.stderr)

theorem FileReport.plain {files : Files} {p : Parser} {path : String} {report : Output}
    (h : FileReport files p path report) : report.stdout = "" ∧ report.exitCode ≤ 1 := by
  cases h with
  | unopened | invalid => exact ⟨rfl, Nat.le_refl 1⟩
  | empty | valid => exact ⟨rfl, Nat.zero_le 1⟩

/-- There is one report on a file. -/
theorem FileReport.unique {files : Files} {p : Parser} {path : String} {report other : Output}
    (h : FileReport files p path report) (hother : FileReport files p path other) :
    report = other := by
  cases h <;> cases hother <;> simp_all

theorem Output.append_together {report : Output} (reports : List Output)
    (hstdout : report.stdout = "") (hexit : report.exitCode ≤ 1) :
    report.append (.together reports) = .together (report :: reports) := by
  have hjoin : String.join ((report :: reports).map Output.stderr) =
      report.stderr ++ String.join (reports.map Output.stderr) := by
    simp
  simp only [Output.append, Output.together, hstdout, hjoin, List.forall_mem_cons]
  rcases Nat.le_one_iff_eq_zero_or_eq_one.mp hexit with hzero | hone
  · simp [hzero]
  · simp [hone]

theorem Output.append_nothing (report : Output) : report.append {} = report := by
  obtain ⟨exitCode, stdout, stderr⟩ := report
  simp only [Output.append, String.append_empty]
  congr 1
  split
  · next hzero => exact hzero.symm
  · rfl

/-- Several files are reported on as if the parser had not been used for any of them. -/
theorem validate_eq (files : Files) {p : Parser} (h : p.resolver.Coherent) (paths : List String) :
    validate files p paths =
      .together (paths.map fun path => (validateFile files p path).1) := by
  induction paths generalizing p with
  | nil => rfl
  | cons path paths ih =>
      obtain ⟨resolver, hnext, hused⟩ := exists_used_of_validateFile files h path
      obtain ⟨hstdout, hexit⟩ := (fileReport_validateFile files p path).plain
      -- The other files are validated by a parser that has been used, which makes no difference.
      have hothers : validate files (validateFile files p path).2 paths =
          .together (paths.map fun path => (validateFile files p path).1) := by
        rw [hnext, ih hused.coherent]
        refine congrArg _ (List.map_congr_left fun other _ => ?_)
        exact validateFile_congr files fun source _ => Parser.parse_of_used h hused source
      rw [List.map_cons, ← Output.append_together _ hstdout hexit, ← hothers]
      rfl

/-- A report on several files is the reports that command lines with one of them each give, one
behind the other, whatever becomes of a file in front of others.  It fails if one of them does.
So it is for any reader of command lines; there are such command lines if it takes files as the
reader of this program does. -/
theorem validates_each (read : ArgumentReader) (files : Files) {environment : Option String}
    {arguments paths : List String} {tag : String}
    (h : Validates read environment arguments paths tag) :
    ArgumentReader.TakesFiles (readArguments {}) ∧
    (read.TakesFiles → ∀ path ∈ paths, ∃ alone, Validates read environment alone [path] tag) ∧
      ∀ alone : String → List String,
        (∀ path ∈ paths, Validates read environment (alone path) [path] tag) →
        let report path := runWith read files environment (alone path)
        runWith read files environment arguments =
            { exitCode := if ∀ path ∈ paths, (report path).exitCode = 0 then 0 else 1
              stdout := ""
              stderr := String.join (paths.map fun path => (report path).stderr) } ∧
          ∀ path ∈ paths,
            FileReport files { resolver := Resolver.builtin.withDefaultLanguage tag } path
              (report path) := by
  refine ⟨takesFiles_readArguments, fun hread path hpath => hread.exists_alone h hpath,
    fun alone halone => ?_⟩
  intro report
  have hcoherent : (Resolver.builtin.withDefaultLanguage tag).Coherent :=
    (Resolver.coherent_ofSource _).withDefaultLanguage tag
  have hreport : ∀ path ∈ paths, report path = (validateFile files
      { resolver := Resolver.builtin.withDefaultLanguage tag } path).1 := by
    intro path hpath
    exact (run_of_validates files (halone path hpath)).trans (Output.append_nothing _)
  constructor
  · rw [run_of_validates files h, validate_eq files hcoherent,
      ← List.map_congr_left hreport]
    simp [Output.together, Function.comp_def]
  · intro path hpath
    rw [hreport path hpath]
    exact fileReport_validateFile files _ path

/-- A missing file between one in French, which is named twice, and one that is no document. -/
theorem validates_each_around_missing_file :
    let french := Source.ofLines
      (["# language: fr", "Fonctionnalité: f", "Contexte:", "Soit x"].map String.toList)
    let step := Source.ofLines ["Given x".toList]
    let files : Files := fun path =>
      if path = "a" then .ok french else if path = "b" then .ok step else .error "not found"
    let paths := ["a", "c", "b", "a"]
    let p : Parser := { resolver := Resolver.builtin.withDefaultLanguage "de" }
    let valid := "a: valid (1 scenario definition(s), 1 step(s), language fr)\n"
    let failure := Failure.parse [⟨.unexpectedToken State.start.expected "Given x", ⟨1, 1⟩⟩]
    let invalid := s!"b: {failure.message}\n"
    Validates (readArguments {}) none (validating "de" paths) paths "de" ∧
      FileReport files p "a" { stderr := valid } ∧ p.parse step = .error failure ∧
      FileReport files p "b" { exitCode := 1, stderr := invalid } ∧
      run files none (validating "de" paths) =
        { exitCode := 1, stderr := String.join [valid, "c: not found\n", invalid, valid] } := by
  intro french step files paths p valid failure invalid
  have hnamed : "" ∉ paths := by decide
  have h : Validates (readArguments {}) none (validating "de" paths) paths "de" :=
    ⟨_, takesFiles_readArguments.validating "de" (by decide) hnamed, rfl⟩
  obtain ⟨htakes, -, hreports⟩ := validates_each (readArguments {}) files h
  have hone : ∀ path ∈ paths,
      Validates (readArguments {}) none (validating "de" [path]) [path] "de" := by
    intro path hpath
    have hne : path ≠ "" := ne_of_mem_of_not_mem hpath hnamed
    exact ⟨_, htakes.validating "de" (List.cons_ne_nil _ _) (mt List.mem_singleton.mp hne.symm),
      rfl⟩
  obtain ⟨hrun, hreport⟩ := hreports (fun path => validating "de" [path]) hone
  have hvalid : FileReport files p "a" { stderr := valid } := by
    have hreported : (validateFile files p "a").1 = { stderr := valid } := by decide +kernel
    rw [← hreported]
    exact fileReport_validateFile files p "a"
  have hparse : p.parse step = .error failure := by decide +kernel
  have hinvalid : FileReport files p "b" { exitCode := 1, stderr := invalid } :=
    .invalid rfl hparse
  refine ⟨h, hvalid, hparse, hinvalid, hrun.trans ?_⟩
  have ha := (hreport "a" (by decide)).unique hvalid
  have hb := (hreport "b" (by decide)).unique hinvalid
  have hc := (hreport "c" (by decide)).unique (.unopened rfl)
  simp only [paths, List.forall_mem_cons, List.map_cons, List.map_nil, ha, hb, hc]
  rfl

end Gherkin.CommandLine
