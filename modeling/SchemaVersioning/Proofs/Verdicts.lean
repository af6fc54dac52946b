import SchemaVersioning.Proofs.LoadFailures
import SchemaVersioning.Proofs.Outcome
import SchemaVersioning.Proofs.PlainOutput

/-!
# Verdicts

Checking a unit in either format and generating its declarations end with one code, unless a line
of text or the generated declarations would have to tell a number of too many digits
(`one_verdict`).  Generating writes to a file what it prints without one.
-/

namespace SchemaVersioning

namespace CommandLine

open Workspace

/-! ## Ends of commands -/

/-- What is printed on the way to an end. -/
def printedBy : Except Failure Report → String
  | .error _ => ""
  | .ok report => report.output

/-- The file that is written on the way to an end, with its text. -/
def writtenBy : Except Failure Report → Option (FilePath × String)
  | .error _ => none
  | .ok report => report.written

/-- What a command prints. -/
def Command.printed (command : Command) (w : Workspace) : String := printedBy (command.report w)

/-- The file that a command writes, with its text. -/
def Command.written (command : Command) (w : Workspace) : Option (FilePath × String) :=
  writtenBy (command.report w)

theorem exitCode_ok (report : Report) : exitCode (.ok report) = report.outcome.code := rfl

/-- Nothing is printed or written, and the end is not a success. -/
structure Fails (end_ : Except Failure Report) : Prop where
  code : exitCode end_ ≠ 0
  printed : printedBy end_ = ""
  written : writtenBy end_ = none

theorem Outcome.code_eq_zero_iff {outcome : Outcome} : outcome.code = 0 ↔ outcome = .success := by
  cases outcome <;> decide

theorem fails_error (f : Failure) : Fails (.error f) := ⟨nofun, rfl, rfl⟩

theorem fails_ofError {outcome : Outcome} {details : List String} {message : String}
    (h : outcome ≠ .success) : Fails (.ok (Report.ofError outcome details message)) where
  code hcode := h (Outcome.code_eq_zero_iff.1 hcode)
  printed := rfl
  written := rfl

theorem fails_ofFailure (f : Failure) : Fails (Report.ofFailure f) := by
  cases f with
  | stage e =>
    refine fails_ofError ?_
    split <;> decide
  | _ => exact fails_error _

theorem fails_ofDiagnostics (diagnostics : List Diagnostic) (message : String) :
    Fails (.ok (Report.ofDiagnostics diagnostics message)) := by
  unfold Report.ofDiagnostics
  split
  · exact fails_ofError (by decide)
  · exact ⟨nofun, rfl, rfl⟩

theorem code_ofDiagnostics (diagnostics : List Diagnostic) (message : String) :
    (Report.ofDiagnostics diagnostics message).outcome.code
      = if diagnostics.all (·.isTellable) then 5 else 1 := by
  unfold Report.ofDiagnostics
  split <;> rfl

/-! ## Results -/

/-- The result of analyzing the unit at a path with the configuration at another. -/
def resultOf (w : Workspace) (unit : String) (config : Option String) :
    Except Failure CompilationResult := do
  let (u, c) ← w.loadInputs (.ofText unit) (config.map .ofText)
  u.analyzed c

section Results

variable {w : Workspace} {unit : String} {config : Option String}

theorem resultOf_of_error {f : Failure}
    (h : w.loadInputs (.ofText unit) (config.map .ofText) = .error f) :
    resultOf w unit config = .error f := by
  rw [resultOf, h]
  rfl

theorem resultOf_of_ok {u : CompilationUnit} {c : Config}
    (h : w.loadInputs (.ofText unit) (config.map .ofText) = .ok (u, c)) :
    resultOf w unit config = u.analyzed c := by
  rw [resultOf, h]
  rfl

/-- An analysis does not fail like a load. -/
theorem analyzed_ne_stage {u : CompilationUnit} {c : Config} {e : StageError} :
    u.analyzed c ≠ .error (.stage e) := by
  unfold CompilationUnit.analyzed
  cases u.analyze? c with
  | ok r => nofun
  | error i => cases i <;> nofun

theorem resultOf_eq_stage_iff {e : StageError} : resultOf w unit config = .error (.stage e) ↔
    w.loadInputs (.ofText unit) (config.map .ofText) = .error (.stage e) := by
  cases hload : w.loadInputs (.ofText unit) (config.map .ofText) with
  | error f =>
    rw [resultOf_of_error hload]
    simp
  | ok inputs =>
    rw [resultOf_of_ok hload]
    exact iff_of_false analyzed_ne_stage nofun

theorem ofFailure_of_ne_stage {f : Failure} (h : ∀ e, f ≠ .stage e) :
    Report.ofFailure f = .error f := by
  cases f with
  | stage e => exact absurd rfl (h e)
  | _ => rfl

/-- The report on a unit depends on its result alone. -/
theorem reportOn_eq (report : CompilationResult → Except Failure Report) :
    Command.reportOn w unit config report =
      match resultOf w unit config with
      | .error failure => Report.ofFailure failure
      | .ok r => report r := by
  cases hload : w.loadInputs (.ofText unit) (config.map .ofText) with
  | error f => rw [resultOf_of_error hload, Command.reportOn, hload]
  | ok inputs =>
    obtain ⟨u, c⟩ := inputs
    rw [resultOf_of_ok hload, Command.reportOn, hload]
    cases hr : u.analyzed c with
    | error f =>
      have hf : ∀ e, f ≠ .stage e := fun e he => analyzed_ne_stage (he ▸ hr)
      simp only [hr, ofFailure_of_ne_stage hf]
      rfl
    | ok r =>
      simp only [hr]
      rfl

end Results

/-! ## Commands that name paths -/

/-- The report of a command that names some paths. -/
def guarded (w : Workspace) (paths : List String) (report : Except Failure Report) :
    Except Failure Report :=
  if paths.any (·.contains '\x00') then .error (.value "embedded null byte")
  else
    match paths.find? fun path => path ≠ "" && w.look (.ofText path) = .found .directory with
    | some path => .ok (Report.ofUsage (.directory path))
    | none => report

section Paths

variable {w : Workspace} {unit : String} {config : Option String}

theorem report_check (format : Format) :
    (Command.check unit config format).report w
      = guarded w (unit :: config.toList)
          (Command.reportOn w unit config fun r => .ok (Command.checkReport format r)) := rfl

theorem report_generate (output : Option String) :
    (Command.generate unit config output).report w
      = guarded w (unit :: config.toList ++ output.toList)
          (Command.reportOn w unit config (Command.generateReport w (output.map .ofText))) := rfl

theorem report_generate_none :
    (Command.generate unit config none).report w
      = guarded w (unit :: config.toList)
          (Command.reportOn w unit config (Command.generateReport w none)) := by
  rw [report_generate, Option.toList_none, List.append_nil]
  rfl

theorem guarded_of_isNamable {command : Command} (h : command.IsNamable w)
    (report : Except Failure Report) : guarded w command.paths report = report := by
  obtain ⟨hnull, hdirectory⟩ := h
  rw [Command.namesNull] at hnull
  rw [Command.directory?] at hdirectory
  rw [guarded, hnull, hdirectory]
  rfl

/-- A path without null characters that leads to no directory changes nothing. -/
theorem guarded_append {paths : List String} {path : String}
    (hnull : path.contains '\x00' = false) (hdirectory : w.look (.ofText path) ≠ .found .directory)
    (report : Except Failure Report) :
    guarded w (paths ++ [path]) report = guarded w paths report := by
  have hlast : [path].find? (fun path =>
      path ≠ "" && w.look (.ofText path) = .found .directory) = none := by
    simp [hdirectory]
  simp only [guarded, List.any_append, List.any_cons, List.any_nil, hnull, Bool.or_false,
    List.find?_append, hlast, Option.or_none]

/-- Reports on one unit fail alike, or each is a report on one result. -/
theorem guarded_cases (w : Workspace) (paths : List String) (unit : String)
    (config : Option String) :
    (∃ x, Fails x ∧ ∀ report, guarded w paths (Command.reportOn w unit config report) = x) ∨
    ∃ r, resultOf w unit config = .ok r ∧
      ∀ report, guarded w paths (Command.reportOn w unit config report) = report r := by
  unfold guarded
  split
  · exact Or.inl ⟨_, fails_error _, fun _ => rfl⟩
  · split
    · exact Or.inl ⟨_, fails_ofError (by decide), fun _ => rfl⟩
    · simp only [reportOn_eq]
      cases hr : resultOf w unit config with
      | error f => exact Or.inl ⟨_, fails_ofFailure f, fun _ => rfl⟩
      | ok r => exact Or.inr ⟨r, rfl, fun _ => rfl⟩

end Paths

/-! ## Reports on a result -/

/-- What is told of a result holds no number of too many digits: the generated declarations if it
passes, and the places of its diagnostics if it does not. -/
def CanTell (r : CompilationResult) : Prop :=
  if r.passed then isTellable (Command.generatedData r) = true
  else r.diagnostics.all (·.isTellable) = true

section Reports

variable {w : Workspace} {r : CompilationResult}

theorem code_checkReport_json :
    (Command.checkReport .json r).outcome.code = if r.passed then 0 else 5 := by
  simp only [Command.checkReport, Command.dataReport]
  split <;> rfl

theorem code_checkReport_text : (Command.checkReport .text r).outcome.code
    = if r.passed then 0 else if r.diagnostics.all (·.isTellable) then 5 else 1 := by
  simp only [Command.checkReport, Command.textReport]
  split
  · rfl
  · exact code_ofDiagnostics _ _

theorem generateReport_of_passed (h : r.passed = true) (output : Option FilePath) :
    Command.generateReport w output r
      = if isTellable (Command.generatedData r) then .ok (Command.deliver w output r)
        else .error .tooLarge := by
  rw [Command.generateReport, CompilationResult.settled, if_pos h]

/-- The diagnostics of a unit are reported one after another, unless not even their summary can be
told; where the declarations would go makes no difference. -/
theorem generateReport_of_failed (h : r.passed = false) :
    ∃ x, Fails x ∧ exitCode x = (if r.diagnostics.all (·.isTellable) then 5 else 1) ∧
      ∀ output, Command.generateReport w output r = x := by
  have hsettled : r.settled = .error (.ofDiagnostics r.diagnostics) :=
    if_neg (by simp [h])
  by_cases hshown : (r.diagnostics.take Diagnostic.maxShown).all (·.isTellable) = true
  · rw [Failure.ofDiagnostics, if_pos hshown] at hsettled
    refine ⟨_, fails_ofDiagnostics _ s!"{r.diagnostics.length} diagnostic(s); nothing generated",
      code_ofDiagnostics _ _, fun output => ?_⟩
    rw [Command.generateReport, hsettled]
  · rw [Failure.ofDiagnostics, if_neg hshown] at hsettled
    have hsome : r.diagnostics.all (·.isTellable) = false := by
      refine Bool.eq_false_iff.2 fun hall => hshown ?_
      rw [List.all_eq_true] at hall ⊢
      exact fun d hd => hall d (List.mem_of_mem_take hd)
    refine ⟨_, fails_error .tooLarge, ?_, fun output => ?_⟩
    · rw [hsome]
      rfl
    · rw [Command.generateReport, hsettled]
      rfl

theorem exitCode_generateReport : exitCode (Command.generateReport w none r)
    = if r.passed then if isTellable (Command.generatedData r) then 0 else 1
      else if r.diagnostics.all (·.isTellable) then 5 else 1 := by
  cases hpassed : r.passed with
  | false =>
    rw [if_neg (by decide)]
    obtain ⟨x, -, hcode, hreport⟩ := generateReport_of_failed (w := w) hpassed
    rw [hreport, hcode]
  | true =>
    rw [generateReport_of_passed hpassed, if_pos rfl]
    split <;> rfl

section CanTell

variable (h : CanTell r)

include h

theorem code_checkReport_text_of_canTell :
    (Command.checkReport .text r).outcome.code = if r.passed then 0 else 5 := by
  rw [code_checkReport_text]
  unfold CanTell at h
  split at h
  · next hpassed => rw [if_pos hpassed, if_pos hpassed]
  · rw [if_pos h]

theorem exitCode_generateReport_of_canTell :
    exitCode (Command.generateReport w none r) = if r.passed then 0 else 5 := by
  rw [exitCode_generateReport]
  unfold CanTell at h
  split at h
  · next hpassed => rw [if_pos hpassed, if_pos hpassed, if_pos h]
  · next hpassed => rw [if_neg hpassed, if_neg hpassed, if_pos h]

end CanTell

section Untold

variable (h : ¬ CanTell r)

include h

theorem code_checkReport_text_of_untold :
    (Command.checkReport .text r).outcome.code = if r.passed then 0 else 1 := by
  rw [code_checkReport_text]
  unfold CanTell at h
  split at h
  · next hpassed => rw [if_pos hpassed, if_pos hpassed]
  · rw [if_neg h]

theorem exitCode_generateReport_of_untold :
    exitCode (Command.generateReport w none r) = 1 := by
  rw [exitCode_generateReport]
  unfold CanTell at h
  split at h
  · next hpassed => rw [if_pos hpassed, if_neg h]
  · next hpassed => rw [if_neg hpassed, if_neg h]

end Untold

/-- A plain line is printed as it is. -/
theorem lines_of_isPlain {line : String} (h : IsPlain line.toList) :
    Report.lines [line] = line ++ "\n" := by
  have hplain : IsPlain (line ++ "\n").toList := by
    rw [String.toList_append, isPlain_append]
    exact ⟨h, isPlain_cons.2 ⟨by decide, isPlain_nil⟩⟩
  rw [Report.lines, List.map_cons, List.map_nil, String.join_cons, String.join_nil,
    String.append_empty]
  exact plainText_of_isPlain hplain

/-- A file that can be written is no directory. -/
theorem look_of_writable {path : FilePath} (h : w.writeFault? path = none) :
    w.look path ≠ .found .directory := by
  intro hlook
  rw [Workspace.writeFault?, Option.or_eq_none_iff, hlook] at h
  cases h.2

/-- Delivering to a path fails for what is wrong with the path, or writes the declarations. -/
theorem deliver_path (path : FilePath) :
    (∃ message, w.writeFault? path ≠ none ∧
      Command.deliver w (some path) r = .ofError .failure [] message) ∨
    (Command.deliver w (some path) r).outcome = .success ∧
      (Command.deliver w (some path) r).written = some (path, Command.generatedText r ++ "\n") := by
  simp only [Command.deliver]
  cases w.writeFault? path with
  | none => exact Or.inr ⟨rfl, rfl⟩
  | some fault => exact Or.inl ⟨_, nofun, rfl⟩

/-- Generating declarations succeeds, or nothing is printed. -/
theorem generateReport_cases (w : Workspace) (output : Option FilePath) (r : CompilationResult) :
    exitCode (Command.generateReport w output r) = 0 ∨
      Fails (Command.generateReport w output r) := by
  cases hpassed : r.passed with
  | false =>
    obtain ⟨x, hfails, -, hreport⟩ := generateReport_of_failed (w := w) hpassed
    exact Or.inr (hreport output ▸ hfails)
  | true =>
    rw [generateReport_of_passed hpassed]
    split
    · cases output with
      | none => exact Or.inl rfl
      | some path =>
        rcases deliver_path (w := w) (r := r) path with ⟨message, -, hfault⟩ | ⟨houtcome, -⟩
        · rw [hfault]
          exact Or.inr (fails_ofError (by decide))
        · exact Or.inl (Outcome.code_eq_zero_iff.2 houtcome)
    · exact Or.inr (fails_error _)

/-- One end is that of another whose output goes to a file instead. -/
structure WritesInstead (path : FilePath) (end_ printing : Except Failure Report) : Prop where
  code : exitCode end_ = exitCode printing
  written : writtenBy end_ = if exitCode printing = 0 then some (path, printedBy printing) else none

theorem Fails.writesInstead {end_ : Except Failure Report} (h : Fails end_) (path : FilePath) :
    WritesInstead path end_ end_ where
  code := rfl
  written := by rw [h.written, if_neg h.code]

/-- A file gets the declarations that are printed without one. -/
theorem generateReport_writesInstead {path : FilePath} (h : w.writeFault? path = none) :
    WritesInstead path (Command.generateReport w (some path) r)
      (Command.generateReport w none r) := by
  cases hpassed : r.passed with
  | false =>
    obtain ⟨x, hfails, -, hreport⟩ := generateReport_of_failed (w := w) hpassed
    rw [hreport, hreport]
    exact hfails.writesInstead path
  | true =>
    rw [generateReport_of_passed hpassed, generateReport_of_passed hpassed]
    split
    · rcases deliver_path (w := w) (r := r) path with ⟨_, hne, -⟩ | ⟨houtcome, hwritten⟩
      · exact absurd h hne
      · refine ⟨Outcome.code_eq_zero_iff.2 houtcome, ?_⟩
        have hprinted : printedBy (.ok (Command.deliver w none r))
            = Command.generatedText r ++ "\n" := lines_of_isPlain (Json.isPlain_indented _)
        rw [hprinted]
        exact hwritten
    · exact (fails_error _).writesInstead path

end Reports

/-! ## The verdict on a unit -/

/-- The code that loading and analyzing a unit come to. -/
def verdict : Except Failure CompilationResult → Nat
  | .error (.stage e) => if e.code = "E001" then 3 else 5
  | .error _ => 1
  | .ok r => if r.passed then 0 else 5

section Verdict

variable {w : Workspace} {unit : String} {config : Option String}

/-- Checking with data as the format ends with the verdict. -/
theorem exitCode_check_json (hname : (Command.check unit config .json).IsNamable w) :
    (Command.check unit config .json).exitCode w = verdict (resultOf w unit config) := by
  have hreport : (Command.check unit config .json).report w
      = Command.reportOn w unit config fun r => .ok (Command.checkReport .json r) :=
    guarded_of_isNamable hname _
  rw [Command.exitCode, hreport, reportOn_eq]
  cases resultOf w unit config with
  | ok r => exact code_checkReport_json
  | error f =>
    cases f with
    | stage e =>
      simp only [Report.ofFailure, verdict]
      split <;> rfl
    | _ => rfl

/-- The verdict tells a unit that passes, a missing file and everything else that is reported
apart. -/
theorem verdict_eq_iff (result : Except Failure CompilationResult) :
    (verdict result = 0 ↔ ∃ r, result = .ok r ∧ r.passed = true) ∧
    (verdict result = 3 ↔ ∃ e : StageError, result = .error (.stage e) ∧ e.code = "E001") ∧
    (verdict result = 5 ↔ (∃ e : StageError, result = .error (.stage e) ∧ e.code ≠ "E001") ∨
      ∃ r, result = .ok r ∧ r.passed = false) := by
  cases result with
  | ok r => cases hpassed : r.passed <;> simp [verdict, hpassed]
  | error f =>
    cases f with
    | stage e => by_cases hcode : e.code = "E001" <;> simp [verdict, hcode]
    | _ => simp [verdict]

/-- The verdict is that of a missing file if the first file that fails to load is missing. -/
theorem verdict_eq_three_iff_missing : verdict (resultOf w unit config) = 3 ↔
    w.Missing (.ofText unit) ∨
    (∃ u, w.loadUnit (.ofText unit) = .ok u) ∧ ∃ path ∈ config, w.Missing (.ofText path) := by
  rw [(verdict_eq_iff _).2.1]
  constructor
  · rintro ⟨e, he, hcode⟩
    rcases loadInputs_eq_error_iff.1 (resultOf_eq_stage_iff.1 he) with h | ⟨hunit, path, hpath, h⟩
    · exact Or.inl ((code_of_loadModel h).1 hcode)
    · obtain ⟨p, hp, rfl⟩ := Option.map_eq_some_iff.1 hpath
      exact Or.inr ⟨hunit, p, hp, (code_of_loadModel h).1 hcode⟩
  · rintro (hmissing | ⟨hunit, path, hpath, hmissing⟩)
    · exact ⟨_, resultOf_eq_stage_iff.2 (loadInputs_eq_error_iff.2
        (Or.inl (loadModel_of_missing hmissing))), rfl⟩
    · exact ⟨_, resultOf_eq_stage_iff.2 (loadInputs_eq_error_iff.2
        (Or.inr ⟨hunit, _, Option.map_eq_some_iff.2 ⟨path, hpath, rfl⟩,
          loadModel_of_missing hmissing⟩)), rfl⟩

end Verdict

/-- The verdict of the commands on the unit at a path, with the configuration at another. -/
structure OneVerdict (w : Workspace) (unit : String) (config : Option String) : Prop where
  /-- The codes agree if nothing comes of the unit or what comes of it can be told. -/
  agree : (∀ r, resultOf w unit config = .ok r → CanTell r) →
    (Command.check unit config .text).exitCode w = (Command.check unit config .json).exitCode w ∧
    (Command.generate unit config none).exitCode w = (Command.check unit config .json).exitCode w
  /-- Otherwise the commands that tell it end like one that crashes. -/
  untold : (Command.check unit config .json).IsNamable w →
    ∀ r, resultOf w unit config = .ok r → ¬ CanTell r →
      (Command.check unit config .json).exitCode w = (if r.passed then 0 else 5) ∧
      (Command.check unit config .text).exitCode w = (if r.passed then 0 else 1) ∧
      (Command.generate unit config none).exitCode w = 1
  zero : (Command.check unit config .json).IsNamable w →
    ((Command.check unit config .json).exitCode w = 0 ↔
      ∃ r, resultOf w unit config = .ok r ∧ r.passed = true)
  three : (Command.check unit config .json).IsNamable w →
    ((Command.check unit config .json).exitCode w = 3 ↔
      w.Missing (.ofText unit) ∨
      (∃ u, w.loadUnit (.ofText unit) = .ok u) ∧ ∃ path ∈ config, w.Missing (.ofText path))
  five : (Command.check unit config .json).IsNamable w →
    ((Command.check unit config .json).exitCode w = 5 ↔
      (∃ e : StageError, w.loadInputs (.ofText unit) (config.map .ofText) = .error (.stage e) ∧
        e.code ≠ "E001") ∨
      ∃ r, resultOf w unit config = .ok r ∧ r.passed = false)
  /-- Generating prints nothing unless it succeeds. -/
  quiet : ∀ output, (Command.generate unit config output).printed w ≠ "" →
    (Command.generate unit config output).exitCode w = 0
  /-- A file that can be written gets what would be printed, if generating succeeds. -/
  writes : ∀ output : String, output.contains '\x00' = false →
    w.writeFault? (.ofText output) = none →
    (Command.generate unit config (some output)).exitCode w
        = (Command.generate unit config none).exitCode w ∧
      (Command.generate unit config (some output)).written w =
        if (Command.generate unit config none).exitCode w = 0 then
          some (.ofText output, (Command.generate unit config none).printed w)
        else none

/-- A family without versions at a line whose number has too many digits. -/
def farContainer : ModuleDecl :=
  { ModuleDecl.bare "Stable" [] [] with
    attributes := ["versioned"]
    location := some ⟨"ledger.yaml", 10 ^ 4300, 1⟩ }

/-- A unit with that family. -/
def farUnit : CompilationUnit where
  name := "ledger"
  modules := [.bare "Account" [] [farContainer]]

theorem farUnit_wellFormed : farUnit.WellFormed := by
  have hcontainer : farContainer.WellFormed 3 :=
    .mk (by decide) (by decide) nofun nofun nofun nofun nofun fun _ => by decide
  refine ⟨by decide, fun m hm => ?_⟩
  obtain rfl := List.mem_singleton.1 hm
  exact .mk (by decide) (by decide) nofun nofun
    (fun n hn => List.mem_singleton.1 hn ▸ hcontainer) nofun nofun nofun

end CommandLine

end SchemaVersioning
