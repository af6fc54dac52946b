import SchemaVersioning.CommandLine.Report
import SchemaVersioning.Proofs.Refusals
import SchemaVersioning.Proofs.RoundTrips

/-!
# Failures to load

What loading a model comes to.  A path without a file, a text without a mapping and a mapping that
the model refuses are errors of the stage that loads, and a model that is loaded is well formed
(`Workspace.Loads`).  Bytes that are no text are the exception: their fault is no error of a stage,
and a command that comes to it ends like one that crashes (`failures_reported`).
-/

namespace SchemaVersioning

open Checked

/-- The mapping that a document is: an empty document is an empty mapping. -/
def Value.mapping? : Value → Option Value
  | .null => some (.object [])
  | v =>
    match v.bare with
    | .object _ => some v
    | _ => none

namespace Workspace

variable {α : Type} {w : Workspace} {path : FilePath} {model : Value → Checked α}

/-- There is no file at a path: nothing, or a file where a directory is needed on the way. -/
def Missing (w : Workspace) (path : FilePath) : Prop :=
  w.look path = .absent ∨ w.look path = .blocked

/-- There is a file with a text at a path. -/
def HoldsText (w : Workspace) (path : FilePath) (text : String) : Prop :=
  ∃ content, w.look path = .found (.regular content) ∧ Encoding.utf8.decode content = .ok text

/-- There is a file at a path whose bytes are no text. -/
def HoldsFault (w : Workspace) (path : FilePath) (fault : Encoding.Fault) : Prop :=
  ∃ content, w.look path = .found (.regular content) ∧ Encoding.utf8.decode content = .error fault

/-- The document that a text denotes. -/
def documentOf (text : String) : Except Yaml.Fault Value :=
  Yaml.readDocument (String.ofList (unifyLineEnds text.toList))

/-- A text denotes a document, or the reader of documents finds that it is not well-formed. -/
def IsJudged (text : String) : Prop :=
  ∀ fault, documentOf text = .error fault → ∃ problem, fault = .malformed problem

/-- There is no file at a path, or one with a text that the reader of documents can judge. -/
def IsReadable (w : Workspace) (path : FilePath) : Prop :=
  w.Missing path ∨ ∃ text, w.HoldsText path text ∧ IsJudged text

/-! ## Reading a file -/

theorem loadModel_of_missing (h : w.Missing path) :
    w.loadModel path model = .error (.stage (.missingFile path (w.absoluteText path))) := by
  rw [loadModel, readMapping, readText]
  rcases h with h | h <;> rw [h] <;> rfl

theorem loadModel_of_fault {fault : Encoding.Fault} (h : w.HoldsFault path fault) :
    w.loadModel path model = .error (.undecodable fault) := by
  obtain ⟨content, hlook, hfault⟩ := h
  rw [loadModel, readMapping, readText, hlook]
  simp only [hfault]
  rfl

theorem readText_of_text {text : String} (h : w.HoldsText path text) :
    w.readText path = .ok (String.ofList (unifyLineEnds text.toList)) := by
  obtain ⟨content, hlook, htext⟩ := h
  rw [readText, hlook]
  simp only [htext]

/-- A text without a document is refused for what is wrong with it. -/
theorem loadModel_of_no_document {text : String} {fault : Yaml.Fault} (h : w.HoldsText path text)
    (hdocument : documentOf text = .error fault) :
    w.loadModel path model = .error (.ofFault path fault) := by
  rw [documentOf] at hdocument
  rw [loadModel, readMapping, readText_of_text h]
  simp only [bind, Except.bind, hdocument]

/-- A document is read if it is a mapping. -/
theorem readMapping_of_document {text : String} {v : Value} (h : w.HoldsText path text)
    (hdocument : documentOf text = .ok v) :
    w.readMapping path =
      match v.mapping? with
      | none => .error (.stage (.notMapping path v))
      | some m => .ok m := by
  rw [documentOf] at hdocument
  rw [readMapping, readText_of_text h]
  simp only [bind, Except.bind, hdocument]
  cases v with
  | null => rfl
  | cyclic identity content =>
    simp only [Value.mapping?]
    cases (Value.cyclic identity content).bare <;> rfl
  | _ => rfl

theorem loadModel_of_not_mapping {text : String} {v : Value} (h : w.HoldsText path text)
    (hdocument : documentOf text = .ok v) (hv : v.mapping? = none) :
    w.loadModel path model = .error (.stage (.notMapping path v)) := by
  rw [loadModel, readMapping_of_document h hdocument, hv]
  rfl

theorem loadModel_of_accepted {text : String} {v m : Value} {a : α} (h : w.HoldsText path text)
    (hdocument : documentOf text = .ok v) (hv : v.mapping? = some m) (hm : model m = .accepted a) :
    w.loadModel path model = .ok a := by
  rw [loadModel, readMapping_of_document h hdocument, hv]
  simp only [bind, Except.bind, hm, toExcept]

theorem loadModel_of_rejected {text : String} {v m : Value} {issues : List Issue}
    (h : w.HoldsText path text) (hdocument : documentOf text = .ok v) (hv : v.mapping? = some m)
    (hm : model m = .rejected issues) :
    w.loadModel path model = .error (.stage (.invalidModel path issues)) := by
  rw [loadModel, readMapping_of_document h hdocument, hv]
  simp only [bind, Except.bind, hm, toExcept]

/-! ## Loading a model -/

/-- What loading a model from a path comes to. -/
structure Loads (w : Workspace) (path : FilePath) (model : Value → Checked α) (Valid : α → Prop)
    (outcome : Except Failure α) : Prop where
  /-- Without a file there is an error of the stage that names the path. -/
  missing : w.Missing path → ∃ e, outcome = .error (.stage e) ∧ e.stage = .load ∧ e.code = "E001" ∧
    e.context = some [(.text "path", .text path.text)]
  /-- A text that the reader of documents can judge gives a valid model, or an error of the stage:
  it is not well-formed or no mapping, or the model refuses the mapping, and then the error tells
  the first issue in its message and all of them in its context. -/
  judged : ∀ text, w.HoldsText path text → IsJudged text →
    (∃ v m a, documentOf text = .ok v ∧ v.mapping? = some m ∧ model m = .accepted a ∧
      outcome = .ok a ∧ Valid a) ∨
    (∃ e, outcome = .error (.stage e) ∧ e.stage = .load ∧ e.code = "E002" ∧
      ∀ v, documentOf text = .ok v → v.mapping? = none) ∨
    ∃ v m first rest e, documentOf text = .ok v ∧ v.mapping? = some m ∧
      model m = .rejected (first :: rest) ∧ outcome = .error (.stage e) ∧ e.stage = .load ∧
      e.code = "E003" ∧
      e.message = s!"Validation error in {path.name}: {first.location}: {first.cause.message}" ∧
      e.context = some [(.text "path", .text path.text), (.text "field", .text first.location),
        (.text "message", .text first.cause.message),
        (.text "all_errors", .list ((first :: rest).map StageError.issueValue))]
  /-- Bytes that are no text give their fault, which is no error of a stage. -/
  undecodable : ∀ fault, w.HoldsFault path fault → outcome = .error (.undecodable fault)

theorem loads {Valid : α → Prop} (hreasoned : ∀ v, (model v).Reasoned)
    (hvalid : ∀ v a, model v = .accepted a → Valid a) :
    w.Loads path model Valid (w.loadModel path model) where
  missing h := ⟨_, loadModel_of_missing h, rfl, rfl, rfl⟩
  undecodable _ h := loadModel_of_fault h
  judged text h hjudged := by
    cases hdocument : documentOf text with
    | error fault =>
      obtain ⟨problem, rfl⟩ := hjudged fault hdocument
      exact Or.inr (Or.inl ⟨_, loadModel_of_no_document h hdocument, rfl, rfl, nofun⟩)
    | ok v =>
      cases hv : v.mapping? with
      | none =>
        refine Or.inr (Or.inl ⟨_, loadModel_of_not_mapping h hdocument hv, rfl, rfl, ?_⟩)
        rintro _ ⟨⟩
        exact hv
      | some m =>
        cases hm : model m with
        | accepted a =>
          exact Or.inl ⟨v, m, a, rfl, hv, hm, loadModel_of_accepted h hdocument hv hm,
            hvalid m a hm⟩
        | rejected issues =>
          obtain ⟨first, rest, rfl⟩ := (hreasoned m).exists_cons hm
          exact Or.inr (Or.inr ⟨v, m, first, rest, _, rfl, hv, hm,
            loadModel_of_rejected h hdocument hv hm, rfl, rfl, rfl, rfl⟩)

/-- What stands at a path. -/
theorem look_cases (w : Workspace) (path : FilePath) :
    w.Missing path ∨ (∃ text, w.HoldsText path text) ∨ (∃ fault, w.HoldsFault path fault) ∨
      w.look path = .overlong ∨ w.look path = .found .directory := by
  cases hlook : w.look path with
  | absent => exact Or.inl (Or.inl hlook)
  | blocked => exact Or.inl (Or.inr hlook)
  | overlong => simp
  | found file =>
    cases file with
    | directory => simp
    | regular content =>
      cases htext : Encoding.utf8.decode content with
      | ok text => exact Or.inr (Or.inl ⟨text, content, hlook, htext⟩)
      | error fault => exact Or.inr (Or.inr (Or.inl ⟨fault, content, hlook, htext⟩))

theorem HoldsText.not_missing {text : String} (h : w.HoldsText path text) : ¬ w.Missing path := by
  obtain ⟨content, hlook, -⟩ := h
  rintro (habsent | hblocked)
  · rw [hlook] at habsent
    cases habsent
  · rw [hlook] at hblocked
    cases hblocked

/-- A fault in a document is an error of the stage only if the text is not well-formed. -/
theorem code_of_ofFault {fault : Yaml.Fault} {e : StageError}
    (h : Failure.ofFault path fault = .stage e) : e.code = "E002" := by
  cases fault with
  | malformed =>
    obtain rfl := Failure.stage.inj h
    rfl
  | key word =>
    rw [Failure.ofFault] at h
    split at h <;> cases h
  | _ => cases h

/-- An error of the stage that loads tells of a missing file exactly if there is none. -/
theorem code_of_loadModel {e : StageError} (h : w.loadModel path model = .error (.stage e)) :
    e.code = "E001" ↔ w.Missing path := by
  rcases w.look_cases path with hmissing | ⟨text, htext⟩ | ⟨fault, hfault⟩ | hlook | hlook
  · rw [loadModel_of_missing hmissing] at h
    cases h
    exact iff_of_true rfl hmissing
  · have hcode : e.code = "E002" ∨ e.code = "E003" := by
      cases hdocument : documentOf text with
      | error fault =>
        rw [loadModel_of_no_document htext hdocument] at h
        exact Or.inl (code_of_ofFault (Except.error.inj h))
      | ok v =>
        cases hv : v.mapping? with
        | none =>
          rw [loadModel_of_not_mapping htext hdocument hv] at h
          cases h
          exact Or.inl rfl
        | some m =>
          cases hm : model m with
          | accepted a =>
            rw [loadModel_of_accepted htext hdocument hv hm] at h
            cases h
          | rejected issues =>
            rw [loadModel_of_rejected htext hdocument hv hm] at h
            cases h
            exact Or.inr rfl
    refine iff_of_false ?_ htext.not_missing
    rcases hcode with hcode | hcode <;> rw [hcode] <;> decide
  · rw [loadModel_of_fault hfault] at h
    cases h
  · rw [loadModel, readMapping, readText, hlook] at h
    cases h
  · rw [loadModel, readMapping, readText, hlook] at h
    cases h

end Workspace

/-! ## Commands -/

namespace CommandLine

/-- The paths of the unit and of the configuration that a command loads. -/
def Command.inputs? : Command → Option (String × Option String)
  | .check unit config _ => some (unit, config)
  | .generate unit config _ => some (unit, config)
  | _ => none

/-- A command names paths that can lead to files: none has a null character or leads to a
directory. -/
def Command.IsNamable (command : Command) (w : Workspace) : Prop :=
  command.namesNull = false ∧ command.directory? w = none

/-- The exit code of a command. -/
def Command.exitCode (command : Command) (w : Workspace) : Nat :=
  CommandLine.exitCode (command.report w)

section Report

variable {w : Workspace} {command : Command} {unit : String} {config : Option String}

/-- A command reports on what it loads. -/
theorem report_of_inputs (hinputs : command.inputs? = some (unit, config))
    (hname : command.IsNamable w) :
    ∃ report, command.report w = Command.reportOn w unit config report := by
  obtain ⟨hnull, hdirectory⟩ := hname
  cases command with
  | version => cases hinputs
  | help => cases hinputs
  | check u c format =>
    cases hinputs
    exact ⟨_, by rw [Command.report, hnull, hdirectory]; rfl⟩
  | generate u c output =>
    cases hinputs
    exact ⟨_, by rw [Command.report, hnull, hdirectory]; rfl⟩

/-- An error of the stage that loads ends a command with a code of its own. -/
theorem exitCode_of_stage (hinputs : command.inputs? = some (unit, config))
    (hname : command.IsNamable w) {e : StageError}
    (hfailure : w.loadInputs (.ofText unit) (config.map .ofText) = .error (.stage e)) :
    command.exitCode w = if e.code = "E001" then 3 else 5 := by
  obtain ⟨report, hreport⟩ := report_of_inputs hinputs hname
  rw [Command.exitCode, hreport, Command.reportOn, hfailure]
  simp only [Report.ofFailure]
  split <;> rfl

/-- Any other failure to load ends a command like a crash. -/
theorem exitCode_of_crash (hinputs : command.inputs? = some (unit, config))
    (hname : command.IsNamable w) {f : Failure} (hf : ∀ e, f ≠ .stage e)
    (hfailure : w.loadInputs (.ofText unit) (config.map .ofText) = .error f) :
    command.exitCode w = 1 := by
  obtain ⟨report, hreport⟩ := report_of_inputs hinputs hname
  rw [Command.exitCode, hreport, Command.reportOn, hfailure]
  cases f with
  | stage e => exact absurd rfl (hf e)
  | _ => rfl

end Report

end CommandLine

/-! ## All failures -/

namespace Workspace

open CommandLine

variable {w : Workspace}

theorem loads_unit (path : FilePath) :
    w.Loads path CompilationUnit.read CompilationUnit.WellFormed (w.loadUnit path) :=
  loads CompilationUnit.reasoned_read fun _ _ => CompilationUnit.wellFormed_of_read

theorem loads_config (path : FilePath) :
    w.Loads path Config.read Config.WellFormed (w.loadConfig path) :=
  loads Config.reasoned_read fun _ _ => Config.wellFormed_of_read

/-- What a readable file fails with is an error of the stage. -/
theorem Loads.exists_stage {α : Type} {path : FilePath} {model : Value → Checked α}
    {Valid : α → Prop} {f : Failure} (h : w.Loads path model Valid (.error f))
    (hreadable : w.IsReadable path) : ∃ e, f = .stage e := by
  rcases hreadable with hmissing | ⟨text, htext, hjudged⟩
  · obtain ⟨e, he, -⟩ := h.missing hmissing
    exact ⟨e, Except.error.inj he⟩
  · rcases h.judged text htext hjudged with ⟨_, _, _, _, _, _, hok, -⟩ | ⟨e, he, -⟩ |
      ⟨_, _, _, _, e, _, _, _, he, -⟩
    · cases hok
    · exact ⟨e, Except.error.inj he⟩
    · exact ⟨e, Except.error.inj he⟩

/-- The unit fails to load, or it loads and the configuration fails to. -/
theorem loadInputs_eq_error_iff {unit : FilePath} {config : Option FilePath} {f : Failure} :
    w.loadInputs unit config = .error f ↔
      w.loadUnit unit = .error f ∨ (∃ u, w.loadUnit unit = .ok u) ∧
        ∃ path, config = some path ∧ w.loadConfig path = .error f := by
  unfold loadInputs
  cases w.loadUnit unit with
  | error g => simp [bind, Except.bind]
  | ok u =>
    cases config with
    | none => simp [bind, Except.bind, loadConfigOr]
    | some path =>
      cases hconfig : w.loadConfig path <;> simp [bind, Except.bind, loadConfigOr, hconfig]

/-- How failures to load are reported in a workspace. -/
structure ReportsFailures (w : Workspace) : Prop where
  unit : ∀ path, w.Loads path CompilationUnit.read CompilationUnit.WellFormed (w.loadUnit path)
  config : ∀ path, w.Loads path Config.read Config.WellFormed (w.loadConfig path)
  /-- A command that cannot load readable files ends with the code of a missing file or of an
  invalid one. -/
  readable : ∀ (command : Command) unit config, command.inputs? = some (unit, config) →
    command.IsNamable w → w.IsReadable (.ofText unit) →
    (∀ path ∈ config, w.IsReadable (.ofText path)) →
    (∀ inputs, w.loadInputs (.ofText unit) (config.map .ofText) ≠ .ok inputs) →
      command.exitCode w = 3 ∨ command.exitCode w = 5
  /-- A command that comes to bytes that are no text ends like a crash. -/
  undecodable : ∀ (command : Command) unit config fault,
    command.inputs? = some (unit, config) → command.IsNamable w →
    w.HoldsFault (.ofText unit) fault → command.exitCode w = 1

/-- Failures to load are reported in every workspace. -/
theorem failures_reported (w : Workspace) : w.ReportsFailures where
  unit := loads_unit
  config := loads_config
  readable command unit config hinputs hname hunit hconfig hfails := by
    cases hfailure : w.loadInputs (.ofText unit) (config.map .ofText) with
    | ok inputs => exact absurd hfailure (hfails inputs)
    | error f =>
      have hstage : ∃ e, f = .stage e := by
        rcases loadInputs_eq_error_iff.1 hfailure with h | ⟨-, path, hpath, h⟩
        · exact (h ▸ loads_unit (.ofText unit)).exists_stage hunit
        · obtain ⟨p, hp, rfl⟩ := Option.map_eq_some_iff.1 hpath
          exact (h ▸ loads_config (.ofText p)).exists_stage (hconfig p hp)
      obtain ⟨e, rfl⟩ := hstage
      rw [exitCode_of_stage hinputs hname hfailure]
      by_cases hcode : e.code = "E001"
      · exact Or.inl (if_pos hcode)
      · exact Or.inr (if_neg hcode)
  undecodable command unit config fault hinputs hname hfault := by
    have hunit : w.loadUnit (.ofText unit) = .error (.undecodable fault) :=
      loadModel_of_fault hfault
    exact exitCode_of_crash hinputs hname (fun e he => by cases he)
      (loadInputs_eq_error_iff.2 (Or.inl hunit))

/-- A file of one byte that begins no character is not reported as a text that is not
well-formed. -/
theorem undecodable_unit_unreported :
    (ofFiles "/srv" [(⟨"", ["u.yaml"]⟩, .regular [0xff])]).loadUnit ⟨"", ["u.yaml"]⟩
      = .error (.undecodable ⟨.utf8, 0, [0xff], .startByte⟩) := by
  refine loadModel_of_fault ⟨[0xff], rfl, ?_⟩
  simp only [Encoding.decode]
  rw [Encoding.decodeUtf8]
  rfl

end Workspace

end SchemaVersioning
