import Javelet.CommandLine
import Javelet.Proofs.Documents

namespace Javelet

namespace Json

def field? (name : String) : Json → Option Json
  | object fields => fields.lookup name
  | _ => none

def bool? : Json → Option Bool
  | bool value => some value
  | _ => none

/-- The verdict that a document holds, by itself or in its result. -/
def wellTyped? (json : Json) : Option Bool :=
  ((json.field? "well_typed").or ((json.field? "result").bind (field? "well_typed"))).bind bool?

end Json

namespace CommandLine

/-- The verdict on a file that can be read, and whose text can be checked. -/
def verdict? (read : String → Except ReadFault String) (name : String) : Option Bool :=
  match read name with
  | .error _ => none
  | .ok source =>
    match check source name with
    | .error _ => none
    | .ok checked => some checked.verdict.wellTyped

theorem isOk_of_verdict? {read : String → Except ReadFault String} {name : String} {well : Bool}
    (found : verdict? read name = some well) : (read name).isOk = true := by
  cases fetched : read name with
  | error fault => simp [verdict?, fetched] at found
  | ok source => rfl

/-- What a file comes to. -/
def Outcome.ofVerdict : Option Bool → Outcome
  | some true => wellTyped
  | some false => illTyped
  | none => fatal

section

variable (log : Logger) (options : Options) (name : String)

theorem reportError_outcome (source : String) (e : Error) :
    (reportError options name source e).outcome = .fatal := by
  unfold reportError
  split <;> rfl

theorem reportVerdict_outcome (verdict : Verdict) :
    (reportVerdict options name verdict).outcome = .ofVerdict (some verdict.wellTyped) := by
  unfold reportVerdict
  cases verdict.wellTyped <;> dsimp only <;> split <;> rfl

theorem reportFile_outcome (read : String → Except ReadFault String) :
    (reportFile log options name (read name)).outcome = .ofVerdict (verdict? read name) := by
  cases fetched : read name with
  | error fault => simp only [reportFile, verdict?, fetched, Outcome.ofVerdict]
  | ok source =>
    cases done : check source name with
    | error e =>
      simp only [reportFile, reportSource, verdict?, fetched, done, reportError_outcome,
        Outcome.ofVerdict]
    | ok checked =>
      simp only [reportFile, reportSource, verdict?, fetched, done, reportVerdict_outcome]

/-- A report does not depend on what other files there are. -/
theorem reportFile_files (files : List String) (content : Except ReadFault String) :
    reportFile log { options with files } name content = reportFile log options name content :=
  rfl

/-- As JSON, a file that can be read is reported in a document that names it and has the verdict. -/
theorem reportFile_json (json : options.format = .json) {read : String → Except ReadFault String}
    {source : String} (fetched : read name = .ok source) :
    ∃ document : Json, (reportFile log options name (read name)).stdout =
        document.render ++ "\n" ∧
      document.field? "file" = some (.string name) ∧
      document.wellTyped? = verdict? read name := by
  cases done : check source name with
  | error e =>
    simp only [reportFile, reportSource, verdict?, fetched, done, reportError, json]
    refine ⟨_, rfl, ?_, ?_⟩
    · simp [Json.field?, List.lookup]
    · simp [Json.wellTyped?, Json.field?, List.lookup]
  | ok checked =>
    simp only [reportFile, reportSource, verdict?, fetched, done, reportVerdict, json]
    refine ⟨_, rfl, ?_, ?_⟩
    · simp [Json.field?]
    · cases options.quiet <;>
        simp [Json.wellTyped?, Json.field?, Json.bool?, Verdict.toJson, List.lookup]

end

theorem foldl_max_le_iff (codes : List Nat) (start bound : Nat) :
    codes.foldl max start ≤ bound ↔ start ≤ bound ∧ ∀ code ∈ codes, code ≤ bound := by
  induction codes generalizing start with
  | nil => simp
  | cons code rest ih =>
    rw [List.foldl_cons, ih, Nat.max_le, List.forall_mem_cons, and_assoc]

variable (log : Logger) (options : Options) (read : String → Except ReadFault String)

theorem answer_stdout : ((Request.check options).answer log read).stdout = String.join
    (options.files.map fun name => (reportFile log options name (read name)).stdout) := by
  simp [Request.answer, Output.ofReports, Function.comp_def]

theorem answer_stderr : ((Request.check options).answer log read).stderr = String.join
    (options.files.map fun name => (reportFile log options name (read name)).stderr) := by
  simp [Request.answer, Output.ofReports, Function.comp_def]

/-- The exit code is the largest that a file asks for. -/
theorem exit_le_iff (bound : Nat) : ((Request.check options).answer log read).exit ≤ bound ↔
    ∀ name ∈ options.files, (Outcome.ofVerdict (verdict? read name)).exitCode ≤ bound := by
  simp [Request.answer, Output.ofReports, foldl_max_le_iff, reportFile_outcome]

theorem exit_le_two : ((Request.check options).answer log read).exit ≤ 2 := by
  rw [exit_le_iff]
  intro name _
  cases verdict? read name with
  | none => exact Nat.le_refl 2
  | some well => cases well <;> decide

theorem exit_le_one_iff : ((Request.check options).answer log read).exit ≤ 1 ↔
    ∀ name ∈ options.files, verdict? read name ≠ none := by
  rw [exit_le_iff]
  refine forall₂_congr fun name _ => ?_
  cases verdict? read name with
  | none => decide
  | some well => cases well <;> decide

theorem exit_le_zero_iff : ((Request.check options).answer log read).exit ≤ 0 ↔
    ∀ name ∈ options.files, verdict? read name = some true := by
  rw [exit_le_iff]
  refine forall₂_congr fun name _ => ?_
  cases verdict? read name with
  | none => decide
  | some well => cases well <;> decide

/-- The files that can be read, in order. -/
def readable (files : List String) : List String := files.filter fun name => (read name).isOk

/-- The files that can be read have a document each, in order, and the others have none. -/
theorem exists_documents (json : options.format = .json) (files : List String) :
    ∃ documents : List Json,
      (files.flatMap fun name => (reportFile log options name (read name)).stdout.toList) =
        (documents.map (·.render.toList)).flatMap (· ++ ['\n']) ∧
      documents.map (Json.field? "file") =
        (readable read files).map (fun name => some (.string name)) ∧
      documents.map Json.wellTyped? = (readable read files).map (verdict? read) := by
  induction files with
  | nil => exact ⟨[], rfl, rfl, rfl⟩
  | cons name rest ih =>
    obtain ⟨documents, texts, names, verdicts⟩ := ih
    cases fetched : read name with
    | error fault =>
      have skipped : readable read (name :: rest) = readable read rest := by
        simp [readable, fetched, Except.isOk, Except.toBool]
      rw [skipped, List.flatMap_cons, fetched]
      exact ⟨documents, texts, names, verdicts⟩
    | ok source =>
      have listed : readable read (name :: rest) = name :: readable read rest := by
        simp [readable, fetched, Except.isOk, Except.toBool]
      obtain ⟨document, text, named, verdict⟩ := reportFile_json log options name json fetched
      rw [listed, List.flatMap_cons, text, texts]
      refine ⟨document :: documents, ?_, ?_, ?_⟩
      · simp
      · rw [List.map_cons, List.map_cons, named, names]
      · rw [List.map_cons, List.map_cons, verdict, verdicts]

/-- Lines of documents can be read as documents in one way. -/
theorem documents_of_lines {text : List Char} {documents : List Json}
    (lines : text = (documents.map (·.render.toList)).flatMap (· ++ ['\n']))
    (documents' : List Json) :
    text.splitOn '\n' = documents'.map (·.render.toList) ++ [[]] ↔ documents' = documents := by
  have clean : ∀ line ∈ documents.map (·.render.toList), '\n' ∉ line :=
    List.forall_mem_map.mpr fun document _ => document.oneLine_render
  have injective : Function.Injective fun document : Json => document.render.toList :=
    fun _ _ same => Json.render_injective (String.toList_inj.mp same)
  rw [lines, Obligation.splitOn_flatMap_line clean, List.append_left_inj,
    (List.map_injective_iff.mpr injective).eq_iff, eq_comm]

/-- Each file gets the report that it gets alone, whatever comes of the others. The exit code is 2
if a file cannot be read or checked, else 1 if one is ill typed, else 0, in whatever order they are.
As JSON, the files that can be read have one line each, in order; a line can be read in one way, and
it names the file and has the verdict on it. -/
theorem files_reported_apart :
    let output := (Request.check options).answer log read
    let alone (name : String) := (Request.check { options with files := [name] }).answer log read
    (output.stdout = String.join (options.files.map fun name => (alone name).stdout) ∧
      output.stderr = String.join (options.files.map fun name => (alone name).stderr)) ∧
    ((output.exit = 2 ↔ ∃ name ∈ options.files, verdict? read name = none) ∧
      (output.exit = 1 ↔ (∀ name ∈ options.files, verdict? read name ≠ none) ∧
        ∃ name ∈ options.files, verdict? read name = some false) ∧
      (output.exit = 0 ↔ ∀ name ∈ options.files, verdict? read name = some true)) ∧
    (∀ files, files.Perm options.files →
      ((Request.check { options with files }).answer log read).exit = output.exit) ∧
    (options.format = .json → ∃ documents : List Json,
      (∀ documents' : List Json, output.stdout.toList.splitOn '\n' =
        documents'.map (·.render.toList) ++ [[]] ↔ documents' = documents) ∧
      documents.map (Json.field? "file") =
        (readable read options.files).map (fun name => some (.string name)) ∧
      documents.map Json.wellTyped? = (readable read options.files).map (verdict? read) ∧
      (output.exit = 0 ↔ (∀ name ∈ options.files, (read name).isOk = true) ∧
        ∀ document ∈ documents, document.wellTyped? = some true)) := by
  intro output alone
  have worst : output.exit ≤ 2 := exit_le_two log options read
  have checked : output.exit ≤ 1 ↔ _ := exit_le_one_iff log options read
  have sound : output.exit ≤ 0 ↔ _ := exit_le_zero_iff log options read
  refine ⟨⟨?_, ?_⟩, ⟨?_, ?_, ?_⟩, ?_, ?_⟩
  · simp [output, alone, answer_stdout, reportFile_files]
  · simp [output, alone, answer_stderr, reportFile_files]
  · rw [show output.exit = 2 ↔ ¬output.exit ≤ 1 by omega, checked]
    simp
  · rw [show output.exit = 1 ↔ output.exit ≤ 1 ∧ ¬output.exit ≤ 0 by omega, checked, sound]
    refine and_congr_right fun each => ?_
    simp only [not_forall, exists_prop]
    refine exists_congr fun name => and_congr_right fun listed => ?_
    obtain ⟨well, found⟩ := Option.ne_none_iff_exists'.mp (each name listed)
    cases well <;> simp [found]
  · rw [← sound, Nat.le_zero]
  · intro files perm
    refine eq_of_forall_ge_iff fun bound => ?_
    rw [exit_le_iff, exit_le_iff]
    exact forall_congr' fun name => by rw [perm.mem_iff]
  · intro json
    obtain ⟨documents, texts, names, verdicts⟩ :=
      exists_documents log options read json options.files
    have lines : output.stdout.toList =
        (documents.map (·.render.toList)).flatMap (· ++ ['\n']) := by
      rw [← texts]
      simp [output, answer_stdout, List.flatMap_map]
    refine ⟨documents, documents_of_lines lines, names, verdicts, ?_⟩
    have reported : (∀ document ∈ documents, document.wellTyped? = some true) ↔
        ∀ name ∈ readable read options.files, verdict? read name = some true := by
      rw [← List.forall_mem_map (P := (· = some true)), verdicts, List.forall_mem_map]
    rw [← Nat.le_zero, sound, reported]
    constructor
    · intro each
      exact ⟨fun name listed => isOk_of_verdict? (each name listed),
        fun name own => each name (List.mem_of_mem_filter own)⟩
    · rintro ⟨all, each⟩ name listed
      exact each name (List.mem_filter.mpr ⟨listed, all name listed⟩)

/-- A file that is well typed, one that is not text, one that is ill typed and one that ends in an
error. -/
def sampleFile : String → Except ReadFault String
  | "a" => .ok "class C\x7b\x7d"
  | "c" => .ok "class C\x7bvoid m()\x7bint x=y;\x7d\x7d"
  | "d" => .ok "#"
  | _ => textOfBytes ⟨#[0xff]⟩

/-- With errors logged, as they are by default. -/
theorem files_reported_apart_sample :
    let output := (Request.check ⟨["a", "b", "c", "d"], .json, true⟩).answer .errors sampleFile
    output.exit = 2 ∧
    (∃ front back, output.stderr = front ++
      ("[ERROR typechecker] failed to read b: stream did not contain valid UTF-8\n" ++
        "Error: could not read b: stream did not contain valid UTF-8\n") ++ back) ∧
    ∃ documents : List Json,
      output.stdout.toList.splitOn '\n' = documents.map (·.render.toList) ++ [[]] ∧
      documents.map (Json.field? "file") = ["a", "c", "d"].map (fun name => some (.string name)) ∧
      documents.map Json.wellTyped? = [some true, some false, none] := by
  intro output
  obtain ⟨⟨_, apart⟩, ⟨failing, _⟩, _, listed⟩ :=
    files_reported_apart .errors ⟨["a", "b", "c", "d"], .json, true⟩ sampleFile
  obtain ⟨documents, lines, names, verdicts, _⟩ := listed rfl
  have unreadable : sampleFile "b" = .error .notText := by cbv
  have broken : verdict? sampleFile "b" = none := by simp [verdict?, unreadable]
  have found : readable sampleFile ["a", "b", "c", "d"] = ["a", "c", "d"] := by cbv
  have each : ["a", "c", "d"].map (verdict? sampleFile) = [some true, some false, none] := by cbv
  rw [found] at names verdicts
  refine ⟨failing.mpr ⟨"b", by decide, broken⟩, ?_, documents, (lines documents).mpr rfl, names, ?_⟩
  · let alone (name : String) := (Request.check ⟨[name], .json, true⟩).answer .errors sampleFile
    have written : (alone "b").stderr =
        "[ERROR typechecker] failed to read b: stream did not contain valid UTF-8\n" ++
          "Error: could not read b: stream did not contain valid UTF-8\n" := by
      rw [answer_stderr, List.map_singleton, unreadable]
      rfl
    refine ⟨(alone "a").stderr, (alone "c").stderr ++ (alone "d").stderr, ?_⟩
    rw [apart, ← written]
    simp [String.join, String.append_assoc, alone]
  · rw [verdicts, each]

end CommandLine
end Javelet
