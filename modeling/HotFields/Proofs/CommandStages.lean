import HotFields.Main
import HotFields.Proofs.ParallelAgreement
import HotFields.Proofs.ProgramRoundTrip
import Mathlib.Control.Traversable.Basic

namespace HotFields

/-- Measuring a computation gives its value, whatever the measured time and whatever is done on the way. -/
def Clock.Faithful {m : Type → Type} [Functor m] (clock : Clock m) : Prop :=
  ∀ {α : Type} (f : Unit → α), (fun r : α × Nat => (f (), r.2)) <$> clock.measure f = clock.measure f

theorem Clock.stopped_faithful : Clock.stopped.Faithful := fun _ => rfl

theorem Process.clock_faithful (start : Nat) : (Process.clock start).Faithful := fun _ => rfl

section Lawful

variable {m : Type → Type} [Monad m] [LawfulMonad m]

theorem Phases.record_eq {clock : Clock m} (faithful : clock.Faithful) {α : Type} (phases : Phases)
    (name : String) (f : Unit → α) :
    phases.record clock name f =
      (fun r => (f (), phases ++ [{ name, nanoseconds := r.2 }])) <$> clock.measure f := by
  rw [record, ← faithful f]
  simp only [bind_pure_comp, Functor.map_map]

namespace Command

/-- A run that ends with the given entries before the report and the given report, whatever it does on the way. -/
def Reports (run : m Run) (before : Log) (report : Except RunFault String) : Prop :=
  ∃ after : m Log, run = (fun entries => ⟨before, report, entries⟩) <$> after

theorem reports_pure (before after : Log) (report : Except RunFault String) :
    Reports (pure ⟨before, report, after⟩ : m Run) before report :=
  ⟨pure after, (map_pure _ _).symm⟩

theorem Reports.bind {α : Type} {next : α → m Run} {before : Log} {report : Except RunFault String}
    (h : ∀ a, Reports (next a) before report) (first : m α) :
    Reports (first >>= next) before report := by
  choose after hafter using h
  refine ⟨first >>= after, ?_⟩
  rw [map_bind]
  exact bind_congr hafter

theorem Reports.outcome {run : m Run} {before : Log} {report : Except RunFault String}
    (h : Reports run before report) (filter : Log.Filter) :
    ∃ after : m Log, Run.outcome filter <$> run =
      (fun entries => Run.outcome filter ⟨before, report, entries⟩) <$> after := by
  obtain ⟨after, rfl⟩ := h
  exact ⟨after, Functor.map_map _ _ _⟩

end Command

end Lawful

theorem Path.ofExtension?_eq_none_iff (path : String) :
    (Path.extension? path).bind ProgramFormat.ofExtension? = none ↔
      Path.extension path ∉ ["json", "yaml", "yml"] := by
  unfold Path.extension ProgramFormat.ofExtension?
  cases Path.extension? path with
  | none => simp
  | some extension =>
    by_cases hj : extension = "json"
    · simp [hj]
    · by_cases hy : extension = "yaml" ∨ extension = "yml"
      · simp [hj, hy]
      · simp [hj, hy]

theorem Program.checked_ne_unsupported (p : Program) (extension : String) :
    p.checked ≠ .error (.unsupported extension) := by
  unfold checked
  split <;> simp

/-- A text is never refused for the name of its file. -/
theorem Program.ofText_ne_unsupported (format : ProgramFormat) (text extension : String) :
    Program.ofText format text ≠ .error (.unsupported extension) := by
  cases format with
  | json =>
    change Program.ofJson text ≠ _
    unfold Program.ofJson
    split
    next p _ => exact p.checked_ne_unsupported extension
    next => simp
  | yaml =>
    change Program.ofYaml text ≠ _
    unfold Program.ofYaml
    split
    next p _ => exact p.checked_ne_unsupported extension
    next => simp

/-- Loading refuses a format exactly for a readable file without one of the three extensions. -/
theorem Program.load_unsupported_iff (read : FileReader) (path : String) :
    (∃ extension, Program.load read path = .error (.unsupported extension)) ↔
      (∃ text, read path = .ok text) ∧ Path.extension path ∉ ["json", "yaml", "yml"] := by
  rw [← Path.ofExtension?_eq_none_iff]
  unfold load
  cases read path with
  | error fault => simp
  | ok text =>
    cases (Path.extension? path).bind ProgramFormat.ofExtension? with
    | none => simp
    | some format => simp [Program.ofText_ne_unsupported]

/-- Both looks at the extension accept the same paths. -/
theorem Program.load_ne_unsupported_iff (path : String) :
    (∀ (read : FileReader) (extension : String), Program.load read path ≠ .error (.unsupported extension)) ↔
      Path.extension path ∈ ["json", "yaml", "yml"] := by
  constructor
  · intro never
    by_contra htext
    obtain ⟨extension, h⟩ := (Program.load_unsupported_iff (fun _ => .ok "") path).mpr ⟨⟨"", rfl⟩, htext⟩
    exact never _ extension h
  · intro htext read extension h
    exact ((Program.load_unsupported_iff read path).mp ⟨extension, h⟩).2 htext

/-- A plan with every root on its own leaves none out and has none twice. -/
theorem Plan.roots_perRoot (roots : List FunctionId) : (Plan.perRoot roots).roots = roots := by
  have hrun : ∀ plan : Plan, (roots.foldl (fun plan root => plan.join (chunk [root])) plan).roots =
      plan.roots ++ roots := by
    induction roots with
    | nil => exact fun plan => (List.append_nil _).symm
    | cons root rest ih =>
      intro plan
      have hh := ih (plan.join (chunk [root]))
      simpa [Plan.roots] using hh
  exact hrun Plan.blank

theorem analyzeBy_table {plan : Plan} {p : IndexedProgram} {o : Options}
    (hroots : plan.roots = rootsOf p.toProgram o) :
    (analyzeBy plan p o).table = (analyze p o).table := by
  rw [analyze_table, ← hroots]
  exact plan.run_eq_ofAccesses p o

namespace Command.Arguments

theorem analyze_table (a : Arguments) (p : IndexedProgram) (o : Options) :
    (a.analyze p o).table = (HotFields.analyze p o).table := by
  unfold analyze
  split
  next => exact analyzeBy_table (Plan.roots_perRoot _)
  next => rfl

/-- How a command line ends: by the first stage that fails, or by the report. -/
inductive Ends (read : FileReader) (a : Arguments) : Except RunFault String → Prop
  | options {fault : ConfigFault} (refused : a.options read = .error fault) :
    Ends read a (.error (.config fault))
  | feature {o : Options} (chosen : a.options read = .ok o)
    (extension : Path.extension a.input ∈ ["ll", "bc"]) :
    Ends read a (.error (.needsFeature a.input))
  | format {o : Options} (chosen : a.options read = .ok o)
    (extension : Path.extension a.input ∉ ["json", "yaml", "yml", "ll", "bc"]) :
    Ends read a (.error (.unsupported (Path.extension a.input)))
  | load {o : Options} {fault : LoadFault} (chosen : a.options read = .ok o)
    (extension : Path.extension a.input ∈ ["json", "yaml", "yml"])
    (refused : Program.load read a.input = .error fault) :
    Ends read a (.error (.load a.input fault))
  | report {o : Options} {p : IndexedProgram} (chosen : a.options read = .ok o)
    (extension : Path.extension a.input ∈ ["json", "yaml", "yml"])
    (loaded : Program.load read a.input = .ok p) :
    Ends read a (.ok (Report.render (HotFields.analyze p o).table))

theorem checkInput_eq_ok_iff (a : Arguments) :
    a.checkInput = .ok () ↔ Path.extension a.input ∈ ["json", "yaml", "yml"] := by
  unfold checkInput
  by_cases htext : Path.extension a.input ∈ ["json", "yaml", "yml"]
  · exact iff_of_true (if_pos htext) htext
  · refine iff_of_false ?_ htext
    simp only [htext, if_false]
    split <;> simp

theorem checkInput_eq_needsFeature {a : Arguments} (h : Path.extension a.input ∈ ["ll", "bc"]) :
    a.checkInput = .error (.needsFeature a.input) := by
  have apart : ∀ extension ∈ ["ll", "bc"], extension ∉ ["json", "yaml", "yml"] := by decide
  unfold checkInput
  rw [if_neg (apart _ h), if_pos h]

theorem checkInput_eq_unsupported {a : Arguments}
    (h : Path.extension a.input ∉ ["json", "yaml", "yml", "ll", "bc"]) :
    a.checkInput = .error (.unsupported (Path.extension a.input)) := by
  have htext : Path.extension a.input ∉ ["json", "yaml", "yml"] :=
    fun hm => h (List.mem_append_left ["ll", "bc"] hm)
  have hbit : Path.extension a.input ∉ ["ll", "bc"] :=
    fun hm => h (List.mem_append_right ["json", "yaml", "yml"] hm)
  unfold checkInput
  rw [if_neg htext, if_neg hbit]

/-- Every command line has a verdict: each stage fails or hands on to the next. -/
theorem exists_ends (read : FileReader) (a : Arguments) : ∃ verdict, a.Ends read verdict := by
  cases chosen : a.options read with
  | error fault => exact ⟨_, .options chosen⟩
  | ok o =>
    by_cases htext : Path.extension a.input ∈ ["json", "yaml", "yml"]
    · cases loaded : Program.load read a.input with
      | error fault => exact ⟨_, .load chosen htext loaded⟩
      | ok p => exact ⟨_, .report chosen htext loaded⟩
    · by_cases hbit : Path.extension a.input ∈ ["ll", "bc"]
      · exact ⟨_, .feature chosen hbit⟩
      · refine ⟨_, .format chosen fun hm => ?_⟩
        exact (List.mem_append.mp (show _ ∈ ["json", "yaml", "yml"] ++ ["ll", "bc"] from hm)).elim
          htext hbit

/-- Workers and timings are no part of the options. -/
theorem Ends.with_switches {read : FileReader} {a : Arguments} {verdict : Except RunFault String}
    (h : a.Ends read verdict) (parallel timings : Bool) :
    Ends read { a with parallel := parallel, timings := timings } verdict := by
  cases h with
  | options refused => exact .options refused
  | feature chosen extension => exact .feature chosen extension
  | format chosen extension => exact .format chosen extension
  | load chosen extension refused => exact .load chosen extension refused
  | report chosen extension loaded => exact .report chosen extension loaded

/-- A report is written exactly if no stage fails. -/
theorem Ends.ok_iff {read : FileReader} {a : Arguments} {verdict : Except RunFault String}
    (h : a.Ends read verdict) :
    (∃ report, verdict = .ok report) ↔ (∃ o, a.options read = .ok o) ∧
      Path.extension a.input ∈ ["json", "yaml", "yml"] ∧
      ∃ p, Program.load read a.input = .ok p := by
  constructor
  · rintro ⟨report, rfl⟩
    cases h with
    | report chosen extension loaded => exact ⟨⟨_, chosen⟩, extension, _, loaded⟩
  · rintro ⟨⟨o, ho⟩, htext, p, hp⟩
    have accepted := a.checkInput_eq_ok_iff.mpr htext
    cases h with
    | options refused => cases ho.symm.trans refused
    | feature _ extension => cases accepted.symm.trans (checkInput_eq_needsFeature extension)
    | format _ extension => cases accepted.symm.trans (checkInput_eq_unsupported extension)
    | load _ _ refused => cases hp.symm.trans refused
    | report => exact ⟨_, rfl⟩

section Run

variable {m : Type → Type} [Monad m] [LawfulMonad m]

theorem run_of_loaded {clock : Clock m} (faithful : clock.Faithful) {read : FileReader}
    {a : Arguments} {o : Options} {p : IndexedProgram} (chosen : a.options read = .ok o)
    (accepted : a.checkInput = .ok ()) (loaded : Program.load read a.input = .ok p) :
    Reports (a.run clock read) (optionsEntry o :: (a.analyze p o).log)
      (.ok (Report.render (HotFields.analyze p o).table)) := by
  unfold run
  simp only [chosen, accepted, loaded, Phases.record_eq faithful, bind_map_left, analyze_table]
  refine .bind (fun _ => .bind (fun _ => .bind (fun _ => .bind (fun _ => ?_) _) _) _) _
  exact reports_pure _ _ _

theorem run_of_not_loaded {clock : Clock m} (faithful : clock.Faithful) {read : FileReader}
    {a : Arguments} {o : Options} {fault : LoadFault} (chosen : a.options read = .ok o)
    (accepted : a.checkInput = .ok ()) (refused : Program.load read a.input = .error fault) :
    Reports (a.run clock read) [optionsEntry o] (.error (.load a.input fault)) := by
  unfold run
  simp only [chosen, accepted, refused, Phases.record_eq faithful, bind_map_left]
  exact .bind (fun _ => reports_pure _ _ _) _

/-- Whatever is measured on the way, a run reports the verdict of its command line. -/
theorem Ends.reports {clock : Clock m} (faithful : clock.Faithful) {read : FileReader}
    {a : Arguments} {verdict : Except RunFault String} (h : a.Ends read verdict) :
    ∃ before, Reports (a.run clock read) before verdict ∧
      ∀ fault, verdict = .error fault →
        ∀ entry ∈ before, ∃ o, a.options read = .ok o ∧ entry = optionsEntry o := by
  have announced : ∀ o, a.options read = .ok o →
      ∀ entry ∈ [optionsEntry o], ∃ o, a.options read = .ok o ∧ entry = optionsEntry o :=
    fun o chosen entry he => ⟨o, chosen, List.mem_singleton.mp he⟩
  cases h with
  | options refused =>
    refine ⟨[], ?_, by simp⟩
    unfold run
    simp only [refused]
    exact reports_pure _ _ _
  | @feature o chosen extension =>
    refine ⟨[optionsEntry o], ?_, fun _ _ => announced o chosen⟩
    unfold run
    simp only [chosen, checkInput_eq_needsFeature extension]
    exact reports_pure _ _ _
  | @format o chosen extension =>
    refine ⟨[optionsEntry o], ?_, fun _ _ => announced o chosen⟩
    unfold run
    simp only [chosen, checkInput_eq_unsupported extension]
    exact reports_pure _ _ _
  | @load o fault chosen extension refused =>
    have accepted := a.checkInput_eq_ok_iff.mpr extension
    exact ⟨_, run_of_not_loaded faithful chosen accepted refused, fun _ _ => announced o chosen⟩
  | report chosen extension loaded =>
    have accepted := a.checkInput_eq_ok_iff.mpr extension
    exact ⟨_, run_of_loaded faithful chosen accepted loaded, fun _ he => by cases he⟩

/-- A run ends by the first of its stages that fails, and otherwise with the report of the analysis function by
function. Workers and timings show in log entries only, however the workers share the roots. Of a failed run nothing
but the chosen options can be in the log, and its error stands in the place of the report. An input that the command
accepts is one whose format loading never refuses. -/
theorem run_outcome {clock : Clock m} (faithful : clock.Faithful) (read : FileReader)
    (a : Arguments) :
    ∃ verdict, a.Ends read verdict ∧
    ((∃ report, verdict = .ok report) ↔ (∃ o, a.options read = .ok o) ∧
      Path.extension a.input ∈ ["json", "yaml", "yml"] ∧
      ∃ p, Program.load read a.input = .ok p) ∧
    (∀ (parallel timings : Bool) (filter : Log.Filter), ∃ (before : Log) (after : m Log),
      Run.outcome filter <$> run clock read { a with parallel := parallel, timings := timings } =
        (fun entries =>
          match verdict with
          | .ok report => ⟨0, "", logText filter before ++ report ++ logText filter entries⟩
          | .error fault => ⟨1, "", logText filter before ++ textOfLines (faultLines fault.chain)⟩) <$>
          after ∧
      ∀ fault, verdict = .error fault →
        ∀ entry ∈ before, ∃ o, a.options read = .ok o ∧ entry = optionsEntry o) ∧
    (∀ o p (plan : Plan), a.options read = .ok o → Program.load read a.input = .ok p →
      plan.roots = rootsOf p.toProgram o →
      ∀ report, verdict = .ok report → report = Report.render (analyzeBy plan p o).table) ∧
    ∀ path, checkInput { a with input := path } = .ok () ↔
      ∀ (files : FileReader) (extension : String),
        Program.load files path ≠ .error (.unsupported extension) := by
  obtain ⟨verdict, ends⟩ := exists_ends read a
  refine ⟨verdict, ends, ends.ok_iff, ?_, ?_, ?_⟩
  · intro parallel timings filter
    obtain ⟨before, reports, failed⟩ := (ends.with_switches parallel timings).reports faithful
    obtain ⟨after, houtcome⟩ := reports.outcome filter
    refine ⟨before, after, houtcome.trans ?_, failed⟩
    cases verdict <;> rfl
  · intro o p plan ho hp hroots report hverdict
    cases ends with
    | report chosen extension loaded =>
      cases ho.symm.trans chosen
      cases hp.symm.trans loaded
      cases hverdict
      rw [analyzeBy_table hroots]
    | _ => cases hverdict
  · intro path
    rw [checkInput_eq_ok_iff, Program.load_ne_unsupported_iff]

end Run

/-- A directory with one file. -/
def oneFile (name content : String) : FileReader := fun path =>
  if path = name then .ok content else .error .missing

theorem run_outcome_oneFile :
    let read := oneFile "pairs.json" sharedAddress.renderJson
    let a : Arguments := { input := "pairs.json", timings := true }
    Program.load read "pairs.json" = .ok sharedAddress.index ∧
    (∀ parallel : Bool, ∃ before after : Log,
      Run.outcome .standard (run Clock.stopped read { a with parallel := parallel }) =
        ⟨0, "", logText .standard before ++ "Member access heatmap:\npair:\n1: 2\n" ++
          logText .standard after⟩) ∧
    ∃ before : Log, Run.outcome .standard (run Clock.stopped read { a with input := "pairs.ll" }) =
      ⟨1, "", logText .standard before ++
        "Error: pairs.ll is LLVM IR; rebuild with `--features llvm` to analyze it\n"⟩ := by
  intro read a
  have loaded : Program.load read "pairs.json" = .ok sharedAddress.index := by
    have hread : read "pairs.json" = .ok sharedAddress.renderJson := if_pos rfl
    have hformat : (Path.extension? "pairs.json").bind ProgramFormat.ofExtension? = some .json := by decide
    have hjson : Program.ofText .json sharedAddress.renderJson = .ok sharedAddress.index := by
      change Program.ofJson sharedAddress.renderJson = _
      rw [Program.ofJson, Program.readJson_renderJson]
      rfl
    rw [Program.load, hread]
    simp only [hformat, hjson]
  refine ⟨loaded, ?_, ?_⟩
  · obtain ⟨verdict, ends, succeeds, outcome, -⟩ := run_outcome Clock.stopped_faithful read a
    obtain ⟨report, rfl⟩ := succeeds.mpr ⟨⟨{}, rfl⟩, by decide, _, loaded⟩
    have hreport : report = "Member access heatmap:\npair:\n1: 2\n" := by
      cases ends with
      | report chosen _ loaded' =>
        cases loaded.symm.trans loaded'
        cases chosen
        rfl
    intro parallel
    obtain ⟨before, after, h, -⟩ := outcome parallel true .standard
    exact ⟨before, after, hreport ▸ h⟩
  · obtain ⟨verdict, ends, -, outcome, -⟩ :=
      run_outcome Clock.stopped_faithful read { a with input := "pairs.ll" }
    obtain ⟨before, after, h, -⟩ := outcome false true .standard
    have hverdict : verdict = .error (.needsFeature "pairs.ll") := by
      cases ends with
      | feature => rfl
      | options refused => cases refused
      | format _ extension => exact absurd (by decide) extension
      | load _ extension => exact absurd extension (by decide)
      | report _ extension => exact absurd extension (by decide)
    subst hverdict
    exact ⟨before, h⟩

end Command.Arguments

end HotFields
