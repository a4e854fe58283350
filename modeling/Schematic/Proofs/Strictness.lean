import Schematic.Cli.Run
import Schematic.Proofs.Arguments

/-!
# Strictness

A strict run refuses some of what a lenient run puts up with, and does not differ otherwise. It refuses
before anything is printed, so that a run that fails leaves an empty output.

* `Options.Refused`: what a strict run does not put up with.
* `run_strict_of_refused`, `run_strict_of_not_refused`: **what strictness does to a run.**
* `execute_cases`: how a run can end.
* `execute_strict`: both on the command line, together with what asking for strictness means there.
-/

namespace Schematic.Cli

variable {o : Options} {log : Level} {files : Files} {messages : List String} {p : Script.Parsed}
  {script : String}

/-- A run ended well. -/
def Outcome.Done (r : Outcome) : Prop := ∃ messages output, r = .done messages output

/-- A run failed. -/
def Outcome.Failed (r : Outcome) : Prop := ∃ messages f, r = .failed messages f

theorem Outcome.Done.code_eq {r : Outcome} (h : r.Done) : r.code = 0 := by
  obtain ⟨messages, output, rfl⟩ := h
  rfl

/-- **A run that fails leaves an empty output.** -/
theorem Outcome.Failed.code_eq {r : Outcome} (h : r.Failed) : r.code = 1 ∧ r.stdout = "" := by
  obtain ⟨messages, f, rfl⟩ := h
  exact ⟨rfl, rfl⟩

/-! ## Evaluations -/

/-- The evaluation that is asked for, of the circuit of a script. -/
def Options.evaluation (o : Options) (p : Script.Parsed) : Evaluation :=
  (Netlist.ofCircuit p.circuit).evaluate o.maxIterations (levelsOf o.assignments)

/-- An evaluation that settles is reported alike by a strict run. -/
theorem runEvaluation_strict_of_converged (h : (o.evaluation p).converged = true) :
    runEvaluation (o.withStrict true) log messages p = runEvaluation (o.withStrict false) log messages p := by
  unfold Options.evaluation at h
  simp only [runEvaluation, Options.withStrict, h, Bool.not_true, Bool.and_false]

/-- One that does not settle is refused by a strict run. -/
theorem runEvaluation_strict_of_not_converged (h : (o.evaluation p).converged = false) :
    (runEvaluation (o.withStrict true) log messages p).Failed := by
  unfold Options.evaluation at h
  simp only [runEvaluation, Options.withStrict, h, Bool.not_false, Bool.and_true, if_true]
  exact ⟨_, _, rfl⟩

theorem runEvaluation_lenient : (runEvaluation (o.withStrict false) log messages p).Done := by
  simp only [runEvaluation, Options.withStrict, Bool.false_and, Bool.false_eq_true, if_false]
  exact ⟨_, _, rfl⟩

/-! ## Scripts -/

/-- What a strict run does not put up with in a script: a diagnostic, or an evaluation, if there is to be
one, that does not settle. -/
def Options.RefusedIn (o : Options) (p : Script.Parsed) : Prop :=
  p.diagnostics ≠ [] ∨ o.fmt = false ∧ (o.evaluation p).converged = false

/-- A script without diagnostics is printed or evaluated, strictly or not. -/
theorem runScript_of_no_diagnostics (h : (Script.parse script).diagnostics = []) (strict : Bool) :
    runScript (o.withStrict strict) log script =
      if o.fmt then .done (openingMessages log (Script.parse script)) (Script.parse script).circuit.script
      else runEvaluation (o.withStrict strict) log (openingMessages log (Script.parse script))
        (Script.parse script) := by
  unfold runScript
  cases strict <;> simp only [Options.withStrict, h] <;> rfl

theorem runScript_lenient : (runScript (o.withStrict false) log script).Done := by
  have hstrict : (o.withStrict false).strict = false := rfl
  simp only [runScript, hstrict]
  split
  · exact ⟨_, _, rfl⟩
  · exact runEvaluation_lenient

theorem runScript_strict_of_refused (h : o.RefusedIn (Script.parse script)) :
    (runScript (o.withStrict true) log script).Failed := by
  cases hdiagnostics : (Script.parse script).diagnostics with
  | cons d ds =>
    have hstrict : (o.withStrict true).strict = true := rfl
    simp only [runScript, hstrict, hdiagnostics]
    exact ⟨_, _, rfl⟩
  | nil =>
    obtain ⟨hfmt, hconv⟩ := h.resolve_left fun hne => hne hdiagnostics
    rw [runScript_of_no_diagnostics hdiagnostics, hfmt]
    exact runEvaluation_strict_of_not_converged hconv

theorem runScript_strict_of_not_refused (h : ¬o.RefusedIn (Script.parse script)) :
    runScript (o.withStrict true) log script = runScript (o.withStrict false) log script := by
  obtain ⟨hdiagnostics, hsettles⟩ := not_or.1 h
  have hdiagnostics := not_not.1 hdiagnostics
  rw [runScript_of_no_diagnostics hdiagnostics, runScript_of_no_diagnostics hdiagnostics]
  cases hfmt : o.fmt with
  | true => rfl
  | false =>
    have hconv : (o.evaluation (Script.parse script)).converged = true := by
      cases hconv : (o.evaluation (Script.parse script)).converged with
      | true => rfl
      | false => exact absurd ⟨hfmt, hconv⟩ hsettles
    exact runEvaluation_strict_of_converged hconv

/-! ## Runs -/

/-- What a strict run does not put up with: the demos are not to be listed, the script can be had, and
something is wrong in it. -/
def Options.Refused (o : Options) (files : Files) : Prop :=
  ∃ source script, o.action = .show source ∧ source.script files = .ok script ∧
    o.RefusedIn (Script.parse script)

theorem run_of_script {source : Source} (ha : o.action = .show source) (hs : source.script files = .ok script)
    (strict : Bool) : run (o.withStrict strict) log files = runScript (o.withStrict strict) log script := by
  have haction : (o.withStrict strict).action = .show source := ha
  simp only [run, haction, hs]

/-- **A strict run fails where it refuses what a lenient one puts up with.** -/
theorem run_strict_of_refused (h : o.Refused files) :
    (run (o.withStrict true) log files).Failed ∧ (run (o.withStrict false) log files).Done := by
  obtain ⟨source, script, ha, hs, hrefused⟩ := h
  rw [run_of_script ha hs, run_of_script ha hs]
  exact ⟨runScript_strict_of_refused hrefused, runScript_lenient⟩

/-- **Where there is nothing to refuse, strictness makes no difference.** -/
theorem run_strict_of_not_refused (h : ¬o.Refused files) :
    run (o.withStrict true) log files = run (o.withStrict false) log files := by
  have haction : ∀ strict, (o.withStrict strict).action = o.action := fun _ => rfl
  cases ha : o.action with
  | listDemos => simp only [run, haction, ha]
  | «show» source =>
    cases hs : source.script files with
    | error f => simp only [run, haction, ha, hs]
    | ok script =>
      rw [run_of_script ha hs, run_of_script ha hs]
      refine runScript_strict_of_not_refused fun hrefused => h ?_
      exact ⟨source, script, ha, hs, hrefused⟩

theorem run_lenient :
    (run (o.withStrict false) log files).Done ∨ (run (o.withStrict false) log files).Failed := by
  have haction : (o.withStrict false).action = o.action := rfl
  cases ha : o.action with
  | listDemos =>
    simp only [run, haction, ha]
    exact Or.inl ⟨_, _, rfl⟩
  | «show» source =>
    cases hs : source.script files with
    | error f =>
      simp only [run, haction, ha, hs]
      exact Or.inr ⟨_, _, rfl⟩
    | ok script =>
      rw [run_of_script ha hs]
      exact Or.inl runScript_lenient

theorem run_cases (o : Options) (log : Level) (files : Files) :
    (run o log files).Done ∨ (run o log files).Failed := by
  have hself : o.withStrict o.strict = o := rfl
  rw [← hself]
  cases o.strict with
  | false => exact run_lenient
  | true =>
    by_cases h : o.Refused files
    · exact Or.inr (run_strict_of_refused h).1
    · rw [run_strict_of_not_refused h]
      exact run_lenient

/-! ## The command line -/

/-- **How a run can end**: well, with a failure, or with a complaint about its arguments. -/
theorem execute_cases (arguments : List String) (levelName : Option String) (files : Files) :
    (execute arguments levelName files).Done ∨ (execute arguments levelName files).Failed ∨
      (execute arguments levelName files).code = 2 := by
  unfold execute
  cases Options.read arguments with
  | ok o => exact (run_cases o _ files).imp_right Or.inl
  | error stop =>
    cases stop with
    | usage e => exact Or.inr (Or.inr rfl)
    | help => exact Or.inl ⟨_, _, rfl⟩
    | version => exact Or.inl ⟨_, _, rfl⟩

/-- **Strictness only filters.** Arguments that are good without `--strict` are good with it in front and
ask for the same. Wherever it stands, the strict run fails with an empty output where the lenient one ends
well, if the demos are not to be listed, the script was loaded, and either it has diagnostics or it is to be
evaluated and does not settle; else the two runs leave the same. No run that fails has an output. -/
theorem execute_strict :
    (∀ arguments o, Options.read arguments = .ok o → o.strict = false →
      Options.read ("--strict" :: arguments) = .ok (o.withStrict true)) ∧
    (∀ (o : Options) lenient strict, Options.read lenient = .ok (o.withStrict false) →
      Options.read strict = .ok (o.withStrict true) → ∀ levelName files,
      (o.Refused files ↔ (execute strict levelName files).code = 1 ∧
        (execute strict levelName files).stdout = "" ∧ (execute lenient levelName files).code = 0) ∧
      (¬o.Refused files → execute strict levelName files = execute lenient levelName files)) ∧
    ∀ arguments levelName files, (execute arguments levelName files).code = 1 →
      (execute arguments levelName files).stdout = "" := by
  refine ⟨fun arguments o => Options.read_strict_cons, ?_, ?_⟩
  · intro o lenient strict hlenient hstrict levelName files
    have hverbosity : (o.withStrict true).verbosity = (o.withStrict false).verbosity := rfl
    simp only [execute, hlenient, hstrict, hverbosity]
    refine ⟨⟨fun h => ?_, fun h => ?_⟩, run_strict_of_not_refused⟩
    · obtain ⟨hfailed, hdone⟩ := run_strict_of_refused h
      exact ⟨hfailed.code_eq.1, hfailed.code_eq.2, hdone.code_eq⟩
    · -- equal runs would have equal codes
      by_contra hno
      obtain ⟨hone, -, hzero⟩ := h
      rw [run_strict_of_not_refused hno, hzero] at hone
      cases hone
  · intro arguments levelName files hcode
    rcases execute_cases arguments levelName files with h | h | h
    · rw [h.code_eq] at hcode
      cases hcode
    · exact h.code_eq.2
    · rw [h] at hcode
      cases hcode

/-- A gate that shares its id with an input and inverts itself. -/
def inverter : Files := .single "inverter" (.ok "In x @ 0, 0\nNOT x @ 0, 0\nx -> x")

/-- The options that print the inverter or evaluate it, with seven passes. -/
def inverterOptions (fmt : Bool) : Options := ⟨.show (.file "inverter"), [], 7, .text, false, fmt, 1⟩

/-- An inverter does not settle, so it is refused by a strict run unless it is only to be printed. -/
theorem execute_inverter :
    (execute ["inverter", "-v", "--strict", "--max-iterations=7"] none inverter).code = 1 ∧
    (execute ["inverter", "-v", "--strict", "--max-iterations=7"] none inverter).stdout = "" ∧
    (execute ["inverter", "-v", "--max-iterations=7"] none inverter).code = 0 ∧
    execute ["--strict", "inverter", "-v", "--max-iterations=7", "--fmt"] none inverter =
      execute ["inverter", "-v", "--max-iterations=7", "--fmt"] none inverter := by
  obtain ⟨hfront, hstrict, -⟩ := execute_strict
  have hread : Options.read ["inverter", "-v", "--max-iterations=7"] = .ok (inverterOptions false) := by
    decide +kernel
  have hreadStrict : Options.read ["inverter", "-v", "--strict", "--max-iterations=7"] =
      .ok ((inverterOptions false).withStrict true) := by decide +kernel
  have hfmt : Options.read ["inverter", "-v", "--max-iterations=7", "--fmt"] =
      .ok (inverterOptions true) := by decide +kernel
  have hparse : (Script.parse "In x @ 0, 0\nNOT x @ 0, 0\nx -> x").diagnostics = [] := by decide +kernel
  have hrefused : (inverterOptions false).Refused inverter := by
    have hscript : (Source.file "inverter").script inverter = .ok "In x @ 0, 0\nNOT x @ 0, 0\nx -> x" := by
      rw [Source.script, inverter, Files.single_self]
      rfl
    refine ⟨.file "inverter", _, rfl, hscript, Or.inr ⟨rfl, ?_⟩⟩
    decide +kernel
  have hkept : ¬(inverterOptions true).Refused inverter := by
    rintro ⟨source, script, hsource, hscript, hrefused⟩
    cases hsource
    rw [Source.script, inverter, Files.single_self] at hscript
    cases hscript
    rcases hrefused with hne | ⟨hfmt, -⟩
    · exact hne hparse
    · cases hfmt
  obtain ⟨hone, hempty, hzero⟩ :=
    (hstrict (inverterOptions false) _ _ hread hreadStrict none inverter).1.1 hrefused
  refine ⟨hone, hempty, hzero, ?_⟩
  exact (hstrict (inverterOptions true) _ _ hfmt (hfront _ _ hfmt rfl) none inverter).2 hkept

end Schematic.Cli
