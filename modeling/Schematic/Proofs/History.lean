import Mathlib.Data.List.DropRight
import Schematic.Proofs.Wiring
import Schematic.Session

/-!
# History of a session

What a session shows is determined by the steps made so far: the last script, the last cap, and for
each switch the steps on it since its id last became an input.

* `Session.Step`, `Session.run`: the steps of a session, and what they lead to.
* `Session.getElem?_step`: **what one step does to a switch**, unless it replaces the script;
  `Session.getElem?_setScript`: what a script does to it.
* `Session.stretch`: the steps since an id last became an input.
* `Session.run_history`: **the state of a session, from its history.**
-/

namespace Schematic

/-- A node of type `In` has this id. -/
def Circuit.HasInput (c : Circuit) (id : String) : Prop := ∃ n ∈ c.nodes, n.id = id ∧ n.type = "In"

instance (c : Circuit) (id : String) : Decidable (c.HasInput id) :=
  inferInstanceAs (Decidable (∃ n ∈ c.nodes, n.id = id ∧ n.type = "In"))

theorem Circuit.exists_mem_inputs_iff {c : Circuit} {id : String} :
    (∃ n ∈ c.inputs, n.id = id) ↔ c.HasInput id := by
  simp only [Circuit.inputs, List.mem_filter, beq_iff_eq, Node.kind_eq_input_iff, HasInput]
  exact exists_congr fun n => by rw [and_assoc, and_comm (a := n.type = "In")]

namespace Session

/-- The steps of a session. Reading is one of them, whatever is read. -/
inductive Step where
  | setScript (script : String)
  | setCap (cap : ℕ)
  | setInput (id : String) (level : Bool)
  | toggle (id : String)
  | read
  deriving DecidableEq

def step (s : Session) : Step → Session
  | .setScript script => s.setScript script
  | .setCap cap => s.setCap cap
  | .setInput id level => s.setInput id level
  | .toggle id => (s.toggle id).2
  | .read => s

/-- Several steps, one after the other. -/
def run (s : Session) (steps : List Step) : Session := steps.foldl step s

theorem run_concat (s : Session) (steps : List Step) (step : Step) :
    s.run (steps ++ [step]) = (s.run steps).step step := by
  rw [run, List.foldl_append]
  rfl

namespace Step

/-- The script that a step gives. -/
def script? : Step → Option String
  | .setScript script => some script
  | _ => none

/-- The cap that a step sets. -/
def cap? : Step → Option ℕ
  | .setCap cap => some cap
  | _ => none

/-- The switch of an input after a step. -/
def switch (id : String) (level : Bool) : Step → Bool
  | .setInput id' level' => if id' = id then level' else level
  | .toggle id' => if id' = id then !level else level
  | _ => level

end Step

/-! ## One step -/

variable {s : Session} {id : String}

/-- A switch is set if it is there. -/
theorem getElem?_setInput (s : Session) (id' : String) (level : Bool) :
    (s.setInput id' level).switches[id]? =
      s.switches[id]?.map fun old => if id' = id then level else old := by
  unfold setInput
  split
  · rename_i hc
    rw [Std.ExtTreeMap.getElem?_insert]
    simp only [Std.LawfulEqCmp.compare_eq_iff_eq]
    split
    · rename_i hid
      subst hid
      rw [Std.ExtTreeMap.contains_eq_isSome_getElem?, Option.isSome_iff_exists] at hc
      obtain ⟨old, hold⟩ := hc
      rw [hold]
      rfl
    · exact Option.map_id'.symm
  · rename_i hc
    by_cases hid : id' = id
    · subst hid
      rw [Std.ExtTreeMap.contains_eq_isSome_getElem?, Option.not_isSome_iff_eq_none] at hc
      rw [hc]
      rfl
    · simp only [if_neg hid, Option.map_id']

/-- **A step does the same to a switch as to its level**, unless it replaces the script. -/
theorem getElem?_step {step : Step} (h : step.script? = none) :
    (s.step step).switches[id]? = s.switches[id]?.map (step.switch id) := by
  cases step with
  | setScript script => cases h
  | setCap cap => exact Option.map_id'.symm
  | setInput id' level => exact getElem?_setInput s id' level
  | toggle id' =>
    simp only [Session.step, toggle]
    cases hold : s.switches[id']? with
    | none =>
      by_cases hid : id' = id
      · subst hid
        simp [hold]
      · simp only [Step.switch, if_neg hid, Option.map_id']
    | some old =>
      simp only [getElem?_setInput, Step.switch]
      by_cases hid : id' = id
      · subst hid
        simp [hold]
      · simp only [if_neg hid]
  | read => exact Option.map_id'.symm

/-- **A script gives a switch to every input**: the one it had, or a low one. -/
theorem getElem?_setScript (s : Session) (script : String) :
    (s.setScript script).switches[id]? =
      if (Script.parse script).circuit.HasInput id then some (s.switches.level id) else none := by
  have hrow : ∀ v, (s.setScript script).switches[id]? = some v ↔
      (Script.parse script).circuit.HasInput id ∧ s.switches.level id = v := by
    intro v
    refine (Netlist.getElem?_ofList_iff ?_).trans ?_
    · intro p hp q hq heq
      obtain ⟨n, -, rfl⟩ := List.mem_map.1 hp
      obtain ⟨m, -, rfl⟩ := List.mem_map.1 hq
      exact congrArg s.switches.level heq
    · rw [← Circuit.exists_mem_inputs_iff, List.mem_map]
      constructor
      · rintro ⟨n, hn, heq⟩
        cases heq
        exact ⟨⟨n, hn, rfl⟩, rfl⟩
      · rintro ⟨⟨n, hn, rfl⟩, rfl⟩
        exact ⟨n, hn, rfl⟩
  refine Option.ext fun v => ?_
  rw [hrow, Option.ite_none_right_eq_some, Option.some.injEq]

/-- Setting a switch changes switches only. -/
theorem setInput_eq (s : Session) (id : String) (level : Bool) :
    s.setInput id level = { s with switches := (s.setInput id level).switches } := by
  unfold setInput
  split <;> rfl

theorem toggle_eq (s : Session) (id : String) :
    (s.toggle id).2 = { s with switches := (s.toggle id).2.switches } := by
  unfold toggle
  split
  · exact setInput_eq s id _
  · rfl

theorem parsed_step (s : Session) (step : Step) :
    (s.step step).parsed = (step.script?.map Script.parse).getD s.parsed := by
  cases step with
  | setInput id level => rw [Session.step, setInput_eq]; rfl
  | toggle id => rw [Session.step, toggle_eq]; rfl
  | _ => rfl

theorem cap_step (s : Session) (step : Step) : (s.step step).cap = step.cap?.getD s.cap := by
  cases step with
  | setInput id level => rw [Session.step, setInput_eq]; rfl
  | toggle id => rw [Session.step, toggle_eq]; rfl
  | _ => rfl

/-- **An id without a switch is ignored.** -/
theorem ignored_of_none (h : s.switches[id]? = none) :
    (∀ level, s.setInput id level = s) ∧ s.toggle id = (none, s) := by
  constructor
  · intro level
    rw [setInput, Std.ExtTreeMap.contains_eq_isSome_getElem?, h]
    rfl
  · rw [toggle, h]

/-! ## The history -/

/-- The last answer to `f` among the steps, or `default`. -/
def lastOr {α : Type} (f : Step → Option α) (default : α) (steps : List Step) : α :=
  (steps.filterMap f).getLastD default

theorem lastOr_concat {α : Type} (f : Step → Option α) (default : α) (steps : List Step)
    (step : Step) : lastOr f default (steps ++ [step]) = (f step).getD (lastOr f default steps) := by
  rw [lastOr, List.filterMap_append]
  cases h : f step with
  | none => simp [h, lastOr]
  | some a => simp [h]

theorem lastOr_cons {α : Type} (f : Step → Option α) (default : α) (step : Step)
    (steps : List Step) : lastOr f default (step :: steps) = lastOr f ((f step).getD default) steps := by
  rw [lastOr, List.filterMap_cons]
  cases h : f step with
  | none => rfl
  | some a => exact List.getLastD_cons

/-- The circuit of the last script, given the first one. -/
def lastCircuit (script : String) (steps : List Step) : Circuit :=
  (Script.parse (lastOr Step.script? script steps)).circuit

/-- Every step with the script in force once it is made. -/
def timeline (script : String) : List Step → List (String × Step)
  | [] => []
  | step :: steps =>
    (step.script?.getD script, step) :: timeline (step.script?.getD script) steps

/-- **The steps since an id last became an input**: the longest stretch up to now in which the script
in force declares it. -/
def stretch (id script : String) (steps : List Step) : List Step :=
  ((timeline script steps).rtakeWhile fun p => (Script.parse p.1).circuit.HasInput id).map Prod.snd

/-- The level that these steps make of a low one. -/
def levelSince (id script : String) (steps : List Step) : Bool :=
  (stretch id script steps).foldl (Step.switch id) false

theorem timeline_concat (script : String) (steps : List Step) (step : Step) :
    timeline script (steps ++ [step]) =
      timeline script steps ++ [(lastOr Step.script? script (steps ++ [step]), step)] := by
  induction steps generalizing script with
  | nil => rw [lastOr_concat]; rfl
  | cons first steps ih =>
    rw [List.cons_append, timeline, ih, timeline, List.cons_append, lastOr_cons]

variable {script : String} {steps : List Step}

/-- A step prolongs the stretch if the id is an input after it, or else ends it. -/
theorem stretch_concat (id script : String) (steps : List Step) (step : Step) :
    stretch id script (steps ++ [step]) =
      if (lastCircuit script (steps ++ [step])).HasInput id then stretch id script steps ++ [step]
      else [] := by
  rw [stretch, timeline_concat, List.rtakeWhile_concat]
  simp only [decide_eq_true_eq]
  rw [lastCircuit]
  split
  · exact List.map_append
  · rfl

/-- No steps are counted for an id that is no input. -/
theorem stretch_eq_nil (h : ¬(lastCircuit script steps).HasInput id) : stretch id script steps = [] := by
  rcases List.eq_nil_or_concat' steps with rfl | ⟨before, last, rfl⟩
  · rfl
  · rw [stretch_concat, if_neg h]

/-- A step is counted for an id that is an input after it. -/
theorem levelSince_concat {step : Step} (h : (lastCircuit script (steps ++ [step])).HasInput id) :
    levelSince id script (steps ++ [step]) = step.switch id (levelSince id script steps) := by
  rw [levelSince, stretch_concat, if_pos h, List.foldl_append]
  rfl

/-- **The switches after some steps**: one for every input of the last script, with the level that the
steps since it became an input make of a low one. -/
theorem getElem?_run (id script : String) (steps : List Step) :
    ((new script).run steps).switches[id]? =
      if (lastCircuit script steps).HasInput id then some (levelSince id script steps) else none := by
  induction steps using List.reverseRecOn with
  | nil => exact getElem?_setScript empty script
  | append_singleton steps step ih =>
    rw [run_concat]
    cases hscript : step.script? with
    | none =>
      have hsame : lastCircuit script (steps ++ [step]) = lastCircuit script steps := by
        rw [lastCircuit, lastOr_concat, hscript]
        rfl
      rw [getElem?_step hscript, ih, hsame]
      split
      · rename_i hin
        rw [levelSince_concat (hsame ▸ hin)]
        rfl
      · rfl
    | some next =>
      obtain rfl : step = .setScript next := by
        cases step <;> cases hscript
        rfl
      have hnext : lastCircuit script (steps ++ [.setScript next]) = (Script.parse next).circuit := by
        rw [lastCircuit, lastOr_concat]
        rfl
      rw [step, getElem?_setScript, hnext]
      split
      · rename_i hin
        rw [levelSince_concat (hnext ▸ hin), Levels.level, ih]
        split
        · rfl
        · -- a dropped switch comes back low
          rename_i hout
          rw [levelSince, stretch_eq_nil hout]
          rfl
      · rfl

theorem parsed_run (script : String) (steps : List Step) :
    ((new script).run steps).parsed = Script.parse (lastOr Step.script? script steps) := by
  induction steps using List.reverseRecOn with
  | nil => rfl
  | append_singleton steps step ih =>
    rw [run_concat, lastOr_concat, parsed_step, ih]
    cases step.script? <;> rfl

theorem cap_run (script : String) (steps : List Step) :
    ((new script).run steps).cap = lastOr Step.cap? 100 steps := by
  induction steps using List.reverseRecOn with
  | nil => rfl
  | append_singleton steps step ih => rw [run_concat, lastOr_concat, cap_step, ih]

/-- **The state of a session, from its history.** The circuit is that of the last script. Exactly its
inputs have switches, each with the level that the steps on it, made since its id last became an input,
make of a low one. Steps on other ids change nothing, and flipping one gives no answer. The cap is the
last one set, or 100, whatever scripts came after it. -/
theorem run_history (script : String) (steps : List Step) :
    ((new script).run steps).parsed = Script.parse (lastOr Step.script? script steps) ∧
    (∀ id, id ∈ ((new script).run steps).switches ↔
      ((new script).run steps).parsed.circuit.HasInput id) ∧
    (∀ id, ((new script).run steps).parsed.circuit.HasInput id →
      ((new script).run steps).switches[id]? = some (levelSince id script steps)) ∧
    (∀ id, ¬((new script).run steps).parsed.circuit.HasInput id →
      (∀ level, ((new script).run steps).setInput id level = (new script).run steps) ∧
      ((new script).run steps).toggle id = (none, (new script).run steps)) ∧
    ((new script).run steps).cap = lastOr Step.cap? 100 steps := by
  have hcircuit : ((new script).run steps).parsed.circuit = lastCircuit script steps :=
    congrArg Script.Parsed.circuit (parsed_run script steps)
  refine ⟨parsed_run script steps, fun id => ?_, fun id hin => ?_, fun id hout => ?_,
    cap_run script steps⟩
  · rw [Std.ExtTreeMap.mem_iff_isSome_getElem?, getElem?_run, hcircuit]
    split <;> simp_all
  · rw [getElem?_run, if_pos (hcircuit ▸ hin)]
  · exact ignored_of_none (by rw [getElem?_run, if_neg (hcircuit ▸ hout)])

def twoInputs : String := "In X@0,0\nIn Y@0,0"

/-- Two inputs are raised, one of them is a gate for a while, and the cap is set. -/
def detour : List Step :=
  [.setInput "X" true, .toggle "Y", .setScript "NOT X@0,0\nIn Y@0,0", .toggle "X", .setCap 7,
    .setScript twoInputs, .read]

/-- The id that was a gate comes back low, and the other one is still high. -/
theorem run_detour :
    ((new twoInputs).run detour).parsed.circuit.HasInput "X" ∧
    ((new twoInputs).run detour).parsed.circuit.HasInput "Y" ∧
    ¬((new twoInputs).run detour).parsed.circuit.HasInput "n" ∧
    ((new twoInputs).run detour).switches["X"]? = some false ∧
    ((new twoInputs).run detour).switches["Y"]? = some true ∧
    (((new twoInputs).run detour).toggle "n").1 = none ∧
    ((new twoInputs).run detour).cap = 7 := by
  obtain ⟨hparsed, -, hlevel, hignored, hcap⟩ := run_history twoInputs detour
  have hlast : Script.parse (lastOr Step.script? twoInputs detour) =
      ⟨⟨[⟨"X", "In", 0, 0, []⟩, ⟨"Y", "In", 0, 0, []⟩], []⟩, []⟩ := by decide +kernel
  rw [hlast] at hparsed
  have hX : ((new twoInputs).run detour).parsed.circuit.HasInput "X" := by
    rw [hparsed]
    decide
  have hY : ((new twoInputs).run detour).parsed.circuit.HasInput "Y" := by
    rw [hparsed]
    decide
  have hn : ¬((new twoInputs).run detour).parsed.circuit.HasInput "n" := by
    rw [hparsed]
    decide
  have hlow : levelSince "X" twoInputs detour = false := by decide +kernel
  have hhigh : levelSince "Y" twoInputs detour = true := by decide +kernel
  refine ⟨hX, hY, hn, hlow ▸ hlevel "X" hX, hhigh ▸ hlevel "Y" hY, ?_, hcap⟩
  rw [(hignored "n" hn).2]

end Session

end Schematic
