import Schematic.Proofs.Consistency

/-!
# Caps

What the cap on the number of passes decides, and what it does not.

* `relax_add_of_not_converged`, `relax_add_of_converged`: a relaxation taken up again where another one
  ended goes on as if it had not been interrupted.
* `relax_eq_of_converged`: **a cap that is not reached does not matter.**
* `Netlist.relax_twice`: **caps add up**, from any values, whether the circuit settles or not.
* `Netlist.below_finals`: final values are kept under every higher cap, if nodes with one id are of one
  kind.
* `Script.evaluate_cap_mono`: **what an evaluation reports at its cap is never wrong**, it may only be
  incomplete.
-/

namespace Schematic

/-! ## Relaxations taken up again -/

section Resumption

variable {elements : List Element} {values : Values} {a b cap cap' : ℕ}

theorem values_relax_succ (elements : List Element) (cap : ℕ) (values : Values) :
    (relax elements (cap + 1) values).values =
      (pass elements (relax elements cap values).values).1 := by
  rw [values_relax, values_relax, Function.iterate_succ_apply']

/-- **The passes under two caps, one after the other, are the passes under their sum.** -/
theorem values_relax_add (elements : List Element) (a b : ℕ) (values : Values) :
    (relax elements (a + b) values).values =
      (relax elements b (relax elements a values).values).values := by
  rw [values_relax, values_relax, values_relax, Nat.add_comm, Function.iterate_add_apply]

/-- A relaxation that did not settle goes on as a longer one would have. -/
theorem relax_add_of_not_converged (h : (relax elements a values).converged = false) (b : ℕ) :
    relax elements (a + b) values =
      { relax elements b (relax elements a values).values with
        iterations := a + (relax elements b (relax elements a values).values).iterations } := by
  induction a generalizing values with
  | zero => simp only [Nat.zero_add, relax_zero]
  | succ a ih =>
    by_cases hz : (pass elements values).2 = 0
    · rw [relax_succ_of_settled elements hz] at h
      cases h
    · have hsum : a + 1 + b = a + b + 1 := by omega
      rw [relax_succ_of_changed elements hz] at h
      rw [hsum, relax_succ_of_changed elements hz, relax_succ_of_changed elements hz, ih h]
      simp only [Nat.add_right_comm]

/-- **A cap that is not reached does not matter.** -/
theorem relax_eq_of_converged (h : (relax elements cap values).converged = true)
    (hcap : (relax elements cap values).iterations ≤ cap') :
    relax elements cap' values = relax elements cap values := by
  induction cap generalizing values cap' with
  | zero => cases h
  | succ cap ih =>
    have hmore := (iterations_of_converged h).1
    obtain ⟨cap', rfl⟩ : ∃ k, cap' = k + 1 := ⟨cap' - 1, by omega⟩
    by_cases hz : (pass elements values).2 = 0
    · rw [relax_succ_of_settled elements hz, relax_succ_of_settled elements hz]
    · rw [relax_succ_of_changed elements hz] at h hcap
      rw [relax_succ_of_changed elements hz, relax_succ_of_changed elements hz,
        ih h (Nat.le_of_add_le_add_right hcap)]

theorem relax_add_of_converged (h : (relax elements a values).converged = true) (b : ℕ) :
    relax elements (a + b) values = relax elements a values := by
  have hle := (iterations_of_converged h).2
  exact relax_eq_of_converged h (by omega)

/-- A relaxation that starts where another one has settled makes one pass, which changes nothing. -/
theorem relax_relax_of_converged (h : (relax elements a values).converged = true) (hb : 1 ≤ b) :
    relax elements b (relax elements a values).values =
      ⟨(relax elements a values).values, 1, true⟩ :=
  relax_of_closed (closed_of_converged h) hb

/-- Where all is up to date after some passes, a relaxation settles within one pass more. -/
theorem converged_of_closed_relax (h : (relax elements a values).values.Closed elements)
    (hcap : a + 1 ≤ cap) :
    (relax elements cap values).converged = true ∧
      (relax elements cap values).iterations ≤ a + 1 := by
  obtain ⟨b, rfl⟩ := Nat.exists_eq_add_of_le (Nat.le_of_succ_le hcap)
  cases hconv : (relax elements a values).converged with
  | true =>
    have hle := (iterations_of_converged hconv).2
    rw [relax_add_of_converged hconv]
    exact ⟨hconv, by omega⟩
  | false =>
    have hb : 1 ≤ b := by omega
    rw [relax_add_of_not_converged hconv, relax_of_closed h hb]
    exact ⟨rfl, le_rfl⟩

end Resumption

namespace Netlist

/-- **Caps add up.** From any values, a relaxation under `a` and then one under `b` leave the values of
one relaxation under `a + b`. If the first does not settle, its `a` passes and those of the second are
the passes of the whole, which settles if the second does. If it settles, it is the whole, and the
second makes one pass at most. So if an evaluation settles after some passes, every cap of so many
passes or more gives the same evaluation. -/
theorem relax_twice (n : Netlist) :
    (∀ (values : Values) (a b : ℕ),
      (relax n.elements (a + b) values).values =
        (relax n.elements b (relax n.elements a values).values).values ∧
      ((relax n.elements a values).converged = false →
        (relax n.elements (a + b) values).iterations =
          a + (relax n.elements b (relax n.elements a values).values).iterations ∧
        (relax n.elements (a + b) values).converged =
          (relax n.elements b (relax n.elements a values).values).converged) ∧
      ((relax n.elements a values).converged = true →
        relax n.elements (a + b) values = relax n.elements a values ∧
        (1 ≤ b →
          (relax n.elements b (relax n.elements a values).values).iterations = 1 ∧
          (relax n.elements b (relax n.elements a values).values).converged = true))) ∧
    ∀ (inputs : Levels) (cap cap' : ℕ), (n.evaluate cap inputs).converged = true →
      (n.evaluate cap inputs).iterations ≤ cap' → n.evaluate cap' inputs = n.evaluate cap inputs := by
  refine ⟨fun values a b => ⟨values_relax_add n.elements a b values, fun hrun => ?_, fun hconv => ?_⟩,
    fun inputs cap cap' hconv hcap => ?_⟩
  · rw [relax_add_of_not_converged hrun]
    exact ⟨rfl, rfl⟩
  · refine ⟨relax_add_of_converged hconv b, fun hb => ?_⟩
    rw [relax_relax_of_converged hconv hb]
    exact ⟨rfl, rfl⟩
  · have hsame : relax n.elements cap' (n.seed inputs) = relax n.elements cap (n.seed inputs) :=
      relax_eq_of_converged hconv hcap
    rw [evaluate, hsame, evaluate]

/-- Two gates with one id overwrite each other without end while their inputs differ, and settle in two
passes if they agree. -/
theorem twins_relax_twice :
    (relax (ofCircuit .twins).elements 2 #[some true, some false, none]).converged = false ∧
    (relax (ofCircuit .twins).elements 5 #[some true, some false, none]).iterations =
      2 + (relax (ofCircuit .twins).elements 3
        (relax (ofCircuit .twins).elements 2 #[some true, some false, none]).values).iterations ∧
    (relax (ofCircuit .twins).elements 2 #[some true, some true, none]).converged = true ∧
    relax (ofCircuit .twins).elements 5 #[some true, some true, none] =
      relax (ofCircuit .twins).elements 2 #[some true, some true, none] := by
  have hrun : (relax (ofCircuit .twins).elements 2 #[some true, some false, none]).converged = false := by
    decide +kernel
  have hconv : (relax (ofCircuit .twins).elements 2 #[some true, some true, none]).converged = true := by
    decide +kernel
  obtain ⟨htwice, -⟩ := relax_twice (ofCircuit .twins)
  obtain ⟨-, hmore, -⟩ := htwice #[some true, some false, none] 2 3
  obtain ⟨-, -, hdone⟩ := htwice #[some true, some true, none] 2 3
  exact ⟨hrun, (hmore hrun).1, hconv, (hdone hconv).1⟩

end Netlist

/-! ## Evaluations cut short -/

theorem Levels.level_eq_true_iff {levels : Levels} {key : String} :
    levels.level key = true ↔ levels[key]? = some true := by
  rw [level]
  cases levels[key]? <;> simp

namespace Netlist

variable {c : Circuit} {inputs : Levels} {m n : ℕ}

/-- **Final values are kept under every higher cap.** -/
theorem below_finals (hkinds : c.KindsAgree) (h : m ≤ n) :
    ((ofCircuit c).finals m inputs).Below ((ofCircuit c).finals n inputs) := by
  obtain ⟨d, rfl⟩ := Nat.exists_eq_add_of_le h
  have hkept := ((held_finals hkinds m inputs).after_relax (oneCell hkinds) d).2
  have hsum : (ofCircuit c).finals (m + d) inputs =
      (relax (ofCircuit c).elements d ((ofCircuit c).finals m inputs)).values :=
    values_relax_add _ m d _
  rw [hsum]
  exact hkept

theorem getElem?_evaluate_cap_mono (hkinds : c.KindsAgree) (h : m ≤ n) {id : String} {v : Bool}
    (hv : ((ofCircuit c).evaluate m inputs).nodeOutputs[id]? = some v) :
    ((ofCircuit c).evaluate n inputs).nodeOutputs[id]? = some v :=
  ((agrees_finals c m inputs).below_iff (agrees_finals c n inputs)).1 (below_finals hkinds h) id v hv

end Netlist

open Netlist in
/-- **What an evaluation reports at its cap is never wrong, only incomplete.** If nodes with one id are
of one kind, then every output that an evaluation reports is reported, with the same level, under
every higher cap, and a connection that is high stays high. -/
theorem Script.evaluate_cap_mono (s : String) (hkinds : (parse s).circuit.KindsAgree)
    (inputs : Levels) {m n : ℕ} (h : m ≤ n) :
    (∀ (id : String) (v : Bool),
      ((ofCircuit (parse s).circuit).evaluate m inputs).nodeOutputs[id]? = some v →
      ((ofCircuit (parse s).circuit).evaluate n inputs).nodeOutputs[id]? = some v) ∧
    ∀ key : String,
      ((ofCircuit (parse s).circuit).evaluate m inputs).edgeStates[key]? = some true →
      ((ofCircuit (parse s).circuit).evaluate n inputs).edgeStates[key]? = some true := by
  have hvalid : ∀ k ∈ (parse s).circuit.connections, k.Valid := fun k => valid_of_mem_connections
  refine ⟨fun id v => getElem?_evaluate_cap_mono hkinds h, fun key hkey => ?_⟩
  obtain ⟨k, hk, rfl, hlevel⟩ := (getElem?_edgeStates_evaluate hvalid m inputs).1 hkey
  refine (getElem?_edgeStates_evaluate hvalid n inputs).2 ⟨k, hk, rfl, ?_⟩
  rw [Levels.level_eq_true_iff] at hlevel ⊢
  exact getElem?_evaluate_cap_mono hkinds h hlevel

/-- Two inverters between an input and an output, declared back to front. -/
def Script.stages : String :=
  "Out Y @ 0, 0\nNOT n2 @ 0, 0\nNOT n1 @ 0, 0\nIn A @ 0, 0\nA -> n1\nn1 -> n2\nn2 -> Y"

def Circuit.stages : Circuit where
  nodes := [⟨"Y", "Out", 0, 0, []⟩, ⟨"n2", "NOT", 0, 0, []⟩, ⟨"n1", "NOT", 0, 0, []⟩,
    ⟨"A", "In", 0, 0, []⟩]
  connections := [⟨⟨"A", "out"⟩, ⟨"n1", "in"⟩⟩, ⟨⟨"n1", "out"⟩, ⟨"n2", "in"⟩⟩,
    ⟨⟨"n2", "out"⟩, ⟨"Y", "in"⟩⟩]

theorem Script.parse_stages : (parse stages).circuit = .stages := by
  decide +kernel

open Netlist in
/-- A single pass reaches the first stage, and what it finds stays true while the others settle. -/
theorem Script.stages_evaluate_cap_mono :
    (parse stages).circuit.KindsAgree ∧
    ((ofCircuit (parse stages).circuit).evaluate 1 ∅).nodeOutputs["n1"]? = some true ∧
    ((ofCircuit (parse stages).circuit).evaluate 1 ∅).nodeOutputs["Y"]? = none ∧
    ((ofCircuit (parse stages).circuit).evaluate 1 ∅).edgeStates["n1.out->n2.in"]? = some true ∧
    ((ofCircuit (parse stages).circuit).evaluate 4 ∅).nodeOutputs["n1"]? = some true ∧
    ((ofCircuit (parse stages).circuit).evaluate 4 ∅).nodeOutputs["Y"]? = some false ∧
    ((ofCircuit (parse stages).circuit).evaluate 4 ∅).edgeStates["n1.out->n2.in"]? = some true := by
  have hkinds : (parse stages).circuit.KindsAgree := by
    rw [parse_stages]
    decide
  have hn1 : ((ofCircuit (parse stages).circuit).evaluate 1 ∅).nodeOutputs["n1"]? = some true := by
    rw [parse_stages]
    decide +kernel
  have hedge : ((ofCircuit (parse stages).circuit).evaluate 1 ∅).edgeStates["n1.out->n2.in"]? =
      some true := by
    rw [parse_stages]
    decide +kernel
  obtain ⟨houtputs, hedges⟩ := evaluate_cap_mono stages hkinds ∅ (by decide : 1 ≤ 4)
  refine ⟨hkinds, hn1, ?_, hedge, houtputs "n1" true hn1, ?_, hedges _ hedge⟩
  · rw [parse_stages]
    decide +kernel
  · rw [parse_stages]
    decide +kernel

end Schematic
