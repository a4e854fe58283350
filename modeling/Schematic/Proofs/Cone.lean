import Schematic.Proofs.Feedback
import Schematic.Proofs.Settling

/-!
# Cones

What an evaluation says about a node depends on the inputs in its cone only: those that it reads from
in any number of steps. The rest of the circuit may settle earlier or later, or never.

* `SelfContained`: signals whose elements read from these signals only.
* `Values.AgreeOn`: two vectors of values are the same on some signals. Kept by every update
  (`AgreeOn.update`) and, on self-contained signals, by any number of passes (`AgreeOn.iterate`).
* `Netlist.cone`: the signals that an id reads from.
* `Netlist.evaluate_cone`: **inputs outside the cone of a node do not interfere with it.**
-/

namespace Schematic

open Relation

/-- What is written to these signals is computed from these signals. -/
def SelfContained (elements : List Element) (signals : Set ℕ) : Prop :=
  ∀ e ∈ elements, e.signal ∈ signals → ∀ w ∈ e.cell.wires, ∀ s, w.source = some s → s ∈ signals

/-- Two vectors of values, both with a place for every element, are the same on some signals. -/
structure Values.AgreeOn (elements : List Element) (signals : Set ℕ) (a b : Values) : Prop where
  left : ∀ e ∈ elements, e.signal < a.size
  right : ∀ e ∈ elements, e.signal < b.size
  value : ∀ s ∈ signals, a.at? s = b.at? s

namespace Values.AgreeOn

variable {elements : List Element} {signals : Set ℕ} {a b : Values}

/-- A cell that reads from these signals only computes the same on both sides. -/
theorem value? (h : a.AgreeOn elements signals b) {cell : Cell}
    (hcell : ∀ w ∈ cell.wires, ∀ s, w.source = some s → s ∈ signals) :
    cell.value? a = cell.value? b :=
  Cell.value?_congr_sources fun w hw s hs => h.value s (hcell w hw s hs)

variable {state state' : Values × ℕ}

/-- **An update keeps the agreement**: it writes outside of the signals, or the same on both sides. -/
theorem update (hself : SelfContained elements signals) (h : state.1.AgreeOn elements signals state'.1)
    {e : Element} (he : e ∈ elements) :
    (e.update state).1.AgreeOn elements signals (e.update state').1 := by
  refine ⟨?_, ?_, fun s hs => ?_⟩
  · rw [size_update]
    exact h.left
  · rw [size_update]
    exact h.right
  · rw [Element.at?_update (h.left e he), Element.at?_update (h.right e he), h.value s hs]
    split
    · rename_i hwritten
      rw [h.value? (hself e he (hwritten ▸ hs))]
    · rfl

theorem foldl (hself : SelfContained elements signals) (h : state.1.AgreeOn elements signals state'.1)
    {es : List Element} (hes : ∀ e ∈ es, e ∈ elements) :
    (es.foldl Element.update state).1.AgreeOn elements signals
      (es.foldl Element.update state').1 := by
  induction es generalizing state state' with
  | nil => exact h
  | cons e es ih =>
    exact ih (h.update hself (hes e List.mem_cons_self)) fun e' he' =>
      hes e' (List.mem_cons_of_mem _ he')

/-- **Passes keep the agreement**, as many on one side as on the other. -/
theorem iterate (hself : SelfContained elements signals) (h : a.AgreeOn elements signals b)
    (passes : ℕ) : ((fun v => (pass elements v).1)^[passes] a).AgreeOn elements signals
      ((fun v => (pass elements v).1)^[passes] b) := by
  induction passes with
  | zero => exact h
  | succ passes ih =>
    rw [Function.iterate_succ_apply', Function.iterate_succ_apply']
    have hstart : ((_, 0) : Values × ℕ).1.AgreeOn elements signals ((_, 0) : Values × ℕ).1 := ih
    exact hstart.foldl hself fun _ he => he

end Values.AgreeOn

namespace Netlist

variable {c : Circuit} {id : String}

/-- The signals of the ids that an id reads from in some steps, or none. -/
def cone (c : Circuit) (id : String) : Set ℕ :=
  {s | ∃ source, ReflTransGen c.ReadsFrom id source ∧ (ofCircuit c).signals.number? source = some s}

theorem selfContained_cone (c : Circuit) (id : String) :
    SelfContained (ofCircuit c).elements (cone c id) := by
  rintro e he ⟨id', hpath, hnum⟩ w hw s hs
  obtain rfl := (sound_signals c).number?_inj hnum (of_mem_elements he).2.1
  obtain ⟨e', he', rfl, hreads⟩ := exists_source he hw hs
  exact ⟨e'.node.id, hpath.tail hreads, (of_mem_elements he').2.1⟩

variable {inputs inputs' : Levels}

/-- **Seeds agree on a cone** if the inputs in it do. -/
theorem agreeOn_seed (h : ∀ source, ReflTransGen c.ReadsFrom id source →
      (∃ n ∈ c.nodes, n.id = source ∧ n.type = "In") → inputs.level source = inputs'.level source) :
    ((ofCircuit c).seed inputs).AgreeOn (ofCircuit c).elements (cone c id)
      ((ofCircuit c).seed inputs') := by
  refine ⟨fun e he => signal_lt_seed inputs he, fun e he => signal_lt_seed inputs' he, ?_⟩
  rintro s ⟨source, hpath, hnum⟩
  have hvalue := (ById.agrees_seed c inputs).value source
  have hvalue' := (ById.agrees_seed c inputs').value source
  rw [value?_of_number? hnum, ById.getElem?_seed] at hvalue hvalue'
  rw [hvalue, hvalue']
  split
  · rename_i hin
    rw [h source hpath hin]
  · rfl

/-- **Inputs outside the cone of a node do not interfere with it.** If two assignments agree on every
input that an id reads from in some steps, itself included, then under one cap both evaluations give
that id the same output, present or absent, even if they stop after different numbers of passes. -/
theorem evaluate_cone (c : Circuit) (cap : ℕ) (id : String) {inputs inputs' : Levels}
    (h : ∀ source, ReflTransGen c.ReadsFrom id source →
      (∃ n ∈ c.nodes, n.id = source ∧ n.type = "In") → inputs.level source = inputs'.level source) :
    ((ofCircuit c).evaluate cap inputs).nodeOutputs[id]? =
      ((ofCircuit c).evaluate cap inputs').nodeOutputs[id]? := by
  rw [← (agrees_finals c cap inputs).value, ← (agrees_finals c cap inputs').value, value?_eq, value?_eq]
  cases hnum : (ofCircuit c).signals.number? id with
  | none => rfl
  | some s =>
    rw [Option.bind_some, Option.bind_some, finals, finals, values_relax, values_relax]
    have hagree := (agreeOn_seed h).iterate (selfContained_cone c id) cap
    exact hagree.value s ⟨id, .refl, hnum⟩

end Netlist

/-- A gate on an input, and apart from it an input that a gate with the same id inverts as long as
another input is high. -/
def Circuit.blinker : Circuit where
  nodes := [⟨"A", "In", 0, 0, []⟩, ⟨"n", "NOT", 0, 0, []⟩, ⟨"E", "In", 0, 0, []⟩,
    ⟨"x", "In", 0, 0, []⟩, ⟨"x", "NAND", 0, 0, []⟩]
  connections := [⟨⟨"A", "out"⟩, ⟨"n", "in"⟩⟩, ⟨⟨"E", "out"⟩, ⟨"x", "a"⟩⟩, ⟨⟨"x", "out"⟩, ⟨"x", "b"⟩⟩]

/-- The gate has one output, whether the rest of the circuit settles or not. -/
theorem Netlist.blinker_cone :
    (∀ source, ReflTransGen Circuit.blinker.ReadsFrom "n" source →
      (∃ n ∈ Circuit.blinker.nodes, n.id = source ∧ n.type = "In") →
      Levels.level ∅ source = Levels.level (.ofList [("E", true)]) source) ∧
    ((ofCircuit .blinker).evaluate 9 ∅).converged = true ∧
    ((ofCircuit .blinker).evaluate 9 (.ofList [("E", true)])).converged = false ∧
    ((ofCircuit .blinker).evaluate 9 ∅).nodeOutputs["n"]? =
      ((ofCircuit .blinker).evaluate 9 (.ofList [("E", true)])).nodeOutputs["n"]? := by
  have hcone : ∀ source, ReflTransGen Circuit.blinker.ReadsFrom "n" source →
      (∃ n ∈ Circuit.blinker.nodes, n.id = source ∧ n.type = "In") →
      Levels.level ∅ source = Levels.level (.ofList [("E", true)]) source := by
    intro source hpath _
    have hne : source ≠ "E" := by
      rintro rfl
      rcases reflTransGen_iff_eq_or_transGen.1 hpath with heq | hpath
      · exact absurd heq (by decide)
      · have hn : (ofCircuit .blinker).signals.number? "n" = some 1 := by decide +kernel
        have hE : (ofCircuit .blinker).signals.number? "E" = some 2 := by decide +kernel
        rw [Circuit.transGen_readsFrom_iff hn hE, ← has_closure_iff] at hpath
        exact absurd hpath (by decide +kernel)
    simp [Levels.level, hne.symm]
  exact ⟨hcone, by decide +kernel, by decide +kernel, evaluate_cone .blinker 9 "n" hcone⟩

end Schematic
