import Schematic.Proofs.Cone

/-!
# What a relaxation leaves alone

Nothing is asked of the wiring, of the elements or of the first values: there may be loops, several
elements may write one signal, and the cap may be too low to settle.

* `Driven`: the signals that outputs and gates write.
* `Element.getElem?_update`, `Element.isSome_at?_update`: what an update does not write, and what it
  does not lose.
* `getElem?_relax`: **a relaxation writes driven signals only.** `isSome_at?_relax`: **it forgets
  nothing.**
* `Netlist.relax_frame`: both, and what they say about the outputs of an evaluation.
-/

namespace Schematic

/-! ## Updates -/

namespace Element

variable {e : Element} {state : Values × ℕ} {s : ℕ}

/-- An update writes the signal of its element at most, and only if the element is an output or a
gate. -/
theorem getElem?_update (h : e.cell.kind.isDriven = true → e.signal ≠ s) :
    (e.update state).1[s]? = state.1[s]? := by
  rcases e.update_cases state with ⟨hu, -⟩ | ⟨v, hv, -, hu⟩
  · rw [hu]
  · have hne : e.signal ≠ s := h (Cell.isDriven_of_value? hv)
    rw [hu, Array.getElem?_setIfInBounds_ne hne]

/-- An update may change what is known, but does not make it unknown. -/
theorem isSome_at?_update (h : (state.1.at? s).isSome) : ((e.update state).1.at? s).isSome := by
  rcases e.update_cases state with ⟨hu, -⟩ | ⟨v, -, -, hu⟩
  · rwa [hu]
  rw [hu]
  by_cases hs : e.signal = s
  · -- only a signal in range is known, so the write takes place
    have hlt : e.signal < state.1.size := by
      by_contra hge
      rw [← hs, Values.at?, Array.getElem?_eq_none (by omega)] at h
      cases h
    rw [Values.at?_write _ hlt, if_pos hs]
    rfl
  · rwa [Values.at?_write_of_ne _ hs]

end Element

/-! ## Runs -/

/-- Some output or gate writes the signal. -/
def Driven (elements : List Element) (signal : ℕ) : Prop :=
  ∃ e ∈ elements, e.cell.kind.isDriven = true ∧ e.signal = signal

instance (elements : List Element) (signal : ℕ) : Decidable (Driven elements signal) :=
  inferInstanceAs (Decidable (∃ e ∈ elements, e.cell.kind.isDriven = true ∧ e.signal = signal))

section Runs

variable {elements : List Element} {values : Values} {s : ℕ}

/-- **A relaxation writes driven signals only.** -/
theorem getElem?_relax (h : ¬Driven elements s) (cap : ℕ) :
    (relax elements cap values).values[s]? = values[s]? := by
  apply relax_induction (P := fun next => next[s]? = values[s]?) _ cap rfl
  intro e he state hstate
  have hskip : e.cell.kind.isDriven = true → e.signal ≠ s := by
    intro hdriven hs
    exact h ⟨e, he, hdriven, hs⟩
  rw [Element.getElem?_update hskip, hstate]

/-- **A relaxation forgets nothing.** -/
theorem isSome_at?_relax (h : (values.at? s).isSome) (cap : ℕ) :
    ((relax elements cap values).values.at? s).isSome := by
  apply relax_induction (P := fun next => (next.at? s).isSome) _ cap h
  intro e _ state hstate
  exact Element.isSome_at?_update hstate

end Runs

/-! ## Evaluations -/

namespace Netlist

variable {c : Circuit} {cap : ℕ} {inputs : Levels}

/-- A signal is driven if its id is that of an output or a gate. -/
theorem driven_iff {id : String} {s : ℕ} (hs : (ofCircuit c).signals.number? id = some s) :
    Driven (ofCircuit c).elements s ↔ ∃ n ∈ c.nodes, n.id = id ∧ n.kind.isDriven = true := by
  constructor
  · rintro ⟨e, he, hdriven, rfl⟩
    obtain ⟨hn, hnum, -⟩ := of_mem_elements he
    rw [kind_cell he] at hdriven
    exact ⟨e.node, hn, (sound_signals c).number?_inj hnum hs, hdriven⟩
  · rintro ⟨n, hn, rfl, hdriven⟩
    obtain ⟨e, he, rfl⟩ := exists_element hn
    have hnum := (of_mem_elements he).2.1
    rw [← kind_cell he] at hdriven
    exact ⟨e, he, hdriven, Option.some.inj (hnum.symm.trans hs)⟩

/-- Before the first pass every input has its level, also one whose id is declared again. -/
theorem at?_seed_of_input {e : Element} (he : e ∈ (ofCircuit c).elements) (hin : e.node.type = "In") :
    ((ofCircuit c).seed inputs).at? e.signal = some (inputs.level e.node.id) := by
  rw [at?_seed inputs he, if_pos]
  exact ⟨e.node, (of_mem_elements he).1, rfl, hin⟩

/-- Only nodes have outputs. -/
theorem mem_nodes_of_mem_nodeOutputs {id : String}
    (h : id ∈ ((ofCircuit c).evaluate cap inputs).nodeOutputs) : id ∈ c.nodes.map (·.id) := by
  rw [Std.ExtTreeMap.mem_iff_isSome_getElem?, ← (agrees_finals c cap inputs).value, value?_eq] at h
  have hnum := Option.isSome_of_isSome_bind h
  rwa [isSome_number?_iff] at hnum

/-- **A relaxation only adds knowledge, and only writes driven signals**, from any values: what is
known stays known, and a signal that no output or gate writes keeps its value. So in every evaluation
all inputs have outputs, nothing but a node has one, and an input whose id no output or gate has as
well shows the level that it is driven with. -/
theorem relax_frame (cap : ℕ) :
    (∀ (n : Netlist) (values : Values) (s : ℕ),
      ((values.at? s).isSome → ((relax n.elements cap values).values.at? s).isSome) ∧
      (¬Driven n.elements s → (relax n.elements cap values).values[s]? = values[s]?)) ∧
    ∀ (c : Circuit) (inputs : Levels),
      (∀ n ∈ c.nodes, n.type = "In" → n.id ∈ ((ofCircuit c).evaluate cap inputs).nodeOutputs) ∧
      (∀ id ∈ ((ofCircuit c).evaluate cap inputs).nodeOutputs, id ∈ c.nodes.map (·.id)) ∧
      ∀ n ∈ c.nodes, n.type = "In" → (∀ m ∈ c.nodes, m.id = n.id → m.kind.isDriven = false) →
        ((ofCircuit c).evaluate cap inputs).nodeOutputs[n.id]? = some (inputs.level n.id) := by
  refine ⟨fun n values s => ⟨?_, ?_⟩, fun c inputs => ⟨?_, ?_, ?_⟩⟩
  · intro hknown
    exact isSome_at?_relax hknown cap
  · intro hfree
    exact getElem?_relax hfree cap
  · intro n hn hin
    obtain ⟨e, he, rfl⟩ := exists_element hn
    have hseed : (((ofCircuit c).seed inputs).at? e.signal).isSome := by
      rw [at?_seed_of_input he hin]
      rfl
    have hfinal : (((ofCircuit c).finals cap inputs).at? e.signal).isSome := isSome_at?_relax hseed cap
    rwa [Std.ExtTreeMap.mem_iff_isSome_getElem?, ← (agrees_finals c cap inputs).at? he]
  · intro id hid
    exact mem_nodes_of_mem_nodeOutputs hid
  · intro n hn hin hother
    obtain ⟨e, he, rfl⟩ := exists_element hn
    have hfree : ¬Driven (ofCircuit c).elements e.signal := by
      rw [driven_iff (of_mem_elements he).2.1]
      rintro ⟨m, hm, hid, hdriven⟩
      rw [hother m hm hid] at hdriven
      cases hdriven
    have hkept : ((ofCircuit c).finals cap inputs).at? e.signal =
        ((ofCircuit c).seed inputs).at? e.signal := congrArg Option.join (getElem?_relax hfree cap)
    rw [← (agrees_finals c cap inputs).at? he, hkept, at?_seed_of_input he hin]

/-- An input that a gate inverts in every pass, and two inputs that keep their levels beside it. -/
theorem blinker_frame :
    ¬Driven (ofCircuit .blinker).elements 2 ∧ Driven (ofCircuit .blinker).elements 3 ∧
    (relax (ofCircuit .blinker).elements 9 #[none, none, some true, some true]).converged = false ∧
    (relax (ofCircuit .blinker).elements 9 #[none, none, some true, some true]).values[2]? =
      some (some true) ∧
    ((relax (ofCircuit .blinker).elements 9
      #[none, none, some true, some true]).values.at? 3).isSome ∧
    "x" ∈ ((ofCircuit .blinker).evaluate 9 (.ofList [("E", true), ("n", true)])).nodeOutputs ∧
    ((ofCircuit .blinker).evaluate 9 (.ofList [("E", true), ("n", true)])).nodeOutputs["E"]? =
      some true := by
  obtain ⟨hvalues, houtputs⟩ := relax_frame 9
  have hfree : ¬Driven (ofCircuit .blinker).elements 2 := by decide +kernel
  have hkept := (hvalues (ofCircuit .blinker) #[none, none, some true, some true] 2).2 hfree
  have hknown := (hvalues (ofCircuit .blinker) #[none, none, some true, some true] 3).1 (by decide)
  obtain ⟨hinputs, -, hlevels⟩ := houtputs .blinker (.ofList [("E", true), ("n", true)])
  have hx := hinputs ⟨"x", "In", 0, 0, []⟩ (by decide) rfl
  have hE := hlevels ⟨"E", "In", 0, 0, []⟩ (by decide) rfl (by decide +kernel)
  exact ⟨hfree, by decide +kernel, by decide +kernel, hkept, hknown, hx, hE.trans (by decide +kernel)⟩

end Netlist

end Schematic
