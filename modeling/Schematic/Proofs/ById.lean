import Schematic.Proofs.Wiring

/-!
# Evaluation by ids

The evaluation of a circuit as its documentation words it: over tables from ids to levels, with a
scan of all connections for every input of every node, and nothing numbered or resolved beforehand.

* `ById.evaluate`: the seeds, the sweeps, and the levels of the connections.
* `ById.Agrees`: **values by signal and outputs by id say the same.** Kept by every write
  (`Agrees.write`), every update (`Agrees.update`) and every pass (`Agrees.pass`).
* `ById.evaluate_ofCircuit`: a netlist evaluates to what its circuit does by ids.
-/

namespace Schematic

namespace ById

/-- The output at the source of the first connection into `target` on one of `slots`. -/
def read (c : Circuit) (outputs : Levels) (target : String) (slots : List String) : Option Bool := do
  let k ← c.connections.find? fun k => k.target.node = target && slots.contains k.target.slot
  outputs[k.source.node]?

/-- The output of a node that is no input, if all that it needs has one. -/
def compute? (c : Circuit) (outputs : Levels) (n : Node) : Option Bool :=
  if n.type = "Out" then read c outputs n.id ["in"]
  else do
    let g ← Gate.ofKeyword? n.type
    if g.arity = 1 then
      let x ← read c outputs n.id ["in", "in0"]
      some (g.eval [x])
    else
      let x ← read c outputs n.id ["in0", "a"]
      let y ← read c outputs n.id ["in1", "b"]
      some (g.eval [x, y])

/-- Enters the output of a node, and counts it if it is new or different. -/
def update (c : Circuit) (state : Levels × ℕ) (n : Node) : Levels × ℕ :=
  match compute? c state.1 n with
  | none => state
  | some v => if state.1[n.id]? = some v then state else (state.1.insert n.id v, state.2 + 1)

/-- Updates every node that is no input, in declaration order. -/
def sweep (c : Circuit) (outputs : Levels) : Levels × ℕ :=
  (c.nodes.filter (·.type ≠ "In")).foldl (update c) (outputs, 0)

/-- At most `cap` sweeps: the outputs, how many sweeps were made, and whether the last changed
nothing. -/
def run (c : Circuit) : ℕ → Levels → Levels × ℕ × Bool
  | 0, outputs => (outputs, 0, false)
  | cap + 1, outputs =>
    let (next, changes) := sweep c outputs
    if changes = 0 then (next, 1, true)
    else
      let (final, iterations, converged) := run c cap next
      (final, iterations + 1, converged)

/-- The inputs with their levels. -/
def seed (c : Circuit) (inputs : Levels) : Levels :=
  (c.nodes.filter (·.type = "In")).foldl (fun outputs n => outputs.insert n.id (inputs.level n.id)) ∅

/-- The level of every connection: the output of its source, or low. -/
def edges (c : Circuit) (outputs : Levels) : Levels :=
  c.connections.foldl (fun edges k => edges.insert k.key (outputs.level k.source.node)) ∅

/-- **Evaluation over tables from ids to levels.** -/
def evaluate (c : Circuit) (cap : ℕ) (inputs : Levels) : Evaluation :=
  let (outputs, iterations, converged) := run c cap (seed c inputs)
  ⟨outputs, edges c outputs, iterations, converged⟩

/-! ## Agreement -/

variable {c : Circuit} {values : Values} {outputs : Levels}

/-- Values by signal and outputs by id say the same. -/
structure Agrees (c : Circuit) (values : Values) (outputs : Levels) : Prop where
  size : values.size = (Netlist.ofCircuit c).signals.size
  value : ∀ id, (Netlist.ofCircuit c).value? values id = outputs[id]?

theorem Agrees.at? (h : Agrees c values outputs) {e : Element}
    (he : e ∈ (Netlist.ofCircuit c).elements) : values.at? e.signal = outputs[e.node.id]? := by
  rw [← h.value, Netlist.value?_of_number? (Netlist.of_mem_elements he).2.1]

/-- **A write to the signal of an element is an entry for the id of its node.** -/
theorem Agrees.write (h : Agrees c values outputs) {e : Element}
    (he : e ∈ (Netlist.ofCircuit c).elements) (v : Bool) :
    Agrees c (values.setIfInBounds e.signal (some v)) (outputs.insert e.node.id v) := by
  have hnum := (Netlist.of_mem_elements he).2.1
  have hlt : e.signal < values.size := h.size ▸ Netlist.signal_lt he
  refine ⟨by rw [Array.size_setIfInBounds]; exact h.size, fun id => ?_⟩
  rw [Std.ExtTreeMap.getElem?_insert, ← h.value, Netlist.value?_eq, Netlist.value?_eq]
  simp only [Std.LawfulEqCmp.compare_eq_iff_eq]
  -- the entry of `id` changes if its signal is the written one, so if it is the id of the node
  cases hid : (Netlist.ofCircuit c).signals.number? id with
  | none =>
    have hne : e.node.id ≠ id := by
      rintro rfl
      rw [hnum] at hid
      cases hid
    simp [hne]
  | some k =>
    rw [Option.bind_some, Option.bind_some, Values.at?_write values hlt]
    have : e.signal = k ↔ e.node.id = id := by
      refine ⟨fun hk => (Netlist.sound_signals c).number?_inj hnum (hk ▸ hid), ?_⟩
      rintro rfl
      rw [hnum] at hid
      exact Option.some.inj hid
    simp only [this]

/-- The resolved wire reads what a scan finds. -/
theorem Agrees.read (h : Agrees c values outputs) (target : String) (slots : List String) :
    values.read (wire? (Netlist.ofCircuit c).signals (Netlist.ofCircuit c).incoming target slots) =
      ById.read c outputs target slots := by
  -- the index and the scan choose one connection; the index knows its place as well
  have hscan : ((Netlist.ofCircuit c).incoming.first? target slots).map Prod.fst =
      c.connections.find? fun k => k.target.node = target && slots.contains k.target.slot := by
    rw [← Incoming.map_fst_find?_zipIdx]
    exact congrArg (Option.map Prod.fst) (Incoming.first?_ofConnections c.connections target slots)
  rw [ById.read, ← hscan, wire?, Values.read_eq]
  cases (Netlist.ofCircuit c).incoming.first? target slots with
  | none => rfl
  | some k =>
    simp only [Option.map_some, Option.bind_some, Option.bind_eq_bind]
    exact h.value k.1.source.node

/-- The cell of a node that is no input computes what the node does. -/
theorem Agrees.compute? (h : Agrees c values outputs) {n : Node} (hn : n.type ≠ "In") :
    (Cell.ofNode (Netlist.ofCircuit c).signals (Netlist.ofCircuit c).incoming n).value? values =
      ById.compute? c outputs n := by
  unfold Cell.ofNode ById.compute? Node.kind Kind.ofType
  rw [if_neg hn]
  by_cases hout : n.type = "Out"
  · simp only [if_pos hout]
    exact h.read n.id outputSlots
  · simp only [if_neg hout]
    cases hg : Gate.ofKeyword? n.type with
    | none => rfl
    | some g =>
      simp only [Option.bind_eq_bind, Option.bind_some]
      by_cases ha : g.arity = 1
      · simp only [if_pos ha, Cell.value?, unarySlots, h.read]
        cases ById.read c outputs n.id ["in", "in0"] <;> rfl
      · simp only [if_neg ha, Cell.value?, firstSlots, secondSlots, h.read]
        cases ById.read c outputs n.id ["in0", "a"] <;>
          cases ById.read c outputs n.id ["in1", "b"] <;> rfl

variable {state : Values × ℕ} {entries : Levels × ℕ}

/-- **An update keeps the agreement and the count of changes.** -/
theorem Agrees.update (h : Agrees c state.1 entries.1) (hcount : state.2 = entries.2) {e : Element}
    (he : e ∈ (Netlist.ofCircuit c).elements) (hn : e.node.type ≠ "In") :
    Agrees c (e.update state).1 (ById.update c entries e.node).1 ∧
      (e.update state).2 = (ById.update c entries e.node).2 := by
  have hv : e.cell.value? state.1 = ById.compute? c entries.1 e.node := by
    rw [(Netlist.of_mem_elements he).2.2, h.compute? hn]
  have hk := h.at? he
  rcases e.update_cases state with ⟨hu, hsame⟩ | ⟨v, hcell, hnew, hu⟩
  · -- nothing is written: there is no value, or it is the known one
    have : ById.update c entries e.node = entries := by
      unfold ById.update
      cases hc : ById.compute? c entries.1 e.node with
      | none => rfl
      | some v =>
        have := hsame v (hv.trans hc)
        rw [hk] at this
        exact if_pos this
    rw [hu, this]
    exact ⟨h, hcount⟩
  · have hnew : entries.1[e.node.id]? ≠ some v := hk ▸ hnew
    have : ById.update c entries e.node = (entries.1.insert e.node.id v, entries.2 + 1) := by
      unfold ById.update
      rw [hv.symm.trans hcell]
      exact if_neg hnew
    rw [hu, this]
    exact ⟨h.write he v, congrArg (· + 1) hcount⟩

/-- Inputs are skipped by one and left alone by the other. -/
theorem Agrees.foldl (h : Agrees c state.1 entries.1) (hcount : state.2 = entries.2)
    {es : List Element} (hes : ∀ e ∈ es, e ∈ (Netlist.ofCircuit c).elements) :
    Agrees c (es.foldl Element.update state).1
        (((es.map (·.node)).filter (·.type ≠ "In")).foldl (ById.update c) entries).1 ∧
      (es.foldl Element.update state).2 =
        (((es.map (·.node)).filter (·.type ≠ "In")).foldl (ById.update c) entries).2 := by
  induction es generalizing state entries with
  | nil => exact ⟨h, hcount⟩
  | cons e es ih =>
    have he := hes e List.mem_cons_self
    have hes := fun e' he' => hes e' (List.mem_cons_of_mem _ he')
    rw [List.map_cons, List.foldl_cons]
    by_cases hn : e.node.type = "In"
    · have hstay : e.update state = state := by
        have hv : e.cell.value? state.1 = none := by
          rw [(Netlist.cell_eq_input_iff he).2 hn]
          rfl
        rcases e.update_cases state with ⟨hu, -⟩ | ⟨v, hc, -⟩
        · exact hu
        · rw [hv] at hc
          cases hc
      rw [hstay, List.filter_cons_of_neg (by simpa using hn)]
      exact ih h hcount hes
    · obtain ⟨hu, hc⟩ := h.update hcount he hn
      rw [List.filter_cons_of_pos (by simpa using hn), List.foldl_cons]
      exact ih hu hc hes

/-- **A pass keeps the agreement**, and changes as much on both sides. -/
theorem Agrees.pass (h : Agrees c values outputs) :
    Agrees c (pass (Netlist.ofCircuit c).elements values).1 (ById.sweep c outputs).1 ∧
      (pass (Netlist.ofCircuit c).elements values).2 = (ById.sweep c outputs).2 := by
  have hstart : Agrees c ((values, 0) : Values × ℕ).1 ((outputs, 0) : Levels × ℕ).1 := h
  have hfold := hstart.foldl rfl fun e (he : e ∈ (Netlist.ofCircuit c).elements) => he
  rwa [Netlist.map_node_elements] at hfold

theorem run_succ_of_settled (hz : (sweep c outputs).2 = 0) (cap : ℕ) :
    run c (cap + 1) outputs = ((sweep c outputs).1, 1, true) :=
  if_pos hz

theorem run_succ_of_changed (hz : (sweep c outputs).2 ≠ 0) (cap : ℕ) :
    run c (cap + 1) outputs =
      ((run c cap (sweep c outputs).1).1, (run c cap (sweep c outputs).1).2.1 + 1,
        (run c cap (sweep c outputs).1).2.2) :=
  if_neg hz

/-- **A run keeps the agreement**, and stops after as many passes for the same reason. -/
theorem Agrees.run (h : Agrees c values outputs) (cap : ℕ) :
    Agrees c (relax (Netlist.ofCircuit c).elements cap values).values (ById.run c cap outputs).1 ∧
      (relax (Netlist.ofCircuit c).elements cap values).iterations = (ById.run c cap outputs).2.1 ∧
      (relax (Netlist.ofCircuit c).elements cap values).converged = (ById.run c cap outputs).2.2 := by
  induction cap generalizing values outputs with
  | zero => exact ⟨h, rfl, rfl⟩
  | succ cap ih =>
    obtain ⟨hp, hc⟩ := h.pass
    by_cases hz : (ById.sweep c outputs).2 = 0
    · rw [relax_succ_of_settled _ (hc.trans hz), run_succ_of_settled hz]
      exact ⟨hp, rfl, rfl⟩
    · obtain ⟨h1, h2, h3⟩ := ih hp
      rw [relax_succ_of_changed _ (fun h0 => hz (hc.symm.trans h0)), run_succ_of_changed hz]
      exact ⟨h1, congrArg (· + 1) h2, h3⟩

/-! ## The two evaluations -/

theorem agrees_unknowns (c : Circuit) : Agrees c (Netlist.ofCircuit c).unknowns ∅ := by
  refine ⟨by simp [Netlist.unknowns], fun id => ?_⟩
  rw [Netlist.value?_eq, Std.ExtTreeMap.getElem?_empty, Option.bind_eq_none_iff]
  intro k _
  rw [Values.at?, Netlist.unknowns, Array.getElem?_replicate]
  split <;> rfl

theorem agrees_seed (c : Circuit) (inputs : Levels) :
    Agrees c ((Netlist.ofCircuit c).seed inputs) (seed c inputs) := by
  have hfold : ∀ (es : List Element) (values : Values) (outputs : Levels),
      (∀ e ∈ es, e ∈ (Netlist.ofCircuit c).elements) → Agrees c values outputs →
      Agrees c
        (es.foldl (fun values e => if e.cell = .input then
          values.setIfInBounds e.signal (some (inputs.level e.node.id)) else values) values)
        (((es.map (·.node)).filter (·.type = "In")).foldl
          (fun outputs n => outputs.insert n.id (inputs.level n.id)) outputs) := by
    intro es
    induction es with
    | nil => exact fun _ _ _ h => h
    | cons e es ih =>
      intro values outputs hes h
      have he := hes e List.mem_cons_self
      have hes := fun e' he' => hes e' (List.mem_cons_of_mem _ he')
      rw [List.map_cons, List.foldl_cons]
      by_cases hn : e.node.type = "In"
      · rw [if_pos ((Netlist.cell_eq_input_iff he).2 hn), List.filter_cons_of_pos (by simpa using hn),
          List.foldl_cons]
        exact ih _ _ hes (h.write he _)
      · rw [if_neg ((Netlist.cell_eq_input_iff he).not.2 hn), List.filter_cons_of_neg (by simpa using hn)]
        exact ih _ _ hes h
  have := hfold (Netlist.ofCircuit c).elements _ _ (fun _ he => he) (agrees_unknowns c)
  rwa [Netlist.map_node_elements] at this

theorem getElem?_foldl_insert_level (inputs : Levels) (l : List Node) (outputs : Levels) (id : String) :
    (l.foldl (fun outputs n => outputs.insert n.id (inputs.level n.id)) outputs)[id]? =
      if id ∈ l.map (·.id) then some (inputs.level id) else outputs[id]? := by
  induction l generalizing outputs with
  | nil => rfl
  | cons n l ih =>
    rw [List.foldl_cons, ih, List.map_cons, Std.ExtTreeMap.getElem?_insert]
    simp only [Std.LawfulEqCmp.compare_eq_iff_eq, List.mem_cons]
    by_cases hl : id ∈ l.map (·.id)
    · rw [if_pos hl, if_pos (Or.inr hl)]
    · by_cases hn : n.id = id
      · subst hn
        rw [if_neg hl, if_pos rfl, if_pos (Or.inl rfl)]
      · rw [if_neg hl, if_neg hn, if_neg fun h => h.elim (fun h => hn h.symm) hl]

/-- **The seeds are the ids of inputs**, with their levels. -/
theorem getElem?_seed (c : Circuit) (inputs : Levels) (id : String) :
    (seed c inputs)[id]? =
      if ∃ n ∈ c.nodes, n.id = id ∧ n.type = "In" then some (inputs.level id) else none := by
  rw [seed, getElem?_foldl_insert_level, Std.ExtTreeMap.getElem?_empty]
  refine if_congr ?_ rfl rfl
  simp only [List.mem_map, List.mem_filter, decide_eq_true_eq]
  exact ⟨fun ⟨n, ⟨hn, ht⟩, hid⟩ => ⟨n, hn, hid, ht⟩, fun ⟨n, hn, hid, ht⟩ => ⟨n, ⟨hn, ht⟩, hid⟩⟩

theorem Agrees.nodeOutputs (h : Agrees c values outputs) :
    (Netlist.ofCircuit c).nodeOutputs values = outputs :=
  Std.ExtTreeMap.ext_getElem? fun id => by
    rw [Netlist.getElem?_nodeOutputs (Netlist.sound_signals c), h.value]

theorem Agrees.edgeStates (h : Agrees c values outputs) :
    (Netlist.ofCircuit c).edgeStates values = edges c outputs := by
  rw [Netlist.edgeStates, Std.ExtTreeMap.ofList_eq_foldl, List.foldl_map, edges]
  simp only [h.value]
  rfl

/-- **A netlist evaluates to what its circuit does by ids**: the same outputs, levels of connections
and number of passes, and the same verdict. -/
theorem evaluate_ofCircuit (c : Circuit) (cap : ℕ) (inputs : Levels) :
    (Netlist.ofCircuit c).evaluate cap inputs = evaluate c cap inputs := by
  obtain ⟨h, hi, hc⟩ := (agrees_seed c inputs).run cap
  simp only [Netlist.evaluate, evaluate, h.nodeOutputs, h.edgeStates, hi, hc]

end ById

end Schematic
