import Schematic.Proofs.Keys
import Schematic.Proofs.Settling

/-!
# Reordering declarations

Nodes may be declared in any order, and connections in any order that keeps the earliest one on every
pin. The passes then run through other states, but settle on the same outputs.

* `Values.Closed`: values that no update adds to. `Values.Below.after_relax`: **a relaxation stays
  below all closed values above its start**, so where it settles is the least of them.
* `Circuit.Reordered`: two circuits with the same declarations, and the connections into every id in
  the same order.
* `Netlist.outputs_le`: what one circuit computes, the other one settles on.
* `Script.evaluate_reordered`: **the order of declaration does not change the settled result.**
-/

namespace Schematic

/-! ## Closed values -/

namespace Values

/-- Every element holds what its cell computes. -/
def Closed (elements : List Element) (values : Values) : Prop :=
  ∀ e ∈ elements, ∀ v, e.cell.value? values = some v → values.at? e.signal = some v

variable {elements : List Element} {values bound : Values}

/-- **An update only adds to what is known, and stays below all closed values above its start.** -/
theorem Below.update {state : Values × ℕ} (h : state.1.Below bound) (hclosed : bound.Closed elements)
    {e : Element} (he : e ∈ elements) (hs : e.signal < state.1.size) :
    state.1.Below (e.update state).1 ∧ (e.update state).1.Below bound := by
  rcases e.update_cases state with ⟨hu, -⟩ | ⟨v, hv, -, hu⟩
  · rw [hu]
    exact ⟨Below.refl _, h⟩
  -- what is written is computed from less than the bound, which is closed
  have hbound := hclosed e he v (h.value? hv)
  rw [hu]
  constructor <;> intro t w hw
  · rw [at?_write _ hs]
    split
    · rename_i ht
      rw [← hbound, ht, h t w hw]
    · exact hw
  · rw [at?_write _ hs] at hw
    split at hw
    · rename_i ht
      rw [← ht, hbound, hw]
    · exact h t w hw

/-- **A relaxation stays below all closed values above its start.** -/
theorem Below.after_relax (h : values.Below bound) (hbounds : ∀ e ∈ elements, e.signal < values.size)
    (hclosed : bound.Closed elements) (cap : ℕ) :
    (relax elements cap values).values.Below bound := by
  have hkept : (relax elements cap values).values.size = values.size ∧
      (relax elements cap values).values.Below bound := by
    refine relax_induction (P := fun next => next.size = values.size ∧ next.Below bound) ?_ cap ⟨rfl, h⟩
    rintro e he state ⟨hsize, hbelow⟩
    exact ⟨by rw [size_update, hsize], (hbelow.update hclosed he (hsize ▸ hbounds e he)).2⟩
  exact hkept.2

end Values

/-! ## Outputs as values -/

namespace ById

variable {c : Circuit} {a b : Values} {outputs outputs' : Levels}

/-- **Order on values is order on outputs.** -/
theorem Agrees.below_iff (h : Agrees c a outputs) (h' : Agrees c b outputs') :
    a.Below b ↔ ∀ (id : String) (v : Bool), outputs[id]? = some v → outputs'[id]? = some v := by
  constructor
  · intro hbelow id v hv
    rw [← h.value, Netlist.value?_eq, Option.bind_eq_some_iff] at hv
    obtain ⟨s, hs, hv⟩ := hv
    rw [← h'.value, Netlist.value?_of_number? hs]
    exact hbelow s v hv
  · intro hle s v hv
    have hs : s < (Netlist.ofCircuit c).signals.size := by
      obtain ⟨hs, -⟩ := Array.getElem?_eq_some_iff.1 (a.at?_eq_some_iff.1 hv)
      rwa [h.size] at hs
    obtain ⟨id, hid⟩ := Netlist.exists_number?_of_lt hs
    rw [← Netlist.value?_of_number? hid, h'.value]
    refine hle id v ?_
    rw [← h.value, Netlist.value?_of_number? hid]
    exact hv

/-- The value of every signal in a table of outputs. -/
def valuesOf (c : Circuit) (outputs : Levels) : Values :=
  (Netlist.ofCircuit c).signals.names.map (outputs[·]?)

theorem agrees_valuesOf (h : ∀ id, id ∉ c.nodes.map (·.id) → outputs[id]? = none) :
    Agrees c (valuesOf c outputs) outputs := by
  refine ⟨by rw [valuesOf, Array.size_map]; rfl, fun id => ?_⟩
  cases hnum : (Netlist.ofCircuit c).signals.number? id with
  | none => rw [Netlist.value?_eq, hnum, h id ((Netlist.number?_eq_none_iff c).1 hnum)]; rfl
  | some s =>
    have hname := (Netlist.sound_signals c id s).1 hnum
    rw [Netlist.value?_of_number? hnum, Values.at?, valuesOf, Array.getElem?_map]
    exact congrArg Option.join (congrArg (Option.map (outputs[·]?)) hname)

end ById

/-! ## Reordered circuits -/

namespace Circuit

/-- The connections into an id, in order of declaration. -/
def into (c : Circuit) (id : String) : List Connection :=
  c.connections.filter (·.target.node = id)

/-- The same nodes and connections, with the connections into every id in the same order. -/
structure Reordered (c c' : Circuit) : Prop where
  nodes : c.nodes.Perm c'.nodes
  connections : c.connections.Perm c'.connections
  into : ∀ id, c.into id = c'.into id

/-- Only the targets of connections need to be looked at. -/
theorem reordered_iff {c c' : Circuit} : c.Reordered c' ↔ c.nodes.Perm c'.nodes ∧
    c.connections.Perm c'.connections ∧
    ∀ k ∈ c.connections, c.into k.target.node = c'.into k.target.node := by
  refine ⟨fun h => ⟨h.nodes, h.connections, fun k _ => h.into _⟩, ?_⟩
  rintro ⟨hnodes, hperm, hinto⟩
  refine ⟨hnodes, hperm, fun id => ?_⟩
  by_cases hid : ∃ k ∈ c.connections, k.target.node = id
  · obtain ⟨k, hk, rfl⟩ := hid
    exact hinto k hk
  · -- nothing goes into this id on either side
    have hnone : c.into id = [] := List.filter_eq_nil_iff.2 fun k hk => by
      simpa using fun ht => hid ⟨k, hk, ht⟩
    have hnone' : c'.into id = [] := List.filter_eq_nil_iff.2 fun k hk => by
      simpa using fun ht => hid ⟨k, hperm.mem_iff.2 hk, ht⟩
    rw [hnone, hnone']

instance (c c' : Circuit) : Decidable (c.Reordered c') := decidable_of_iff' _ reordered_iff

namespace Reordered

variable {c c' : Circuit}

theorem symm (h : c.Reordered c') : c'.Reordered c :=
  ⟨h.nodes.symm, h.connections.symm, fun id => (h.into id).symm⟩

theorem kindsAgree (h : c.Reordered c') (hkinds : c.KindsAgree) : c'.KindsAgree := fun a ha b hb =>
  hkinds a (h.nodes.mem_iff.2 ha) b (h.nodes.mem_iff.2 hb)

theorem drivenIds_length (h : c.Reordered c') : c.drivenIds.length = c'.drivenIds.length :=
  ((h.nodes.filter _).map _).dedup.length_eq

/-- **The same connection is read**, since it is the first of those into its target. -/
theorem read_eq (h : c.Reordered c') (outputs : Levels) (target : String) (slots : List String) :
    ById.read c outputs target slots = ById.read c' outputs target slots := by
  have hfirst : ∀ d : Circuit, (d.connections.find? fun k =>
      k.target.node = target && slots.contains k.target.slot) =
        (d.into target).find? fun k => slots.contains k.target.slot := by
    intro d
    rw [Circuit.into, List.find?_filter]
    simp only [decide_eq_true_eq, Bool.decide_and, Bool.decide_eq_true]
  rw [ById.read, ById.read, hfirst c, hfirst c', h.into]

/-- A node computes the same in both circuits. -/
theorem compute?_eq (h : c.Reordered c') (outputs : Levels) (n : Node) :
    ById.compute? c outputs n = ById.compute? c' outputs n := by
  unfold ById.compute?
  simp only [h.read_eq]

end Reordered

end Circuit

namespace Netlist

variable {c c' : Circuit} {inputs : Levels}

/-- A settled evaluation of a circuit is closed in any reordered one. -/
theorem closed_of_reordered (h : c.Reordered c') {cap : ℕ}
    (hconv : (relax (ofCircuit c').elements cap ((ofCircuit c').seed inputs)).converged = true)
    {bound : Values} (hbound : ById.Agrees c bound ((ofCircuit c').evaluate cap inputs).nodeOutputs) :
    bound.Closed (ofCircuit c).elements := by
  intro e he v hv
  obtain ⟨hn, -, hcell⟩ := of_mem_elements he
  obtain ⟨e', he', hnode⟩ := exists_element (h.nodes.mem_iff.1 hn)
  obtain ⟨-, -, hcell'⟩ := of_mem_elements he'
  have hin : e.node.type ≠ "In" := by
    intro hin
    rw [(cell_eq_input_iff he).2 hin] at hv
    cases hv
  have hfinal := agrees_finals c' cap inputs
  -- the two elements of the node compute what the node does by ids, and that is the same
  rw [hcell, hbound.compute? hin, h.compute?_eq, ← hfinal.compute? hin, ← hnode, ← hcell'] at hv
  have hheld := at?_of_converged hconv he' hv
  rw [hbound.at? he, ← hnode, ← hfinal.at? he']
  exact hheld

/-- **What one circuit computes under any cap, a reordered one settles on.** -/
theorem outputs_le (h : c.Reordered c') (hkinds : c'.KindsAgree) {cap' : ℕ}
    (hconv : (relax (ofCircuit c').elements cap' ((ofCircuit c').seed inputs)).converged = true)
    (cap : ℕ) {id : String} {v : Bool}
    (hv : ((ofCircuit c).evaluate cap inputs).nodeOutputs[id]? = some v) :
    ((ofCircuit c').evaluate cap' inputs).nodeOutputs[id]? = some v := by
  have hfinal := agrees_finals c' cap' inputs
  set outputs := ((ofCircuit c').evaluate cap' inputs).nodeOutputs
  have hbound : ById.Agrees c (ById.valuesOf c outputs) outputs := by
    refine ById.agrees_valuesOf fun id hid => ?_
    have hid' : id ∉ c'.nodes.map (·.id) := fun hm => hid ((h.nodes.map _).mem_iff.2 hm)
    rw [← hfinal.value, value?_eq, (number?_eq_none_iff c').2 hid']
    rfl
  -- the seeds are the same by ids, and the second evaluation keeps them
  have hseed : ((ofCircuit c).seed inputs).Below (ById.valuesOf c outputs) :=
    ((ById.agrees_seed c inputs).below_iff hbound).2 fun id v hv => by
      have hkept := ((held_seed hkinds inputs).after_relax (oneCell hkinds) cap').2
      refine ((ById.agrees_seed c' inputs).below_iff hfinal).1 hkept id v ?_
      rw [ById.getElem?_seed] at hv ⊢
      simpa only [h.nodes.mem_iff] using hv
  have hclosed := closed_of_reordered h hconv hbound
  have hbelow := hseed.after_relax (fun e he => signal_lt_seed inputs he) hclosed cap
  exact ((agrees_finals c cap inputs).below_iff hbound).1 hbelow id v hv

/-- Equal outputs give equal levels of connections, if keys name connections. -/
theorem edgeStates_eq (hperm : c.connections.Perm c'.connections)
    (hvalid : ∀ k ∈ c.connections, k.Valid) {cap : ℕ} (houtputs :
      ((ofCircuit c).evaluate cap inputs).nodeOutputs =
        ((ofCircuit c').evaluate cap inputs).nodeOutputs) :
    ((ofCircuit c).evaluate cap inputs).edgeStates =
      ((ofCircuit c').evaluate cap inputs).edgeStates := by
  refine Std.ExtTreeMap.ext_getElem? fun key => Option.ext fun v => ?_
  have hvalid' : ∀ k ∈ c'.connections, k.Valid := fun k hk => hvalid k (hperm.mem_iff.2 hk)
  rw [getElem?_edgeStates_evaluate hvalid, getElem?_edgeStates_evaluate hvalid', houtputs]
  simp only [hperm.mem_iff]

end Netlist

open Netlist in
/-- **The order of declaration does not change the settled result.** If two scripts declare the same
nodes and the same connections, those into each id in the same order, and nodes with one id are of one
kind, then under a cap that lets them settle both evaluations settle, with the same outputs and the
same levels of connections. -/
theorem Script.evaluate_reordered (s s' : String) (inputs : Levels) {cap : ℕ}
    (h : (parse s).circuit.Reordered (parse s').circuit) (hkinds : (parse s).circuit.KindsAgree)
    (hcap : (parse s).circuit.drivenIds.length + 1 ≤ cap) :
    ((ofCircuit (parse s).circuit).evaluate cap inputs).nodeOutputs =
        ((ofCircuit (parse s').circuit).evaluate cap inputs).nodeOutputs ∧
      ((ofCircuit (parse s).circuit).evaluate cap inputs).edgeStates =
        ((ofCircuit (parse s').circuit).evaluate cap inputs).edgeStates ∧
      ((ofCircuit (parse s).circuit).evaluate cap inputs).converged = true ∧
      ((ofCircuit (parse s').circuit).evaluate cap inputs).converged = true := by
  have hkinds' := h.kindsAgree hkinds
  have hconv := converged_relax hkinds inputs hcap
  have hconv' := converged_relax hkinds' inputs (h.drivenIds_length ▸ hcap)
  have houtputs : ((ofCircuit (parse s).circuit).evaluate cap inputs).nodeOutputs =
      ((ofCircuit (parse s').circuit).evaluate cap inputs).nodeOutputs :=
    Std.ExtTreeMap.ext_getElem? fun id => Option.ext fun v =>
      ⟨outputs_le h hkinds' hconv' cap, outputs_le h.symm hkinds hconv cap⟩
  have hedges := edgeStates_eq h.connections (fun k => valid_of_mem_connections) houtputs
  exact ⟨houtputs, hedges, hconv, hconv'⟩

/-- Three gates in a row, of which the last reads itself as well, declared from the input on. The pin of
the second one is driven twice. -/
def Circuit.forwards : Circuit where
  nodes := [⟨"A", "In", 0, 0, []⟩, ⟨"n", "NOT", 0, 0, []⟩, ⟨"m", "BUF", 0, 0, []⟩, ⟨"q", "OR", 0, 0, []⟩]
  connections := [⟨⟨"A", "out"⟩, ⟨"n", "in"⟩⟩, ⟨⟨"n", "out"⟩, ⟨"m", "in"⟩⟩, ⟨⟨"A", "out"⟩, ⟨"m", "in"⟩⟩,
    ⟨⟨"m", "out"⟩, ⟨"q", "a"⟩⟩, ⟨⟨"q", "out"⟩, ⟨"q", "b"⟩⟩]

/-- The same circuit, declared towards the input. -/
def Circuit.backwards : Circuit where
  nodes := [⟨"q", "OR", 0, 0, []⟩, ⟨"m", "BUF", 0, 0, []⟩, ⟨"n", "NOT", 0, 0, []⟩, ⟨"A", "In", 0, 0, []⟩]
  connections := [⟨⟨"m", "out"⟩, ⟨"q", "a"⟩⟩, ⟨⟨"q", "out"⟩, ⟨"q", "b"⟩⟩, ⟨⟨"n", "out"⟩, ⟨"m", "in"⟩⟩,
    ⟨⟨"A", "out"⟩, ⟨"m", "in"⟩⟩, ⟨⟨"A", "out"⟩, ⟨"n", "in"⟩⟩]

/-- The two scripts evaluate to the same, although one of them takes a pass more. -/
theorem Script.forwards_backwards :
    (parse Circuit.forwards.script).circuit.Reordered (parse Circuit.backwards.script).circuit ∧
    (parse Circuit.forwards.script).circuit.KindsAgree ∧
    (parse Circuit.forwards.script).circuit.drivenIds.length + 1 ≤ 4 ∧
    ((Netlist.ofCircuit (parse Circuit.forwards.script).circuit).evaluate 4 ∅).iterations = 2 ∧
    ((Netlist.ofCircuit (parse Circuit.backwards.script).circuit).evaluate 4 ∅).iterations = 3 ∧
    ((Netlist.ofCircuit (parse Circuit.forwards.script).circuit).evaluate 4 ∅).nodeOutputs =
      ((Netlist.ofCircuit (parse Circuit.backwards.script).circuit).evaluate 4 ∅).nodeOutputs := by
  have hforwards : (parse Circuit.forwards.script).circuit = .forwards := by decide +kernel
  have hbackwards : (parse Circuit.backwards.script).circuit = .backwards := by decide +kernel
  have hreordered : Circuit.forwards.Reordered .backwards := by decide +kernel
  have hkinds : Circuit.forwards.KindsAgree := by decide +kernel
  have hcap : Circuit.forwards.drivenIds.length + 1 ≤ 4 := by decide +kernel
  rw [← hforwards] at hkinds hcap
  rw [← hforwards, ← hbackwards] at hreordered
  obtain ⟨houtputs, -⟩ := evaluate_reordered Circuit.forwards.script Circuit.backwards.script ∅
    hreordered hkinds hcap
  refine ⟨hreordered, hkinds, hcap, ?_, ?_, houtputs⟩
  · rw [hforwards]
    decide +kernel
  · rw [hbackwards]
    decide +kernel

end Schematic
