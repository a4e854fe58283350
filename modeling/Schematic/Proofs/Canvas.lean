import Mathlib.Data.List.Forall2
import Schematic.Proofs.Keys
import Schematic.Proofs.Settling
import Schematic.View

/-!
# The canvas

What a canvas shows of a circuit with distinct ids, against the evaluation that it was made from.

* `Netlist.canvas`: the view of a circuit under its own evaluation.
* `View.Shows`: what holds of the widget of a node, kind by kind.
* `Netlist.value?_of_output`, `Netlist.output_of_value?`: **a node has the output that its cell
  computes from the outputs**, and has it at once when the evaluation has settled.
* `Script.canvas_shows`: **inputs, outputs, gates with two pins and wires are shown as they are
  evaluated**, also when the cap stopped the evaluation.
* `Script.canvas_unary`: a gate with one pin shows the earliest wire on any slot, but reads the
  earliest on `in` or `in0`. **Pin and output fit exactly if both wires come from one level.**
-/

namespace Schematic

/-! ## What is shown -/

/-- A gate shows a level only if all its pins do, and then what it computes from them. -/
def Gate.Explains (g : Gate) (pins : List (Option Bool)) (shown : Option Bool) : Prop :=
  ∀ level, shown = some level → ∃ levels, pins = levels.map some ∧ level = g.eval levels

namespace View

/-- The earliest wire on the canvas into a node. -/
def anyWire? (v : View) (id : String) : Option ViewEdge :=
  v.edges.find? fun edge => edge.connection.target.node = id

/-- The earliest wire on the canvas into a node on one of some slots. -/
def wire? (v : View) (id : String) (slots : List String) : Option ViewEdge :=
  v.edges.find? fun edge =>
    edge.connection.target.node = id && slots.contains edge.connection.target.slot

/-- What holds of the widget of a node, in a view of an evaluation. -/
inductive Shows (v : View) (e : Evaluation) (n : Node) : Widget → Prop
  /-- A switch shows the output of its node. -/
  | input (hkind : n.kind = .input) (level : Bool) (houtput : e.output? n.id = some level) :
    Shows v e n (.input n.id level)
  /-- A lamp shows what comes in on its wire, and shows it as soon as the evaluation has settled. -/
  | output (hkind : n.kind = .output) (shown : Option Bool)
    (hshown : ∀ level, shown = some level → ∃ edge, v.wire? n.id outputSlots = some edge ∧
      e.output? edge.connection.source.node = some level ∧ (edge.active = true ↔ level = true))
    (hsettled : e.converged = true → ∀ edge level, v.wire? n.id outputSlots = some edge →
      e.output? edge.connection.source.node = some level → shown = some level) :
    Shows v e n (.output n.id shown)
  /-- Nothing is said here of the one pin of a gate. -/
  | unary (g : Gate) (hkind : n.kind = .gate g) (harity : g.arity = 1) (pin shown : Option Bool) :
    Shows v e n (.unary n.type pin shown)
  /-- A gate shows what it computes from its two pins, and shows a level as soon as the evaluation
  has settled if both pins are wired and show one. -/
  | binary (g : Gate) (hkind : n.kind = .gate g) (harity : g.arity = 2) (a b shown : Option Bool)
    (hshown : g.Explains [a, b] shown)
    (hsettled : e.converged = true → (v.wire? n.id firstSlots).isSome →
      (v.wire? n.id secondSlots).isSome → a.isSome → b.isSome → shown.isSome) :
    Shows v e n (.binary n.type a b shown)
  /-- A node of unknown type shows no output. -/
  | unknown (hkind : n.kind = .unknown) (a b : Option Bool) : Shows v e n (.binary n.type a b none)

end View

/-- What holds of the widget of a gate with one pin. The pin shows the earliest wire into the gate,
`any`, but the gate computes from the earliest on its own slots, `own`. So if it shows a level, its pin
explains this level exactly if the two wires come from equal outputs. -/
def View.ShowsOnePin (v : View) (e : Evaluation) (n : Node) (w : Widget) : Prop :=
  ∀ g, n.kind = .gate g → g.arity = 1 → ∃ pin shown, w = .unary n.type pin shown ∧
    ∀ level, shown = some level → ∃ any own, v.anyWire? n.id = some any ∧
      v.wire? n.id unarySlots = some own ∧
      pin = e.output? any.connection.source.node ∧
      g.Explains [e.output? own.connection.source.node] shown ∧
      (g.Explains [pin] shown ↔
        e.output? any.connection.source.node = e.output? own.connection.source.node)

/-- The view of a circuit under its own evaluation. -/
def Netlist.canvas (n : Netlist) (cap : ℕ) (inputs : Levels) : View :=
  n.view inputs (n.evaluate cap inputs)

/-! ## Pins -/

namespace Circuit

/-- The connection that drives a pin of a node: the earliest on one of its slots. -/
def driver? (c : Circuit) (id : String) (slots : List String) : Option Connection :=
  c.connections.find? fun k => k.target.node = id && slots.contains k.target.slot

/-- The earliest connection into a node. -/
def entry? (c : Circuit) (id : String) : Option Connection :=
  c.connections.find? (·.target.node = id)

end Circuit

variable {c : Circuit} {e : Evaluation} {inputs : Levels} {id : String} {slots : List String}

theorem Evaluation.pin_eq (e : Evaluation) (place : Option (Connection × ℕ)) :
    e.pin place = (place.map Prod.fst).elim (some false) fun k => e.output? k.source.node := by
  cases place <;> rfl

namespace Netlist

/-- A pin shows the source of the connection that drives it, or low. -/
theorem pin_first? : e.pin ((ofCircuit c).incoming.first? id slots) =
    (c.driver? id slots).elim (some false) fun k => e.output? k.source.node := by
  have hscan := Incoming.first?_ofConnections c.connections id slots
  rw [Evaluation.pin_eq, ofCircuit, hscan, Circuit.driver?, ← Incoming.map_fst_find?_zipIdx]

theorem pin_firstAny? : e.pin ((ofCircuit c).incoming.firstAny? id) =
    (c.entry? id).elim (some false) fun k => e.output? k.source.node := by
  have hscan := Incoming.firstAny?_ofConnections c.connections id
  rw [Evaluation.pin_eq, ofCircuit, hscan, Circuit.entry?, ← Incoming.map_fst_find?_zipIdx]

theorem wire?_view : ((ofCircuit c).view inputs e).wire? id slots =
    (c.driver? id slots).map fun k => ⟨k, e.edge k⟩ := by
  rw [View.wire?, view, List.find?_map]
  rfl

theorem anyWire?_view : ((ofCircuit c).view inputs e).anyWire? id =
    (c.entry? id).map fun k => ⟨k, e.edge k⟩ := by
  rw [View.anyWire?, view, List.find?_map]
  rfl

/-- A wire is a connection with its level. -/
theorem of_mem_edges {edge : ViewEdge} (h : edge ∈ ((ofCircuit c).view inputs e).edges) :
    edge.connection ∈ c.connections ∧ edge.active = e.edge edge.connection := by
  obtain ⟨k, hk, rfl⟩ := List.mem_map.1 h
  exact ⟨hk, rfl⟩

end Netlist

/-- A pin that reads a level is wired to a node with this output. -/
theorem ById.read_eq_some_iff {outputs : Levels} {level : Bool} :
    read c outputs id slots = some level ↔
      ∃ k, c.driver? id slots = some k ∧ outputs[k.source.node]? = some level :=
  Option.bind_eq_some_iff

/-- A pin that reads a level shows it. -/
theorem Netlist.pin_of_read {level : Bool} (h : ById.read c e.nodeOutputs id slots = some level) :
    e.pin ((ofCircuit c).incoming.first? id slots) = some level := by
  obtain ⟨k, hk, hlevel⟩ := ById.read_eq_some_iff.1 h
  rw [pin_first?, hk]
  exact hlevel

/-- A wired pin that shows a level reads it. -/
theorem Netlist.read_of_pin {level : Bool} (hwired : (c.driver? id slots).isSome)
    (h : e.pin ((ofCircuit c).incoming.first? id slots) = some level) :
    ById.read c e.nodeOutputs id slots = some level := by
  obtain ⟨k, hk⟩ := Option.isSome_iff_exists.1 hwired
  rw [pin_first?, hk] at h
  exact ById.read_eq_some_iff.2 ⟨k, hk, h⟩

/-! ## Outputs and cells -/

section Cells

variable {values : Values} {outputs : Levels} {n : Node} {g : Gate}

theorem ById.Agrees.value?_output (h : Agrees c values outputs) (hkind : n.kind = .output) :
    (Cell.ofNode (Netlist.ofCircuit c).signals (Netlist.ofCircuit c).incoming n).value? values =
      ById.read c outputs n.id outputSlots := by
  unfold Cell.ofNode
  rw [hkind]
  exact h.read n.id outputSlots

theorem ById.Agrees.value?_unary (h : Agrees c values outputs) (hkind : n.kind = .gate g)
    (harity : g.arity = 1) :
    (Cell.ofNode (Netlist.ofCircuit c).signals (Netlist.ofCircuit c).incoming n).value? values =
      (ById.read c outputs n.id unarySlots).map fun x => g.eval [x] := by
  unfold Cell.ofNode
  simp only [hkind, if_pos harity, Cell.value?, h.read]

theorem ById.Agrees.value?_binary_eq_some_iff (h : Agrees c values outputs)
    (hkind : n.kind = .gate g) (harity : g.arity = 2) {v : Bool} :
    (Cell.ofNode (Netlist.ofCircuit c).signals (Netlist.ofCircuit c).incoming n).value? values =
      some v ↔ ∃ x y, ById.read c outputs n.id firstSlots = some x ∧
        ById.read c outputs n.id secondSlots = some y ∧ g.eval [x, y] = v := by
  have hne : g.arity ≠ 1 := by omega
  unfold Cell.ofNode
  simp only [hkind, if_neg hne, Cell.value?, h.read]
  cases ById.read c outputs n.id firstSlots <;> cases ById.read c outputs n.id secondSlots <;> simp

end Cells

namespace Netlist

variable {cap : ℕ} {n : Node} {v : Bool}

/-- **The output of a node is what its cell computes from the outputs**, unless it is an input. -/
theorem value?_of_output (hkinds : c.KindsAgree) (hn : n ∈ c.nodes) (hin : n.kind ≠ .input)
    (hv : ((ofCircuit c).evaluate cap inputs).output? n.id = some v) :
    (Cell.ofNode (ofCircuit c).signals (ofCircuit c).incoming n).value?
      ((ofCircuit c).finals cap inputs) = some v := by
  obtain ⟨x, hx, rfl⟩ := exists_element hn
  have hcell := (of_mem_elements hx).2.2
  have hdriven : x.cell ≠ .input := by
    intro hinput
    rw [cell_eq_input_iff hx, ← Node.kind_eq_input_iff] at hinput
    exact hin hinput
  rw [Evaluation.output?, ← (agrees_finals c cap inputs).at? hx] at hv
  rw [← hcell]
  exact (held_finals hkinds cap inputs).computed x hx hdriven v hv

/-- When an evaluation has settled, what a cell computes from the outputs is an output. -/
theorem output_of_value? (hconv : ((ofCircuit c).evaluate cap inputs).converged = true)
    (hn : n ∈ c.nodes) (hv : (Cell.ofNode (ofCircuit c).signals (ofCircuit c).incoming n).value?
      ((ofCircuit c).finals cap inputs) = some v) :
    ((ofCircuit c).evaluate cap inputs).output? n.id = some v := by
  obtain ⟨x, hx, rfl⟩ := exists_element hn
  rw [← (of_mem_elements hx).2.2] at hv
  rw [Evaluation.output?, ← (agrees_finals c cap inputs).at? hx]
  exact at?_of_converged hconv hx hv

/-- The output of an input is the level that it is driven with. -/
theorem output_of_input (hkinds : c.KindsAgree) (hn : n ∈ c.nodes) (hin : n.kind = .input) :
    ((ofCircuit c).evaluate cap inputs).output? n.id = some (inputs.level n.id) := by
  obtain ⟨x, hx, rfl⟩ := exists_element hn
  have hcell := (cell_eq_input_iff hx).2 (Node.kind_eq_input_iff.1 hin)
  rw [Evaluation.output?, ← (agrees_finals c cap inputs).at? hx]
  exact at?_finals_of_input hkinds cap inputs hx hcell

/-! ## Widgets, kind by kind -/

theorem shows_input (hkinds : c.KindsAgree) (hn : n ∈ c.nodes) (hkind : n.kind = .input) :
    ((ofCircuit c).canvas cap inputs).Shows ((ofCircuit c).evaluate cap inputs) n
      ((ofCircuit c).widget inputs ((ofCircuit c).evaluate cap inputs) n) := by
  unfold widget
  rw [hkind]
  exact .input hkind _ (output_of_input hkinds hn hkind)

theorem shows_output (hkinds : c.KindsAgree) (hvalid : ∀ k ∈ c.connections, k.Valid)
    (hn : n ∈ c.nodes) (hkind : n.kind = .output) :
    ((ofCircuit c).canvas cap inputs).Shows ((ofCircuit c).evaluate cap inputs) n
      ((ofCircuit c).widget inputs ((ofCircuit c).evaluate cap inputs) n) := by
  have hread := (agrees_finals c cap inputs).value?_output hkind
  unfold widget
  rw [hkind]
  refine .output hkind _ (fun level hshown => ?_) fun hconv edge level hwire hlevel => ?_
  · have hvalue := value?_of_output hkinds hn (by rw [hkind]; decide) hshown
    rw [hread, ById.read_eq_some_iff] at hvalue
    obtain ⟨k, hk, hlevel⟩ := hvalue
    refine ⟨⟨k, _⟩, by rw [canvas, wire?_view, hk]; rfl, hlevel, ?_⟩
    have hedge := edge_evaluate_iff hvalid cap inputs (List.mem_of_find?_eq_some hk)
    rw [hedge, Evaluation.output?, hlevel, Option.some.injEq]
  · rw [canvas, wire?_view, Option.map_eq_some_iff] at hwire
    obtain ⟨k, hk, rfl⟩ := hwire
    apply output_of_value? hconv hn
    rw [hread]
    exact ById.read_eq_some_iff.2 ⟨k, hk, hlevel⟩

theorem shows_binary (hkinds : c.KindsAgree) (hn : n ∈ c.nodes) {g : Gate}
    (hkind : n.kind = .gate g) (harity : g.arity = 2) :
    ((ofCircuit c).canvas cap inputs).Shows ((ofCircuit c).evaluate cap inputs) n
      ((ofCircuit c).widget inputs ((ofCircuit c).evaluate cap inputs) n) := by
  have hne : g.arity ≠ 1 := by omega
  have hvalue := fun v => (agrees_finals c cap inputs).value?_binary_eq_some_iff hkind harity (v := v)
  unfold widget
  simp only [hkind, if_neg hne]
  refine .binary g hkind harity _ _ _ (fun level hshown => ?_) fun hconv hwa hwb ha hb => ?_
  · obtain ⟨x, y, hx, hy, rfl⟩ := (hvalue level).1
      (value?_of_output hkinds hn (by rw [hkind]; simp) hshown)
    exact ⟨[x, y], by rw [pin_of_read hx, pin_of_read hy]; rfl, rfl⟩
  · rw [canvas, wire?_view, Option.isSome_map] at hwa hwb
    obtain ⟨x, hx⟩ := Option.isSome_iff_exists.1 ha
    obtain ⟨y, hy⟩ := Option.isSome_iff_exists.1 hb
    have hcell := (hvalue (g.eval [x, y])).2 ⟨x, y, read_of_pin hwa hx, read_of_pin hwb hy, rfl⟩
    rw [output_of_value? hconv hn hcell]
    rfl

theorem shows_unknown (hkinds : c.KindsAgree) (hn : n ∈ c.nodes) (hkind : n.kind = .unknown) :
    ((ofCircuit c).canvas cap inputs).Shows ((ofCircuit c).evaluate cap inputs) n
      ((ofCircuit c).widget inputs ((ofCircuit c).evaluate cap inputs) n) := by
  have hnone : ((ofCircuit c).evaluate cap inputs).output? n.id = none := by
    rw [Option.eq_none_iff_forall_not_mem]
    intro v hv
    have hvalue := value?_of_output hkinds hn (by rw [hkind]; decide) hv
    unfold Cell.ofNode at hvalue
    rw [hkind] at hvalue
    cases hvalue
  unfold widget
  rw [hkind, hnone]
  exact .unknown hkind _ _

end Netlist

/-! ## The whole canvas -/

theorem Gate.arity_cases (g : Gate) : g.arity = 1 ∨ g.arity = 2 := by
  cases g <;> decide

/-- **What the canvas shows of a node holds together.** -/
theorem Netlist.shows_widget {cap : ℕ} {n : Node} (hkinds : c.KindsAgree)
    (hvalid : ∀ k ∈ c.connections, k.Valid) (hn : n ∈ c.nodes) :
    ((ofCircuit c).canvas cap inputs).Shows ((ofCircuit c).evaluate cap inputs) n
      ((ofCircuit c).widget inputs ((ofCircuit c).evaluate cap inputs) n) := by
  cases hkind : n.kind with
  | input => exact shows_input hkinds hn hkind
  | output => exact shows_output hkinds hvalid hn hkind
  | unknown => exact shows_unknown hkinds hn hkind
  | gate g =>
    rcases g.arity_cases with harity | harity
    · unfold widget
      simp only [hkind, if_pos harity]
      exact .unary g hkind harity _ _
    · exact shows_binary hkinds hn hkind harity

/-- What holds of every widget holds of the canvas, node by node. -/
theorem Netlist.forall₂_canvas {cap : ℕ} {R : Node → ViewNode → Prop}
    (h : ∀ n ∈ c.nodes, R n ⟨n.id, n.x, n.y,
      (ofCircuit c).widget inputs ((ofCircuit c).evaluate cap inputs) n⟩) :
    List.Forall₂ R c.nodes ((ofCircuit c).canvas cap inputs).nodes :=
  List.forall₂_map_right_iff.2 (List.forall₂_same.2 h)

open Netlist in
/-- **What the canvas shows is coherent.** If the ids of a script are distinct, then under every cap
each node is shown as its kind demands (`View.Shows`), and the wires are the connections, each active
exactly if the output of its source is high. -/
theorem Script.canvas_shows (s : String) (hids : ((parse s).circuit.nodes.map (·.id)).Nodup)
    (cap : ℕ) (inputs : Levels) :
    List.Forall₂ (fun n shown => shown.id = n.id ∧
        ((ofCircuit (parse s).circuit).canvas cap inputs).Shows
          ((ofCircuit (parse s).circuit).evaluate cap inputs) n shown.widget)
      (parse s).circuit.nodes ((ofCircuit (parse s).circuit).canvas cap inputs).nodes ∧
    ((ofCircuit (parse s).circuit).canvas cap inputs).edges.map (·.connection) =
      (parse s).circuit.connections ∧
    ∀ edge ∈ ((ofCircuit (parse s).circuit).canvas cap inputs).edges, edge.active = true ↔
      ((ofCircuit (parse s).circuit).evaluate cap inputs).output? edge.connection.source.node =
        some true := by
  have hkinds := Circuit.kindsAgree_of_nodup hids
  have hvalid : ∀ k ∈ (parse s).circuit.connections, k.Valid := fun k => valid_of_mem_connections
  refine ⟨forall₂_canvas fun n hn => ⟨rfl, shows_widget hkinds hvalid hn⟩, ?_, fun edge hedge => ?_⟩
  · simp [canvas, view, ofCircuit, Function.comp_def]
  · obtain ⟨hk, hactive⟩ := of_mem_edges hedge
    rw [hactive]
    exact edge_evaluate_iff hvalid cap inputs hk

/-- A gate on one input, and a lamp. -/
def Script.lit : String := "In A @ 0, 0\nNAND g @ 0, 0\nOut Y @ 0, 0\nA -> g.a\nA -> g.in1\ng -> Y"

theorem Script.parse_lit : (parse lit).circuit = ⟨[⟨"A", "In", 0, 0, []⟩, ⟨"g", "NAND", 0, 0, []⟩,
    ⟨"Y", "Out", 0, 0, []⟩], [⟨⟨"A", "out"⟩, ⟨"g", "a"⟩⟩, ⟨⟨"A", "out"⟩, ⟨"g", "in1"⟩⟩,
    ⟨⟨"g", "out"⟩, ⟨"Y", "in"⟩⟩]⟩ := by
  decide +kernel

/-- The canvas holds together after a single pass, which cannot tell that nothing will change. -/
theorem Script.lit_canvas :
    ((parse lit).circuit.nodes.map (·.id)).Nodup ∧
    ((Netlist.ofCircuit (parse lit).circuit).evaluate 1 ∅).converged = false ∧
    ((Netlist.ofCircuit (parse lit).circuit).canvas 1 ∅).Shows
      ((Netlist.ofCircuit (parse lit).circuit).evaluate 1 ∅) ⟨"g", "NAND", 0, 0, []⟩
      (.binary "NAND" (some false) (some false) (some true)) := by
  have hids : ((parse lit).circuit.nodes.map (·.id)).Nodup := by
    rw [parse_lit]
    decide
  have hview : ((Netlist.ofCircuit (parse lit).circuit).canvas 1 ∅).nodes =
      [⟨"A", 0, 0, .input "A" false⟩,
        ⟨"g", 0, 0, .binary "NAND" (some false) (some false) (some true)⟩,
        ⟨"Y", 0, 0, .output "Y" (some true)⟩] := by
    rw [parse_lit]
    decide +kernel
  have hconv : ((Netlist.ofCircuit (parse lit).circuit).evaluate 1 ∅).converged = false := by
    rw [parse_lit]
    decide +kernel
  obtain ⟨hshows, -, -⟩ := canvas_shows lit hids 1 ∅
  have hnodes := congrArg Circuit.nodes parse_lit
  rw [hview, hnodes, List.forall₂_cons, List.forall₂_cons] at hshows
  exact ⟨hids, hconv, hshows.2.1.2⟩

/-! ## Gates with one pin -/

namespace Gate

variable {g : Gate}

/-- A gate with one input tells its levels apart. -/
theorem eval_inj (harity : g.arity = 1) {x y : Bool} (h : g.eval [x] = g.eval [y]) : x = y := by
  cases g <;> simp_all [arity, eval]

theorem explains_of_eq (g : Gate) (x : Bool) : g.Explains [some x] (some (g.eval [x])) := by
  intro level hlevel
  exact ⟨[x], rfl, (Option.some.inj hlevel).symm⟩

/-- The pin of a gate with one input explains a level only if it is what this level is computed from. -/
theorem explains_iff (harity : g.arity = 1) (pin : Option Bool) (x : Bool) :
    g.Explains [pin] (some (g.eval [x])) ↔ pin = some x := by
  refine ⟨fun h => ?_, fun h => h ▸ g.explains_of_eq x⟩
  obtain ⟨levels, hpins, heval⟩ := h _ rfl
  obtain ⟨y, rest, rfl, rfl, hrest⟩ := List.map_eq_cons_iff.1 hpins.symm
  obtain rfl := List.map_eq_nil_iff.1 hrest
  rw [eval_inj harity heval]

end Gate

namespace Netlist

variable {cap : ℕ} {n : Node}

/-- A node with a driven pin has an earliest connection. -/
theorem exists_entry? {k : Connection} (h : c.driver? id slots = some k) :
    ∃ entry, c.entry? id = some entry := by
  have hk := List.find?_some h
  rw [Bool.and_eq_true] at hk
  exact Option.isSome_iff_exists.1 (List.find?_isSome.2 ⟨k, List.mem_of_find?_eq_some h, hk.1⟩)

theorem showsOnePin_widget (hkinds : c.KindsAgree) (hn : n ∈ c.nodes) :
    ((ofCircuit c).canvas cap inputs).ShowsOnePin ((ofCircuit c).evaluate cap inputs) n
      ((ofCircuit c).widget inputs ((ofCircuit c).evaluate cap inputs) n) := by
  intro g hkind harity
  have hwidget : (ofCircuit c).widget inputs ((ofCircuit c).evaluate cap inputs) n = .unary n.type
      (((ofCircuit c).evaluate cap inputs).pin ((ofCircuit c).incoming.firstAny? n.id))
      (((ofCircuit c).evaluate cap inputs).output? n.id) := by
    unfold widget
    simp only [hkind, if_pos harity]
  refine ⟨_, _, hwidget, fun level hshown => ?_⟩
  -- what is shown was computed from the output of the own connection
  have hvalue := value?_of_output hkinds hn (by rw [hkind]; simp) hshown
  rw [(agrees_finals c cap inputs).value?_unary hkind harity, Option.map_eq_some_iff] at hvalue
  obtain ⟨x, hread, rfl⟩ := hvalue
  obtain ⟨own, hown, hlevel⟩ := ById.read_eq_some_iff.1 hread
  have hlevel : ((ofCircuit c).evaluate cap inputs).output? own.source.node = some x := hlevel
  obtain ⟨any, hany⟩ := exists_entry? hown
  have hpin : ((ofCircuit c).evaluate cap inputs).pin ((ofCircuit c).incoming.firstAny? n.id) =
      ((ofCircuit c).evaluate cap inputs).output? any.source.node := by
    rw [pin_firstAny?, hany]
    rfl
  refine ⟨⟨any, _⟩, ⟨own, _⟩, by rw [canvas, anyWire?_view, hany]; rfl,
    by rw [canvas, wire?_view, hown]; rfl, hpin, ?_, ?_⟩
  · rw [hshown, hlevel]
    exact g.explains_of_eq x
  · rw [hshown, hpin, Gate.explains_iff harity, hlevel]

end Netlist

open Netlist in
/-- **Gates with one pin are shown with their earliest wire on any slot** (`View.ShowsOnePin`), while
they compute from the earliest on `in` or `in0`. If the ids of a script are distinct, pin and level fit
exactly if the sources of the two wires have one output, so whenever they are one wire. -/
theorem Script.canvas_unary (s : String) (hids : ((parse s).circuit.nodes.map (·.id)).Nodup)
    (cap : ℕ) (inputs : Levels) :
    List.Forall₂ (fun n shown => ((ofCircuit (parse s).circuit).canvas cap inputs).ShowsOnePin
        ((ofCircuit (parse s).circuit).evaluate cap inputs) n shown.widget)
      (parse s).circuit.nodes ((ofCircuit (parse s).circuit).canvas cap inputs).nodes := by
  have hkinds := Circuit.kindsAgree_of_nodup hids
  exact forall₂_canvas fun n hn => showsOnePin_widget hkinds hn

/-- A gate on the second of two inputs, with a wire from the first one that it does not read. -/
def Script.crossed : String :=
  "In A @ 0, 0\nIn B @ 0, 0\nNOT n @ 0, 0\nA -> n.x\nB -> n.in"

theorem Script.parse_crossed : (parse crossed).circuit = ⟨[⟨"A", "In", 0, 0, []⟩,
    ⟨"B", "In", 0, 0, []⟩, ⟨"n", "NOT", 0, 0, []⟩], [⟨⟨"A", "out"⟩, ⟨"n", "x"⟩⟩,
    ⟨⟨"B", "out"⟩, ⟨"n", "in"⟩⟩]⟩ := by
  decide +kernel

theorem Script.nodup_crossed : ((parse crossed).circuit.nodes.map (·.id)).Nodup := by
  rw [parse_crossed]
  decide

/-- The pin fits as long as both inputs are low. -/
theorem Script.crossed_low :
    ((parse crossed).circuit.nodes.map (·.id)).Nodup ∧
    ((Netlist.ofCircuit (parse crossed).circuit).canvas 2 ∅).ShowsOnePin
      ((Netlist.ofCircuit (parse crossed).circuit).evaluate 2 ∅) ⟨"n", "NOT", 0, 0, []⟩
      (.unary "NOT" (some false) (some true)) := by
  have hview : ((Netlist.ofCircuit (parse crossed).circuit).canvas 2 ∅).nodes =
      [⟨"A", 0, 0, .input "A" false⟩, ⟨"B", 0, 0, .input "B" false⟩,
        ⟨"n", 0, 0, .unary "NOT" (some false) (some true)⟩] := by
    rw [parse_crossed]
    decide +kernel
  have hshows := canvas_unary crossed nodup_crossed 2 ∅
  have hnodes := congrArg Circuit.nodes parse_crossed
  rw [hview, hnodes, List.forall₂_cons, List.forall₂_cons, List.forall₂_cons] at hshows
  exact ⟨nodup_crossed, hshows.2.2.1⟩

/-- **A pin need not fit**: with the first input high, `NOT` is shown with a high pin and a high
output in a settled evaluation. -/
theorem Script.crossed_high :
    ((parse crossed).circuit.nodes.map (·.id)).Nodup ∧
    ((Netlist.ofCircuit (parse crossed).circuit).evaluate defaultCap
      (.ofList [("A", true)])).converged = true ∧
    ((Netlist.ofCircuit (parse crossed).circuit).canvas defaultCap
      (.ofList [("A", true)])).nodes.map (·.widget) =
      [.input "A" true, .input "B" false, .unary "NOT" (some true) (some true)] ∧
    ¬Gate.not.Explains [some true] (some true) := by
  refine ⟨nodup_crossed, ?_, ?_, fun h => ?_⟩
  · rw [parse_crossed]
    decide +kernel
  · rw [parse_crossed]
    decide +kernel
  · have hpin : some true = some false := (Gate.explains_iff rfl _ false).1 h
    cases hpin

end Schematic
