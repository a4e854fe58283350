import Schematic.Proofs.Indexing
import Schematic.Proofs.Keys
import Schematic.Proofs.Settling

/-!
# Dead parts

Nodes of unknown type and connections that no input is wired to can be left out of a circuit without a
trace, although this numbers its signals and its connections anew, and may leave sources undeclared.

* `Kind.pins`: the slots that the inputs of a node listen to.
* `Circuit.Selected`: a connection that some input is wired to. `Circuit.selected_iff`: **the earliest one
  into a pin**; all others are dead.
* `Circuit.pruned`: a circuit without its nodes of unknown type and without some connections.
* `ById.read_pruned`, `ById.sweep_pruned`, `ById.run_pruned`: if these are dead, each pin reads as before,
  so sweeps and runs are the same.
* `Script.evaluate_pruned`: **dead parts do not influence an evaluation.**
-/

namespace Schematic

/-! ## Pins -/

/-- The slots that each input of a node of this kind listens to. -/
def Kind.pins : Kind → List (List String)
  | .input | .unknown => []
  | .output => [outputSlots]
  | .gate g => if g.arity = 1 then [unarySlots] else [firstSlots, secondSlots]

/-- Whether a connection leads into a node on one of some slots. -/
def Connection.enters (k : Connection) (id : String) (slots : List String) : Bool :=
  k.target.node = id && slots.contains k.target.slot

/-- Each pin of a node is an input of its cell, wired as its slots say. -/
theorem Cell.ports_ofNode (signals : Signals) (incoming : Incoming) (n : Node) :
    (ofNode signals incoming n).ports =
      n.kind.pins.map fun slots => (slots, wire? signals incoming n.id slots) := by
  unfold ofNode
  cases n.kind with
  | input => rfl
  | output => rfl
  | unknown => rfl
  | gate g =>
    by_cases ha : g.arity = 1
    · simp only [if_pos ha, ports, Kind.pins, List.map_cons, List.map_nil]
    · simp only [if_neg ha, ports, Kind.pins, List.map_cons, List.map_nil]

/-- What a node computes depends on what its pins read. -/
theorem ById.compute?_congr {c c' : Circuit} {outputs : Levels} {n : Node}
    (h : ∀ slots ∈ n.kind.pins, read c outputs n.id slots = read c' outputs n.id slots) :
    compute? c outputs n = compute? c' outputs n := by
  unfold compute?
  unfold Node.kind Kind.ofType at h
  by_cases hin : n.type = "In"
  · have hnone : Gate.ofKeyword? "In" = none := by decide +kernel
    rw [hin, hnone]
    rfl
  by_cases hout : n.type = "Out"
  · rw [if_neg hin, if_pos hout] at h
    rw [if_pos hout, if_pos hout]
    exact h outputSlots List.mem_cons_self
  rw [if_neg hin, if_neg hout] at h
  rw [if_neg hout, if_neg hout]
  cases hg : Gate.ofKeyword? n.type with
  | none => rfl
  | some g =>
    simp only [hg, Kind.pins] at h
    by_cases ha : g.arity = 1
    · have hread : read c outputs n.id ["in", "in0"] = read c' outputs n.id ["in", "in0"] :=
        h unarySlots (by rw [if_pos ha]; exact List.mem_cons_self)
      simp only [Option.bind_eq_bind, Option.bind_some, if_pos ha, hread]
    · have hfirst : read c outputs n.id ["in0", "a"] = read c' outputs n.id ["in0", "a"] :=
        h firstSlots (by rw [if_neg ha]; exact List.mem_cons_self)
      have hsecond : read c outputs n.id ["in1", "b"] = read c' outputs n.id ["in1", "b"] :=
        h secondSlots (by rw [if_neg ha]; exact List.mem_cons_of_mem _ List.mem_cons_self)
      simp only [Option.bind_eq_bind, Option.bind_some, if_neg ha, hfirst, hsecond]

/-! ## Scans -/

/-- A filter that keeps what a scan finds first does not change what it finds. -/
theorem find?_filter_of_first {α : Type} {l : List α} {p q : α → Bool}
    (h : ∀ a, l.find? p = some a → q a = true) : (l.filter q).find? p = l.find? p := by
  induction l with
  | nil => rfl
  | cons a l ih =>
    cases hp : p a with
    | true =>
      have hq : q a = true := h a (List.find?_cons_of_pos hp)
      rw [List.filter_cons_of_pos hq, List.find?_cons_of_pos hp, List.find?_cons_of_pos hp]
    | false =>
      have hskip : ∀ l' : List α, (a :: l').find? p = l'.find? p := fun l' =>
        List.find?_cons_of_neg (by rw [hp]; exact Bool.false_ne_true)
      rw [hskip] at h ⊢
      rw [← ih h, List.filter_cons]
      split
      · exact hskip _
      · rfl

/-! ## Dead parts -/

namespace Circuit

variable {c : Circuit} {dropped : Finset ℕ}

/-- Some input is wired to the connection at a place. -/
def Selected (c : Circuit) (place : ℕ) : Prop :=
  ∃ e ∈ (Netlist.ofCircuit c).elements, ∃ w ∈ e.cell.wires, w.connection = place

instance (c : Circuit) (place : ℕ) : Decidable (c.Selected place) :=
  inferInstanceAs (Decidable
    (∃ e ∈ (Netlist.ofCircuit c).elements, ∃ w ∈ e.cell.wires, w.connection = place))

/-- The circuit without its nodes of unknown type, and without the connections at some places. -/
def pruned (c : Circuit) (dropped : Finset ℕ) : Circuit where
  nodes := c.nodes.filter (·.kind ≠ .unknown)
  connections := (c.connections.zipIdx.filter (·.2 ∉ dropped)).map Prod.fst

/-- A connection is selected if a scan for some pin finds it. -/
theorem selected_iff_find? {i : ℕ} : c.Selected i ↔ ∃ n ∈ c.nodes, ∃ slots ∈ n.kind.pins, ∃ k,
    c.connections.zipIdx.find? (fun k => k.1.enters n.id slots) = some (k, i) := by
  have hscan : ∀ id slots, (Netlist.ofCircuit c).incoming.first? id slots =
      c.connections.zipIdx.find? (fun k => k.1.enters id slots) :=
    Incoming.first?_ofConnections c.connections
  constructor
  · rintro ⟨e, he, w, hw, rfl⟩
    obtain ⟨hn, -, hcell⟩ := Netlist.of_mem_elements he
    rw [Cell.mem_wires, Cell.inputs_eq, hcell, Cell.ports_ofNode, List.map_map] at hw
    obtain ⟨slots, hslots, hwire⟩ := List.mem_map.1 hw
    obtain ⟨⟨k, i⟩, hfirst, rfl⟩ := Option.map_eq_some_iff.1 hwire
    exact ⟨e.node, hn, slots, hslots, k, (hscan _ _).symm.trans hfirst⟩
  · rintro ⟨n, hn, slots, hslots, k, hfound⟩
    obtain ⟨e, he, rfl⟩ := Netlist.exists_element hn
    obtain ⟨-, -, hcell⟩ := Netlist.of_mem_elements he
    have hfirst := (hscan e.node.id slots).trans hfound
    refine ⟨e, he, ⟨i, (Netlist.ofCircuit c).signals.number? k.source.node⟩, ?_, rfl⟩
    rw [Cell.mem_wires, Cell.inputs_eq, hcell, Cell.ports_ofNode, List.map_map]
    exact List.mem_map.2 ⟨slots, hslots, by rw [Function.comp_apply, wire?, hfirst]; rfl⟩

/-- **A connection is selected if it is the earliest one into some pin.** -/
theorem selected_iff {i : ℕ} {k : Connection} (hk : c.connections[i]? = some k) :
    c.Selected i ↔ ∃ n ∈ c.nodes, ∃ slots ∈ n.kind.pins, k.enters n.id slots = true ∧
      ∀ j < i, ∀ k', c.connections[j]? = some k' → k'.enters n.id slots = false := by
  rw [selected_iff_find?]
  refine exists_congr fun n => and_congr_right fun _ => exists_congr fun slots =>
    and_congr_right fun _ => ?_
  have hscan := fun k' =>
    find?_zipIdx_eq_some_iff (l := c.connections) (p := (·.enters n.id slots)) (a := k') (i := i)
  constructor
  · rintro ⟨k', hfound⟩
    obtain ⟨hk', henters, hfirst⟩ := (hscan k').1 hfound
    obtain rfl : k = k' := Option.some.inj (hk.symm.trans hk')
    exact ⟨henters, hfirst⟩
  · rintro ⟨henters, hfirst⟩
    exact ⟨k, (hscan k).2 ⟨hk, henters, hfirst⟩⟩

theorem mem_pruned_connections {k : Connection} (hk : k ∈ (c.pruned dropped).connections) :
    k ∈ c.connections := by
  obtain ⟨⟨k, i⟩, hki, rfl⟩ := List.mem_map.1 hk
  exact List.fst_mem_of_mem_zipIdx (List.mem_filter.1 hki).1

end Circuit

namespace ById

variable {c : Circuit} {dropped : Finset ℕ}

/-- **A pin reads the same connection as before.** -/
theorem read_pruned (h : ∀ i ∈ dropped, ¬c.Selected i) (outputs : Levels) {n : Node}
    (hn : n ∈ c.nodes) {slots : List String} (hslots : slots ∈ n.kind.pins) :
    read (c.pruned dropped) outputs n.id slots = read c outputs n.id slots := by
  have hfirst : ∀ k, c.connections.zipIdx.find? (fun k => k.1.enters n.id slots) = some k →
      decide (k.2 ∉ dropped) = true := by
    rintro ⟨k, i⟩ hfound
    have hselected : c.Selected i := Circuit.selected_iff_find?.2 ⟨n, hn, slots, hslots, k, hfound⟩
    exact decide_eq_true fun hi => h i hi hselected
  have hscan : (c.pruned dropped).connections.find? (·.enters n.id slots) =
      c.connections.find? (·.enters n.id slots) :=
    calc (c.pruned dropped).connections.find? (·.enters n.id slots)
      _ = ((c.connections.zipIdx.filter (·.2 ∉ dropped)).find? fun k =>
            k.1.enters n.id slots).map Prod.fst := List.find?_map
      _ = (c.connections.zipIdx.find? fun k => k.1.enters n.id slots).map Prod.fst := by
          rw [find?_filter_of_first hfirst]
      _ = c.connections.find? (·.enters n.id slots) :=
          Incoming.map_fst_find?_zipIdx c.connections (·.enters n.id slots)
  unfold read
  exact congrArg (Option.bind · fun k => outputs[k.source.node]?) hscan

theorem compute?_pruned (h : ∀ i ∈ dropped, ¬c.Selected i) (outputs : Levels) {n : Node}
    (hn : n ∈ c.nodes) : compute? (c.pruned dropped) outputs n = compute? c outputs n :=
  compute?_congr fun _ hslots => read_pruned h outputs hn hslots

/-- A node of unknown type computes nothing. -/
theorem compute?_of_unknown {outputs : Levels} {n : Node} (hn : n.kind = .unknown) :
    compute? c outputs n = none := by
  unfold Node.kind Kind.ofType at hn
  unfold compute?
  split at hn
  · cases hn
  split at hn
  · cases hn
  rename_i hout
  rw [if_neg hout]
  cases hg : Gate.ofKeyword? n.type with
  | none => rfl
  | some g => simp [hg] at hn

/-- Updates skip nodes of unknown type. -/
theorem foldl_pruned (h : ∀ i ∈ dropped, ¬c.Selected i) {nodes : List Node}
    (hnodes : ∀ n ∈ nodes, n ∈ c.nodes) (state : Levels × ℕ) :
    (nodes.filter (·.kind ≠ .unknown)).foldl (update (c.pruned dropped)) state =
      nodes.foldl (update c) state := by
  induction nodes generalizing state with
  | nil => rfl
  | cons n nodes ih =>
    have ih := ih fun m hm => hnodes m (List.mem_cons_of_mem _ hm)
    by_cases hunknown : n.kind = .unknown
    · have hstay : update c state n = state := by
        unfold update
        rw [compute?_of_unknown hunknown]
      rw [List.filter_cons_of_neg (by simpa using hunknown), List.foldl_cons, hstay]
      exact ih state
    · have hsame : update (c.pruned dropped) state n = update c state n := by
        unfold update
        rw [compute?_pruned h state.1 (hnodes n List.mem_cons_self)]
      rw [List.filter_cons_of_pos (by simpa using hunknown), List.foldl_cons, List.foldl_cons, hsame]
      exact ih _

/-- **A sweep changes the same outputs, and counts as many changes.** -/
theorem sweep_pruned (h : ∀ i ∈ dropped, ¬c.Selected i) (outputs : Levels) :
    sweep (c.pruned dropped) outputs = sweep c outputs := by
  have hnodes : ∀ n ∈ c.nodes.filter (·.type ≠ "In"), n ∈ c.nodes := fun n hn => (List.mem_filter.1 hn).1
  have hfold := foldl_pruned h hnodes (outputs, 0)
  rwa [List.filter_filter, List.filter_congr fun n _ => Bool.and_comm _ _, ← List.filter_filter] at hfold

/-- **A run makes the same sweeps.** -/
theorem run_pruned (h : ∀ i ∈ dropped, ¬c.Selected i) (cap : ℕ) (outputs : Levels) :
    run (c.pruned dropped) cap outputs = run c cap outputs := by
  induction cap generalizing outputs with
  | zero => rfl
  | succ cap ih => simp only [run, sweep_pruned h, ih]

/-- Inputs are not of unknown type, so all of them are kept. -/
theorem seed_pruned (inputs : Levels) : seed (c.pruned dropped) inputs = seed c inputs := by
  have hinputs : (c.pruned dropped).nodes.filter (·.type = "In") = c.nodes.filter (·.type = "In") := by
    rw [Circuit.pruned, List.filter_filter]
    refine List.filter_congr fun n _ => ?_
    by_cases hin : n.type = "In"
    · simp [hin, Node.kind_eq_input_iff.2 hin]
    · simp [hin]
  rw [seed, hinputs, seed]

end ById

open Netlist in
/-- **Dead parts do not influence an evaluation.** A connection of a script is selected as a wire exactly
if it is the earliest one into some pin of some node. Without the nodes of unknown type and without any
connections that are not selected, a script evaluates to the same outputs after as many passes with the
same verdict, and the connections that are left have the same levels. -/
theorem Script.evaluate_pruned (s : String) :
    (∀ (i : ℕ) (k : Connection), (parse s).circuit.connections[i]? = some k →
      ((parse s).circuit.Selected i ↔
        ∃ n ∈ (parse s).circuit.nodes, ∃ slots ∈ n.kind.pins, k.enters n.id slots = true ∧
          ∀ j < i, ∀ k', (parse s).circuit.connections[j]? = some k' →
            k'.enters n.id slots = false)) ∧
    ∀ dropped : Finset ℕ, (∀ i ∈ dropped, ¬(parse s).circuit.Selected i) →
      ∀ (cap : ℕ) (inputs : Levels),
        ((ofCircuit ((parse s).circuit.pruned dropped)).evaluate cap inputs).nodeOutputs =
          ((ofCircuit (parse s).circuit).evaluate cap inputs).nodeOutputs ∧
        ((ofCircuit ((parse s).circuit.pruned dropped)).evaluate cap inputs).iterations =
          ((ofCircuit (parse s).circuit).evaluate cap inputs).iterations ∧
        ((ofCircuit ((parse s).circuit.pruned dropped)).evaluate cap inputs).converged =
          ((ofCircuit (parse s).circuit).evaluate cap inputs).converged ∧
        ∀ k ∈ ((parse s).circuit.pruned dropped).connections, ∃ level,
          ((ofCircuit ((parse s).circuit.pruned dropped)).evaluate cap inputs).edgeStates[k.key]? =
            some level ∧
          ((ofCircuit (parse s).circuit).evaluate cap inputs).edgeStates[k.key]? = some level := by
  refine ⟨fun i k => Circuit.selected_iff, fun dropped h cap inputs => ?_⟩
  have hrun := ById.run_pruned h cap (ById.seed (parse s).circuit inputs)
  have houtputs : ((ofCircuit ((parse s).circuit.pruned dropped)).evaluate cap inputs).nodeOutputs =
      ((ofCircuit (parse s).circuit).evaluate cap inputs).nodeOutputs := by
    simp only [ById.evaluate_ofCircuit, ById.evaluate, ById.seed_pruned, hrun]
  refine ⟨houtputs, ?_, ?_, fun k hk => ?_⟩
  · simp only [ById.evaluate_ofCircuit, ById.evaluate, ById.seed_pruned, hrun]
  · simp only [ById.evaluate_ofCircuit, ById.evaluate, ById.seed_pruned, hrun]
  · have hvalid : ∀ k ∈ (parse s).circuit.connections, k.Valid := fun k => valid_of_mem_connections
    have hvalid' : ∀ k ∈ ((parse s).circuit.pruned dropped).connections, k.Valid := fun k hk =>
      hvalid k (Circuit.mem_pruned_connections hk)
    refine ⟨((ofCircuit (parse s).circuit).evaluate cap inputs).nodeOutputs.level k.source.node, ?_, ?_⟩
    · exact (getElem?_edgeStates_evaluate hvalid' cap inputs).2 ⟨k, hk, rfl, by rw [houtputs]⟩
    · exact (getElem?_edgeStates_evaluate hvalid cap inputs).2
        ⟨k, Circuit.mem_pruned_connections hk, rfl, rfl⟩

/-- A node of unknown type with the id of an input and another one that nothing else declares. The places
1 to 4 hold a connection into a driven pin, one into a slot that is not read, one into an undeclared id
and one into a node of unknown type. -/
def Script.cluttered : String :=
  "In A @ 0, 0\nlamp A @ 0, 0\nlamp u @ 0, 0\nNOT n @ 0, 0\nOR g @ 0, 0\nA -> n.in0\nu -> n.in\nA -> n.x\n" ++
    "n -> ghost\nn -> u\nn -> g.a\nu -> g.b"

def Circuit.cluttered : Circuit where
  nodes := [⟨"A", "In", 0, 0, []⟩, ⟨"A", "lamp", 0, 0, []⟩, ⟨"u", "lamp", 0, 0, []⟩, ⟨"n", "NOT", 0, 0, []⟩,
    ⟨"g", "OR", 0, 0, []⟩]
  connections := [⟨⟨"A", "out"⟩, ⟨"n", "in0"⟩⟩, ⟨⟨"u", "out"⟩, ⟨"n", "in"⟩⟩, ⟨⟨"A", "out"⟩, ⟨"n", "x"⟩⟩,
    ⟨⟨"n", "out"⟩, ⟨"ghost", "in"⟩⟩, ⟨⟨"n", "out"⟩, ⟨"u", "in"⟩⟩, ⟨⟨"n", "out"⟩, ⟨"g", "a"⟩⟩,
    ⟨⟨"u", "out"⟩, ⟨"g", "b"⟩⟩]

theorem Script.parse_cluttered : (parse cluttered).circuit = .cluttered := by
  decide +kernel

open Netlist in
/-- Three of the five nodes and three of the seven connections are left. The source of one of them is no
longer declared. -/
theorem Script.cluttered_pruned :
    (∀ i ∈ ({1, 2, 3, 4} : Finset ℕ), ¬(parse cluttered).circuit.Selected i) ∧
    (parse cluttered).circuit.pruned {1, 2, 3, 4} = ⟨[⟨"A", "In", 0, 0, []⟩, ⟨"n", "NOT", 0, 0, []⟩,
      ⟨"g", "OR", 0, 0, []⟩], [⟨⟨"A", "out"⟩, ⟨"n", "in0"⟩⟩, ⟨⟨"n", "out"⟩, ⟨"g", "a"⟩⟩,
      ⟨⟨"u", "out"⟩, ⟨"g", "b"⟩⟩]⟩ ∧
    ((ofCircuit ((parse cluttered).circuit.pruned {1, 2, 3, 4})).evaluate 9 ∅).nodeOutputs =
      ((ofCircuit (parse cluttered).circuit).evaluate 9 ∅).nodeOutputs ∧
    ((ofCircuit ((parse cluttered).circuit.pruned {1, 2, 3, 4})).evaluate 9 ∅).iterations = 2 ∧
    ((ofCircuit ((parse cluttered).circuit.pruned {1, 2, 3, 4})).evaluate 9 ∅).nodeOutputs["n"]? =
      some true := by
  have hdead : ∀ i ∈ ({1, 2, 3, 4} : Finset ℕ), ¬(parse cluttered).circuit.Selected i := by
    rw [parse_cluttered]
    decide +kernel
  obtain ⟨houtputs, hiterations, -⟩ := (evaluate_pruned cluttered).2 _ hdead 9 ∅
  refine ⟨hdead, ?_, houtputs, hiterations.trans ?_, ?_⟩
  · rw [parse_cluttered]
    decide +kernel
  · rw [parse_cluttered]
    decide +kernel
  · rw [houtputs, parse_cluttered]
    decide +kernel

end Schematic
