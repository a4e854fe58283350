import Mathlib.Data.List.Induction
import Mathlib.Logic.Function.Iterate
import Schematic.Evaluation

/-!
# Wiring and values

How a netlist stands to its circuit, and what reading and writing of values does.

* `mapM_eq_map`: what a list of steps gives if all of them succeed.
* `Cell.kind`: what a cell does; `Cell.kind_ofNode` says that it is what its node does.
* `Cell.ports`: the inputs of a cell with their slots; `Cell.of_mem_ports` says how they are wired.
* `Netlist.of_mem_elements`: an element stands for a node, writes the signal of its id, and its cell
  is resolved from the circuit. `Netlist.of_mem_wires`: what its wires are.
* `Values.at?`: the value of a signal; `Values.at?_write` says what a write does to it.
* `Cell.value?_congr_sources`: what a cell computes depends on the sources of its wires only.
* `Element.update_cases`: **all that the update of an element can do.** `Element.at?_update`: what it
  leaves.
* `foldl_count`: steps that were not counted changed nothing; so `pass_of_settled`.
* `relax_induction`: what every update keeps, a relaxation keeps; `at?_of_converged`, `values_relax`:
  where it ends.
* `Netlist.getElem?_nodeOutputs`: the reported output of an id is the value of its signal.
-/

namespace Schematic

/-- Steps that all succeed give what each of them gives. -/
theorem mapM_eq_map {α β : Type} {f : α → Option β} {g : α → β} {l : List α}
    (h : ∀ a ∈ l, f a = some (g a)) : l.mapM f = some (l.map g) := by
  induction l with
  | nil => rfl
  | cons a l ih =>
    have htail : l.mapM f = some (l.map g) := ih fun b hb => h b (List.mem_cons_of_mem _ hb)
    rw [List.mapM_cons, h a List.mem_cons_self, htail]
    rfl

/-! ## Signals -/

namespace Signals

/-- The last id is added to the ids before it. -/
theorem ofIds_concat (ids : List String) (id : String) : ofIds (ids ++ [id]) = (ofIds ids).add id := by
  rw [ofIds, List.foldl_append]
  rfl

theorem contains_ofIds_iff {ids : List String} {id : String} :
    (ofIds ids).numbers.contains id = true ↔ id ∈ ids := by
  rw [← Std.TreeMap.mem_iff_contains, Std.TreeMap.mem_iff_isSome_getElem?]
  exact isSome_number?_ofIds

variable {s : Signals}

/-- A signal has a name exactly if it is in range. -/
theorem isSome_name?_iff {k : ℕ} : (s.name? k).isSome ↔ k < s.size := by
  simp [name?, size]

theorem name?_of_lt_size {k : ℕ} (h : k < s.size) : s.name? k = some ((s.name? k).getD "") := by
  obtain ⟨id, hid⟩ := Option.isSome_iff_exists.1 (isSome_name?_iff.2 h)
  rw [hid, Option.getD_some]

theorem lt_size_of_name? {k : ℕ} {id : String} (h : s.name? k = some id) : k < s.size := by
  rw [← isSome_name?_iff, h]
  rfl

theorem Sound.lt_size (hs : s.Sound) {id : String} {k : ℕ} (h : s.number? id = some k) :
    k < s.size :=
  lt_size_of_name? ((hs id k).1 h)

/-- No two ids have one number. -/
theorem Sound.number?_inj (hs : s.Sound) {id id' : String} {k : ℕ} (h : s.number? id = some k)
    (h' : s.number? id' = some k) : id = id' := by
  have h₁ := (hs id k).1 h
  rw [(hs id' k).1 h'] at h₁
  exact (Option.some.inj h₁).symm

end Signals

/-! ## Kinds -/

/-- Whether a node of this kind computes its value. -/
def Kind.isDriven : Kind → Bool
  | .output | .gate _ => true
  | .input | .unknown => false

/-- What a cell does, whatever its wires are. -/
def Cell.kind : Cell → Kind
  | .input => .input
  | .output _ => .output
  | .unary g _ | .binary g _ _ => .gate g
  | .unknown => .unknown

/-- The inputs of a cell, each with the slots that it listens to. -/
def Cell.ports : Cell → List (List String × Option Wire)
  | .input | .unknown => []
  | .output w => [(outputSlots, w)]
  | .unary _ w => [(unarySlots, w)]
  | .binary _ a b => [(firstSlots, a), (secondSlots, b)]

namespace Cell

@[simp] theorem kind_eq_input_iff {cell : Cell} : cell.kind = .input ↔ cell = .input := by
  cases cell <;> simp [kind]

@[simp] theorem kind_ofNode (signals : Signals) (incoming : Incoming) (n : Node) :
    (ofNode signals incoming n).kind = n.kind := by
  unfold ofNode
  cases hk : n.kind with
  | gate g => by_cases ha : g.arity = 1 <;> simp [ha, kind]
  | _ => rfl

theorem isDriven_eq_false_iff {cell : Cell} :
    cell.kind.isDriven = false ↔ cell = .input ∨ cell = .unknown := by
  cases cell <;> simp [kind, Kind.isDriven]

theorem mem_wires {cell : Cell} {w : Wire} : w ∈ cell.wires ↔ some w ∈ cell.inputs := by
  simp [wires]

theorem inputs_eq (cell : Cell) : cell.inputs = cell.ports.map Prod.snd := by
  cases cell <;> rfl

/-- The wire at a port of a node is looked up by the id of the node and the slots of the port. -/
theorem of_mem_ports {signals : Signals} {incoming : Incoming} {n : Node} {slots : List String}
    {input : Option Wire} (h : (slots, input) ∈ (ofNode signals incoming n).ports) :
    input = wire? signals incoming n.id slots := by
  unfold ofNode at h
  cases hk : n.kind with
  | input => simp [hk, ports] at h
  | unknown => simp [hk, ports] at h
  | output =>
    simp only [hk, ports, List.mem_singleton, Prod.mk.injEq] at h
    rw [h.1, h.2]
  | gate g =>
    by_cases ha : g.arity = 1
    · simp only [hk, if_pos ha, ports, List.mem_singleton, Prod.mk.injEq] at h
      rw [h.1, h.2]
    · simp only [hk, if_neg ha, ports, List.mem_cons, List.not_mem_nil, or_false, Prod.mk.injEq] at h
      rcases h with ⟨rfl, rfl⟩ | ⟨rfl, rfl⟩ <;> rfl

/-- The cell of a node depends on its id and its kind only. -/
theorem ofNode_congr (signals : Signals) (incoming : Incoming) {n m : Node} (hid : n.id = m.id)
    (hk : n.kind = m.kind) : ofNode signals incoming n = ofNode signals incoming m := by
  unfold ofNode
  rw [hid, hk]

end Cell

/-- A cell that has a value computes it. -/
theorem Cell.isDriven_of_value? {cell : Cell} {values : Values} {v : Bool}
    (h : cell.value? values = some v) : cell.kind.isDriven = true := by
  cases cell with
  | input => cases h
  | unknown => cases h
  | _ => rfl

theorem Cell.ne_input_of_value? {cell : Cell} {values : Values} {v : Bool}
    (h : cell.value? values = some v) : cell ≠ .input := by
  rintro rfl
  cases h

theorem Node.kind_eq_input_iff {n : Node} : n.kind = .input ↔ n.type = "In" := by
  unfold kind Kind.ofType
  by_cases hin : n.type = "In"
  · simp [hin]
  · by_cases hout : n.type = "Out"
    · simp [hout]
    · cases Gate.ofKeyword? n.type <;> simp [hin, hout]

/-! ## Elements -/

namespace Netlist

variable (c : Circuit)

/-- The elements of a netlist stand for the nodes of its circuit, in order. -/
theorem map_node_elements : (ofCircuit c).elements.map (·.node) = c.nodes := by
  simp [ofCircuit, Function.comp_def, Element.ofNode]

theorem sound_signals : (ofCircuit c).signals.Sound := Signals.sound_ofIds _

/-- The ids with a number are those of the nodes. -/
theorem isSome_number?_iff {id : String} :
    ((ofCircuit c).signals.number? id).isSome ↔ id ∈ c.nodes.map (·.id) :=
  Signals.isSome_number?_ofIds

theorem number?_eq_none_iff {id : String} :
    (ofCircuit c).signals.number? id = none ↔ id ∉ c.nodes.map (·.id) := by
  rw [← isSome_number?_iff c, Option.not_isSome_iff_eq_none]

theorem mem_names {id : String} :
    id ∈ (ofCircuit c).signals.names.toList ↔ id ∈ c.nodes.map (·.id) := by
  rw [← isSome_number?_iff c, Option.isSome_iff_exists, Array.mem_toList_iff, Array.mem_iff_getElem?]
  exact exists_congr fun k => (sound_signals c id k).symm

variable {c}

/-- Every signal is the number of an id. -/
theorem exists_number?_of_lt {s : ℕ} (h : s < (ofCircuit c).signals.size) :
    ∃ id, (ofCircuit c).signals.number? id = some s :=
  ⟨_, (sound_signals c _ _).2 (Array.getElem?_eq_getElem h)⟩

/-- **An element stands for a node, and writes the signal of its id.** -/
theorem of_mem_elements {e : Element} (he : e ∈ (ofCircuit c).elements) :
    e.node ∈ c.nodes ∧ (ofCircuit c).signals.number? e.node.id = some e.signal ∧
      e.cell = Cell.ofNode (ofCircuit c).signals (ofCircuit c).incoming e.node := by
  obtain ⟨n, hn, rfl⟩ := List.mem_map.1 he
  have hs : ((ofCircuit c).signals.number? n.id).isSome :=
    (isSome_number?_iff c).2 (List.mem_map_of_mem hn)
  obtain ⟨k, hk⟩ := Option.isSome_iff_exists.1 hs
  refine ⟨hn, ?_, rfl⟩
  simp only [Element.ofNode, ofCircuit] at hk ⊢
  rw [hk, Option.getD_some]

theorem kind_cell {e : Element} (he : e ∈ (ofCircuit c).elements) : e.cell.kind = e.node.kind := by
  rw [(of_mem_elements he).2.2, Cell.kind_ofNode]

theorem cell_eq_input_iff {e : Element} (he : e ∈ (ofCircuit c).elements) :
    e.cell = .input ↔ e.node.type = "In" := by
  rw [← Cell.kind_eq_input_iff, kind_cell he, Node.kind_eq_input_iff]

/-- Every node has its element. -/
theorem exists_element {n : Node} (hn : n ∈ c.nodes) :
    ∃ e ∈ (ofCircuit c).elements, e.node = n :=
  ⟨_, List.mem_map_of_mem hn, rfl⟩

theorem signal_lt {e : Element} (he : e ∈ (ofCircuit c).elements) :
    e.signal < (ofCircuit c).signals.size :=
  (sound_signals c).lt_size (of_mem_elements he).2.1

/-- Elements with one signal stand for nodes with one id. -/
theorem id_eq_of_signal_eq {e e' : Element} (he : e ∈ (ofCircuit c).elements)
    (he' : e' ∈ (ofCircuit c).elements) (h : e.signal = e'.signal) : e.node.id = e'.node.id := by
  have hnum := (of_mem_elements he).2.1
  have hnum' := (of_mem_elements he').2.1
  rw [← h] at hnum'
  exact (sound_signals c).number?_inj hnum hnum'

/-- Nodes with one id share a signal. -/
theorem signal_eq_of_id_eq {e e' : Element} (he : e ∈ (ofCircuit c).elements)
    (he' : e' ∈ (ofCircuit c).elements) (h : e.node.id = e'.node.id) : e.signal = e'.signal := by
  have hnum := (of_mem_elements he).2.1
  rw [h, (of_mem_elements he').2.1] at hnum
  exact (Option.some.inj hnum).symm

/-- **A wire stands for a connection into its node**, and has the number of its source. -/
theorem of_mem_wires {e : Element} (he : e ∈ (ofCircuit c).elements) {w : Wire}
    (hw : w ∈ e.cell.wires) :
    ∃ k, c.connections[w.connection]? = some k ∧ k.target.node = e.node.id ∧
      w.source = (ofCircuit c).signals.number? k.source.node := by
  rw [Cell.mem_wires, Cell.inputs_eq, (of_mem_elements he).2.2] at hw
  obtain ⟨⟨slots, _⟩, hport, rfl⟩ := List.mem_map.1 hw
  obtain ⟨⟨k, i⟩, hk, rfl⟩ := Option.map_eq_some_iff.1 (Cell.of_mem_ports hport).symm
  have hscan := (Incoming.first?_ofConnections c.connections e.node.id slots).symm.trans hk
  have htarget := List.find?_some hscan
  simp only [Bool.and_eq_true, decide_eq_true_eq] at htarget
  have hmem := List.mem_of_find?_eq_some hscan
  exact ⟨k, List.mem_zipIdx_iff_getElem?.1 hmem, htarget.1, rfl⟩

end Netlist

/-! ## Values -/

/-- The value of a signal, if it is known. -/
def Values.at? (values : Values) (signal : ℕ) : Option Bool := (values[signal]?).join

namespace Values

variable (values : Values)

theorem at?_eq_some_iff {s : ℕ} {v : Bool} : values.at? s = some v ↔ values[s]? = some (some v) :=
  Option.join_eq_some_iff

theorem read_eq (wire : Option Wire) :
    values.read wire = wire.bind fun w => w.source.bind values.at? := by
  cases wire with
  | none => rfl
  | some w => cases h : w.source <;> simp [read, h, at?]

/-- A write leaves all other signals alone, also when it is out of bounds. -/
theorem at?_write_of_ne {s t : ℕ} (h : s ≠ t) (v : Option Bool) :
    Values.at? (values.setIfInBounds s v) t = values.at? t := by
  rw [at?, Array.getElem?_setIfInBounds, if_neg h]
  rfl

/-- A write changes the value of its signal only. -/
theorem at?_write {s : ℕ} (hs : s < values.size) (v : Option Bool) (t : ℕ) :
    Values.at? (values.setIfInBounds s v) t = if s = t then v else values.at? t := by
  by_cases h : s = t
  · rw [at?, Array.getElem?_setIfInBounds, if_pos h, if_pos (h ▸ hs), if_pos h]
    rfl
  · rw [if_neg h, at?_write_of_ne values h]

end Values

theorem Values.read_eq_none_iff {values : Values} {input : Option Wire} :
    values.read input = none ↔ input = none ∨
      ∃ w, input = some w ∧ (w.source = none ∨ ∃ s, w.source = some s ∧ values.at? s = none) := by
  rw [read_eq]
  cases input with
  | none => simp
  | some w => cases hs : w.source <;> simp [hs]

/-- **Why a cell has no value**: it computes none, or it lacks a wire, the source of a wire or the
value of a source. -/
theorem Cell.value?_eq_none_iff {cell : Cell} {values : Values} :
    cell.value? values = none ↔ cell.kind.isDriven = false ∨ none ∈ cell.inputs ∨
      (∃ w ∈ cell.wires, w.source = none) ∨
      ∃ w ∈ cell.wires, ∃ s, w.source = some s ∧ values.at? s = none := by
  have hinputs : (∃ input ∈ cell.inputs, values.read input = none) ↔ none ∈ cell.inputs ∨
      (∃ w ∈ cell.wires, w.source = none) ∨
      ∃ w ∈ cell.wires, ∃ s, w.source = some s ∧ values.at? s = none := by
    simp only [Values.read_eq_none_iff, mem_wires]
    constructor
    · rintro ⟨input, hmem, rfl | ⟨w, rfl, hs | hs⟩⟩
      · exact Or.inl hmem
      · exact Or.inr (Or.inl ⟨w, hmem, hs⟩)
      · exact Or.inr (Or.inr ⟨w, hmem, hs⟩)
    · rintro (hmem | ⟨w, hmem, hs⟩ | ⟨w, hmem, hs⟩)
      · exact ⟨none, hmem, Or.inl rfl⟩
      · exact ⟨some w, hmem, Or.inr ⟨w, rfl, Or.inl hs⟩⟩
      · exact ⟨some w, hmem, Or.inr ⟨w, rfl, Or.inr hs⟩⟩
  rw [← hinputs]
  cases cell with
  | input => simp [value?, kind, Kind.isDriven]
  | unknown => simp [value?, kind, Kind.isDriven]
  | output w => simp [value?, inputs, kind, Kind.isDriven]
  | unary g w => simp [value?, inputs, kind, Kind.isDriven]
  | binary g a b =>
    cases ha : values.read a <;> cases hb : values.read b <;>
      simp [value?, inputs, kind, Kind.isDriven, ha, hb]

/-- A cell computes the same where its inputs read the same. -/
theorem Cell.value?_congr {cell : Cell} {a b : Values}
    (h : ∀ input ∈ cell.inputs, a.read input = b.read input) : cell.value? a = cell.value? b := by
  cases cell with
  | input => rfl
  | unknown => rfl
  | output w => exact h w (by simp [inputs])
  | unary g w => simp only [value?, h w (by simp [inputs])]
  | binary g w₁ w₂ => simp only [value?, h w₁ (by simp [inputs]), h w₂ (by simp [inputs])]

/-- A cell computes the same where the sources of its wires have the same values. -/
theorem Cell.value?_congr_sources {cell : Cell} {a b : Values}
    (h : ∀ w ∈ cell.wires, ∀ s, w.source = some s → a.at? s = b.at? s) :
    cell.value? a = cell.value? b := by
  refine value?_congr fun input hinput => ?_
  rw [Values.read_eq, Values.read_eq]
  cases input with
  | none => rfl
  | some w =>
    have hw : w ∈ cell.wires := mem_wires.2 hinput
    cases hs : w.source with
    | none => simp [hs]
    | some s => simpa [hs] using h w hw s hs

/-- **All that the update of an element can do**: nothing, when its cell has no value or the known
one, or a write that is counted. -/
theorem Element.update_cases (e : Element) (state : Values × ℕ) :
    (e.update state = state ∧ ∀ v, e.cell.value? state.1 = some v → state.1.at? e.signal = some v) ∨
      ∃ v, e.cell.value? state.1 = some v ∧ state.1.at? e.signal ≠ some v ∧
        e.update state = (state.1.setIfInBounds e.signal (some v), state.2 + 1) := by
  unfold update
  split
  · rename_i h
    refine Or.inl ⟨rfl, fun v hv => ?_⟩
    rw [h] at hv
    cases hv
  · rename_i v h
    split
    · rename_i hk
      refine Or.inl ⟨rfl, fun w hw => ?_⟩
      rw [h] at hw
      cases hw
      exact state.1.at?_eq_some_iff.2 hk
    · rename_i hk
      exact Or.inr ⟨v, h, fun ha => hk (state.1.at?_eq_some_iff.1 ha), rfl⟩

/-- What an update leaves: the value that the cell computes, if it has one, in the signal of the
element, and all other signals as they were. -/
theorem Element.at?_update {e : Element} {state : Values × ℕ} (hs : e.signal < state.1.size) (t : ℕ) :
    (e.update state).1.at? t =
      if e.signal = t then (e.cell.value? state.1).or (state.1.at? t) else state.1.at? t := by
  rcases e.update_cases state with ⟨hu, hsame⟩ | ⟨v, hv, -, hu⟩
  · rw [hu]
    split
    · rename_i ht
      cases hv : e.cell.value? state.1 with
      | none => rfl
      | some v => rw [Option.some_or, ← ht, hsame v hv]
    · rfl
  · rw [hu, Values.at?_write _ hs, hv, Option.some_or]

/-! ## Runs -/

section Runs

variable {elements : List Element} {P : Values → Prop} {values : Values}

theorem foldl_update_induction (hupdate : ∀ e ∈ elements, ∀ state, P state.1 → P (e.update state).1)
    {es : List Element} (hes : ∀ e ∈ es, e ∈ elements) {state : Values × ℕ} (h : P state.1) :
    P (es.foldl Element.update state).1 := by
  induction es generalizing state with
  | nil => exact h
  | cons e es ih =>
    exact ih (fun e' he' => hes e' (List.mem_cons_of_mem _ he'))
      (hupdate e (hes e List.mem_cons_self) state h)

/-- **What every update keeps, a relaxation keeps.** -/
theorem relax_induction (hupdate : ∀ e ∈ elements, ∀ state, P state.1 → P (e.update state).1)
    (cap : ℕ) (h : P values) : P (relax elements cap values).values := by
  induction cap generalizing values with
  | zero => exact h
  | succ cap ih =>
    have hp : P (pass elements values).1 := foldl_update_induction hupdate (fun _ he => he) h
    by_cases hz : (pass elements values).2 = 0
    · rwa [relax_succ_of_settled elements hz]
    · rw [relax_succ_of_changed elements hz]
      exact ih hp

theorem size_relax (elements : List Element) (cap : ℕ) (values : Values) :
    (relax elements cap values).values.size = values.size := by
  refine relax_induction (P := fun next => next.size = values.size) ?_ cap rfl
  intro e _ state hsize
  rwa [size_update]

/-- The count of a fold whose steps count their changes never falls; if it stays, no step changes
anything. -/
theorem foldl_count {σ α : Type} {step : σ × ℕ → α → σ × ℕ}
    (hstep : ∀ state a, step state a = state ∨ (step state a).2 = state.2 + 1) (l : List α)
    (state : σ × ℕ) : state.2 ≤ (l.foldl step state).2 ∧
      ((l.foldl step state).2 = state.2 →
        l.foldl step state = state ∧ ∀ a ∈ l, step state a = state) := by
  induction l generalizing state with
  | nil => exact ⟨Nat.le_refl _, fun _ => ⟨rfl, fun a ha => absurd ha List.not_mem_nil⟩⟩
  | cons a l ih =>
    obtain ⟨hle, hstay⟩ := ih (step state a)
    rw [List.foldl_cons]
    rcases hstep state a with hsame | hmore
    · rw [hsame] at hle hstay ⊢
      refine ⟨hle, fun hc => ⟨(hstay hc).1, fun b hb => ?_⟩⟩
      rcases List.mem_cons.1 hb with rfl | hb
      · exact hsame
      · exact (hstay hc).2 b hb
    · exact ⟨by omega, fun hc => by omega⟩

/-- If a pass counts no change, nothing is written and all is up to date. -/
theorem pass_of_settled (hz : (pass elements values).2 = 0) :
    (pass elements values).1 = values ∧
      ∀ e ∈ elements, ∀ v, e.cell.value? values = some v → values.at? e.signal = some v := by
  have hstep : ∀ (state : Values × ℕ) (e : Element),
      e.update state = state ∨ (e.update state).2 = state.2 + 1 := by
    intro state e
    rcases e.update_cases state with ⟨hu, -⟩ | ⟨v, -, -, hu⟩
    · exact Or.inl hu
    · exact Or.inr (by rw [hu])
  obtain ⟨hsame, hall⟩ := (foldl_count hstep elements (values, 0)).2 hz
  refine ⟨congrArg Prod.fst hsame, fun e he v hv => ?_⟩
  rcases e.update_cases (values, 0) with ⟨-, hheld⟩ | ⟨w, -, -, hu⟩
  · exact hheld v hv
  · -- this update would have been counted
    rw [hall e he] at hu
    exact absurd (congrArg Prod.snd hu) (by simp)

/-- **Where a relaxation ends depends on the cap alone**: on the values that so many passes leave, for a
pass without changes can be repeated. -/
theorem values_relax (elements : List Element) (cap : ℕ) (values : Values) :
    (relax elements cap values).values = (fun v => (pass elements v).1)^[cap] values := by
  induction cap generalizing values with
  | zero => rfl
  | succ cap ih =>
    by_cases hz : (pass elements values).2 = 0
    · have hsame := (pass_of_settled hz).1
      rw [relax_succ_of_settled elements hz, Function.iterate_fixed hsame]
      exact hsame
    · rw [relax_succ_of_changed elements hz, Function.iterate_succ_apply]
      exact ih _

/-- **When a relaxation has settled, every element holds what its cell computes.** -/
theorem at?_of_converged {cap : ℕ} (h : (relax elements cap values).converged = true) {e : Element}
    (he : e ∈ elements) {v : Bool} (hv : e.cell.value? (relax elements cap values).values = some v) :
    (relax elements cap values).values.at? e.signal = some v := by
  induction cap generalizing values with
  | zero => cases h
  | succ cap ih =>
    by_cases hz : (pass elements values).2 = 0
    · obtain ⟨hsame, hall⟩ := pass_of_settled hz
      rw [relax_succ_of_settled elements hz] at hv ⊢
      rw [hsame] at hv ⊢
      exact hall e he v hv
    · rw [relax_succ_of_changed elements hz] at h hv ⊢
      exact ih h hv

end Runs

/-! ## Reports -/

namespace Netlist

/-- The seeds have a value for every signal. -/
theorem size_seed (n : Netlist) (inputs : Levels) : (n.seed inputs).size = n.signals.size := by
  have hfold : ∀ (es : List Element) (values : Values),
      (es.foldl (fun values e => if e.cell = .input then
        values.setIfInBounds e.signal (some (inputs.level e.node.id)) else values) values).size =
      values.size := by
    intro es
    induction es with
    | nil => exact fun _ => rfl
    | cons e es ih =>
      intro values
      rw [List.foldl_cons, ih]
      split
      · exact Array.size_setIfInBounds
      · rfl
  rw [seed, hfold, unknowns, Array.size_replicate]

variable {n : Netlist}

theorem value?_eq (values : Values) (id : String) :
    n.value? values id = (n.signals.number? id).bind values.at? := rfl

/-- The value of a declared id is that of its signal. -/
theorem value?_of_number? {id : String} {s : ℕ} (h : n.signals.number? id = some s)
    (values : Values) : n.value? values id = values.at? s := by
  rw [value?_eq, h]
  rfl

/-- A table from a list that gives each key one level holds exactly the members of the list. -/
theorem getElem?_ofList_iff {l : List (String × Bool)} (hl : ∀ p ∈ l, ∀ q ∈ l, p.1 = q.1 → p.2 = q.2)
    {k : String} {v : Bool} : (Std.ExtTreeMap.ofList l : Levels)[k]? = some v ↔ (k, v) ∈ l := by
  rw [Std.ExtTreeMap.ofList_eq_foldl]
  induction l using List.reverseRecOn with
  | nil => simp
  | append_singleton l p ih =>
    have ih := ih fun a ha b hb => hl a (List.mem_append_left _ ha) b (List.mem_append_left _ hb)
    rw [List.foldl_append, List.foldl_cons, List.foldl_nil, Std.ExtTreeMap.getElem?_insert,
      List.mem_append, List.mem_singleton, ← ih]
    simp only [Std.LawfulEqCmp.compare_eq_iff_eq]
    split
    · -- an earlier entry for this key gives the same level
      rename_i hk
      subst hk
      rw [Option.some.injEq, ih]
      constructor
      · rintro rfl
        exact Or.inr rfl
      · rintro (hmem | heq)
        · exact hl p (List.mem_append_right _ List.mem_cons_self) _ (List.mem_append_left _ hmem) rfl
        · rw [← heq]
    · rename_i hk
      refine ⟨Or.inl, fun h => h.resolve_right fun heq => hk ?_⟩
      rw [← heq]

/-- The rows of the report: the known values, with their names. -/
theorem mem_outputRows {values : Values} {id : String} {v : Bool} :
    (id, v) ∈ ((n.signals.names.zip values).toList.filterMap fun (id, v) => v.map (id, ·)) ↔
      ∃ k : ℕ, n.signals.name? k = some id ∧ values.at? k = some v := by
  simp only [List.mem_filterMap, Array.mem_toList_iff, Prod.exists, Option.map_eq_some_iff,
    Prod.mk.injEq, Array.mem_iff_getElem?, Array.getElem?_zip_eq_some, Signals.name?,
    Values.at?_eq_some_iff]
  constructor
  · rintro ⟨id', _, ⟨k, hid, hv⟩, v', rfl, rfl, rfl⟩
    exact ⟨k, hid, hv⟩
  · rintro ⟨k, hid, hv⟩
    exact ⟨id, some v, ⟨k, hid, hv⟩, v, rfl, rfl, rfl⟩

/-- **The reported output of an id is the value of its signal.** -/
theorem getElem?_nodeOutputs (hs : n.signals.Sound) (values : Values) (id : String) :
    (n.nodeOutputs values)[id]? = n.value? values id := by
  refine Option.ext fun v => ?_
  rw [nodeOutputs, getElem?_ofList_iff, mem_outputRows, value?_eq, Option.bind_eq_some_iff]
  · simp only [hs id]
  · -- a name stands for one signal, so no two rows differ about it
    rintro ⟨id, v⟩ hrow ⟨_, v'⟩ hrow' rfl
    obtain ⟨k, hname, hv⟩ := mem_outputRows.1 hrow
    obtain ⟨k', hname', hv'⟩ := mem_outputRows.1 hrow'
    have hnum := (hs id k).2 hname
    rw [(hs id k').2 hname'] at hnum
    cases hnum
    exact Option.some.inj (hv.symm.trans hv')

end Netlist

end Schematic
