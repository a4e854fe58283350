import Mathlib.Data.List.Basic
import Mathlib.Data.List.ReduceOption
import Schematic.Proofs.Components
import Schematic.Proofs.Numbering
import Schematic.View
import Schematic.Warning

/-!
# Accesses in bounds

Evaluation looks up values, names and connections by number, and takes what is out of range for unknown.
Here every such access is checked: one that is out of range ends the whole computation with `none`. For
the netlist of a circuit none ever is, so the checked computations are the others.

* `Checked.netlist`, `Checked.relax`, `Checked.evaluate`, `Checked.feedbackLoops`, `Checked.view`: the
  computations with their accesses checked. `Checked.componentLoops`: the search for loops that starts from a
  listing of the components.
* `Element.Within`: all numbers of an element are below a bound. `Checked.relax_eq`: **a relaxation of such
  elements makes no access out of range.**
* `Checked.evaluate_eq`, `Checked.feedbackLoops_eq`, `Checked.componentLoops_eq`, `Checked.view_eq`: the same
  for all that is computed on a numbered netlist.
* `Netlist.numbering_in_range`: **a netlist numbers the ids of its circuit, and no access is out of range.**
-/

namespace Schematic

/-- A fold succeeds if all its steps do that start where an invariant holds, and keep it. -/
theorem foldlM_eq_some {σ α : Type} {P : σ → Prop} {f : σ → α → Option σ} {g : σ → α → σ} {l : List α}
    (hstep : ∀ s, P s → ∀ a ∈ l, f s a = some (g s a) ∧ P (g s a)) {s : σ} (hs : P s) :
    l.foldlM f s = some (l.foldl g s) := by
  induction l generalizing s with
  | nil => rfl
  | cons a l ih =>
    obtain ⟨ha, hnext⟩ := hstep s hs a List.mem_cons_self
    rw [List.foldlM_cons, ha, List.foldl_cons]
    apply ih _ hnext
    intro s hs b hb
    exact hstep s hs b (List.mem_cons_of_mem _ hb)

/-- Members that are kept or not are those that are kept. -/
theorem reduceOption_map_ite {α β : Type} (p : α → Bool) (f : α → β) (l : List α) :
    (l.map fun a => if p a then some (f a) else none).reduceOption = (l.filter p).map f := by
  rw [List.reduceOption, List.filterMap_map, ← List.filterMap_eq_map, List.filterMap_filter]
  rfl

/-- All numbers of an element are below a bound. -/
structure Element.Within (e : Element) (size : ℕ) : Prop where
  signal : e.signal < size
  source : ∀ w ∈ e.cell.wires, ∀ s, w.source = some s → s < size

theorem Netlist.Numbered.within {n : Netlist} (h : n.Numbered) {e : Element} (he : e ∈ n.elements) :
    e.Within n.signals.size :=
  ⟨h.signal_lt he, fun _ hw _ hs => h.source_lt he hw hs⟩

namespace Checked

/-! ## Resolving -/

/-- A connection found in the index, fetched by its place. -/
def entry (c : Circuit) : Option (Connection × ℕ) → Option (Option (Connection × ℕ))
  | none => some none
  | some (_, i) => do
    let k ← c.connections[i]?
    some (some (k, i))

/-- The wire that drives the input of `target` with the given slots. -/
def wire (c : Circuit) (signals : Signals) (incoming : Incoming) (target : String)
    (slots : List String) : Option (Option Wire) := do
  let found ← entry c (incoming.first? target slots)
  some (found.map fun k => ⟨k.2, signals.number? k.1.source.node⟩)

/-- The cell of a node. -/
def cell (c : Circuit) (signals : Signals) (incoming : Incoming) (node : Node) : Option Cell :=
  match node.kind with
  | .input => some .input
  | .output => do
    let w ← wire c signals incoming node.id outputSlots
    some (.output w)
  | .gate g =>
    if g.arity = 1 then do
      let w ← wire c signals incoming node.id unarySlots
      some (.unary g w)
    else do
      let a ← wire c signals incoming node.id firstSlots
      let b ← wire c signals incoming node.id secondSlots
      some (.binary g a b)
  | .unknown => some .unknown

/-- A node resolved against the whole circuit; its id must have a number. -/
def element (c : Circuit) (signals : Signals) (incoming : Incoming) (node : Node) : Option Element := do
  let cell ← cell c signals incoming node
  let signal ← signals.number? node.id
  some ⟨node, signal, cell⟩

/-- The wiring of a circuit, resolved. -/
def netlist (c : Circuit) : Option Netlist := do
  let signals := Signals.ofIds (c.nodes.map (·.id))
  let incoming := Incoming.ofConnections c.connections
  let elements ← c.nodes.mapM (element c signals incoming)
  some ⟨c, signals, incoming, elements⟩

section Resolving

variable {c : Circuit}

theorem entry_eq {found : Option (Connection × ℕ)}
    (h : ∀ k i, found = some (k, i) → c.connections[i]? = some k) : entry c found = some found := by
  cases found with
  | none => rfl
  | some k =>
    obtain ⟨k, i⟩ := k
    simp only [entry, h k i rfl]
    rfl

theorem wire_eq (c : Circuit) (target : String) (slots : List String) :
    wire c (Netlist.ofCircuit c).signals (Netlist.ofCircuit c).incoming target slots =
      some (wire? (Netlist.ofCircuit c).signals (Netlist.ofCircuit c).incoming target slots) := by
  have hentry := entry_eq ((Netlist.numbered_ofCircuit c).place target slots)
  rw [wire]
  exact congrArg (Option.bind · _) hentry

theorem cell_eq (c : Circuit) (node : Node) :
    cell c (Netlist.ofCircuit c).signals (Netlist.ofCircuit c).incoming node =
      some (Cell.ofNode (Netlist.ofCircuit c).signals (Netlist.ofCircuit c).incoming node) := by
  unfold cell Cell.ofNode
  cases node.kind with
  | input => rfl
  | unknown => rfl
  | output => simp only [wire_eq]; rfl
  | gate g =>
    simp only [wire_eq]
    split <;> rfl

theorem element_eq {node : Node} (hn : node ∈ c.nodes) :
    element c (Netlist.ofCircuit c).signals (Netlist.ofCircuit c).incoming node =
      some (Element.ofNode (Netlist.ofCircuit c).signals (Netlist.ofCircuit c).incoming node) := by
  have hs : ((Netlist.ofCircuit c).signals.number? node.id).isSome :=
    (Netlist.isSome_number?_iff c).2 (List.mem_map_of_mem hn)
  obtain ⟨s, hs⟩ := Option.isSome_iff_exists.1 hs
  simp only [element, Element.ofNode, cell_eq, hs]
  rfl

/-- **A circuit is resolved without an access out of range.** -/
theorem netlist_eq (c : Circuit) : netlist c = some (Netlist.ofCircuit c) := by
  have helements : c.nodes.mapM (element c (Netlist.ofCircuit c).signals (Netlist.ofCircuit c).incoming) =
      some (Netlist.ofCircuit c).elements := by
    apply mapM_eq_map
    intro node hn
    exact element_eq hn
  rw [netlist]
  exact congrArg (Option.bind · _) helements

end Resolving

/-! ## Relaxing -/

/-- The value of a source, if there is one. -/
def fetch (values : Values) : Option ℕ → Option (Option Bool)
  | none => some none
  | some s => values[s]?

/-- The value that a cell computes. -/
def value (values : Values) : Cell → Option (Option Bool)
  | .input | .unknown => some none
  | .output w => fetch values (w.bind Wire.source)
  | .unary g w => do
    let x ← fetch values (w.bind Wire.source)
    some (x.map fun v => g.eval [v])
  | .binary g a b => do
    let x ← fetch values (a.bind Wire.source)
    let y ← fetch values (b.bind Wire.source)
    match x, y with
    | some x, some y => some (some (g.eval [x, y]))
    | _, _ => some none

/-- Sets the value of a signal. -/
def write (values : Values) (signal : ℕ) (v : Bool) : Option Values :=
  if signal < values.size then some (values.setIfInBounds signal (some v)) else none

/-- Updates the signal of one element, and counts a change. -/
def update (state : Values × ℕ) (e : Element) : Option (Values × ℕ) := do
  match ← value state.1 e.cell with
  | none => some state
  | some v =>
    let known ← state.1[e.signal]?
    if known = some v then some state
    else
      let next ← write state.1 e.signal v
      some (next, state.2 + 1)

/-- One pass over all elements, with the number of values that changed. -/
def pass (elements : List Element) (values : Values) : Option (Values × ℕ) :=
  elements.foldlM update (values, 0)

/-- Passes until one changes nothing, at most `cap` of them. -/
def relax (elements : List Element) : ℕ → Values → Option Relaxed
  | 0, values => some ⟨values, 0, false⟩
  | cap + 1, values => do
    let (next, changes) ← pass elements values
    if changes = 0 then some ⟨next, 1, true⟩
    else
      let r ← relax elements cap next
      some { r with iterations := r.iterations + 1 }

section Relaxing

variable {elements : List Element} {values : Values}

theorem fetch_eq {source : Option ℕ} (h : ∀ s, source = some s → s < values.size) :
    fetch values source = some (source.bind values.at?) := by
  cases source with
  | none => rfl
  | some s =>
    have hs : s < values.size := h s rfl
    rw [fetch, Option.bind_some, Values.at?, Array.getElem?_eq_getElem hs]
    rfl

theorem write_eq {s : ℕ} (hs : s < values.size) (v : Bool) :
    write values s v = some (values.setIfInBounds s (some v)) := if_pos hs

/-- A cell whose sources are in range is computed without an access out of range. -/
theorem value_eq {cell : Cell} (h : ∀ w ∈ cell.wires, ∀ s, w.source = some s → s < values.size) :
    value values cell = some (cell.value? values) := by
  have hread : ∀ input ∈ cell.inputs,
      fetch values (input.bind Wire.source) = some (values.read input) := by
    intro input hinput
    rw [fetch_eq, Values.read_eq, Option.bind_assoc]
    intro s hs
    obtain ⟨w, rfl, hw⟩ := Option.bind_eq_some_iff.1 hs
    exact h w (Cell.mem_wires.2 hinput) s hw
  cases cell with
  | input => rfl
  | unknown => rfl
  | output w => exact hread w (by simp [Cell.inputs])
  | unary g w =>
    rw [value, hread w (by simp [Cell.inputs])]
    rfl
  | binary g a b =>
    rw [value, hread a (by simp [Cell.inputs]), hread b (by simp [Cell.inputs]), Cell.value?]
    cases values.read a <;> cases values.read b <;> rfl

theorem update_eq {e : Element} {state : Values × ℕ} (h : e.Within state.1.size) :
    update state e = some (e.update state) := by
  unfold update Element.update
  rw [value_eq h.source]
  cases e.cell.value? state.1 with
  | none => rfl
  | some v =>
    obtain ⟨known, hknown⟩ : ∃ known, state.1[e.signal]? = some known :=
      ⟨_, Array.getElem?_eq_getElem h.signal⟩
    simp only [hknown, write_eq h.signal, Option.bind_eq_bind, Option.bind_some, Option.some.injEq]
    split <;> rfl

variable (h : ∀ e ∈ elements, e.Within values.size)
include h

/-- **A pass makes no access out of range.** -/
theorem pass_eq : pass elements values = some (Schematic.pass elements values) := by
  apply foldlM_eq_some (P := fun state => state.1.size = values.size) _ rfl
  intro state hsize e he
  have hwithin : e.Within state.1.size := hsize ▸ h e he
  exact ⟨update_eq hwithin, (size_update state e).trans hsize⟩

/-- **A relaxation makes no access out of range**, for it keeps the number of values. -/
theorem relax_eq (cap : ℕ) : relax elements cap values = some (Schematic.relax elements cap values) := by
  induction cap generalizing values with
  | zero => rfl
  | succ cap ih =>
    have hkept : ∀ e ∈ elements, e.Within (Schematic.pass elements values).1.size := by
      rwa [size_pass]
    have hnext := ih hkept
    rw [relax, pass_eq h]
    by_cases hz : (Schematic.pass elements values).2 = 0
    · rw [relax_succ_of_settled elements hz]
      exact if_pos hz
    · rw [relax_succ_of_changed elements hz]
      simp only [Option.bind_eq_bind, Option.bind_some, if_neg hz, hnext]

end Relaxing

/-! ## Evaluating -/

/-- Every input is driven with the level that its name has. -/
def seed (n : Netlist) (inputs : Levels) : Option Values :=
  n.elements.foldlM
    (fun values e =>
      if e.cell = .input then do
        let id ← n.signals.name? e.signal
        write values e.signal (inputs.level id)
      else some values)
    n.unknowns

/-- The known values, with their places. -/
def known (values : Values) : List (ℕ × Bool) :=
  values.toList.zipIdx.filterMap fun (v, s) => v.map (s, ·)

/-- The known values, by the names of their signals. -/
def nodeOutputs (n : Netlist) (values : Values) : Option Levels := do
  let rows ← (known values).mapM fun p => do
    let id ← n.signals.name? p.1
    some (id, p.2)
  some (.ofList rows)

/-- The value at the source of every connection, low if it is not known. -/
def edgeStates (n : Netlist) (values : Values) : Option Levels := do
  let rows ← n.circuit.connections.mapM fun k => do
    let v ← fetch values (n.signals.number? k.source.node)
    some (k.key, v.getD false)
  some (.ofList rows)

/-- Drives the inputs and relaxes. -/
def evaluate (n : Netlist) (cap : ℕ) (inputs : Levels) : Option Evaluation := do
  let values ← seed n inputs
  let r ← relax n.elements cap values
  let outputs ← nodeOutputs n r.values
  let edges ← edgeStates n r.values
  some ⟨outputs, edges, r.iterations, r.converged⟩

section Evaluating

variable {n : Netlist} {values : Values}

theorem seed_eq (h : n.Numbered) (inputs : Levels) : seed n inputs = some (n.seed inputs) := by
  apply foldlM_eq_some (P := fun values => values.size = n.signals.size)
  · intro values hsize e he
    have hlt : e.signal < values.size := hsize ▸ h.signal_lt he
    by_cases hin : e.cell = .input
    · rw [if_pos hin, if_pos hin, h.name?_signal he]
      exact ⟨write_eq hlt _, by rw [Array.size_setIfInBounds, hsize]⟩
    · rw [if_neg hin, if_neg hin]
      exact ⟨rfl, hsize⟩
  · exact Array.size_replicate

/-- Where every signal has a value, the values with their names are the values with their places. -/
theorem toList_zip_names (hsize : values.size = n.signals.size) :
    (n.signals.names.zip values).toList =
      values.toList.zipIdx.map fun (v, s) => ((n.signals.name? s).getD "", v) := by
  unfold Signals.size at hsize
  apply List.ext_getElem
  · simp [hsize]
  · intro s hs _
    have hlt : s < n.signals.names.size := by
      simp at hs
      omega
    simp [Signals.name?, hlt]

theorem lt_size_of_mem_known {p : ℕ × Bool} (hp : p ∈ known values) : p.1 < values.size := by
  obtain ⟨⟨v, s⟩, hmem, hv⟩ := List.mem_filterMap.1 hp
  obtain ⟨x, -, rfl⟩ := Option.map_eq_some_iff.1 hv
  have hlt := List.snd_lt_of_mem_zipIdx hmem
  rwa [Nat.add_zero, Array.length_toList] at hlt

theorem nodeOutputs_eq (hsize : values.size = n.signals.size) :
    nodeOutputs n values = some (n.nodeOutputs values) := by
  have hrows : ((known values).mapM fun p => do
      let id ← n.signals.name? p.1
      some (id, p.2)) = some ((known values).map fun p => ((n.signals.name? p.1).getD "", p.2)) := by
    apply mapM_eq_map
    intro p hp
    have hlt : p.1 < n.signals.size := hsize ▸ lt_size_of_mem_known hp
    rw [Signals.name?_of_lt_size hlt]
    rfl
  unfold nodeOutputs Netlist.nodeOutputs
  rw [hrows, toList_zip_names hsize, List.filterMap_map, known, List.map_filterMap]
  have hsame : ∀ x : Option Bool × ℕ,
      (x.1.map (x.2, ·)).map (fun p => ((n.signals.name? p.1).getD "", p.2)) =
        x.1.map ((n.signals.name? x.2).getD "", ·) := by
    rintro ⟨v, s⟩
    cases v <;> rfl
  simp only [Option.bind_eq_bind, Option.bind_some, hsame]
  rfl

theorem edgeStates_eq (h : n.Numbered) (hsize : values.size = n.signals.size) :
    edgeStates n values = some (n.edgeStates values) := by
  have hrows : (n.circuit.connections.mapM fun k => do
      let v ← fetch values (n.signals.number? k.source.node)
      some (k.key, v.getD false)) =
      some (n.circuit.connections.map fun k => (k.key, (n.value? values k.source.node).getD false)) := by
    apply mapM_eq_map
    intro k _
    rw [fetch_eq]
    · rfl
    · intro s hs
      rw [hsize]
      exact h.lt_size hs
  unfold edgeStates
  rw [hrows]
  rfl

/-- **An evaluation makes no access out of range.** -/
theorem evaluate_eq (h : n.Numbered) (cap : ℕ) (inputs : Levels) :
    evaluate n cap inputs = some (n.evaluate cap inputs) := by
  have hsize := Netlist.size_seed n inputs
  have hwithin : ∀ e ∈ n.elements, e.Within (n.seed inputs).size := by
    intro e he
    rw [hsize]
    exact h.within he
  have hrelax := relax_eq hwithin cap
  have hfinal : (Schematic.relax n.elements cap (n.seed inputs)).values.size = n.signals.size := by
    rw [size_relax, hsize]
  unfold evaluate
  simp only [seed_eq h, hrelax, nodeOutputs_eq hfinal, edgeStates_eq h hfinal, Option.bind_eq_bind,
    Option.bind_some]
  rfl

end Evaluating

/-! ## Loops -/

/-- Relates two numbers that both have a row. -/
def link (rows : Rows) (edge : ℕ × ℕ) : Option Rows :=
  if edge.1 < rows.size ∧ edge.2 < rows.size then some (rows.link edge) else none

/-- The loops of a closed relation on the numbers below `size`. -/
def loopsOf (size : ℕ) (reach : Rows) : List (List ℕ) :=
  ((List.range size).filter fun s => reach.has s s).filterMap fun s =>
    let loop := Netlist.loopOf reach size s
    if loop.head? = some s then some loop else none

/-- The warnings about some loops, with the names of their signals. -/
def named (n : Netlist) (loops : List (List ℕ)) : Option (List Warning) :=
  loops.mapM fun loop => do
    let ids ← loop.mapM n.signals.name?
    some (.feedbackLoop ids)

/-- The loops of the wiring, with the names of their signals. -/
def feedbackLoops (n : Netlist) : Option (List Warning) := do
  let rows ← n.edges.foldlM link (Array.replicate n.signals.size 0)
  named n (loopsOf n.signals.size rows.closure)

/-- Whether a component is a loop. Its first signal is looked at only if there is no second one. -/
def isLoop (n : Netlist) (l : List ℕ) : Option Bool :=
  if 1 < l.length then some true
  else do
    let s ← l[0]?
    some (n.edges.contains (s, s))

/-- The signals of a component in rising order, if it is a loop. Each is looked up among all signals. -/
def sortedLoop (n : Netlist) (l : List ℕ) : Option (Option (List ℕ)) := do
  if ← isLoop n l then
    let signals ← l.mapM fun s => (List.range n.signals.size)[s]?
    some (some signals.mergeSort)
  else some none

/-- The components that are loops, in rising order. -/
def sortedLoops (n : Netlist) (components : List (List ℕ)) : Option (List (List ℕ)) := do
  let loops ← components.mapM (sortedLoop n)
  some loops.reduceOption.mergeSort

/-- The loops of the wiring, taken from a listing of its components, with the names of their signals. -/
def componentLoops (n : Netlist) (components : List (List ℕ)) : Option (List Warning) := do
  let loops ← sortedLoops n components
  named n loops

section Loops

variable {n : Netlist}

/-- Both ends of an edge are in range. -/
theorem lt_size_of_mem_edges (h : n.Numbered) {edge : ℕ × ℕ} (hedge : edge ∈ n.edges) :
    edge.1 < n.signals.size ∧ edge.2 < n.signals.size := by
  obtain ⟨e, he, hmem⟩ := List.mem_flatMap.1 hedge
  obtain ⟨w, hw, hsource⟩ := List.mem_filterMap.1 hmem
  obtain ⟨s, hs, rfl⟩ := Option.map_eq_some_iff.1 hsource
  exact ⟨h.source_lt he hw hs, h.signal_lt he⟩

theorem link_edges_eq (h : n.Numbered) :
    n.edges.foldlM link (Array.replicate n.signals.size 0) =
      some (Rows.ofEdges n.signals.size n.edges) := by
  apply foldlM_eq_some (P := fun rows => rows.size = n.signals.size)
  · intro rows hsize edge hedge
    have hends := lt_size_of_mem_edges h hedge
    rw [← hsize] at hends
    exact ⟨if_pos hends, Array.size_modify.trans hsize⟩
  · exact Array.size_replicate

theorem lt_size_of_mem_loops {loop : List ℕ} (hloop : loop ∈ n.loops) {s : ℕ} (hs : s ∈ loop) :
    s < n.signals.size := by
  obtain ⟨t, -, ht⟩ := List.mem_filterMap.1 hloop
  obtain ⟨-, heq⟩ := Option.ite_none_right_eq_some.1 ht
  cases heq
  exact List.mem_range.1 (List.mem_of_mem_filter hs)

theorem named_loops_eq (n : Netlist) : named n n.loops = some n.feedbackLoops := by
  apply mapM_eq_map
  intro loop hloop
  have hnames : ∀ s ∈ loop, n.signals.name? s = some ((n.signals.name? s).getD "") := by
    intro s hs
    exact Signals.name?_of_lt_size (lt_size_of_mem_loops hloop hs)
  rw [mapM_eq_map hnames, List.filterMap_eq_map_iff_forall_eq_some.2 hnames]
  rfl

/-- **The loops are found and named without an access out of range.** -/
theorem feedbackLoops_eq (h : n.Numbered) : feedbackLoops n = some n.feedbackLoops := by
  unfold feedbackLoops
  rw [link_edges_eq h]
  exact named_loops_eq n

variable {components : List (List ℕ)}

theorem isLoop_eq {l : List ℕ} (hne : l ≠ []) :
    isLoop n l = some (decide (1 < l.length) || l.head?.any fun s => n.edges.contains (s, s)) := by
  obtain ⟨s, t, rfl⟩ := List.exists_cons_of_ne_nil hne
  unfold isLoop
  by_cases ht : 1 < (s :: t).length
  · rw [if_pos ht, decide_eq_true ht, Bool.true_or]
  · rw [if_neg ht, decide_eq_false ht, Bool.false_or]
    rfl

theorem sortedLoop_eq (h : n.Components components) {l : List ℕ} (hl : l ∈ components) {real : Bool}
    (hreal : isLoop n l = some real) :
    sortedLoop n l = some (if real then some l.mergeSort else none) := by
  have hsignals : (l.mapM fun s => (List.range n.signals.size)[s]?) = some (l.map id) := by
    apply mapM_eq_map
    intro s hs
    exact List.getElem?_range (h.lt_size hl hs)
  unfold sortedLoop
  rw [hreal, hsignals, List.map_id]
  cases real <;> rfl

theorem sortedLoops_eq (h : n.Components components) :
    sortedLoops n components = some (n.sortedLoops components) := by
  have hall := mapM_eq_map fun l (hl : l ∈ components) =>
    sortedLoop_eq h hl (isLoop_eq (h.nonempty l hl))
  unfold sortedLoops Netlist.sortedLoops
  rw [hall, ← reduceOption_map_ite]
  rfl

/-- **A listing of the components is sorted and named without an access out of range.** -/
theorem componentLoops_eq {c : Circuit} (h : (Netlist.ofCircuit c).Components components) :
    componentLoops (Netlist.ofCircuit c) components = some (Netlist.ofCircuit c).feedbackLoops := by
  unfold componentLoops
  rw [sortedLoops_eq h, ← Netlist.loops_eq_sortedLoops h]
  exact named_loops_eq _

end Loops

/-! ## Viewing -/

/-- The level shown on a pin. -/
def pin (c : Circuit) (e : Evaluation) (found : Option (Connection × ℕ)) : Option (Option Bool) := do
  let found ← entry c found
  some (e.pin found)

/-- The widget of a node. -/
def widget (n : Netlist) (inputs : Levels) (e : Evaluation) (node : Node) : Option Widget :=
  let twoPins : Option Widget := do
    let a ← pin n.circuit e (n.incoming.first? node.id firstSlots)
    let b ← pin n.circuit e (n.incoming.first? node.id secondSlots)
    some (.binary node.type a b (e.output? node.id))
  match node.kind with
  | .input => some (.input node.id (inputs.level node.id))
  | .output => some (.output node.id (e.output? node.id))
  | .gate g =>
    if g.arity = 1 then do
      let a ← pin n.circuit e (n.incoming.firstAny? node.id)
      some (.unary node.type a (e.output? node.id))
    else twoPins
  | .unknown => twoPins

/-- The view of a circuit under inputs and an evaluation. -/
def view (n : Netlist) (inputs : Levels) (e : Evaluation) : Option View := do
  let nodes ← n.circuit.nodes.mapM fun node => do
    let w ← widget n inputs e node
    some (⟨node.id, node.x, node.y, w⟩ : ViewNode)
  some ⟨nodes, n.circuit.connections.map fun k => ⟨k, e.edge k⟩⟩

section Viewing

variable {n : Netlist} {inputs : Levels} {e : Evaluation}

theorem pin_eq {c : Circuit} {found : Option (Connection × ℕ)}
    (h : ∀ k i, found = some (k, i) → c.connections[i]? = some k) : pin c e found = some (e.pin found) := by
  rw [pin, entry_eq h]
  rfl

theorem widget_eq (h : n.Numbered) (node : Node) :
    widget n inputs e node = some (n.widget inputs e node) := by
  have hpin := fun slots => pin_eq (e := e) (h.place node.id slots)
  have hany := pin_eq (e := e) (h.anyPlace node.id)
  unfold widget Netlist.widget
  simp only [hpin, hany]
  cases node.kind with
  | gate g => by_cases ha : g.arity = 1 <;> simp [ha]
  | _ => rfl

/-- **A view is made without an access out of range**, also of an evaluation of another circuit. -/
theorem view_eq (h : n.Numbered) (inputs : Levels) (e : Evaluation) :
    view n inputs e = some (n.view inputs e) := by
  have hnodes : (n.circuit.nodes.mapM fun node => do
      let w ← widget n inputs e node
      some (⟨node.id, node.x, node.y, w⟩ : ViewNode)) =
      some (n.circuit.nodes.map fun node => ⟨node.id, node.x, node.y, n.widget inputs e node⟩) := by
    apply mapM_eq_map
    intro node _
    rw [widget_eq h]
    rfl
  unfold view
  rw [hnodes]
  rfl

end Viewing

end Checked

/-- **A netlist numbers the ids of its circuit, and no access by a number is out of range**: not when the
wiring is resolved, nor in a pass or a relaxation from any values of all signals, nor in an evaluation, the
search for loops, by itself or from any listing of the components, or a view. Each of them, with its accesses
checked, comes to its end, and to the same. -/
theorem Netlist.numbering_in_range (c : Circuit) :
    (ofCircuit c).Numbered ∧
    Checked.netlist c = some (ofCircuit c) ∧
    (∀ values : Values, values.size = (ofCircuit c).signals.size →
      Checked.pass (ofCircuit c).elements values = some (pass (ofCircuit c).elements values) ∧
      ∀ cap, Checked.relax (ofCircuit c).elements cap values =
        some (relax (ofCircuit c).elements cap values)) ∧
    (∀ cap inputs, Checked.evaluate (ofCircuit c) cap inputs = some ((ofCircuit c).evaluate cap inputs)) ∧
    Checked.feedbackLoops (ofCircuit c) = some (ofCircuit c).feedbackLoops ∧
    (∀ components, (ofCircuit c).Components components →
      Checked.componentLoops (ofCircuit c) components = some (ofCircuit c).feedbackLoops) ∧
    ∀ inputs e, Checked.view (ofCircuit c) inputs e = some ((ofCircuit c).view inputs e) := by
  have h := numbered_ofCircuit c
  refine ⟨h, Checked.netlist_eq c, fun values hsize => ?_, Checked.evaluate_eq h,
    Checked.feedbackLoops_eq h, fun _ => Checked.componentLoops_eq, Checked.view_eq h⟩
  have hwithin : ∀ e ∈ (ofCircuit c).elements, e.Within values.size := by
    intro e he
    rw [hsize]
    exact h.within he
  exact ⟨Checked.pass_eq hwithin, Checked.relax_eq hwithin⟩

/-- Two gates of one id, of which the first comes before all that it reads, and a connection from an id that
is not declared. -/
def Circuit.loose : Circuit where
  nodes := [⟨"n", "NOT", 0, 0, []⟩, ⟨"A", "In", 0, 0, []⟩, ⟨"n", "OR", 0, 0, []⟩, ⟨"Y", "Out", 0, 0, []⟩]
  connections := [⟨⟨"ghost", "out"⟩, ⟨"n", "a"⟩⟩, ⟨⟨"A", "out"⟩, ⟨"n", "in"⟩⟩, ⟨⟨"n", "out"⟩, ⟨"n", "b"⟩⟩,
    ⟨⟨"n", "out"⟩, ⟨"Y", "in"⟩⟩]

/-- The relaxation of `loose` from some values of its three signals, and its loop from its components. With
fewer values, an empty component or one of a fourth signal, a checked computation would end early. -/
theorem Netlist.loose_in_range :
    (ofCircuit .loose).signals.names.toList = ["n", "A", "Y"] ∧
    Array.size #[none, some true, none] = (ofCircuit .loose).signals.size ∧
    Checked.relax (ofCircuit .loose).elements 5 #[none, some true, none] =
      some ⟨#[some false, some true, some false], 2, true⟩ ∧
    Checked.pass (ofCircuit .loose).elements #[none] = none ∧
    (ofCircuit .loose).Components [[2], [0], [1]] ∧
    Checked.componentLoops (ofCircuit .loose) [[2], [0], [1]] = some [.feedbackLoop ["n"]] ∧
    Checked.componentLoops (ofCircuit .loose) [[]] = none ∧
    Checked.componentLoops (ofCircuit .loose) [[0, 3]] = none := by
  obtain ⟨hnumbered, -, hvalues, -, -, hlistings, -⟩ := numbering_in_range .loose
  have hsize : Array.size #[none, some true, none] = (ofCircuit .loose).signals.size := by decide +kernel
  obtain ⟨-, hrelax⟩ := hvalues #[none, some true, none] hsize
  have hcomponents : (ofCircuit .loose).Components [[2], [0], [1]] := by decide +kernel
  have hloops := hlistings [[2], [0], [1]] hcomponents
  exact ⟨hnumbered.names.trans (by decide +kernel), hsize, (hrelax 5).trans (by decide +kernel),
    by decide +kernel, hcomponents, hloops.trans (by decide +kernel), by decide +kernel, by decide +kernel⟩

end Schematic
