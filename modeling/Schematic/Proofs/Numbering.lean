import Schematic.Proofs.Wiring

/-!
# The numbering of a netlist

Everything that runs on a netlist looks up values, names and connections by number, without asking whether
the number is in range. What all of it rests on is said once, here.

* `Signals.names_ofIds`: **the names are the distinct ids in order of first appearance.**
* `Netlist.Numbered`: numbers, elements and wires of a netlist fit its circuit.
* `Netlist.numbered_ofCircuit`: **they do in the netlist of a circuit.**
-/

namespace Schematic

namespace Signals

/-- **The names are the distinct ids in order of first appearance.** -/
theorem names_ofIds (ids : List String) : (ofIds ids).names.toList = ids.eraseDups := by
  induction ids using List.reverseRecOn with
  | nil => rfl
  | append_singleton ids id ih =>
    rw [ofIds_concat, List.eraseDups_append, ← ih, add]
    split
    · rename_i hold
      have hid : id ∈ ids := contains_ofIds_iff.1 hold
      simp [List.removeAll, hid]
    · rename_i hnew
      have hid : id ∉ ids := mt contains_ofIds_iff.2 hnew
      simp [List.removeAll, hid, List.eraseDups_cons]

end Signals

namespace Netlist

/-- Numbers, elements and wires of a netlist fit its circuit. -/
structure Numbered (n : Netlist) : Prop where
  /-- The signals `0, 1, …` are those of the distinct ids, in order of first declaration. -/
  names : n.signals.names.toList = (n.circuit.nodes.map (·.id)).eraseDups
  /-- The number of an id and the name of a signal are inverse to each other. -/
  sound : ∀ id s, n.signals.number? id = some s ↔ n.signals.name? s = some id
  /-- No other id has a number. -/
  undeclared : ∀ id, n.signals.number? id = none ↔ id ∉ n.circuit.nodes.map (·.id)
  /-- There is one element for each node, in order. -/
  nodes : n.elements.map (·.node) = n.circuit.nodes
  /-- An element writes the signal of its node. -/
  signal : ∀ e ∈ n.elements, n.signals.number? e.node.id = some e.signal
  /-- A wire is a connection of the circuit, and its source is the number of the source of that. -/
  wire : ∀ e ∈ n.elements, ∀ w ∈ e.cell.wires, ∃ k, n.circuit.connections[w.connection]? = some k ∧
    w.source = n.signals.number? k.source.node
  /-- The index knows the places of the connections into given slots, and of those into any slot. -/
  place : ∀ target slots k i, n.incoming.first? target slots = some (k, i) →
    n.circuit.connections[i]? = some k
  anyPlace : ∀ target k i, n.incoming.firstAny? target = some (k, i) →
    n.circuit.connections[i]? = some k

/-- **The netlist of a circuit fits it.** -/
theorem numbered_ofCircuit (c : Circuit) : (ofCircuit c).Numbered where
  names := Signals.names_ofIds _
  sound := sound_signals c
  undeclared _ := number?_eq_none_iff c
  nodes := map_node_elements c
  signal _ he := (of_mem_elements he).2.1
  wire e he w hw := by
    obtain ⟨k, hk, -, hsource⟩ := of_mem_wires he hw
    exact ⟨k, hk, hsource⟩
  place target slots k i hfound := by
    have hscan := (Incoming.first?_ofConnections c.connections target slots).symm.trans hfound
    exact List.mem_zipIdx_iff_getElem?.1 (List.mem_of_find?_eq_some hscan)
  anyPlace target k i hfound := by
    have hscan := (Incoming.firstAny?_ofConnections c.connections target).symm.trans hfound
    exact List.mem_zipIdx_iff_getElem?.1 (List.mem_of_find?_eq_some hscan)

namespace Numbered

variable {n : Netlist} {e : Element}

theorem lt_size (h : n.Numbered) {id : String} {s : ℕ} (hs : n.signals.number? id = some s) :
    s < n.signals.size :=
  Signals.lt_size_of_name? ((h.sound id s).1 hs)

/-- The signal of an element is in range. -/
theorem signal_lt (h : n.Numbered) (he : e ∈ n.elements) : e.signal < n.signals.size :=
  h.lt_size (h.signal e he)

/-- The signal of an element has the name of its node. -/
theorem name?_signal (h : n.Numbered) (he : e ∈ n.elements) :
    n.signals.name? e.signal = some e.node.id :=
  (h.sound _ _).1 (h.signal e he)

/-- The source of a wire is in range. -/
theorem source_lt (h : n.Numbered) (he : e ∈ n.elements) {w : Wire} (hw : w ∈ e.cell.wires) {s : ℕ}
    (hs : w.source = some s) : s < n.signals.size := by
  obtain ⟨k, -, hsource⟩ := h.wire e he w hw
  exact h.lt_size (hsource.symm.trans hs)

end Numbered

end Netlist

end Schematic
