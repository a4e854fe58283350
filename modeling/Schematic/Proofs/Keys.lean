import Mathlib.Data.List.Dedup
import Schematic.Proofs.Lines
import Schematic.Proofs.Wiring

/-!
# Keys of connections

The key of a connection joins its four fields, and slots may hold dots, dashes and, on the target
side, arrows. It still names one connection only.

* `Connection.cut_key`: the first arrow of a key is the one between its ends.
* `Connection.key_inj`: **valid connections with one key are one connection.**
* `Netlist.getElem?_edgeStates`: so the level reported under a key is that at the source of its
  connection. `Netlist.edge_evaluate_iff`, `Netlist.perm_keys_edgeStates`: the same of an evaluation.
* `Script.keys_name_connections`: **no connection of a script overwrites the level of another one.**
-/

namespace Schematic

open Script Text

/-- A valid endpoint is known from its text. -/
theorem Endpoint.Valid.text_inj {e e' : Endpoint} (h : e.Valid) (h' : e'.Valid)
    (ht : e.text.toList = e'.text.toList) : e = e' := by
  rw [← Endpoint.read_text h defaultSourceSlot, ht, Endpoint.read_text h']

namespace Connection

variable {c c' : Connection}

theorem toList_key (c : Connection) :
    c.key.toList = c.source.text.toList ++ arrow ++ c.target.text.toList := by
  simp [key, arrow]

/-- **The first arrow of a key is the one between its ends.** -/
theorem Valid.cut_key (h : c.Valid) :
    cut arrow c.key.toList = some (c.source.text.toList, c.target.text.toList) := by
  rw [toList_key]
  refine cut_append_marker (by decide) ?_ _
  -- a slot that ends in a dash does not make an arrow with the dash of the next one
  rw [arrow_infix_concat]
  exact h.not_arrow_source

/-- **Valid connections with one key are one connection.** -/
theorem Valid.key_inj (h : c.Valid) (h' : c'.Valid) (hk : c.key = c'.key) : c = c' := by
  have hcut := h.cut_key
  rw [hk, h'.cut_key, Option.some.injEq, Prod.mk.injEq] at hcut
  have hsource := h'.source.text_inj h.source hcut.1
  have htarget := h'.target.text_inj h.target hcut.2
  cases c
  cases c'
  simp only at hsource htarget
  rw [hsource, htarget]

end Connection

namespace Netlist

variable {c : Circuit}

/-- **The level reported under a key** is that at the source of its connection, low if unknown. -/
theorem getElem?_edgeStates (hvalid : ∀ k ∈ c.connections, k.Valid) (values : Values)
    {key : String} {v : Bool} : ((ofCircuit c).edgeStates values)[key]? = some v ↔
      ∃ k ∈ c.connections, k.key = key ∧
        ((ofCircuit c).value? values k.source.node).getD false = v := by
  have hkeys : ∀ p ∈ c.connections.map fun k =>
      (k.key, ((ofCircuit c).value? values k.source.node).getD false),
      ∀ q ∈ c.connections.map fun k =>
        (k.key, ((ofCircuit c).value? values k.source.node).getD false), p.1 = q.1 → p.2 = q.2 := by
    intro p hp q hq heq
    obtain ⟨k, hk, rfl⟩ := List.mem_map.1 hp
    obtain ⟨k', hk', rfl⟩ := List.mem_map.1 hq
    rw [(hvalid k hk).key_inj (hvalid k' hk') heq]
  refine (getElem?_ofList_iff hkeys).trans ?_
  simp only [List.mem_map, Prod.mk.injEq]

/-- The level reported under a key, by what an evaluation reports of ids. -/
theorem getElem?_edgeStates_evaluate (hvalid : ∀ k ∈ c.connections, k.Valid) (cap : ℕ)
    (inputs : Levels) {key : String} {v : Bool} :
    ((ofCircuit c).evaluate cap inputs).edgeStates[key]? = some v ↔
      ∃ k ∈ c.connections, k.key = key ∧
        ((ofCircuit c).evaluate cap inputs).nodeOutputs.level k.source.node = v := by
  have hlevel : ∀ id, ((ofCircuit c).evaluate cap inputs).nodeOutputs.level id =
      ((ofCircuit c).value? (relax (ofCircuit c).elements cap ((ofCircuit c).seed inputs)).values
        id).getD false := by
    intro id
    rw [Levels.level, evaluate, getElem?_nodeOutputs (sound_signals c)]
  simp only [hlevel]
  exact getElem?_edgeStates hvalid _

/-- The level of a connection is high exactly if its source has the output high. -/
theorem edge_evaluate_iff (hvalid : ∀ k ∈ c.connections, k.Valid) (cap : ℕ) (inputs : Levels)
    {k : Connection} (hk : k ∈ c.connections) :
    ((ofCircuit c).evaluate cap inputs).edge k = true ↔
      ((ofCircuit c).evaluate cap inputs).output? k.source.node = some true := by
  have hlevel := (getElem?_edgeStates_evaluate hvalid cap inputs).2 ⟨k, hk, rfl, rfl⟩
  rw [Evaluation.edge, Levels.level, hlevel, Option.getD_some, Levels.level, Evaluation.output?]
  cases ((ofCircuit c).evaluate cap inputs).nodeOutputs[k.source.node]? <;> simp

/-- There is one entry for every connection, and none for nothing. -/
theorem perm_keys_edgeStates (hvalid : ∀ k ∈ c.connections, k.Valid) (cap : ℕ) (inputs : Levels) :
    ((ofCircuit c).evaluate cap inputs).edgeStates.keys.Perm (c.connections.dedup.map (·.key)) := by
  have hnodup : (c.connections.dedup.map (·.key)).Nodup := by
    refine List.Nodup.map_on (fun k hk k' hk' heq => ?_) (List.nodup_dedup _)
    exact (hvalid k (List.mem_dedup.1 hk)).key_inj (hvalid k' (List.mem_dedup.1 hk')) heq
  refine (List.perm_ext_iff_of_nodup Std.ExtTreeMap.nodup_keys hnodup).2 fun key => ?_
  rw [Std.ExtTreeMap.mem_keys, Std.ExtTreeMap.mem_iff_isSome_getElem?, Option.isSome_iff_exists]
  simp only [getElem?_edgeStates_evaluate hvalid, List.mem_map, List.mem_dedup]
  constructor
  · rintro ⟨_, k, hk, heq, -⟩
    exact ⟨k, hk, heq⟩
  · rintro ⟨k, hk, heq⟩
    exact ⟨_, k, hk, heq, rfl⟩

end Netlist

open Netlist in
/-- **Keys name connections.** Connections that scripts declare are equal if their keys are. So an
evaluation has one entry for every distinct connection and no other, the entry of a connection is the
level of its own source, and where two of them write one entry they write one level. -/
theorem Script.keys_name_connections :
    (∀ s s' : String, ∀ k ∈ (parse s).circuit.connections, ∀ k' ∈ (parse s').circuit.connections,
      k.key = k'.key → k = k') ∧
    ∀ (s : String) (cap : ℕ) (inputs : Levels),
      ((ofCircuit (parse s).circuit).evaluate cap inputs).edgeStates.keys.Perm
        ((parse s).circuit.connections.dedup.map (·.key)) ∧
      (∀ k ∈ (parse s).circuit.connections,
        ((ofCircuit (parse s).circuit).evaluate cap inputs).edgeStates[k.key]? =
          some (((ofCircuit (parse s).circuit).evaluate cap inputs).nodeOutputs.level k.source.node) ∧
        (((ofCircuit (parse s).circuit).evaluate cap inputs).edge k = true ↔
          ((ofCircuit (parse s).circuit).evaluate cap inputs).output? k.source.node = some true)) ∧
      (parse s).circuit.connections.Pairwise fun k k' => k.key = k'.key →
        ((ofCircuit (parse s).circuit).evaluate cap inputs).nodeOutputs.level k.source.node =
          ((ofCircuit (parse s).circuit).evaluate cap inputs).nodeOutputs.level k'.source.node := by
  have hinj : ∀ s s' : String, ∀ k ∈ (parse s).circuit.connections,
      ∀ k' ∈ (parse s').circuit.connections, k.key = k'.key → k = k' := by
    intro s s' k hk k' hk' heq
    exact (valid_of_mem_connections hk).key_inj (valid_of_mem_connections hk') heq
  refine ⟨hinj, fun s cap inputs => ?_⟩
  have hvalid : ∀ k ∈ (parse s).circuit.connections, k.Valid := fun k => valid_of_mem_connections
  refine ⟨perm_keys_edgeStates hvalid cap inputs, fun k hk => ⟨?_, ?_⟩, ?_⟩
  · exact (getElem?_edgeStates_evaluate hvalid cap inputs).2 ⟨k, hk, rfl, rfl⟩
  · exact edge_evaluate_iff hvalid cap inputs hk
  · refine List.pairwise_of_forall_mem_list fun k hk k' hk' heq => ?_
    rw [hinj s s k hk k' hk' heq]

/-- Two connections whose slots hold dashes and arrows; one of them is declared twice. -/
def Script.tangled : String := "In A @ 0, 0\nA.x- -> B.a->b\nA.x -> B.->b\nA.x- -> B.a->b"

theorem Script.tangled_keys :
    (parse tangled).circuit.connections = [⟨⟨"A", "x-"⟩, ⟨"B", "a->b"⟩⟩, ⟨⟨"A", "x"⟩, ⟨"B", "->b"⟩⟩,
      ⟨⟨"A", "x-"⟩, ⟨"B", "a->b"⟩⟩] ∧
    ((Netlist.ofCircuit (parse tangled).circuit).evaluate 1 ∅).edgeStates.keys.Perm
      ["A.x->B.->b", "A.x-->B.a->b"] := by
  have hconnections : (parse tangled).circuit.connections = [⟨⟨"A", "x-"⟩, ⟨"B", "a->b"⟩⟩,
      ⟨⟨"A", "x"⟩, ⟨"B", "->b"⟩⟩, ⟨⟨"A", "x-"⟩, ⟨"B", "a->b"⟩⟩] := by decide +kernel
  obtain ⟨hkeys, -⟩ := keys_name_connections.2 tangled 1 ∅
  rw [hconnections] at hkeys
  exact ⟨hconnections, hkeys⟩

end Schematic
