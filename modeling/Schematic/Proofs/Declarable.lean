import Schematic.Proofs.RoundTrip

/-!
# What a script can declare

The fields of what a script declares are free text but for a few marks and blanks. Nothing more can be
said of them: whatever keeps to this is declared by some script.

* `Node.valid_iff`, `Endpoint.valid_iff`, `Connection.valid_iff`: what is valid, field by field.
* `Script.exists_parse_iff`: **the circuits that scripts declare are those with valid fields.**
-/

namespace Schematic

open Script Text

/-- The fields of a valid node. Type, id and options are words, so they are the same to any reader
that splits a line at blanks. -/
theorem Node.valid_iff {n : Node} : n.Valid ↔
    (∀ w ∈ n.type :: n.id :: n.options, IsWord w.toList ∧ ¬ arrow <:+: w.toList) ∧
    '@' ∉ n.type.toList ∧ '@' ∉ n.id.toList ∧ ¬ slashes <+: n.type.toList ∧
    InRange n.x ∧ InRange n.y := by
  constructor
  · intro h
    refine ⟨?_, h.type_at, h.id_at, h.type_slashes, h.x_range, h.y_range⟩
    intro w hw
    rcases List.mem_cons.1 hw with rfl | hw
    · exact ⟨h.type_word, h.type_arrow⟩
    rcases List.mem_cons.1 hw with rfl | hw
    · exact ⟨h.id_word, h.id_arrow⟩
    · exact ⟨h.option_word w hw, h.option_arrow w hw⟩
  · rintro ⟨hwords, htype, hid, hslashes, hx, hy⟩
    obtain ⟨htypeWord, htypeArrow⟩ := hwords n.type (by simp)
    obtain ⟨hidWord, hidArrow⟩ := hwords n.id (by simp)
    have hoptions : ∀ o ∈ n.options, IsWord o.toList ∧ ¬ arrow <:+: o.toList := by
      intro o ho
      exact hwords o (by simp [ho])
    exact
      { type_word := htypeWord
        id_word := hidWord
        option_word := fun o ho => (hoptions o ho).1
        type_arrow := htypeArrow
        id_arrow := hidArrow
        option_arrow := fun o ho => (hoptions o ho).2
        type_at := htype
        id_at := hid
        type_slashes := hslashes
        x_range := hx
        y_range := hy }

/-- The fields of a valid end of a connection. -/
theorem Endpoint.valid_iff {e : Endpoint} : e.Valid ↔
    e.node ≠ "" ∧ '.' ∉ e.node.toList ∧ ∀ t ∈ [e.node, e.slot], Trimmed t.toList ∧ '\n' ∉ t.toList := by
  have hempty : e.node ≠ "" ↔ e.node.toList ≠ [] := by simp
  rw [hempty]
  constructor
  · intro h
    refine ⟨h.node_ne_nil, h.node_dot, ?_⟩
    intro t ht
    rcases List.mem_pair.1 ht with rfl | rfl
    · exact ⟨h.node_trimmed, h.node_newline⟩
    · exact ⟨h.slot_trimmed, h.slot_newline⟩
  · rintro ⟨hne, hdot, htexts⟩
    obtain ⟨hnode, hnodeLine⟩ := htexts e.node (by simp)
    obtain ⟨hslot, hslotLine⟩ := htexts e.slot (by simp)
    exact ⟨hne, hdot, hnode, hslot, hnodeLine, hslotLine⟩

/-- The fields of a valid connection. Its target may hold further arrows. -/
theorem Connection.valid_iff {k : Connection} : k.Valid ↔
    (∀ e ∈ [k.source, k.target], e.node ≠ "" ∧ '.' ∉ e.node.toList ∧
      ∀ t ∈ [e.node, e.slot], Trimmed t.toList ∧ '\n' ∉ t.toList) ∧
    ¬ arrow <:+: k.source.node.toList ∧ ¬ arrow <:+: k.source.slot.toList ∧
    ¬ slashes <+: k.source.node.toList := by
  simp only [← Endpoint.valid_iff]
  constructor
  · intro h
    refine ⟨?_, h.node_arrow, h.slot_arrow, h.node_slashes⟩
    intro e he
    rcases List.mem_pair.1 he with rfl | rfl
    · exact h.source
    · exact h.target
  · rintro ⟨hends, hnode, hslot, hslashes⟩
    exact ⟨hends k.source (by simp), hends k.target (by simp), hnode, hslot, hslashes⟩

/-- **What scripts declare.** The type, the id and the options of a node are words without an arrow, type
and id hold no `@`, the type does not start as a comment does, and the place is within 64 bits. The two ids
of a connection are not empty and hold no dot, none of its four fields has a blank at its ends or a line feed
inside, and its source holds no arrow and does not start as a comment does. This is so for every script, and
there is no more to it: every circuit with such fields is what some script declares. -/
theorem Script.exists_parse_iff (c : Circuit) :
    (∃ s, (parse s).circuit = c) ↔
      (∀ n ∈ c.nodes,
        (∀ w ∈ n.type :: n.id :: n.options, IsWord w.toList ∧ ¬ arrow <:+: w.toList) ∧
        '@' ∉ n.type.toList ∧ '@' ∉ n.id.toList ∧ ¬ slashes <+: n.type.toList ∧
        InRange n.x ∧ InRange n.y) ∧
      ∀ k ∈ c.connections,
        (∀ e ∈ [k.source, k.target], e.node ≠ "" ∧ '.' ∉ e.node.toList ∧
          ∀ t ∈ [e.node, e.slot], Trimmed t.toList ∧ '\n' ∉ t.toList) ∧
        ¬ arrow <:+: k.source.node.toList ∧ ¬ arrow <:+: k.source.slot.toList ∧
        ¬ slashes <+: k.source.node.toList := by
  simp only [← Node.valid_iff, ← Connection.valid_iff]
  constructor
  · rintro ⟨s, rfl⟩
    exact ⟨(valid_parse s).nodes, (valid_parse s).connections⟩
  · rintro ⟨hnodes, hconnections⟩
    have hvalid : c.Valid := ⟨hnodes, hconnections⟩
    exact ⟨_, congrArg Parsed.circuit hvalid.parse_marked_script⟩

end Schematic
