import Schematic.Proofs.ById
import Schematic.Proofs.Knowledge

/-!
# Settling

An evaluation settles when nodes with one id are of one kind, whatever loops its wiring has.

* `Circuit.KindsAgree`: nodes with one id are of one kind, as with distinct ids
  (`Circuit.kindsAgree_of_nodup`).
* `Circuit.drivenIds`: the ids of outputs and gates, which bound the passes.
* `Netlist.held_seed`, `Netlist.held_finals`: the seeds of an evaluation satisfy the invariant of its
  passes, so its last values do.
* `Netlist.evaluate_settles`: **feedback alone never prevents settling.**
-/

namespace Schematic

namespace Circuit

variable (c : Circuit)

/-- Nodes with one id are of one kind. -/
def KindsAgree : Prop := ∀ a ∈ c.nodes, ∀ b ∈ c.nodes, a.id = b.id → a.kind = b.kind

instance : Decidable c.KindsAgree :=
  inferInstanceAs (Decidable (∀ a ∈ c.nodes, ∀ b ∈ c.nodes, a.id = b.id → a.kind = b.kind))

/-- The distinct ids of outputs and gates. -/
def drivenIds : List String := ((c.nodes.filter (·.kind.isDriven)).map (·.id)).dedup

variable {c}

theorem not_kindsAgree_iff :
    ¬c.KindsAgree ↔ ∃ a ∈ c.nodes, ∃ b ∈ c.nodes, a.id = b.id ∧ a.kind ≠ b.kind := by
  simp [KindsAgree]

theorem kindsAgree_of_nodup (h : (c.nodes.map (·.id)).Nodup) : c.KindsAgree := fun _ ha _ hb hid =>
  congrArg Node.kind (List.inj_on_of_nodup_map h ha hb hid)

end Circuit

namespace Netlist

variable {c : Circuit}

/-- The values at which an evaluation ends. -/
def finals (n : Netlist) (cap : ℕ) (inputs : Levels) : Values :=
  (relax n.elements cap (n.seed inputs)).values

/-- The outputs of an evaluation are its final values. -/
theorem agrees_finals (c : Circuit) (cap : ℕ) (inputs : Levels) : ById.Agrees c
    ((ofCircuit c).finals cap inputs) ((ofCircuit c).evaluate cap inputs).nodeOutputs := by
  refine ⟨?_, fun id => (getElem?_nodeOutputs (sound_signals c) _ id).symm⟩
  rw [finals, size_relax]
  exact (ById.agrees_seed c inputs).size

/-- Every element has its place in the seeds. -/
theorem signal_lt_seed (inputs : Levels) {e : Element} (he : e ∈ (ofCircuit c).elements) :
    e.signal < ((ofCircuit c).seed inputs).size := by
  rw [(ById.agrees_seed c inputs).size]
  exact signal_lt he

theorem oneCell (h : c.KindsAgree) : OneCell (ofCircuit c).elements := by
  intro e he e' he' hs
  obtain ⟨hn, -, hcell⟩ := of_mem_elements he
  obtain ⟨hn', -, hcell'⟩ := of_mem_elements he'
  have hid := id_eq_of_signal_eq he he' hs
  rw [hcell, hcell', Cell.ofNode_congr _ _ hid (h _ hn _ hn' hid)]

/-- **The seeds are the signals of inputs**, with their levels. -/
theorem at?_seed (inputs : Levels) {e : Element} (he : e ∈ (ofCircuit c).elements) :
    ((ofCircuit c).seed inputs).at? e.signal =
      if ∃ n ∈ c.nodes, n.id = e.node.id ∧ n.type = "In" then some (inputs.level e.node.id)
      else none := by
  rw [(ById.agrees_seed c inputs).at? he, ById.getElem?_seed]

/-- No driven signal has a value when the passes start. -/
theorem at?_seed_eq_none (h : c.KindsAgree) (inputs : Levels) {e : Element}
    (he : e ∈ (ofCircuit c).elements) (hin : e.cell ≠ .input) :
    ((ofCircuit c).seed inputs).at? e.signal = none := by
  -- an input with the same id would be of another kind
  rw [at?_seed inputs he, if_neg]
  rintro ⟨n, hn, hid, ht⟩
  have hk := h n hn e.node (of_mem_elements he).1 hid
  rw [Node.kind_eq_input_iff.2 ht, ← kind_cell he] at hk
  exact hin (Cell.kind_eq_input_iff.1 hk.symm)

theorem held_seed (h : c.KindsAgree) (inputs : Levels) :
    Held (ofCircuit c).elements ((ofCircuit c).seed inputs) := by
  refine ⟨fun e he => signal_lt_seed inputs he, fun e he hin v hv => ?_⟩
  rw [at?_seed_eq_none h inputs he hin] at hv
  cases hv

/-- Every final value of an output or a gate is what its cell computes from the final values. -/
theorem held_finals (h : c.KindsAgree) (cap : ℕ) (inputs : Levels) :
    Held (ofCircuit c).elements ((ofCircuit c).finals cap inputs) :=
  ((held_seed h inputs).after_relax (oneCell h) cap).1

/-- An input keeps the level that it is driven with. -/
theorem at?_finals_of_input (h : c.KindsAgree) (cap : ℕ) (inputs : Levels) {e : Element}
    (he : e ∈ (ofCircuit c).elements) (hin : e.cell = .input) :
    ((ofCircuit c).finals cap inputs).at? e.signal = some (inputs.level e.node.id) := by
  have hseed := at?_seed inputs he
  rw [if_pos ⟨e.node, (of_mem_elements he).1, rfl, (cell_eq_input_iff he).1 hin⟩] at hseed
  exact ((held_seed h inputs).after_relax (oneCell h) cap).2 _ _ hseed

/-- At most the ids of outputs and gates are pending. -/
theorem pending_le (c : Circuit) (values : Values) :
    pending (ofCircuit c).elements values ≤ c.drivenIds.length := by
  have hsub : pendingSignals (ofCircuit c).elements values ⊆
      (c.drivenIds.toFinset).image fun id => ((ofCircuit c).signals.number? id).getD 0 := by
    intro s hs
    obtain ⟨⟨e, he, hd, rfl⟩, -⟩ := mem_pendingSignals.1 hs
    obtain ⟨hn, hnum, -⟩ := of_mem_elements he
    rw [kind_cell he] at hd
    refine Finset.mem_image.2 ⟨e.node.id, ?_, by rw [hnum, Option.getD_some]⟩
    simp only [Circuit.drivenIds, List.mem_toFinset, List.mem_dedup]
    exact List.mem_map.2 ⟨e.node, List.mem_filter.2 ⟨hn, hd⟩, rfl⟩
  calc pending (ofCircuit c).elements values
    _ ≤ _ := Finset.card_le_card hsub
    _ ≤ c.drivenIds.toFinset.card := Finset.card_image_le
    _ ≤ c.drivenIds.length := List.toFinset_card_le _

/-- One pass more than there are ids of outputs and gates is enough to settle. -/
theorem converged_relax (h : c.KindsAgree) (inputs : Levels) {cap : ℕ}
    (hcap : c.drivenIds.length + 1 ≤ cap) :
    (relax (ofCircuit c).elements cap ((ofCircuit c).seed inputs)).converged = true := by
  have hpending := pending_le c ((ofCircuit c).seed inputs)
  exact ((held_seed h inputs).converged (oneCell h) (by omega)).1

/-- **Feedback alone never prevents settling.** If nodes with one id are of one kind, an evaluation
settles within one pass more than there are ids of outputs and gates, and no known value ever
changes, in all states from the seeds to the final values. So an evaluation that does not settle under
such a cap has an id of two kinds. -/
theorem evaluate_settles (c : Circuit) (inputs : Levels) {cap : ℕ}
    (hcap : c.drivenIds.length + 1 ≤ cap) :
    (relaxStates (ofCircuit c).elements cap ((ofCircuit c).seed inputs)).head? =
      some ((ofCircuit c).seed inputs) ∧
    (relaxStates (ofCircuit c).elements cap ((ofCircuit c).seed inputs)).getLast? =
      some (relax (ofCircuit c).elements cap ((ofCircuit c).seed inputs)).values ∧
    (c.KindsAgree →
      ((ofCircuit c).evaluate cap inputs).converged = true ∧
      ((ofCircuit c).evaluate cap inputs).iterations ≤ c.drivenIds.length + 1 ∧
      (relaxStates (ofCircuit c).elements cap ((ofCircuit c).seed inputs)).Pairwise Values.Below) ∧
    (((ofCircuit c).evaluate cap inputs).converged = false →
      ∃ a ∈ c.nodes, ∃ b ∈ c.nodes, a.id = b.id ∧ a.kind ≠ b.kind) := by
  have hpending := pending_le c ((ofCircuit c).seed inputs)
  have hpasses : pending (ofCircuit c).elements ((ofCircuit c).seed inputs) + 1 ≤ cap := by omega
  have hsettled : c.KindsAgree → _ := fun h => (held_seed h inputs).converged (oneCell h) hpasses
  refine ⟨head?_relaxStates cap _, getLast?_relaxStates cap _, fun h => ?_,
    fun hnot => Circuit.not_kindsAgree_iff.1 fun h => ?_⟩
  · obtain ⟨hconv, hit⟩ := hsettled h
    have hiterations : ((ofCircuit c).evaluate cap inputs).iterations ≤ c.drivenIds.length + 1 :=
      hit.trans (by omega)
    exact ⟨hconv, hiterations, (held_seed h inputs).pairwise_relaxStates (oneCell h) cap⟩
  · have hconv : ((ofCircuit c).evaluate cap inputs).converged = true := (hsettled h).1
    rw [hnot] at hconv
    cases hconv

end Netlist

/-- Two gates that read each other, and one that reads an input only. -/
def Circuit.latch : Circuit where
  nodes := [⟨"S", "In", 0, 0, []⟩, ⟨"q", "NOR", 0, 0, []⟩, ⟨"qn", "NOR", 0, 0, []⟩,
    ⟨"n", "NOT", 0, 0, []⟩]
  connections := [⟨⟨"S", "out"⟩, ⟨"q", "a"⟩⟩, ⟨⟨"qn", "out"⟩, ⟨"q", "b"⟩⟩, ⟨⟨"q", "out"⟩, ⟨"qn", "a"⟩⟩,
    ⟨⟨"S", "out"⟩, ⟨"qn", "b"⟩⟩, ⟨⟨"S", "out"⟩, ⟨"n", "in"⟩⟩]

theorem Netlist.latch_settles :
    Circuit.latch.drivenIds.length = 3 ∧ Circuit.latch.KindsAgree ∧
      ((ofCircuit .latch).evaluate 4 ∅).converged = true ∧
      ((ofCircuit .latch).evaluate 4 ∅).iterations ≤ 4 := by
  have hids : Circuit.latch.drivenIds.length = 3 := by decide +kernel
  have hkinds : Circuit.latch.KindsAgree := by decide +kernel
  have hcap : Circuit.latch.drivenIds.length + 1 ≤ 4 := by omega
  obtain ⟨-, -, hsettles, -⟩ := evaluate_settles .latch ∅ hcap
  obtain ⟨hconv, hit, -⟩ := hsettles hkinds
  exact ⟨hids, hkinds, hconv, by omega⟩

end Schematic
