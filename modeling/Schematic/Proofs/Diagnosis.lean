import Schematic.Proofs.Feedback
import Schematic.Proofs.Settling
import Schematic.Warning

/-!
# Diagnosis

Warnings explain which values are missing.

* `Circuit.mem_warnings`: **what is warned about**, cause by cause.
-/

namespace Schematic

open Relation

/-! ## Warnings -/

theorem mem_unwired {id : String} {slots : List String} {wire : Option Wire} {x : Warning} :
    x ∈ unwired id slots wire ↔ wire = none ∧ x = .unwiredInput id slots := by
  cases wire <;> simp [unwired]

/-- An element is warned about for its type, and for every port without a wire. -/
theorem Element.mem_warnings {e : Element} {x : Warning} : x ∈ e.warnings ↔
    e.cell = .unknown ∧ x = .unknownType e.node.id e.node.type ∨
      ∃ slots, (slots, none) ∈ e.cell.ports ∧ x = .unwiredInput e.node.id slots := by
  unfold warnings
  cases e.cell with
  | binary g a b =>
    simp only [List.mem_append, mem_unwired, Cell.ports]
    cases a <;> cases b <;> simp
  | _ => simp [mem_unwired, Cell.ports, eq_comm]

namespace Circuit

variable {c : Circuit}

theorem mem_undeclaredEnds {k : Connection} {x : Warning} :
    x ∈ (Netlist.ofCircuit c).undeclaredEnds k ↔
      k.source.node ∉ c.nodes.map (·.id) ∧ x = .unknownSource k.key ∨
        k.target.node ∉ c.nodes.map (·.id) ∧ x = .unknownTarget k.key := by
  simp only [Netlist.undeclaredEnds, Option.isNone_iff_eq_none, Netlist.number?_eq_none_iff,
    List.mem_append, List.mem_ite_nil_right, List.mem_singleton]

/-- **What is warned about.** -/
theorem mem_warnings {x : Warning} : x ∈ c.warnings ↔
    (∃ id ∈ c.nodes.map (·.id), 1 < c.declarations id ∧ x = .duplicateId id (c.declarations id)) ∨
    (∃ k ∈ c.connections, x ∈ (Netlist.ofCircuit c).undeclaredEnds k) ∨
    (∃ e ∈ (Netlist.ofCircuit c).elements, x ∈ e.warnings) ∨
    ∃ l ∈ (Netlist.ofCircuit c).loops,
      x = .feedbackLoop (l.filterMap (Netlist.ofCircuit c).signals.name?) := by
  have hdup : x ∈ (Netlist.ofCircuit c).duplicateIds ↔ ∃ id ∈ c.nodes.map (·.id),
      1 < c.declarations id ∧ x = .duplicateId id (c.declarations id) := by
    simp only [Netlist.duplicateIds, List.mem_filterMap, Netlist.mem_names]
    refine exists_congr fun id => and_congr_right fun _ => ?_
    change (if c.declarations id > 1 then some (.duplicateId id (c.declarations id)) else none) =
      some x ↔ _
    rw [Option.ite_none_right_eq_some, Option.some.injEq, eq_comm]
  rw [warnings, Netlist.warnings, List.mem_append, List.mem_append, List.mem_append, hdup,
    List.mem_flatMap, List.mem_flatMap, Netlist.feedbackLoops, List.mem_map, or_assoc, or_assoc]
  simp only [eq_comm]
  rfl

theorem duplicateId_mem_warnings_iff {id : String} {k : ℕ} : .duplicateId id k ∈ c.warnings ↔
    id ∈ c.nodes.map (·.id) ∧ 1 < c.declarations id ∧ k = c.declarations id := by
  simp only [mem_warnings, mem_undeclaredEnds, Element.mem_warnings, reduceCtorEq, and_false,
    or_false, exists_false, Warning.duplicateId.injEq]
  constructor
  · rintro ⟨_, hid, hlt, rfl, rfl⟩
    exact ⟨hid, hlt, rfl⟩
  · rintro ⟨hid, hlt, rfl⟩
    exact ⟨id, hid, hlt, rfl, rfl⟩

theorem unknownSource_mem_warnings_iff {key : String} : .unknownSource key ∈ c.warnings ↔
    ∃ k ∈ c.connections, k.source.node ∉ c.nodes.map (·.id) ∧ key = k.key := by
  simp only [mem_warnings, mem_undeclaredEnds, Element.mem_warnings, reduceCtorEq, and_false,
    or_false, false_or, exists_false, Warning.unknownSource.injEq]

theorem unknownType_mem_warnings_iff {id type : String} : .unknownType id type ∈ c.warnings ↔
    ∃ e ∈ (Netlist.ofCircuit c).elements, e.cell = .unknown ∧ id = e.node.id ∧ type = e.node.type := by
  simp only [mem_warnings, mem_undeclaredEnds, Element.mem_warnings, reduceCtorEq, and_false,
    or_false, false_or, exists_false, Warning.unknownType.injEq]

theorem unwiredInput_mem_warnings_iff {id : String} {slots : List String} :
    .unwiredInput id slots ∈ c.warnings ↔
      ∃ e ∈ (Netlist.ofCircuit c).elements, (slots, none) ∈ e.cell.ports ∧ id = e.node.id := by
  simp only [mem_warnings, mem_undeclaredEnds, Element.mem_warnings, reduceCtorEq, and_false,
    or_false, false_or, exists_false, Warning.unwiredInput.injEq]
  constructor
  · rintro ⟨e, he, _, hport, rfl, rfl⟩
    exact ⟨e, he, hport, rfl⟩
  · rintro ⟨e, he, hport, rfl⟩
    exact ⟨e, he, slots, hport, rfl, rfl⟩

/-- **Two ids are in one reported loop exactly if each reads from the other**, in some steps. -/
theorem exists_feedbackLoop_pair_iff {id id' : String} :
    (∃ ids, .feedbackLoop ids ∈ c.warnings ∧ id ∈ ids ∧ id' ∈ ids) ↔
      TransGen c.ReadsFrom id id' ∧ TransGen c.ReadsFrom id' id := by
  simp only [mem_warnings, mem_undeclaredEnds, Element.mem_warnings, reduceCtorEq, and_false,
    or_false, false_or, exists_false, Warning.feedbackLoop.injEq]
  constructor
  · rintro ⟨_, ⟨l, hl, rfl⟩, hid, hid'⟩
    obtain ⟨s, hs, hname⟩ := List.mem_filterMap.1 hid
    obtain ⟨s', hs', hname'⟩ := List.mem_filterMap.1 hid'
    have hnum := (Netlist.sound_signals c id s).2 hname
    have hnum' := (Netlist.sound_signals c id' s').2 hname'
    rw [transGen_readsFrom_iff hnum hnum', transGen_readsFrom_iff hnum' hnum]
    exact (Netlist.exists_loop_iff.1 ⟨l, hl, hs, hs'⟩).symm
  · rintro ⟨h, h'⟩
    obtain ⟨_, hx, -⟩ := TransGen.head'_iff.1 h
    obtain ⟨_, hx', -⟩ := TransGen.head'_iff.1 h'
    obtain ⟨s, _, hnum, -⟩ := readsFrom_iff.1 hx
    obtain ⟨s', _, hnum', -⟩ := readsFrom_iff.1 hx'
    rw [transGen_readsFrom_iff hnum hnum'] at h
    rw [transGen_readsFrom_iff hnum' hnum] at h'
    obtain ⟨l, hl, hs, hs'⟩ := Netlist.exists_loop_iff.2 ⟨h', h⟩
    exact ⟨_, ⟨l, hl, rfl⟩, List.mem_filterMap.2 ⟨s, hs, (Netlist.sound_signals c id s).1 hnum⟩,
      List.mem_filterMap.2 ⟨s', hs', (Netlist.sound_signals c id' s').1 hnum'⟩⟩

/-- **The ids in a reported loop are those that read from themselves.** -/
theorem exists_feedbackLoop_iff {id : String} :
    (∃ ids, .feedbackLoop ids ∈ c.warnings ∧ id ∈ ids) ↔ TransGen c.ReadsFrom id id := by
  have hpair : (∃ ids, .feedbackLoop ids ∈ c.warnings ∧ id ∈ ids ∧ id ∈ ids) ↔ _ :=
    exists_feedbackLoop_pair_iff
  simpa only [and_self] using hpair

end Circuit

/-! ## Missing values -/

namespace Circuit

variable {c : Circuit}

/-- Nodes that have no value whatever the other nodes do: of an unknown type, with an input that
nothing is wired to, or with a wire from an undeclared id. -/
inductive Faulty (c : Circuit) (id : String) : Prop
  | unknownType (type : String) (h : .unknownType id type ∈ c.warnings)
  | unwiredInput (slots : List String) (h : .unwiredInput id slots ∈ c.warnings)
  | unknownSource (k : Connection) (hreads : c.Reads id k)
      (hundeclared : k.source.node ∉ c.nodes.map (·.id)) (h : .unknownSource k.key ∈ c.warnings)

/-- Nodes that a warning blames for a missing value: faulty ones, and those in a feedback loop. -/
def Blamed (c : Circuit) (id : String) : Prop :=
  c.Faulty id ∨ ∃ ids, .feedbackLoop ids ∈ c.warnings ∧ id ∈ ids

theorem no_duplicateId_iff :
    (∀ id k, .duplicateId id k ∉ c.warnings) ↔ (c.nodes.map (·.id)).Nodup := by
  have hcount : ∀ id, (c.nodes.map (·.id)).count id = c.declarations id := by
    intro id
    rw [List.count, List.countP_map]
    rfl
  rw [List.nodup_iff_count_le_one]
  constructor
  · intro h id
    rw [hcount]
    by_contra hlt
    have hmem : id ∈ c.nodes.map (·.id) := List.count_pos_iff.1 (by rw [hcount]; omega)
    exact h id _ (duplicateId_mem_warnings_iff.2 ⟨hmem, by omega, rfl⟩)
  · intro h id k hw
    have hlt := (duplicateId_mem_warnings_iff.1 hw).2.1
    have hle := h id
    rw [hcount] at hle
    omega

theorem drivenIds_length_le (c : Circuit) : c.drivenIds.length ≤ c.nodes.length := by
  calc c.drivenIds.length
    _ ≤ _ := (List.dedup_sublist _).length_le
    _ = (c.nodes.filter (·.kind.isDriven)).length := List.length_map _
    _ ≤ c.nodes.length := List.length_filter_le _ _

end Circuit

namespace Netlist

variable {c : Circuit}

theorem eq_of_id_eq (h : (c.nodes.map (·.id)).Nodup) {e e' : Element}
    (he : e ∈ (ofCircuit c).elements) (he' : e' ∈ (ofCircuit c).elements)
    (hid : e.node.id = e'.node.id) : e = e' := by
  rw [← map_node_elements, List.map_map] at h
  exact List.inj_on_of_nodup_map h he he' hid

/-- A node is faulty if its cell is unknown, or one of its inputs has no wire or no source. -/
theorem faulty_iff (h : (c.nodes.map (·.id)).Nodup) {e : Element} (he : e ∈ (ofCircuit c).elements) :
    c.Faulty e.node.id ↔ e.cell = .unknown ∨ none ∈ e.cell.inputs ∨
      ∃ w ∈ e.cell.wires, w.source = none := by
  constructor
  · rintro (⟨type, hw⟩ | ⟨slots, hw⟩ | ⟨k, ⟨e', he', hid, w, hw, hk⟩, hundeclared, -⟩)
    · obtain ⟨e', he', hcell, hid, -⟩ := Circuit.unknownType_mem_warnings_iff.1 hw
      exact Or.inl (eq_of_id_eq h he he' hid ▸ hcell)
    · obtain ⟨e', he', hport, hid⟩ := Circuit.unwiredInput_mem_warnings_iff.1 hw
      rw [eq_of_id_eq h he he' hid, Cell.inputs_eq]
      exact Or.inr (Or.inl (List.mem_map_of_mem hport))
    · obtain rfl := eq_of_id_eq h he' he hid
      obtain ⟨k', hk', -, hsource⟩ := of_mem_wires he hw
      obtain rfl := Option.some.inj (hk'.symm.trans hk)
      exact Or.inr (Or.inr ⟨w, hw, hsource.trans ((number?_eq_none_iff c).2 hundeclared)⟩)
  · rintro (hcell | hinput | ⟨w, hw, hsource⟩)
    · exact .unknownType _ (Circuit.unknownType_mem_warnings_iff.2 ⟨e, he, hcell, rfl, rfl⟩)
    · rw [Cell.inputs_eq] at hinput
      obtain ⟨⟨slots, _⟩, hport, rfl⟩ := List.mem_map.1 hinput
      exact .unwiredInput _ (Circuit.unwiredInput_mem_warnings_iff.2 ⟨e, he, hport, rfl⟩)
    · obtain ⟨k, hk, -, hk'⟩ := of_mem_wires he hw
      have hundeclared := (number?_eq_none_iff c).1 (hk'.symm.trans hsource)
      exact .unknownSource k ⟨e, he, rfl, w, hw, hk⟩ hundeclared
        (Circuit.unknownSource_mem_warnings_iff.2 ⟨k, List.mem_of_getElem? hk, hundeclared, rfl⟩)

/-- The output of a node is the final value of its signal. -/
theorem getElem?_evaluate {e : Element} (he : e ∈ (ofCircuit c).elements) (cap : ℕ)
    (inputs : Levels) : ((ofCircuit c).evaluate cap inputs).nodeOutputs[e.node.id]? =
      ((ofCircuit c).finals cap inputs).at? e.signal :=
  ((agrees_finals c cap inputs).at? he).symm

variable {inputs : Levels} {cap : ℕ}

/-- A signal has no final value if its node is faulty, or reads a signal that has none. -/
theorem at?_finals_eq_none_iff (h : (c.nodes.map (·.id)).Nodup) (hcap : c.nodes.length + 1 ≤ cap)
    {e : Element} (he : e ∈ (ofCircuit c).elements) :
    ((ofCircuit c).finals cap inputs).at? e.signal = none ↔ c.Faulty e.node.id ∨
      ∃ w ∈ e.cell.wires, ∃ s, w.source = some s ∧
        ((ofCircuit c).finals cap inputs).at? s = none := by
  have hkinds := Circuit.kindsAgree_of_nodup h
  have hheld := held_seed hkinds inputs
  rw [faulty_iff h he]
  by_cases hin : e.cell = .input
  · rw [at?_finals_of_input hkinds cap inputs he hin, hin]
    simp [Cell.inputs, Cell.wires]
  · have hdriven := Circuit.drivenIds_length_le c
    have hpasses : c.drivenIds.length + 1 ≤ cap := by omega
    have hconv := converged_relax hkinds inputs hpasses
    rw [finals, hheld.at?_eq_value? (oneCell hkinds) hconv he hin, Cell.value?_eq_none_iff,
      Cell.isDriven_eq_false_iff, or_iff_right hin, or_assoc, or_assoc]

/-- **A node has no output if it is faulty, or reads from a node that has none.** -/
theorem getElem?_evaluate_eq_none_iff (h : (c.nodes.map (·.id)).Nodup)
    (hcap : c.nodes.length + 1 ≤ cap) {id : String} (hid : id ∈ c.nodes.map (·.id)) :
    ((ofCircuit c).evaluate cap inputs).nodeOutputs[id]? = none ↔ c.Faulty id ∨
      ∃ id', c.ReadsFrom id id' ∧
        ((ofCircuit c).evaluate cap inputs).nodeOutputs[id']? = none := by
  obtain ⟨n, hn, rfl⟩ := List.mem_map.1 hid
  obtain ⟨e, he, rfl⟩ := exists_element hn
  have hnum := (of_mem_elements he).2.1
  rw [getElem?_evaluate he, at?_finals_eq_none_iff h hcap he]
  -- the sources of the wires of the element are what its node reads from
  refine or_congr_right ⟨?_, ?_⟩
  · rintro ⟨w, hw, s, hs, hnone⟩
    obtain ⟨e', he', rfl, hreads⟩ := exists_source he hw hs
    exact ⟨e'.node.id, hreads, (getElem?_evaluate he' cap inputs).trans hnone⟩
  · rintro ⟨id', hreads, hnone⟩
    obtain ⟨a, s, ha, hs, hfeeds⟩ := Circuit.readsFrom_iff.1 hreads
    obtain rfl := Option.some.inj (hnum.symm.trans ha)
    obtain ⟨e', he', hsignal, w, hw, hsource⟩ := feeds_iff.1 hfeeds
    obtain rfl := eq_of_id_eq h he' he (id_eq_of_signal_eq he' he hsignal)
    rw [evaluate, getElem?_nodeOutputs (sound_signals c), value?_of_number? hs] at hnone
    exact ⟨w, hw, s, hsource, hnone⟩

/-- **No node that feeds back into itself has an output**: none of its loop can be first. -/
theorem getElem?_evaluate_of_loop (h : (c.nodes.map (·.id)).Nodup) {id : String}
    (hloop : TransGen c.ReadsFrom id id) :
    ((ofCircuit c).evaluate cap inputs).nodeOutputs[id]? = none := by
  obtain ⟨_, hstep, -⟩ := TransGen.head'_iff.1 hloop
  obtain ⟨s, _, hs, -⟩ := Circuit.readsFrom_iff.1 hstep
  have hself := (Circuit.transGen_readsFrom_iff hs hs).1 hloop
  -- the signal before, on the path from a signal to itself, reaches itself as well
  have hstarved : Starved (ofCircuit c).elements {s | TransGen (ofCircuit c).Feeds s s} := by
    intro e he hself
    obtain ⟨b, hpath, hfeeds⟩ := TransGen.tail'_iff.1 hself
    obtain ⟨e', he', hsignal, w, hw, hsource⟩ := feeds_iff.1 hfeeds
    obtain rfl := eq_of_id_eq h he' he (id_eq_of_signal_eq he' he hsignal)
    exact ⟨w, hw, b, TransGen.head' hfeeds hpath, hsource⟩
  rw [evaluate, getElem?_nodeOutputs (sound_signals c), value?_of_number? hs]
  refine hstarved.after_relax cap (fun s hself => ?_) s hself
  -- a signal that is fed by another one is no input, and so not seeded
  obtain ⟨b, -, hfeeds⟩ := TransGen.tail'_iff.1 hself
  obtain ⟨e, he, rfl, w, hw, -⟩ := feeds_iff.1 hfeeds
  refine at?_seed_eq_none (Circuit.kindsAgree_of_nodup h) inputs he fun hin => ?_
  rw [hin] at hw
  exact absurd hw List.not_mem_nil

/-- Of the nodes that a missing value depends on, one is blamed: without a faulty one, the walk back
from missing value to missing value closes a loop. -/
theorem exists_blamed (h : (c.nodes.map (·.id)).Nodup) (hcap : c.nodes.length + 1 ≤ cap)
    {id : String} (hid : id ∈ c.nodes.map (·.id))
    (hnone : ((ofCircuit c).evaluate cap inputs).nodeOutputs[id]? = none) :
    ∃ id', ReflTransGen c.ReadsFrom id id' ∧ c.Blamed id' := by
  by_contra hno
  have hnext : ∀ x ∈ c.nodes.map (·.id), ReflTransGen c.ReadsFrom id x ∧
      ((ofCircuit c).evaluate cap inputs).nodeOutputs[x]? = none →
      ∃ y ∈ c.nodes.map (·.id), (ReflTransGen c.ReadsFrom id y ∧
        ((ofCircuit c).evaluate cap inputs).nodeOutputs[y]? = none) ∧ c.ReadsFrom x y := by
    rintro x hx ⟨hpath, hnone⟩
    rcases (getElem?_evaluate_eq_none_iff h hcap hx).1 hnone with hfaulty | ⟨y, hreads, hnone⟩
    · exact absurd ⟨x, hpath, Or.inl hfaulty⟩ hno
    · exact ⟨y, hreads.declared, ⟨hpath.tail hreads, hnone⟩, hreads⟩
  obtain ⟨x, -, ⟨hpath, -⟩, hloop⟩ := exists_transGen_self ⟨id, hid, .refl, hnone⟩ hnext
  exact hno ⟨x, hpath, Or.inr (Circuit.exists_feedbackLoop_iff.2 hloop)⟩

/-- What is blamed has no output, and nothing that depends on it has. -/
theorem getElem?_evaluate_of_blamed (h : (c.nodes.map (·.id)).Nodup)
    (hcap : c.nodes.length + 1 ≤ cap) {id id' : String} (hid : id ∈ c.nodes.map (·.id))
    (hpath : ReflTransGen c.ReadsFrom id id') (hblamed : c.Blamed id') :
    ((ofCircuit c).evaluate cap inputs).nodeOutputs[id]? = none := by
  induction hpath using ReflTransGen.head_induction_on with
  | refl =>
    rcases hblamed with hfaulty | hloop
    · exact (getElem?_evaluate_eq_none_iff h hcap hid).2 (Or.inl hfaulty)
    · exact getElem?_evaluate_of_loop h (Circuit.exists_feedbackLoop_iff.1 hloop)
  | head hreads _ ih =>
    have hnone := ih hreads.declared
    exact (getElem?_evaluate_eq_none_iff h hcap hid).2 (Or.inr ⟨_, hreads, hnone⟩)

/-- **The warnings explain exactly the missing values.** Unless ids are declared twice, and under a
cap that lets the evaluation settle, a node has no output if and only if it depends on one that a
warning blames. So without warnings every node has an output. -/
theorem evaluate_diagnosed (c : Circuit) (hdup : ∀ id k, .duplicateId id k ∉ c.warnings)
    (inputs : Levels) {cap : ℕ} (hcap : c.nodes.length + 1 ≤ cap) :
    (∀ id ∈ c.nodes.map (·.id),
      ((ofCircuit c).evaluate cap inputs).nodeOutputs[id]? = none ↔
        ∃ id', ReflTransGen c.ReadsFrom id id' ∧ c.Blamed id') ∧
    (c.warnings = [] → ∀ id ∈ c.nodes.map (·.id),
      ((ofCircuit c).evaluate cap inputs).nodeOutputs[id]?.isSome) := by
  have h := Circuit.no_duplicateId_iff.1 hdup
  constructor
  · intro id hid
    refine ⟨exists_blamed h hcap hid, ?_⟩
    rintro ⟨id', hpath, hblamed⟩
    exact getElem?_evaluate_of_blamed h hcap hid hpath hblamed
  · intro hnil id hid
    refine Option.isSome_iff_ne_none.2 fun hnone => ?_
    obtain ⟨id', -, hblamed⟩ := exists_blamed h hcap hid hnone
    -- every way to be blamed names a warning
    unfold Circuit.Blamed at hblamed
    rcases hblamed with (⟨_, hw⟩ | ⟨_, hw⟩ | ⟨_, _, _, hw⟩) | ⟨_, hw, -⟩
    all_goals
      rw [hnil] at hw
      cases hw

/-- The two gates that read each other have no output. -/
theorem latch_diagnosed :
    (∀ id k, .duplicateId id k ∉ Circuit.latch.warnings) ∧ Circuit.latch.nodes.length + 1 ≤ 5 ∧
      ((ofCircuit .latch).evaluate 5 ∅).nodeOutputs["q"]? = none := by
  have hdup : ∀ id k, .duplicateId id k ∉ Circuit.latch.warnings :=
    Circuit.no_duplicateId_iff.2 (by decide +kernel)
  have hcap : Circuit.latch.nodes.length + 1 ≤ 5 := by decide
  have hloop : Circuit.latch.Blamed "q" := Or.inr ⟨["q", "qn"], by decide +kernel, by decide⟩
  refine ⟨hdup, hcap, ?_⟩
  exact ((evaluate_diagnosed .latch hdup ∅ hcap).1 "q" (by decide)).2 ⟨"q", .refl, hloop⟩

end Netlist

end Schematic
