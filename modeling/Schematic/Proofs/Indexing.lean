import Mathlib.Order.Bounds.Basic
import Schematic.Proofs.Wiring

/-!
# The index of connections

Every wire, warning and pin goes back to a look-up in the index of a netlist. What a look-up finds is said
here on the list of connections alone.

* `find?_zipIdx_eq_some_iff`: what a scan with places finds.
* `Circuit.places`: where the connections with some property stand.
* `Netlist.connection_lookup`: **a look-up in the index finds the least place** of a connection into a node,
  on some slots or on any.
-/

namespace Schematic

/-- A scan with places finds the first place at which the scanned list has what is looked for. -/
theorem find?_zipIdx_eq_some_iff {α : Type} {l : List α} {p : α → Bool} {a : α} {i : ℕ} :
    l.zipIdx.find? (fun x => p x.1) = some (a, i) ↔
      l[i]? = some a ∧ p a = true ∧ ∀ j < i, ∀ b, l[j]? = some b → p b = false := by
  rw [List.find?_eq_some_iff_getElem]
  simp only [List.getElem_zipIdx, Nat.zero_add, Prod.mk.injEq, List.length_zipIdx,
    Bool.not_eq_eq_eq_not, Bool.not_true, List.getElem?_eq_some_iff]
  constructor
  · rintro ⟨hp, _, hi, ⟨rfl, rfl⟩, hfirst⟩
    exact ⟨⟨hi, rfl⟩, hp, fun j hj b ⟨_, hb⟩ => hb ▸ hfirst j hj⟩
  · rintro ⟨⟨hi, rfl⟩, hp, hfirst⟩
    exact ⟨hp, i, hi, ⟨rfl, rfl⟩, fun j hj => hfirst j hj _ ⟨_, rfl⟩⟩

namespace Circuit

variable {c : Circuit} {k : Connection} {i : ℕ}

/-- The places, in declaration order, of the connections with a property. -/
def places (c : Circuit) (p : Connection → Prop) : Set ℕ :=
  {i | ∃ k, c.connections[i]? = some k ∧ p k}

/-- A scan finds the least place, and the connection there. -/
theorem find?_connections_eq_some_iff (p : Connection → Prop) [DecidablePred p] :
    c.connections.zipIdx.find? (fun x => p x.1) = some (k, i) ↔
      c.connections[i]? = some k ∧ IsLeast (c.places p) i := by
  have hscan := find?_zipIdx_eq_some_iff (l := c.connections) (p := fun k => p k) (a := k) (i := i)
  simp only [decide_eq_true_eq, decide_eq_false_iff_not] at hscan
  rw [hscan]
  refine and_congr_right fun hk => ?_
  constructor
  · rintro ⟨hp, hfirst⟩
    refine ⟨⟨k, hk, hp⟩, ?_⟩
    rintro j ⟨b, hb, hpb⟩
    by_contra hlt
    exact hfirst j (by omega) b hb hpb
  · rintro ⟨⟨b, hb, hpb⟩, hleast⟩
    obtain rfl : b = k := Option.some.inj (hb.symm.trans hk)
    refine ⟨hpb, fun j hj b hb hpb => ?_⟩
    have hle : i ≤ j := hleast ⟨b, hb, hpb⟩
    omega

/-- A scan finds nothing if there is nothing to be found. -/
theorem find?_connections_eq_none_iff (p : Connection → Prop) [DecidablePred p] :
    c.connections.zipIdx.find? (fun x => p x.1) = none ↔ c.places p = ∅ := by
  rw [List.find?_eq_none, Set.eq_empty_iff_forall_notMem]
  constructor
  · intro h j hj
    obtain ⟨b, hb, hpb⟩ := hj
    have hmem : (b, j) ∈ c.connections.zipIdx := List.mem_zipIdx_iff_getElem?.2 hb
    exact h (b, j) hmem (decide_eq_true hpb)
  · intro h x hx hpx
    exact h x.2 ⟨x.1, List.mem_zipIdx_iff_getElem?.1 hx, of_decide_eq_true hpx⟩

end Circuit

open Circuit in
/-- **A look-up in the index is a scan of all connections.** It finds the connection at the least of the
places that a connection into the node has, on any of the given slots or on any slot at all, and it finds
nothing exactly if there is no such place. The node need not be declared, and the slots may be given in any
order, more than once or not at all. -/
theorem Netlist.connection_lookup (c : Circuit) (target : String) :
    (∀ slots k i, (ofCircuit c).incoming.first? target slots = some (k, i) ↔ c.connections[i]? = some k ∧
      IsLeast (c.places fun k => k.target.node = target ∧ k.target.slot ∈ slots) i) ∧
    (∀ slots, (ofCircuit c).incoming.first? target slots = none ↔
      (c.places fun k => k.target.node = target ∧ k.target.slot ∈ slots) = ∅) ∧
    (∀ k i, (ofCircuit c).incoming.firstAny? target = some (k, i) ↔ c.connections[i]? = some k ∧
      IsLeast (c.places fun k => k.target.node = target) i) ∧
    ((ofCircuit c).incoming.firstAny? target = none ↔ (c.places fun k => k.target.node = target) = ∅) := by
  have hslots : ∀ slots, (ofCircuit c).incoming.first? target slots = c.connections.zipIdx.find? fun k =>
      decide (k.1.target.node = target ∧ k.1.target.slot ∈ slots) := by
    intro slots
    rw [show (ofCircuit c).incoming.first? target slots = _ from Incoming.first?_ofConnections _ _ _]
    simp only [Bool.decide_and, List.contains_eq_mem]
  have hany : (ofCircuit c).incoming.firstAny? target = c.connections.zipIdx.find? fun k =>
      decide (k.1.target.node = target) := Incoming.firstAny?_ofConnections _ _
  refine ⟨fun slots k i => ?_, fun slots => ?_, fun k i => ?_, ?_⟩
  · rw [hslots]
    exact find?_connections_eq_some_iff fun k => k.target.node = target ∧ k.target.slot ∈ slots
  · rw [hslots]
    exact find?_connections_eq_none_iff fun k => k.target.node = target ∧ k.target.slot ∈ slots
  · rw [hany]
    exact find?_connections_eq_some_iff fun k => k.target.node = target
  · rw [hany]
    exact find?_connections_eq_none_iff fun k => k.target.node = target

end Schematic
