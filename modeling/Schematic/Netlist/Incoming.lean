import Std.Data.TreeMap
import Schematic.Circuit

/-!
# Incoming connections

The connections of a circuit, indexed by the id and the slot of their target. A connection is kept
with its place in declaration order; of several connections into one slot only the earliest is kept.

* `Incoming.ofConnections`: the index, built once.
* `Incoming.first?`: the earliest connection into a node on any of some slots.
* `Incoming.first?_ofConnections`, `Incoming.firstAny?_ofConnections`: **a look-up finds what a scan
  of all connections would find.**
-/

namespace Schematic

/-- The earliest connections into the nodes of a circuit. -/
structure Incoming where
  /-- For each target id and slot, the earliest connection. -/
  bySlot : Std.TreeMap String (Std.TreeMap String (Connection × Nat))
  /-- For each target id, the earliest connection on any slot. -/
  byTarget : Std.TreeMap String (Connection × Nat)

namespace Incoming

def empty : Incoming := ⟨∅, ∅⟩

/-- Enters a connection that is later than all others. -/
def add (m : Incoming) (c : Connection × Nat) : Incoming where
  bySlot := m.bySlot.insert c.1.target.node
    ((m.bySlot.getD c.1.target.node ∅).insertIfNew c.1.target.slot c)
  byTarget := m.byTarget.insertIfNew c.1.target.node c

/-- Indexes the connections of a circuit. -/
def ofConnections (cs : List Connection) : Incoming := cs.zipIdx.foldl add empty

/-- The earliest connection into one slot. -/
def earliest? (m : Incoming) (target slot : String) : Option (Connection × Nat) := do
  let slots ← m.bySlot[target]?
  slots[slot]?

/-- The earliest connection into `target` on any of `slots`. -/
def first? (m : Incoming) (target : String) (slots : List String) : Option (Connection × Nat) :=
  (slots.filterMap (m.earliest? target)).minOn? (·.2)

/-- The earliest connection into `target` on any slot. -/
def firstAny? (m : Incoming) (target : String) : Option (Connection × Nat) := m.byTarget[target]?

/-- An entry that is there stays. -/
theorem getElem?_insertIfNew_or {α : Type} (t : Std.TreeMap String α) (k a : String) (v : α) :
    (t.insertIfNew k v)[a]? = (t[a]?).or (if k = a then some v else none) := by
  simp only [Std.TreeMap.getElem?_insertIfNew, Std.LawfulEqCmp.compare_eq_iff_eq]
  by_cases h : k = a
  · subst h
    by_cases hk : k ∈ t
    · simp [hk]
    · rw [Std.TreeMap.getElem?_eq_none hk]
      simp [hk]
  · simp [h]

theorem earliest?_add (m : Incoming) (c : Connection × Nat) (target slot : String) :
    (m.add c).earliest? target slot =
      (m.earliest? target slot).or (if c.1.target = ⟨target, slot⟩ then some c else none) := by
  obtain ⟨⟨source, ⟨node, s⟩⟩, k⟩ := c
  simp only [earliest?, add, Std.TreeMap.getElem?_insert, Std.LawfulEqCmp.compare_eq_iff_eq,
    Endpoint.mk.injEq, Option.bind_eq_bind]
  by_cases hn : node = target
  · subst hn
    simp only [if_true, true_and, Option.bind_some, Std.TreeMap.getD_eq_getD_getElem?,
      getElem?_insertIfNew_or]
    cases m.bySlot[node]? <;> simp
  · simp [hn]

theorem earliest?_foldl_add (l : List (Connection × Nat)) (m : Incoming) (target slot : String) :
    (l.foldl add m).earliest? target slot =
      (m.earliest? target slot).or (l.find? fun c => c.1.target = ⟨target, slot⟩) := by
  induction l generalizing m with
  | nil => simp
  | cons c l ih =>
    rw [List.foldl_cons, ih, earliest?_add, Option.or_assoc, List.find?_cons]
    by_cases h : c.1.target = ⟨target, slot⟩ <;> simp [h]

/-- An entry is what a scan for its slot would find. -/
theorem earliest?_ofConnections (cs : List Connection) (target slot : String) :
    (ofConnections cs).earliest? target slot =
      cs.zipIdx.find? fun c => c.1.target = ⟨target, slot⟩ := by
  rw [ofConnections, earliest?_foldl_add]
  simp [earliest?, empty]

/-- The member of a list that comes before all others. -/
theorem minOn?_eq_some_of_first {l : List (Connection × Nat)} {c : Connection × Nat} (hc : c ∈ l)
    (h : ∀ d ∈ l, d = c ∨ c.2 < d.2) : l.minOn? (·.2) = some c := by
  obtain ⟨d, hd⟩ := Option.isSome_iff_exists.1 (List.isSome_minOn?_of_mem (f := (·.2)) hc)
  have hle := List.apply_get_minOn?_le_of_mem (f := (·.2)) hc
  simp only [hd, Option.get_some] at hle
  rcases h d (List.minOn?_mem hd) with rfl | hlt
  · exact hd
  · omega

/-- A connection into none of the slots is not found. -/
theorem filterMap_find?_cons {c : Connection × Nat} {target : String} {slots : List String}
    (h : ¬(c.1.target.node = target ∧ c.1.target.slot ∈ slots)) (l : List (Connection × Nat)) :
    (slots.filterMap fun s => (c :: l).find? fun c => c.1.target = ⟨target, s⟩) =
      slots.filterMap fun s => l.find? fun c => c.1.target = ⟨target, s⟩ := by
  induction slots with
  | nil => rfl
  | cons s slots ih =>
    have hs : c.1.target ≠ ⟨target, s⟩ := fun he => h (by simp [he])
    have ih := ih fun hm => h ⟨hm.1, List.mem_cons_of_mem _ hm.2⟩
    have hc : (c :: l).find? (fun c => c.1.target = ⟨target, s⟩) =
        l.find? fun c => c.1.target = ⟨target, s⟩ := List.find?_cons_of_neg (by simpa using hs)
    rw [List.filterMap_cons, List.filterMap_cons, hc, ih]

/-- Of the connections found slot by slot, the earliest is the one that a single scan finds. -/
theorem minOn?_filterMap_find? {l : List (Connection × Nat)} (hl : l.Pairwise (·.2 < ·.2))
    (target : String) (slots : List String) :
    (slots.filterMap fun s => l.find? fun c => c.1.target = ⟨target, s⟩).minOn? (·.2) =
      l.find? fun c => c.1.target.node = target && slots.contains c.1.target.slot := by
  induction l with
  | nil => simp [List.filterMap_eq_nil_iff.2 fun _ _ => rfl]
  | cons c l ih =>
    obtain ⟨hc, hl⟩ := List.pairwise_cons.1 hl
    by_cases h : c.1.target.node = target ∧ c.1.target.slot ∈ slots
    · rw [List.find?_cons_of_pos (by simp [h.1, h.2])]
      refine minOn?_eq_some_of_first (List.mem_filterMap.2 ⟨_, h.2, ?_⟩) fun d hd => ?_
      · exact List.find?_cons_of_pos (by simp [← h.1])
      · obtain ⟨s, -, hs⟩ := List.mem_filterMap.1 hd
        rcases List.mem_cons.1 (List.mem_of_find?_eq_some hs) with rfl | hm
        · exact Or.inl rfl
        · exact Or.inr (hc d hm)
    · rw [List.find?_cons_of_neg (by simpa using h), ← ih hl]
      rw [filterMap_find?_cons (by simpa using h)]

theorem pairwise_zipIdx (cs : List Connection) : cs.zipIdx.Pairwise (·.2 < ·.2) := by
  have h : (cs.zipIdx.map Prod.snd).Pairwise (· < ·) := by
    rw [List.zipIdx_map_snd]; exact List.pairwise_lt_range'
  exact List.pairwise_map.1 h

/-- A scan that keeps places finds what a scan without them finds. -/
theorem map_fst_find?_zipIdx (cs : List Connection) (p : Connection → Bool) :
    (cs.zipIdx.find? fun c => p c.1).map Prod.fst = cs.find? p := by
  have h : (cs.zipIdx.map Prod.fst).find? p = (cs.zipIdx.find? fun c => p c.1).map Prod.fst :=
    List.find?_map
  rw [← h, List.zipIdx_map_fst]

/-- **A look-up finds what a scan of all connections would find.** -/
theorem first?_ofConnections (cs : List Connection) (target : String) (slots : List String) :
    (ofConnections cs).first? target slots =
      cs.zipIdx.find? fun c => c.1.target.node = target && slots.contains c.1.target.slot := by
  rw [first?, funext (earliest?_ofConnections cs target)]
  exact minOn?_filterMap_find? (pairwise_zipIdx cs) target slots

theorem firstAny?_foldl_add (l : List (Connection × Nat)) (m : Incoming) (target : String) :
    (l.foldl add m).firstAny? target =
      (m.firstAny? target).or (l.find? fun c => c.1.target.node = target) := by
  induction l generalizing m with
  | nil => simp
  | cons c l ih =>
    rw [List.foldl_cons, ih, List.find?_cons, firstAny?, add, getElem?_insertIfNew_or, ← firstAny?,
      Option.or_assoc]
    by_cases h : c.1.target.node = target <;> simp [h]

/-- **The earliest connection on any slot is what a scan for its target would find.** -/
theorem firstAny?_ofConnections (cs : List Connection) (target : String) :
    (ofConnections cs).firstAny? target = cs.zipIdx.find? fun c => c.1.target.node = target := by
  rw [ofConnections, firstAny?_foldl_add]
  simp [firstAny?, empty]

end Incoming

end Schematic
