import Schematic.Proofs.Reordering

/-!
# Consistent values

Where a relaxation settles, whatever values it starts from: elements may conflict, and the wiring may
have loops.

* `Cell.Computes`: what a cell computes when all its sources are known.
* `Values.Consistent`: every output and gate that computes a value has it.
* `pass_count_eq_zero_iff`: **a pass counts no change exactly on consistent values**, although each of
  its writes is seen by the elements after it, and several elements may write one signal.
* `iterations_of_converged`, `iterations_of_not_converged`: how many passes are made.
* `Netlist.relax_consistent`: **a settled relaxation is a consistent state**, and a consistent state
  settles at once.
-/

namespace Schematic

/-! ## Consistency -/

/-- What a cell computes from the values at the sources of its wires. All its inputs are wired, to
declared sources, and the values of these are known. -/
inductive Cell.Computes (values : Values) : Cell → Bool → Prop
  | output {k s : ℕ} {x : Bool} (hx : values.at? s = some x) :
    Computes values (.output (some ⟨k, some s⟩)) x
  | unary {g : Gate} {k s : ℕ} {x : Bool} (hx : values.at? s = some x) :
    Computes values (.unary g (some ⟨k, some s⟩)) (g.eval [x])
  | binary {g : Gate} {k s l t : ℕ} {x y : Bool} (hx : values.at? s = some x)
    (hy : values.at? t = some y) :
    Computes values (.binary g (some ⟨k, some s⟩) (some ⟨l, some t⟩)) (g.eval [x, y])

/-- **Every output and gate whose sources are all known has the value computed from them.** -/
def Values.Consistent (elements : List Element) (values : Values) : Prop :=
  ∀ e ∈ elements, ∀ v, e.cell.Computes values v → values.at? e.signal = some v

variable {elements : List Element} {values : Values}

theorem Values.read_eq_some_iff {input : Option Wire} {v : Bool} :
    values.read input = some v ↔ ∃ k s, input = some ⟨k, some s⟩ ∧ values.at? s = some v := by
  rw [read_eq]
  constructor
  · intro h
    obtain ⟨⟨k, source⟩, rfl, hsource⟩ := Option.bind_eq_some_iff.1 h
    obtain ⟨s, rfl, hs⟩ := Option.bind_eq_some_iff.1 hsource
    exact ⟨k, s, rfl, hs⟩
  · rintro ⟨k, s, rfl, h⟩
    exact h

/-- A cell has the value that it computes. -/
theorem Cell.computes_iff {cell : Cell} {v : Bool} :
    cell.Computes values v ↔ cell.value? values = some v := by
  constructor
  · intro h
    cases h with
    | @output k s x hx => exact Values.read_eq_some_iff.2 ⟨k, s, rfl, hx⟩
    | @unary g k s x hx =>
      have hread := Values.read_eq_some_iff.2 ⟨k, s, rfl, hx⟩
      exact Option.map_eq_some_iff.2 ⟨x, hread, rfl⟩
    | @binary g k s l t x y hx hy =>
      have hread := Values.read_eq_some_iff.2 ⟨k, s, rfl, hx⟩
      have hread' := Values.read_eq_some_iff.2 ⟨l, t, rfl, hy⟩
      simp only [value?, hread, hread']
  · intro h
    cases cell with
    | input => cases h
    | unknown => cases h
    | output w =>
      obtain ⟨k, s, rfl, hx⟩ := Values.read_eq_some_iff.1 h
      exact .output hx
    | unary g w =>
      obtain ⟨x, hread, rfl⟩ := Option.map_eq_some_iff.1 h
      obtain ⟨k, s, rfl, hx⟩ := Values.read_eq_some_iff.1 hread
      exact .unary hx
    | binary g w₁ w₂ =>
      simp only [value?] at h
      split at h
      · rename_i x y hread hread'
        cases h
        obtain ⟨k, s, rfl, hx⟩ := Values.read_eq_some_iff.1 hread
        obtain ⟨l, t, rfl, hy⟩ := Values.read_eq_some_iff.1 hread'
        exact .binary hx hy
      · cases h

/-- A cell that computes a value reads from a source. -/
theorem Cell.Computes.exists_source {cell : Cell} {values : Values} {v : Bool}
    (h : cell.Computes values v) : ∃ w ∈ cell.wires, ∃ s, w.source = some s := by
  cases h <;> exact ⟨_, List.mem_cons_self, _, rfl⟩

theorem Values.consistent_iff_closed : values.Consistent elements ↔ values.Closed elements := by
  simp only [Consistent, Closed, Cell.computes_iff]

/-- Elements that write one signal agree in a consistent state. -/
theorem Values.Consistent.agree (h : values.Consistent elements) {e e' : Element} (he : e ∈ elements)
    (he' : e' ∈ elements) (hsignal : e.signal = e'.signal) {v v' : Bool}
    (hv : e.cell.Computes values v) (hv' : e'.cell.Computes values v') : v = v' := by
  have hheld := h e he v hv
  rw [hsignal, h e' he' v' hv'] at hheld
  exact (Option.some.inj hheld).symm

/-! ## Passes -/

/-- Where all is up to date, updates do nothing. -/
theorem foldl_update_of_closed (h : values.Closed elements) {es : List Element}
    (hes : ∀ e ∈ es, e ∈ elements) (count : ℕ) :
    es.foldl Element.update (values, count) = (values, count) := by
  induction es with
  | nil => rfl
  | cons e es ih =>
    have he := hes e List.mem_cons_self
    have hsame : e.update (values, count) = (values, count) := by
      rcases e.update_cases (values, count) with ⟨hu, -⟩ | ⟨v, hv, hnew, -⟩
      · exact hu
      · exact absurd (h e he v hv) hnew
    rw [List.foldl_cons, hsame]
    exact ih fun e' he' => hes e' (List.mem_cons_of_mem _ he')

theorem pass_of_closed (h : values.Closed elements) : pass elements values = (values, 0) :=
  foldl_update_of_closed h (fun _ he => he) 0

/-- **A pass counts no change exactly where every element holds what its cell computes.** -/
theorem pass_count_eq_zero_iff : (pass elements values).2 = 0 ↔ values.Closed elements := by
  refine ⟨fun hz => (pass_of_settled hz).2, fun h => ?_⟩
  rw [pass_of_closed h]

/-- Where all is up to date, a relaxation settles at once. -/
theorem relax_of_closed (h : values.Closed elements) {cap : ℕ} (hcap : 1 ≤ cap) :
    relax elements cap values = ⟨values, 1, true⟩ := by
  obtain ⟨cap, rfl⟩ := Nat.exists_eq_add_of_le' hcap
  rw [relax_succ_of_settled elements (pass_count_eq_zero_iff.2 h), pass_of_closed h]

/-! ## Runs -/

variable {cap : ℕ}

theorem closed_of_converged (h : (relax elements cap values).converged = true) :
    (relax elements cap values).values.Closed elements := fun _ he _ hv =>
  at?_of_converged h he hv

/-- A relaxation that settles has made a pass, and no more passes than it may. -/
theorem iterations_of_converged (h : (relax elements cap values).converged = true) :
    1 ≤ (relax elements cap values).iterations ∧ (relax elements cap values).iterations ≤ cap := by
  induction cap generalizing values with
  | zero => cases h
  | succ cap ih =>
    by_cases hz : (pass elements values).2 = 0
    · rw [relax_succ_of_settled elements hz]
      exact ⟨le_rfl, Nat.le_add_left _ _⟩
    · rw [relax_succ_of_changed elements hz] at h ⊢
      obtain ⟨-, hle⟩ := ih h
      exact ⟨Nat.le_add_left _ _, Nat.add_le_add_right hle 1⟩

/-- A relaxation that does not settle makes as many passes as it may. -/
theorem iterations_of_not_converged (h : (relax elements cap values).converged = false) :
    (relax elements cap values).iterations = cap := by
  induction cap generalizing values with
  | zero => rfl
  | succ cap ih =>
    by_cases hz : (pass elements values).2 = 0
    · rw [relax_succ_of_settled elements hz] at h
      cases h
    · rw [relax_succ_of_changed elements hz] at h ⊢
      exact congrArg (· + 1) (ih h)

/-- **A relaxation that settles in its first pass started where all was up to date.** -/
theorem closed_of_iterations_eq_one (hconv : (relax elements cap values).converged = true)
    (hone : (relax elements cap values).iterations = 1) : values.Closed elements := by
  cases cap with
  | zero => cases hconv
  | succ cap =>
    by_contra hclosed
    rw [relax_succ_of_changed elements (mt pass_count_eq_zero_iff.1 hclosed)] at hconv hone
    -- the rest of the relaxation settles as well, so it makes a pass of its own
    have hmore := (iterations_of_converged hconv).1
    simp only at hone
    omega

namespace Netlist

/-- **A settled relaxation is a consistent state**, from any values. If it settles, it takes at least
one pass and at most `cap`, and it ends in a consistent state, so nodes with one id agree on what they
compute. If not, it takes `cap` passes. Under a cap of one pass or more, it settles in its first pass
exactly if it starts in a consistent state, and then leaves it as it is. -/
theorem relax_consistent (c : Circuit) (values : Values) (cap : ℕ) :
    ((relax (ofCircuit c).elements cap values).converged = true →
      1 ≤ (relax (ofCircuit c).elements cap values).iterations ∧
      (relax (ofCircuit c).elements cap values).iterations ≤ cap ∧
      (relax (ofCircuit c).elements cap values).values.Consistent (ofCircuit c).elements ∧
      ∀ e ∈ (ofCircuit c).elements, ∀ e' ∈ (ofCircuit c).elements, e.node.id = e'.node.id →
        ∀ v v', e.cell.Computes (relax (ofCircuit c).elements cap values).values v →
          e'.cell.Computes (relax (ofCircuit c).elements cap values).values v' → v = v') ∧
    ((relax (ofCircuit c).elements cap values).converged = false →
      (relax (ofCircuit c).elements cap values).iterations = cap) ∧
    (1 ≤ cap →
      ((relax (ofCircuit c).elements cap values).iterations = 1 ∧
        (relax (ofCircuit c).elements cap values).converged = true ↔
          values.Consistent (ofCircuit c).elements) ∧
      (values.Consistent (ofCircuit c).elements →
        relax (ofCircuit c).elements cap values = ⟨values, 1, true⟩)) := by
  refine ⟨fun hconv => ?_, iterations_of_not_converged, fun hcap => ?_⟩
  · obtain ⟨hone, hle⟩ := iterations_of_converged hconv
    have hfinal := Values.consistent_iff_closed.2 (closed_of_converged hconv)
    refine ⟨hone, hle, hfinal, fun e he e' he' hid v v' hv hv' => ?_⟩
    exact hfinal.agree he he' (signal_eq_of_id_eq he he' hid) hv hv'
  · rw [Values.consistent_iff_closed]
    refine ⟨⟨fun h => closed_of_iterations_eq_one h.2 h.1, fun h => ?_⟩, (relax_of_closed · hcap)⟩
    rw [relax_of_closed h hcap]
    exact ⟨rfl, rfl⟩

end Netlist

/-- Two gates with one id, on the same two inputs. -/
def Circuit.twins : Circuit where
  nodes := [⟨"A", "In", 0, 0, []⟩, ⟨"B", "In", 0, 0, []⟩, ⟨"x", "AND", 0, 0, []⟩, ⟨"x", "OR", 0, 0, []⟩]
  connections := [⟨⟨"A", "out"⟩, ⟨"x", "a"⟩⟩, ⟨⟨"B", "out"⟩, ⟨"x", "b"⟩⟩]

/-- The gates agree if the inputs do. Otherwise each overwrites the other: a pass leaves all values as
they were, but it has made two changes, so it does not count as settled. -/
theorem Netlist.twins_consistent :
    (relax (ofCircuit .twins).elements 4 #[some true, some true, none]).converged = true ∧
    (relax (ofCircuit .twins).elements 4 #[some true, some true, none]).values.Consistent
      (ofCircuit .twins).elements ∧
    pass (ofCircuit .twins).elements #[some true, some false, some true] =
      (#[some true, some false, some true], 2) ∧
    ¬Values.Consistent (ofCircuit .twins).elements #[some true, some false, some true] := by
  have hconv : (relax (ofCircuit .twins).elements 4 #[some true, some true, none]).converged = true := by
    decide +kernel
  obtain ⟨-, -, hfinal, -⟩ := (relax_consistent .twins #[some true, some true, none] 4).1 hconv
  refine ⟨hconv, hfinal, by decide +kernel, fun hconsistent => ?_⟩
  obtain ⟨-, -, hfirst⟩ := relax_consistent .twins #[some true, some false, some true] 4
  have hsettled := (hfirst (by decide)).2 hconsistent
  exact absurd (congrArg Relaxed.converged hsettled) (by decide +kernel)

end Schematic
