import Mathlib.Data.Finset.Card
import Mathlib.Data.List.Chain
import Mathlib.Data.List.Dedup
import Schematic.Proofs.Wiring

/-!
# Known values

What a relaxation keeps when all elements that write one signal have one cell, as they do when nodes
with one id are of one kind. The wiring may have loops.

* `Values.Below`: one vector of values keeps what another one knows.
* `Held`: **every known value of a driven signal is what its cell computes.** Kept by every update
  (`Held.update`), so an update never changes a known value.
* `pending`: the driven signals that are not known. A pass makes as many signals known as it counts
  changes (`Held.after_pass`), so pending signals bound the passes (`Held.converged`).
* `relaxStates`: the values before and after every update of a relaxation;
  `Held.pairwise_relaxStates`: each is below all later ones.
-/

namespace Schematic

/-! ## Order -/

namespace Values

/-- What is known in `a` is known, with the same value, in `b`. -/
def Below (a b : Values) : Prop := ∀ s v, a.at? s = some v → b.at? s = some v

theorem Below.refl (a : Values) : a.Below a := fun _ _ h => h

theorem Below.trans {a b d : Values} (h : a.Below b) (h' : b.Below d) : a.Below d := by
  intro s v hv
  exact h' s v (h s v hv)

instance : IsTrans Values Below := ⟨fun _ _ _ => Below.trans⟩

theorem Below.read {a b : Values} (h : a.Below b) {wire : Option Wire} {v : Bool}
    (hv : a.read wire = some v) : b.read wire = some v := by
  rw [read_eq] at hv ⊢
  obtain ⟨w, hw, hv⟩ := Option.bind_eq_some_iff.1 hv
  obtain ⟨s, hs, hv⟩ := Option.bind_eq_some_iff.1 hv
  exact Option.bind_eq_some_iff.2 ⟨w, hw, Option.bind_eq_some_iff.2 ⟨s, hs, h s v hv⟩⟩

/-- **A cell computes the same from more.** -/
theorem Below.value? {a b : Values} (h : a.Below b) {cell : Cell} {v : Bool}
    (hv : cell.value? a = some v) : cell.value? b = some v := by
  cases cell with
  | input => exact hv
  | unknown => exact hv
  | output w => exact h.read hv
  | unary g w =>
    obtain ⟨x, hx, rfl⟩ := Option.map_eq_some_iff.1 hv
    exact Option.map_eq_some_iff.2 ⟨x, h.read hx, rfl⟩
  | binary g w₁ w₂ =>
    simp only [Cell.value?] at hv ⊢
    split at hv
    · rename_i x y hx hy
      rw [h.read hx, h.read hy]
      exact hv
    · cases hv

end Values

/-! ## The invariant -/

/-- Elements that write one signal have one cell. -/
def OneCell (elements : List Element) : Prop :=
  ∀ e ∈ elements, ∀ e' ∈ elements, e.signal = e'.signal → e.cell = e'.cell

/-- Every known value that is not driven from outside is what its cell computes from the others. -/
structure Held (elements : List Element) (values : Values) : Prop where
  inBounds : ∀ e ∈ elements, e.signal < values.size
  computed : ∀ e ∈ elements, e.cell ≠ .input → ∀ v, values.at? e.signal = some v →
    e.cell.value? values = some v

/-- The driven signals that are not known. -/
def pendingSignals (elements : List Element) (values : Values) : Finset ℕ :=
  ((elements.filter (·.cell.kind.isDriven)).map (·.signal)).toFinset.filter (values.at? · = none)

/-- How many driven signals are not known. -/
def pending (elements : List Element) (values : Values) : ℕ := (pendingSignals elements values).card

variable {elements : List Element} {state : Values × ℕ} {values : Values}

theorem mem_pendingSignals {s : ℕ} : s ∈ pendingSignals elements values ↔
    (∃ e ∈ elements, e.cell.kind.isDriven = true ∧ e.signal = s) ∧ values.at? s = none := by
  simp [pendingSignals, and_assoc]

/-- A write that is counted makes its signal known. -/
theorem Held.at?_eq_none (h : Held elements values) {e : Element} (he : e ∈ elements) {v : Bool}
    (hv : e.cell.value? values = some v) (hnew : values.at? e.signal ≠ some v) :
    values.at? e.signal = none := by
  have hin := Cell.ne_input_of_value? hv
  cases hk : values.at? e.signal with
  | none => rfl
  | some w =>
    have := h.computed e he hin w hk
    rw [hv] at this
    exact absurd (this ▸ hk) hnew

/-- **An update keeps the invariant and all that is known**, and for every change that it counts a
driven signal becomes known. -/
theorem Held.update (hone : OneCell elements) (h : Held elements state.1) {e : Element}
    (he : e ∈ elements) :
    Held elements (e.update state).1 ∧ state.1.Below (e.update state).1 ∧
      (e.update state).2 + pending elements (e.update state).1 ≤ state.2 + pending elements state.1 := by
  rcases e.update_cases state with ⟨hu, -⟩ | ⟨v, hv, hnew, hu⟩
  · rw [hu]
    exact ⟨h, Values.Below.refl _, le_rfl⟩
  have hnone := h.at?_eq_none he hv hnew
  have hwrite := state.1.at?_write (h.inBounds e he) (some v)
  rw [hu]
  set next : Values := state.1.setIfInBounds e.signal (some v)
  -- the written signal was unknown before, so nothing is lost
  have hbelow : state.1.Below next := by
    intro t w hw
    rw [hwrite]
    split
    · rename_i ht
      rw [← ht, hnone] at hw
      cases hw
    · exact hw
  refine ⟨⟨fun e' he' => ?_, fun e' he' hin w hw => ?_⟩, hbelow, ?_⟩
  · rw [Array.size_setIfInBounds]
    exact h.inBounds e' he'
  · rw [hwrite] at hw
    split at hw
    · -- the written signal: its elements all have the cell that was just computed
      rename_i hs
      cases hw
      rw [← hone e he e' he' hs]
      exact hbelow.value? hv
    · exact hbelow.value? (h.computed e' he' hin w hw)
  · have hlt : pending elements next < pending elements state.1 := by
      refine Finset.card_lt_card (Finset.ssubset_iff_of_subset (fun t ht => ?_) |>.2
        ⟨e.signal, mem_pendingSignals.2 ⟨⟨e, he, Cell.isDriven_of_value? hv, rfl⟩, hnone⟩, ?_⟩)
      · obtain ⟨hd, ht⟩ := mem_pendingSignals.1 ht
        refine mem_pendingSignals.2 ⟨hd, ?_⟩
        rw [hwrite] at ht
        split at ht
        · cases ht
        · exact ht
      · intro hm
        have := (mem_pendingSignals.1 hm).2
        rw [hwrite, if_pos rfl] at this
        cases this
    simp only
    omega

theorem Held.foldl (hone : OneCell elements) (h : Held elements state.1) {es : List Element}
    (hes : ∀ e ∈ es, e ∈ elements) :
    Held elements (es.foldl Element.update state).1 ∧
      state.1.Below (es.foldl Element.update state).1 ∧
      (es.foldl Element.update state).2 + pending elements (es.foldl Element.update state).1 ≤
        state.2 + pending elements state.1 := by
  induction es generalizing state with
  | nil => exact ⟨h, Values.Below.refl _, le_rfl⟩
  | cons e es ih =>
    obtain ⟨h1, hb1, hc1⟩ := h.update hone (hes e List.mem_cons_self)
    obtain ⟨h2, hb2, hc2⟩ := ih h1 fun e' he' => hes e' (List.mem_cons_of_mem _ he')
    exact ⟨h2, hb1.trans hb2, hc2.trans hc1⟩

/-- **A pass keeps the invariant and all that is known**, and makes as many signals known as it
counts changes. -/
theorem Held.after_pass (hone : OneCell elements) (h : Held elements values) :
    Held elements (pass elements values).1 ∧ values.Below (pass elements values).1 ∧
      (pass elements values).2 + pending elements (pass elements values).1 ≤
        pending elements values := by
  have hstart : Held elements ((values, 0) : Values × ℕ).1 := h
  have hfold := hstart.foldl hone fun e (he : e ∈ elements) => he
  rwa [Nat.zero_add] at hfold

/-- **A relaxation keeps the invariant and all that is known.** -/
theorem Held.after_relax (hone : OneCell elements) (h : Held elements values) (cap : ℕ) :
    Held elements (relax elements cap values).values ∧
      values.Below (relax elements cap values).values := by
  refine relax_induction (P := fun next => Held elements next ∧ values.Below next) ?_ cap
    ⟨h, Values.Below.refl _⟩
  rintro e he state ⟨hn, hb⟩
  obtain ⟨hheld, hbelow, -⟩ := hn.update hone he
  exact ⟨hheld, hb.trans hbelow⟩

/-- **A relaxation settles**, one pass after the last pending signal at the latest. -/
theorem Held.converged (hone : OneCell elements) (h : Held elements values) {cap : ℕ}
    (hcap : pending elements values + 1 ≤ cap) :
    (relax elements cap values).converged = true ∧
      (relax elements cap values).iterations ≤ pending elements values + 1 := by
  induction cap generalizing values with
  | zero => omega
  | succ cap ih =>
    obtain ⟨hn, -, hc⟩ := h.after_pass hone
    by_cases hz : (pass elements values).2 = 0
    · rw [relax_succ_of_settled elements hz]
      exact ⟨rfl, Nat.le_add_left _ _⟩
    · -- a pass that changed something leaves fewer pending signals
      obtain ⟨h1, h2⟩ := ih hn (by omega)
      rw [relax_succ_of_changed elements hz]
      exact ⟨h1, by simp only; omega⟩

/-- **Where a relaxation settles, a driven signal has the value that its cell computes**, or neither
has one. -/
theorem Held.at?_eq_value? (hone : OneCell elements) (h : Held elements values) {cap : ℕ}
    (hconv : (relax elements cap values).converged = true) {e : Element} (he : e ∈ elements)
    (hin : e.cell ≠ .input) :
    (relax elements cap values).values.at? e.signal =
      e.cell.value? (relax elements cap values).values := by
  obtain ⟨hheld, -⟩ := h.after_relax hone cap
  refine Option.ext fun v => ⟨fun hv => ?_, fun hv => ?_⟩
  · exact hheld.computed e he hin v hv
  · exact at?_of_converged hconv he hv

/-! ## Starved signals -/

/-- Each element that writes one of these signals reads one of them. -/
def Starved (elements : List Element) (signals : Set ℕ) : Prop :=
  ∀ e ∈ elements, e.signal ∈ signals → ∃ w ∈ e.cell.wires, ∃ s ∈ signals, w.source = some s

/-- **Signals that wait for each other stay unknown**: none of them can be the first to be known. -/
theorem Starved.after_relax {signals : Set ℕ} (h : Starved elements signals) (cap : ℕ)
    (hnone : ∀ s ∈ signals, values.at? s = none) :
    ∀ s ∈ signals, (relax elements cap values).values.at? s = none := by
  refine relax_induction (P := fun values => ∀ s ∈ signals, values.at? s = none) ?_ cap hnone
  intro e he state hstate s hs
  rcases e.update_cases state with ⟨hu, -⟩ | ⟨v, hv, -, hu⟩
  · rw [hu]
    exact hstate s hs
  rw [hu, Values.at?_write_of_ne, hstate s hs]
  rintro rfl
  obtain ⟨w, hw, t, ht, hsource⟩ := h e he hs
  have hno := Cell.value?_eq_none_iff.2 (.inr (.inr (.inr ⟨w, hw, t, hsource, hstate t ht⟩)))
  rw [hv] at hno
  cases hno

/-! ## The states of a run -/

/-- The values before the first and after every update of a pass. -/
def passStates : List Element → Values → List Values
  | [], values => [values]
  | e :: es, values => values :: passStates es (e.update (values, 0)).1

/-- The values before the first and after every update of a relaxation. -/
def relaxStates (elements : List Element) : ℕ → Values → List Values
  | 0, values => [values]
  | cap + 1, values =>
    passStates elements values ++
      if (pass elements values).2 = 0 then []
      else relaxStates elements cap (pass elements values).1

/-- What is written does not depend on the count. -/
theorem foldl_update_fst (es : List Element) (values : Values) (k : ℕ) :
    (es.foldl Element.update (values, k)).1 = (es.foldl Element.update (values, 0)).1 := by
  induction es generalizing values k with
  | nil => rfl
  | cons e es ih =>
    have he : (e.update (values, k)).1 = (e.update (values, 0)).1 := by
      simp only [Element.update]
      cases e.cell.value? values with
      | none => rfl
      | some v => by_cases hk : values[e.signal]? = some (some v) <;> simp [hk]
    rw [List.foldl_cons, List.foldl_cons, ← Prod.mk.eta (p := e.update (values, k)), ih, he, ← ih]

theorem head?_passStates (es : List Element) (values : Values) :
    (passStates es values).head? = some values := by
  cases es <;> rfl

theorem getLast?_passStates (es : List Element) (values : Values) :
    (passStates es values).getLast? = some (es.foldl Element.update (values, 0)).1 := by
  induction es generalizing values with
  | nil => rfl
  | cons e es ih =>
    rw [passStates, List.getLast?_cons, ih, Option.getD_some, foldl_update_fst es _ 0, List.foldl_cons]
    exact congrArg some (foldl_update_fst es _ (e.update (values, 0)).2).symm

theorem head?_relaxStates (cap : ℕ) (values : Values) :
    (relaxStates elements cap values).head? = some values := by
  cases cap with
  | zero => rfl
  | succ cap => rw [relaxStates, List.head?_append, head?_passStates, Option.some_or]

/-- A relaxation ends in the last of its states. -/
theorem getLast?_relaxStates (cap : ℕ) (values : Values) :
    (relaxStates elements cap values).getLast? = some (relax elements cap values).values := by
  induction cap generalizing values with
  | zero => rfl
  | succ cap ih =>
    by_cases hz : (pass elements values).2 = 0
    · rw [relaxStates, if_pos hz, List.append_nil, relax_succ_of_settled elements hz]
      exact getLast?_passStates elements values
    · rw [relaxStates, if_neg hz, List.getLast?_append, ih, Option.some_or,
        relax_succ_of_changed elements hz]

theorem Held.isChain_passStates (hone : OneCell elements) (h : Held elements values)
    {es : List Element} (hes : ∀ e ∈ es, e ∈ elements) :
    (passStates es values).IsChain Values.Below := by
  induction es generalizing values with
  | nil => exact List.IsChain.singleton _
  | cons e es ih =>
    have hstart : Held elements ((values, 0) : Values × ℕ).1 := h
    obtain ⟨hn, hb, -⟩ := hstart.update hone (hes e List.mem_cons_self)
    refine List.isChain_cons.2 ⟨fun a ha => ?_, ih hn fun e' he' => hes e' (List.mem_cons_of_mem _ he')⟩
    rw [head?_passStates] at ha
    cases ha
    exact hb

/-- **No state of a relaxation loses or changes what is known in an earlier one.** -/
theorem Held.pairwise_relaxStates (hone : OneCell elements) (h : Held elements values) (cap : ℕ) :
    (relaxStates elements cap values).Pairwise Values.Below := by
  refine List.isChain_iff_pairwise.1 ?_
  induction cap generalizing values with
  | zero => exact List.IsChain.singleton _
  | succ cap ih =>
    have hp := h.isChain_passStates hone fun e (he : e ∈ elements) => he
    rw [relaxStates]
    split
    · rwa [List.append_nil]
    refine List.isChain_append.2 ⟨hp, ih (h.after_pass hone).1, fun a ha b hb => ?_⟩
    -- the next pass starts where this one ended
    rw [getLast?_passStates] at ha
    rw [head?_relaxStates] at hb
    cases ha
    cases hb
    exact Values.Below.refl _

end Schematic
