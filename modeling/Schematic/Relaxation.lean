import Schematic.Netlist

/-!
# Relaxation

A pass recomputes every output and gate, in declaration order, from the values known so far; each
write is seen by the elements after it. Passes are repeated until one changes nothing, or until a
cap on their number is reached.

* `Cell.value?`: the value of a cell, if all that it reads is known.
* `pass`: one pass, with the number of values that it changed.
* `relax`: at most `cap` passes.
* `changeCounts`: how many values each of these passes changed.
* `relax_zero`, `relax_succ_of_settled`, `relax_succ_of_changed`: **a relaxation unfolds pass by
  pass**.
-/

namespace Schematic

/-- The value of every signal, `none` while it is not known. -/
abbrev Values := Array (Option Bool)

/-- The value on a wire, if there is a wire and its source is known. -/
def Values.read (values : Values) (wire : Option Wire) : Option Bool := do
  let w ← wire
  let s ← w.source
  (values[s]?).join

/-- The value that a cell computes. A gate with two inputs needs both to be known. -/
def Cell.value? (values : Values) : Cell → Option Bool
  | .input | .unknown => none
  | .output w => values.read w
  | .unary g w => (values.read w).map fun v => g.eval [v]
  | .binary g a b =>
    match values.read a, values.read b with
    | some x, some y => some (g.eval [x, y])
    | _, _ => none

/-- Updates the signal of one element, and counts a change. -/
def Element.update (state : Values × Nat) (e : Element) : Values × Nat :=
  match e.cell.value? state.1 with
  | none => state
  | some v =>
    if state.1[e.signal]? = some (some v) then state
    else (state.1.setIfInBounds e.signal (some v), state.2 + 1)

/-- One pass over all elements, with the number of values that changed. -/
def pass (elements : List Element) (values : Values) : Values × Nat :=
  elements.foldl Element.update (values, 0)

/-- Where a relaxation ended: after how many passes, and whether the last one changed nothing. -/
structure Relaxed where
  values : Values
  iterations : Nat
  converged : Bool
  deriving DecidableEq

/-- At most `cap` passes, after `done` passes. -/
def relaxFrom (elements : List Element) (done : Nat) : Nat → Values → Relaxed
  | 0, values => ⟨values, done, false⟩
  | cap + 1, values =>
    match pass elements values with
    | (next, 0) => ⟨next, done + 1, true⟩
    | (next, _) => relaxFrom elements (done + 1) cap next

/-- **Repeats passes until one changes nothing**, at most `cap` times. -/
def relax (elements : List Element) (cap : Nat) (values : Values) : Relaxed :=
  relaxFrom elements 0 cap values

/-- The number of values changed by each pass of `relax`, after the given earlier counts. -/
def changeCountsFrom (elements : List Element) (counts : Array Nat) : Nat → Values → Array Nat
  | 0, _ => counts
  | cap + 1, values =>
    match pass elements values with
    | (_, 0) => counts.push 0
    | (next, n) => changeCountsFrom elements (counts.push n) cap next

/-- The number of values changed by each pass of `relax`. -/
def changeCounts (elements : List Element) (cap : Nat) (values : Values) : Array Nat :=
  changeCountsFrom elements #[] cap values

variable (elements : List Element)

theorem size_update (state : Values × Nat) (e : Element) :
    (e.update state).1.size = state.1.size := by
  unfold Element.update
  split
  · rfl
  · split <;> simp

theorem size_foldl_update (state : Values × Nat) :
    (elements.foldl Element.update state).1.size = state.1.size := by
  induction elements generalizing state with
  | nil => rfl
  | cons e es ih => rw [List.foldl_cons, ih, size_update]

/-- A pass keeps the number of signals. -/
theorem size_pass (values : Values) : (pass elements values).1.size = values.size :=
  size_foldl_update elements (values, 0)

/-- Passes done before only add to the count. -/
theorem relaxFrom_eq (done cap : Nat) (values : Values) :
    relaxFrom elements done cap values =
      { relax elements cap values with
        iterations := done + (relax elements cap values).iterations } := by
  induction cap generalizing done values with
  | zero => rfl
  | succ cap ih =>
    simp only [relax, relaxFrom]
    split
    · rfl
    · rw [ih (done + 1), ih (0 + 1)]
      simp [Nat.add_assoc]

@[simp] theorem relax_zero (values : Values) : relax elements 0 values = ⟨values, 0, false⟩ := rfl

/-- A pass without changes ends the relaxation. -/
theorem relax_succ_of_settled {values : Values} (h : (pass elements values).2 = 0) (cap : Nat) :
    relax elements (cap + 1) values = ⟨(pass elements values).1, 1, true⟩ := by
  unfold relax relaxFrom
  split
  · rename_i next hp; rw [hp]
  · rename_i next n hn hp
    rw [hp] at h
    exact absurd h hn

/-- A pass with changes is followed by the rest of the relaxation. -/
theorem relax_succ_of_changed {values : Values} (h : (pass elements values).2 ≠ 0) (cap : Nat) :
    relax elements (cap + 1) values =
      { relax elements cap (pass elements values).1 with
        iterations := (relax elements cap (pass elements values).1).iterations + 1 } := by
  rw [relax, relaxFrom]
  split
  · rename_i next hp; rw [hp] at h; exact absurd rfl h
  · rename_i next n hn hp
    rw [hp, relaxFrom_eq, Nat.add_comm]

theorem size_changeCountsFrom (counts : Array Nat) (cap : Nat) (values : Values) :
    (changeCountsFrom elements counts cap values).size =
      counts.size + (relax elements cap values).iterations := by
  induction cap generalizing counts values with
  | zero => rfl
  | succ cap ih =>
    by_cases h : (pass elements values).2 = 0
    · rw [relax_succ_of_settled elements h, changeCountsFrom]
      split
      · simp
      · rename_i next n hn hp
        rw [hp] at h
        exact absurd h hn
    · rw [relax_succ_of_changed elements h, changeCountsFrom]
      split
      · rename_i next hp; rw [hp] at h; exact absurd rfl h
      · rename_i next n hn hp
        rw [ih, hp]
        simp only [Array.size_push]
        omega

/-- There is one count per pass. -/
theorem size_changeCounts (cap : Nat) (values : Values) :
    (changeCounts elements cap values).size = (relax elements cap values).iterations := by
  simp [changeCounts, size_changeCountsFrom]

end Schematic
