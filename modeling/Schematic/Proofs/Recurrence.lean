import Mathlib.Data.Fintype.BigOperators
import Mathlib.Data.Fintype.Option
import Mathlib.Data.Fintype.Pigeonhole
import Schematic.Proofs.Caps

/-!
# Relaxations without end

What becomes of a relaxation that does not settle, from any values and whatever elements conflict: there
are finitely many values, so it comes back to some that it has left before, and goes round from there.

* `exists_relax_eq`: among more caps than there are values, two end at the same values.
* `not_converged_of_recurs`: **a relaxation that comes back to earlier values never settles.** It has
  made changes all the way round, and makes them again.
* `Netlist.relax_endless`: **a relaxation that is not settled after as many passes as there are values
  never settles**, and is refused under every cap.
-/

namespace Schematic

/-- Values of the same signals are equal if they agree at each of them. -/
theorem Values.eq_of_at? {a b : Values} (hsize : a.size = b.size) (h : ∀ s < a.size, a.at? s = b.at? s) :
    a = b := by
  refine Array.ext hsize fun s ha hb => ?_
  have hs := h s ha
  rwa [at?, at?, Array.getElem?_eq_getElem ha, Array.getElem?_eq_getElem hb] at hs

section Recurrence

variable {elements : List Element} {values : Values} {a b cap cap' : ℕ}

/-- What is not settled under a cap is not settled under a lower one. -/
theorem not_converged_of_le (hcap : cap ≤ cap') (h : (relax elements cap' values).converged = false) :
    (relax elements cap values).converged = false := by
  obtain ⟨d, rfl⟩ := Nat.exists_eq_add_of_le hcap
  by_contra hconv
  rw [Bool.not_eq_false] at hconv
  rw [relax_add_of_converged hconv, hconv] at h
  cases h

/-- **Among more caps than there are values, two end at the same values.** A signal is unknown, low or
high. -/
theorem exists_relax_eq (elements : List Element) (values : Values) :
    ∃ a b, a < b ∧ b ≤ 3 ^ values.size ∧
      (relax elements a values).values = (relax elements b values).values := by
  let final (k : Fin (3 ^ values.size + 1)) (s : Fin values.size) : Option Bool :=
    (relax elements k values).values.at? s
  have hcard : Fintype.card (Fin values.size → Option Bool) <
      Fintype.card (Fin (3 ^ values.size + 1)) := by
    rw [Fintype.card_fun, Fintype.card_option, Fintype.card_bool, Fintype.card_fin, Fintype.card_fin]
    exact Nat.lt_succ_self _
  obtain ⟨i, j, hne, hsame⟩ := Fintype.exists_ne_map_eq_of_card_lt final hcard
  have heq : (relax elements i values).values = (relax elements j values).values := by
    refine Values.eq_of_at? (by rw [size_relax, size_relax]) fun s hs => ?_
    rw [size_relax] at hs
    exact congrFun hsame ⟨s, hs⟩
  rcases lt_or_gt_of_ne hne with hlt | hgt
  · exact ⟨i, j, hlt, Nat.le_of_lt_succ j.isLt, heq⟩
  · exact ⟨j, i, hgt, Nat.le_of_lt_succ i.isLt, heq.symm⟩

/-- **A relaxation that comes back to earlier values never settles.** -/
theorem not_converged_of_recurs (hab : a < b)
    (hsame : (relax elements a values).values = (relax elements b values).values)
    (hrun : (relax elements b values).converged = false) (cap : ℕ) :
    (relax elements cap values).converged = false := by
  induction cap using Nat.strong_induction_on with
  | h cap ih =>
    rcases Nat.le_total cap b with hle | hle
    · exact not_converged_of_le hle hrun
    -- the passes after `b` are those after `a`, and so many fewer have not settled
    obtain ⟨d, rfl⟩ := Nat.exists_eq_add_of_le hle
    have hrun' := not_converged_of_le hab.le hrun
    have hshorter := ih (a + d) (Nat.add_lt_add_right hab d)
    rw [relax_add_of_not_converged hrun'] at hshorter
    rw [relax_add_of_not_converged hrun, ← hsame]
    exact hshorter

/-- A relaxation that is not settled after as many passes as there are values never settles. -/
theorem not_converged_of_pow (hrun : (relax elements (3 ^ values.size) values).converged = false)
    (cap : ℕ) : (relax elements cap values).converged = false := by
  obtain ⟨a, b, hab, hb, hsame⟩ := exists_relax_eq elements values
  exact not_converged_of_recurs hab hsame (not_converged_of_le hb hrun) cap

end Recurrence

namespace Netlist

theorem evaluateStrict_eq_error_iff {n : Netlist} {cap : ℕ} {inputs : Levels} {f : NotSettled} :
    n.evaluateStrict cap inputs = .error f ↔
      (relax n.elements cap (n.seed inputs)).converged = false ∧ f = ⟨cap⟩ := by
  unfold evaluateStrict
  cases hconv : (n.evaluate cap inputs).converged with
  | true =>
    have hrelax : (relax n.elements cap (n.seed inputs)).converged = true := hconv
    simp [hconv, hrelax]
  | false =>
    have hrelax : (relax n.elements cap (n.seed inputs)).converged = false := hconv
    have hcap : (n.evaluate cap inputs).iterations = cap := iterations_of_not_converged hrelax
    simp [hconv, hrelax, hcap, eq_comm]

/-- **What goes on for long enough goes on for ever.** A netlist has as many values as there are ways to
make each signal unknown, low or high. If a relaxation has not settled after that many passes, from any
values, it does not settle under any cap. So an evaluation that is refused then is refused under every
cap. -/
theorem relax_endless (n : Netlist) :
    (∀ values : Values, values.size = n.signals.size →
      (relax n.elements (3 ^ n.signals.size) values).converged = false →
      ∀ cap, (relax n.elements cap values).converged = false) ∧
    ∀ inputs : Levels,
      n.evaluateStrict (3 ^ n.signals.size) inputs = .error ⟨3 ^ n.signals.size⟩ →
      ∀ cap, n.evaluateStrict cap inputs = .error ⟨cap⟩ := by
  refine ⟨fun values hsize hrun cap => ?_, fun inputs hrefused cap => ?_⟩
  · rw [← hsize] at hrun
    exact not_converged_of_pow hrun cap
  · obtain ⟨hrun, -⟩ := evaluateStrict_eq_error_iff.1 hrefused
    rw [← size_seed n inputs] at hrun
    exact evaluateStrict_eq_error_iff.2 ⟨not_converged_of_pow hrun cap, rfl⟩

/-- Two gates with one id never agree while their inputs differ. -/
theorem twins_relax_endless :
    (ofCircuit .twins).signals.size = 3 ∧
    (relax (ofCircuit .twins).elements (3 ^ 3) #[some true, some false, none]).converged = false ∧
    (relax (ofCircuit .twins).elements 1000000 #[some true, some false, none]).converged = false ∧
    (ofCircuit .twins).evaluateStrict (3 ^ 3) (.ofList [("A", true)]) = .error ⟨3 ^ 3⟩ ∧
    (ofCircuit .twins).evaluateStrict 1000000 (.ofList [("A", true)]) = .error ⟨1000000⟩ := by
  have hsize : (ofCircuit .twins).signals.size = 3 := by decide +kernel
  have hrun : (relax (ofCircuit .twins).elements (3 ^ 3)
      #[some true, some false, none]).converged = false := by decide +kernel
  have hseed : (relax (ofCircuit .twins).elements (3 ^ 3)
      ((ofCircuit .twins).seed (.ofList [("A", true)]))).converged = false := by decide +kernel
  have hrefused := evaluateStrict_eq_error_iff.2 ⟨hseed, rfl⟩
  obtain ⟨hvalues, hinputs⟩ := relax_endless (ofCircuit .twins)
  rw [hsize] at hvalues hinputs
  exact ⟨hsize, hrun, hvalues _ rfl hrun 1000000, hrefused, hinputs _ hrefused 1000000⟩

end Netlist

end Schematic
