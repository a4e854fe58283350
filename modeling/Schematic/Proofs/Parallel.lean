import Mathlib.Data.List.Basic
import Mathlib.Order.Lattice
import Schematic.Proofs.Keys
import Schematic.Proofs.Settling

/-!
# Circuits side by side

Two circuits that share no id, declared in one script, line by line in any mixture, do not notice each
other: each of them evaluates as it does alone, also while the other one is still swept or never settles.

* `Interleaves`: a list made of two others, each in its own order.
* `Circuit.SideBySide`: a circuit made of two others without a common id.
* `ById.Joined`: outputs that are those of two circuits. Kept by every update (`Joined.update_left`),
  every sweep (`Joined.sweep`) and every run (`Joined.run`): **changes add up, so the number of passes
  is the larger one.**
* `Levels.DisjointUnion`: a table with the entries of two tables that share no key.
* `Script.evaluate_sideBySide`: **circuits side by side evaluate to the disjoint union.**
-/

namespace Schematic

/-! ## Interleaved lists -/

/-- A list made of two others, each in its own order. -/
inductive Interleaves {α : Type} : List α → List α → List α → Prop
  | nil : Interleaves [] [] []
  | left {a : α} {ls rs xs : List α} : Interleaves ls rs xs → Interleaves (a :: ls) rs (a :: xs)
  | right {a : α} {ls rs xs : List α} : Interleaves ls rs xs → Interleaves ls (a :: rs) (a :: xs)

namespace Interleaves

variable {α : Type} {ls rs xs : List α}

theorem symm (h : Interleaves ls rs xs) : Interleaves rs ls xs := by
  induction h with
  | nil => exact .nil
  | left _ ih => exact .right ih
  | right _ ih => exact .left ih

theorem mem_iff (h : Interleaves ls rs xs) {x : α} : x ∈ xs ↔ x ∈ ls ∨ x ∈ rs := by
  induction h with
  | nil => simp
  | left _ ih => simp only [List.mem_cons, ih, or_assoc]
  | right _ ih => simp only [List.mem_cons, ih, or_left_comm]

theorem filter (h : Interleaves ls rs xs) (p : α → Bool) :
    Interleaves (ls.filter p) (rs.filter p) (xs.filter p) := by
  induction h with
  | nil => exact .nil
  | @left a _ _ _ _ ih =>
    by_cases ha : p a = true
    · rw [List.filter_cons_of_pos ha, List.filter_cons_of_pos ha]
      exact .left ih
    · rwa [List.filter_cons_of_neg ha, List.filter_cons_of_neg ha]
  | @right a _ _ _ _ ih =>
    by_cases ha : p a = true
    · rw [List.filter_cons_of_pos ha, List.filter_cons_of_pos ha]
      exact .right ih
    · rwa [List.filter_cons_of_neg ha, List.filter_cons_of_neg ha]

/-- A scan for what the right list does not hold finds what it finds in the left one. -/
theorem find?_left (h : Interleaves ls rs xs) {p : α → Bool} (hrs : ∀ x ∈ rs, ¬p x = true) :
    xs.find? p = ls.find? p := by
  induction h with
  | nil => rfl
  | left _ ih => rw [List.find?_cons, List.find?_cons, ih hrs]
  | right _ ih =>
    rw [List.find?_cons_of_neg (hrs _ List.mem_cons_self)]
    exact ih fun x hx => hrs x (List.mem_cons_of_mem _ hx)

end Interleaves

/-! ## Circuits without a common id -/

namespace Circuit

/-- The ids that a circuit names: those of nodes, and those at the ends of connections. -/
def names (c : Circuit) : List String :=
  c.nodes.map (·.id) ++ c.connections.flatMap fun k => [k.source.node, k.target.node]

/-- A circuit made of two others without a common id. -/
structure SideBySide (a b c : Circuit) : Prop where
  disjoint : a.names.Disjoint b.names
  nodes : Interleaves a.nodes b.nodes c.nodes
  connections : Interleaves a.connections b.connections c.connections

variable {a b c : Circuit}

theorem SideBySide.symm (h : a.SideBySide b c) : b.SideBySide a c :=
  ⟨h.disjoint.symm, h.nodes.symm, h.connections.symm⟩

theorem id_mem_names {n : Node} (hn : n ∈ c.nodes) : n.id ∈ c.names :=
  List.mem_append_left _ (List.mem_map_of_mem hn)

theorem source_mem_names {k : Connection} (hk : k ∈ c.connections) : k.source.node ∈ c.names :=
  List.mem_append_right _ (List.mem_flatMap.2 ⟨k, hk, by simp⟩)

theorem target_mem_names {k : Connection} (hk : k ∈ c.connections) : k.target.node ∈ c.names :=
  List.mem_append_right _ (List.mem_flatMap.2 ⟨k, hk, by simp⟩)

end Circuit

/-! ## Joined outputs -/

namespace ById

variable {a b c : Circuit} {outputs left right : Levels}

/-- Outputs that are those of two circuits, each with outputs for its own ids only. -/
structure Joined (a b : Circuit) (outputs left right : Levels) : Prop where
  entry : ∀ (id : String) (v : Bool),
    outputs[id]? = some v ↔ left[id]? = some v ∨ right[id]? = some v
  left_names : ∀ (id : String) (v : Bool), left[id]? = some v → id ∈ a.names
  right_names : ∀ (id : String) (v : Bool), right[id]? = some v → id ∈ b.names

namespace Joined

theorem symm (hj : Joined a b outputs left right) : Joined b a outputs right left :=
  ⟨fun id v => (hj.entry id v).trans or_comm, hj.right_names, hj.left_names⟩

/-- Outputs of ids of the left circuit are its own. -/
theorem getElem?_left (h : a.SideBySide b c) (hj : Joined a b outputs left right) {id : String}
    (hid : id ∈ a.names) : outputs[id]? = left[id]? := by
  refine Option.ext fun v => (hj.entry id v).trans ⟨fun hv => hv.resolve_right fun hr => ?_, Or.inl⟩
  exact h.disjoint hid (hj.right_names id v hr)

/-- **The left circuit reads its own connections and outputs.** -/
theorem read_left (h : a.SideBySide b c) (hj : Joined a b outputs left right) {target : String}
    (htarget : target ∈ a.names) (slots : List String) :
    read c outputs target slots = read a left target slots := by
  have hscan : (c.connections.find? fun k => k.target.node = target && slots.contains k.target.slot) =
      a.connections.find? fun k => k.target.node = target && slots.contains k.target.slot := by
    apply h.connections.find?_left
    intro k hk hp
    rw [Bool.and_eq_true, decide_eq_true_eq] at hp
    exact h.disjoint htarget (hp.1 ▸ Circuit.target_mem_names hk)
  unfold read
  rw [hscan]
  cases hfound : a.connections.find? fun k =>
      k.target.node = target && slots.contains k.target.slot with
  | none => rfl
  | some k =>
    have hsource := Circuit.source_mem_names (List.mem_of_find?_eq_some hfound)
    exact hj.getElem?_left h hsource

theorem compute?_left (h : a.SideBySide b c) (hj : Joined a b outputs left right) {n : Node}
    (hn : n ∈ a.nodes) : compute? c outputs n = compute? a left n := by
  unfold compute?
  simp only [hj.read_left h (Circuit.id_mem_names hn)]

variable {s l r : Levels × ℕ}

/-- **An update of a node of the left circuit is an update there**, and counts as much. -/
theorem update_left (h : a.SideBySide b c) (hj : Joined a b s.1 l.1 r.1) (hcount : s.2 = l.2 + r.2)
    {n : Node} (hn : n ∈ a.nodes) :
    Joined a b (update c s n).1 (update a l n).1 r.1 ∧
      (update c s n).2 = (update a l n).2 + r.2 := by
  have hid := Circuit.id_mem_names hn
  unfold update
  rw [hj.compute?_left h hn, hj.getElem?_left h hid]
  cases compute? a l.1 n with
  | none => exact ⟨hj, hcount⟩
  | some v =>
    by_cases hsame : l.1[n.id]? = some v
    · simp only [if_pos hsame]
      exact ⟨hj, hcount⟩
    · simp only [if_neg hsame]
      refine ⟨⟨fun id w => ?_, fun id w hw => ?_, hj.right_names⟩, by omega⟩
      · rw [Std.ExtTreeMap.getElem?_insert, Std.ExtTreeMap.getElem?_insert]
        simp only [Std.LawfulEqCmp.compare_eq_iff_eq]
        split
        · -- the written id is none of the right circuit
          rename_i heq
          refine ⟨Or.inl, fun hw => hw.resolve_right fun hr => ?_⟩
          exact h.disjoint hid (heq ▸ hj.right_names id w hr)
        · exact hj.entry id w
      · rw [Std.ExtTreeMap.getElem?_insert] at hw
        simp only [Std.LawfulEqCmp.compare_eq_iff_eq] at hw
        split at hw
        · rename_i heq
          exact heq ▸ hid
        · exact hj.left_names id w hw

/-- Updates of mixed nodes are updates of the nodes of either circuit. -/
theorem foldl (h : a.SideBySide b c) {ls rs xs : List Node} (hnodes : Interleaves ls rs xs)
    (hls : ∀ n ∈ ls, n ∈ a.nodes) (hrs : ∀ n ∈ rs, n ∈ b.nodes) (hj : Joined a b s.1 l.1 r.1)
    (hcount : s.2 = l.2 + r.2) :
    Joined a b (xs.foldl (update c) s).1 (ls.foldl (update a) l).1 (rs.foldl (update b) r).1 ∧
      (xs.foldl (update c) s).2 = (ls.foldl (update a) l).2 + (rs.foldl (update b) r).2 := by
  induction hnodes generalizing s l r with
  | nil => exact ⟨hj, hcount⟩
  | left _ ih =>
    obtain ⟨hstep, hadd⟩ := hj.update_left h hcount (hls _ List.mem_cons_self)
    exact ih (fun n hn => hls n (List.mem_cons_of_mem _ hn)) hrs hstep hadd
  | right _ ih =>
    obtain ⟨hstep, hadd⟩ := hj.symm.update_left h.symm (by omega) (hrs _ List.mem_cons_self)
    exact ih hls (fun n hn => hrs n (List.mem_cons_of_mem _ hn)) hstep.symm (by omega)

/-- **A sweep of the circuit is a sweep of both**, and the changes add up. -/
theorem sweep (h : a.SideBySide b c) (hj : Joined a b outputs left right) :
    Joined a b (ById.sweep c outputs).1 (ById.sweep a left).1 (ById.sweep b right).1 ∧
      (ById.sweep c outputs).2 = (ById.sweep a left).2 + (ById.sweep b right).2 := by
  have hstart : Joined a b ((outputs, 0) : Levels × ℕ).1 ((left, 0) : Levels × ℕ).1
      ((right, 0) : Levels × ℕ).1 := hj
  exact hstart.foldl h (h.nodes.filter _) (fun n hn => (List.mem_filter.1 hn).1)
    (fun n hn => (List.mem_filter.1 hn).1) rfl

end Joined

/-! ## Settled sweeps -/

/-- A sweep without changes leaves the outputs as they are. -/
theorem sweep_of_settled (hz : (sweep c outputs).2 = 0) : (sweep c outputs).1 = outputs := by
  have hstep : ∀ (s : Levels × ℕ) (n : Node), update c s n = s ∨ (update c s n).2 = s.2 + 1 := by
    intro s n
    unfold update
    cases compute? c s.1 n with
    | none => exact Or.inl rfl
    | some v => by_cases hsame : s.1[n.id]? = some v <;> simp [hsame]
  exact congrArg Prod.fst ((foldl_count hstep _ (outputs, 0)).2 hz).1

/-- At least one sweep is made if any may be made. -/
theorem one_le_run (c : Circuit) (cap : ℕ) (outputs : Levels) : 1 ≤ (run c (cap + 1) outputs).2.1 := by
  by_cases hz : (sweep c outputs).2 = 0
  · rw [run_succ_of_settled hz]
  · rw [run_succ_of_changed hz]
    exact Nat.le_add_left _ _

/-! ## Joined runs -/

/-- **A part that has settled is not noticed**: the circuit runs as the other part does. -/
theorem Joined.run_of_settled (h : a.SideBySide b c) (hj : Joined a b outputs left right)
    (hz : (ById.sweep a left).2 = 0) (cap : ℕ) :
    Joined a b (run c cap outputs).1 left (run b cap right).1 ∧
      (run c cap outputs).2 = (run b cap right).2 := by
  induction cap generalizing outputs right with
  | zero => exact ⟨hj, rfl⟩
  | succ cap ih =>
    obtain ⟨hnext, hadd⟩ := hj.sweep h
    rw [sweep_of_settled hz] at hnext
    rw [hz, Nat.zero_add] at hadd
    by_cases hzb : (ById.sweep b right).2 = 0
    · rw [run_succ_of_settled (hadd.trans hzb), run_succ_of_settled hzb]
      exact ⟨hnext, rfl⟩
    · obtain ⟨hrun, hsame⟩ := ih hnext
      rw [run_succ_of_changed (fun h0 => hzb (hadd.symm.trans h0)), run_succ_of_changed hzb]
      refine ⟨hrun, ?_⟩
      simp only [hsame]

/-- **A run of the circuit is a run of both**: it makes as many sweeps as the longer one, and settles if
both do. -/
theorem Joined.run (h : a.SideBySide b c) (hj : Joined a b outputs left right) (cap : ℕ) :
    Joined a b (ById.run c cap outputs).1 (ById.run a cap left).1 (ById.run b cap right).1 ∧
      (ById.run c cap outputs).2.1 = max (ById.run a cap left).2.1 (ById.run b cap right).2.1 ∧
      ((ById.run c cap outputs).2.2 = true ↔
        (ById.run a cap left).2.2 = true ∧ (ById.run b cap right).2.2 = true) := by
  induction cap generalizing outputs left right with
  | zero => exact ⟨hj, rfl, by simp [ById.run]⟩
  | succ cap ih =>
    by_cases hza : (ById.sweep a left).2 = 0
    · obtain ⟨hrun, hsame⟩ := hj.run_of_settled h hza (cap + 1)
      have hmore := one_le_run b cap right
      rw [run_succ_of_settled hza, sweep_of_settled hza, hsame]
      exact ⟨hrun, by simp only; omega, by simp⟩
    by_cases hzb : (ById.sweep b right).2 = 0
    · obtain ⟨hrun, hsame⟩ := hj.symm.run_of_settled h.symm hzb (cap + 1)
      have hmore := one_le_run a cap left
      rw [run_succ_of_settled hzb, sweep_of_settled hzb, hsame]
      exact ⟨hrun.symm, by simp only; omega, by simp⟩
    · obtain ⟨hnext, hadd⟩ := hj.sweep h
      obtain ⟨hrun, hmax, hconv⟩ := ih hnext
      rw [run_succ_of_changed (by omega : (ById.sweep c outputs).2 ≠ 0), run_succ_of_changed hza,
        run_succ_of_changed hzb]
      exact ⟨hrun, by simp only; omega, hconv⟩

/-- The seeds of the circuit are those of both. -/
theorem joined_seed (h : a.SideBySide b c) (inputs : Levels) :
    Joined a b (seed c inputs) (seed a inputs) (seed b inputs) := by
  have hnames : ∀ (d : Circuit) (id : String) (v : Bool), (seed d inputs)[id]? = some v →
      id ∈ d.names := by
    intro d id v hv
    rw [getElem?_seed, Option.ite_none_right_eq_some] at hv
    obtain ⟨⟨n, hn, rfl, -⟩, -⟩ := hv
    exact Circuit.id_mem_names hn
  refine ⟨fun id v => ?_, hnames a, hnames b⟩
  simp only [getElem?_seed, Option.ite_none_right_eq_some, h.nodes.mem_iff, or_and_right, exists_or]

end ById

/-! ## Evaluations -/

/-- A table with the entries of two tables that share no key. -/
structure Levels.DisjointUnion (left right both : Levels) : Prop where
  eq_union : both = left ∪ right
  disjoint : ∀ key ∈ left, key ∉ right

theorem Levels.disjointUnion_of {left right both : Levels}
    (hentry : ∀ (key : String) (v : Bool),
      both[key]? = some v ↔ left[key]? = some v ∨ right[key]? = some v)
    (hapart : ∀ (key : String) (v w : Bool), left[key]? = some v → right[key]? ≠ some w) :
    left.DisjointUnion right both := by
  refine ⟨Std.ExtTreeMap.ext_getElem? fun key => Option.ext fun v => ?_, fun key hl hr => ?_⟩
  · rw [hentry, Std.ExtTreeMap.getElem?_union, Option.or_eq_some_iff]
    constructor
    · rintro (hl | hr)
      · exact Or.inr ⟨Option.eq_none_iff_forall_ne_some.2 fun w => hapart key v w hl, hl⟩
      · exact Or.inl hr
    · rintro (hr | ⟨-, hl⟩)
      · exact Or.inr hr
      · exact Or.inl hl
  · rw [Std.ExtTreeMap.mem_iff_isSome_getElem?, Option.isSome_iff_exists] at hl hr
    obtain ⟨v, hv⟩ := hl
    obtain ⟨w, hw⟩ := hr
    exact hapart key v w hv hw

namespace Netlist

variable {a b c : Circuit} {cap : ℕ} {inputs : Levels}

/-- An evaluation of the circuit is one of both. -/
theorem joined_evaluate (h : a.SideBySide b c) (cap : ℕ) (inputs : Levels) :
    ById.Joined a b ((ofCircuit c).evaluate cap inputs).nodeOutputs
        ((ofCircuit a).evaluate cap inputs).nodeOutputs
        ((ofCircuit b).evaluate cap inputs).nodeOutputs ∧
      ((ofCircuit c).evaluate cap inputs).iterations =
        max ((ofCircuit a).evaluate cap inputs).iterations
          ((ofCircuit b).evaluate cap inputs).iterations ∧
      (((ofCircuit c).evaluate cap inputs).converged = true ↔
        ((ofCircuit a).evaluate cap inputs).converged = true ∧
          ((ofCircuit b).evaluate cap inputs).converged = true) := by
  rw [ById.evaluate_ofCircuit, ById.evaluate_ofCircuit, ById.evaluate_ofCircuit]
  exact (ById.joined_seed h inputs).run h cap

theorem nodeOutputs_sideBySide (h : a.SideBySide b c) :
    ((ofCircuit a).evaluate cap inputs).nodeOutputs.DisjointUnion
      ((ofCircuit b).evaluate cap inputs).nodeOutputs
      ((ofCircuit c).evaluate cap inputs).nodeOutputs := by
  have hj := (joined_evaluate h cap inputs).1
  refine Levels.disjointUnion_of hj.entry fun id v w hl hr => ?_
  exact h.disjoint (hj.left_names id v hl) (hj.right_names id w hr)

/-- The level of a connection of the left circuit is its level there. -/
theorem level_left (h : a.SideBySide b c) {k : Connection} (hk : k ∈ a.connections) :
    ((ofCircuit c).evaluate cap inputs).nodeOutputs.level k.source.node =
      ((ofCircuit a).evaluate cap inputs).nodeOutputs.level k.source.node := by
  have hj := (joined_evaluate h cap inputs).1
  unfold Levels.level
  rw [hj.getElem?_left h (Circuit.source_mem_names hk)]

/-- Keys name connections, so connections with different sources do not share an entry. -/
theorem edgeStates_sideBySide (h : a.SideBySide b c) (ha : ∀ k ∈ a.connections, k.Valid)
    (hb : ∀ k ∈ b.connections, k.Valid) :
    ((ofCircuit a).evaluate cap inputs).edgeStates.DisjointUnion
      ((ofCircuit b).evaluate cap inputs).edgeStates
      ((ofCircuit c).evaluate cap inputs).edgeStates := by
  have hc : ∀ k ∈ c.connections, k.Valid := by
    intro k hk
    exact (h.connections.mem_iff.1 hk).elim (ha k) (hb k)
  apply Levels.disjointUnion_of
  · intro key v
    rw [getElem?_edgeStates_evaluate hc, getElem?_edgeStates_evaluate ha,
      getElem?_edgeStates_evaluate hb]
    simp only [h.connections.mem_iff, or_and_right, exists_or]
    refine or_congr (exists_congr fun k => and_congr_right fun hk => ?_)
      (exists_congr fun k => and_congr_right fun hk => ?_)
    · rw [level_left h hk]
    · rw [level_left h.symm hk]
  · intro key v w hl hr
    obtain ⟨k, hk, hkey, -⟩ := (getElem?_edgeStates_evaluate ha cap inputs).1 hl
    obtain ⟨k', hk', hkey', -⟩ := (getElem?_edgeStates_evaluate hb cap inputs).1 hr
    obtain rfl := (ha k hk).key_inj (hb k' hk') (hkey.trans hkey'.symm)
    exact h.disjoint (Circuit.source_mem_names hk) (Circuit.source_mem_names hk')

end Netlist

open Netlist in
/-- **Circuits side by side do not notice each other.** If the circuits of two scripts share no id, then
a circuit made of both, in any mixture that keeps the order of each, evaluates to the disjoint union of
what they evaluate to alone. It takes as many passes as the longer of the two evaluations, and settles
if both do. -/
theorem Script.evaluate_sideBySide (s s' : String) {c : Circuit}
    (h : (parse s).circuit.SideBySide (parse s').circuit c) (cap : ℕ) (inputs : Levels) :
    ((ofCircuit (parse s).circuit).evaluate cap inputs).nodeOutputs.DisjointUnion
        ((ofCircuit (parse s').circuit).evaluate cap inputs).nodeOutputs
        ((ofCircuit c).evaluate cap inputs).nodeOutputs ∧
      ((ofCircuit (parse s).circuit).evaluate cap inputs).edgeStates.DisjointUnion
        ((ofCircuit (parse s').circuit).evaluate cap inputs).edgeStates
        ((ofCircuit c).evaluate cap inputs).edgeStates ∧
      ((ofCircuit c).evaluate cap inputs).iterations =
        max ((ofCircuit (parse s).circuit).evaluate cap inputs).iterations
          ((ofCircuit (parse s').circuit).evaluate cap inputs).iterations ∧
      (((ofCircuit c).evaluate cap inputs).converged = true ↔
        ((ofCircuit (parse s).circuit).evaluate cap inputs).converged = true ∧
          ((ofCircuit (parse s').circuit).evaluate cap inputs).converged = true) := by
  obtain ⟨-, hmax, hconv⟩ := joined_evaluate h cap inputs
  have hleft : ∀ k ∈ (parse s).circuit.connections, k.Valid := fun k => valid_of_mem_connections
  have hright : ∀ k ∈ (parse s').circuit.connections, k.Valid := fun k => valid_of_mem_connections
  exact ⟨nodeOutputs_sideBySide h, edgeStates_sideBySide h hleft hright, hmax, hconv⟩

/-- An input that a gate with the same id inverts as long as another input is high. -/
def Script.pulsing : String := "In E @ 0, 0\nIn x @ 0, 0\nNAND x @ 0, 0\nE -> x.a\nx -> x.b"

/-- A gate on an input. -/
def Script.steady : String := "In A @ 0, 0\nNOT n @ 0, 0\nA -> n"

/-- Both, line by line in turn. -/
def Circuit.mixed : Circuit where
  nodes := [⟨"E", "In", 0, 0, []⟩, ⟨"A", "In", 0, 0, []⟩, ⟨"x", "In", 0, 0, []⟩, ⟨"n", "NOT", 0, 0, []⟩,
    ⟨"x", "NAND", 0, 0, []⟩]
  connections := [⟨⟨"E", "out"⟩, ⟨"x", "a"⟩⟩, ⟨⟨"A", "out"⟩, ⟨"n", "in"⟩⟩, ⟨⟨"x", "out"⟩, ⟨"x", "b"⟩⟩]

/-- One part settles after two passes and keeps being swept with the other one, which never settles. -/
theorem Script.pulsing_steady :
    (parse pulsing).circuit.SideBySide (parse steady).circuit .mixed ∧
    ((Netlist.ofCircuit (parse pulsing).circuit).evaluate 9 (.ofList [("E", true)])).iterations = 9 ∧
    ((Netlist.ofCircuit (parse steady).circuit).evaluate 9 (.ofList [("E", true)])).iterations = 2 ∧
    ((Netlist.ofCircuit .mixed).evaluate 9 (.ofList [("E", true)])).iterations = 9 ∧
    ((Netlist.ofCircuit (parse pulsing).circuit).evaluate 9
      (.ofList [("E", true)])).nodeOutputs.DisjointUnion
      ((Netlist.ofCircuit (parse steady).circuit).evaluate 9 (.ofList [("E", true)])).nodeOutputs
      ((Netlist.ofCircuit .mixed).evaluate 9 (.ofList [("E", true)])).nodeOutputs := by
  have hpulsing : (parse pulsing).circuit = ⟨[⟨"E", "In", 0, 0, []⟩, ⟨"x", "In", 0, 0, []⟩,
      ⟨"x", "NAND", 0, 0, []⟩], [⟨⟨"E", "out"⟩, ⟨"x", "a"⟩⟩, ⟨⟨"x", "out"⟩, ⟨"x", "b"⟩⟩]⟩ := by
    decide +kernel
  have hsteady : (parse steady).circuit = ⟨[⟨"A", "In", 0, 0, []⟩, ⟨"n", "NOT", 0, 0, []⟩],
      [⟨⟨"A", "out"⟩, ⟨"n", "in"⟩⟩]⟩ := by
    decide +kernel
  have hside : (parse pulsing).circuit.SideBySide (parse steady).circuit .mixed := by
    rw [hpulsing, hsteady]
    refine ⟨List.disjoint_left.2 (by decide), ?_, ?_⟩
    · exact .left (.right (.left (.right (.left .nil))))
    · exact .left (.right (.left .nil))
  obtain ⟨houtputs, -, hmax, -⟩ := evaluate_sideBySide pulsing steady hside 9 (.ofList [("E", true)])
  have hlong : ((Netlist.ofCircuit (parse pulsing).circuit).evaluate 9
      (.ofList [("E", true)])).iterations = 9 := by decide +kernel
  have hshort : ((Netlist.ofCircuit (parse steady).circuit).evaluate 9
      (.ofList [("E", true)])).iterations = 2 := by decide +kernel
  rw [hlong, hshort] at hmax
  exact ⟨hside, hlong, hshort, hmax, houtputs⟩

end Schematic
