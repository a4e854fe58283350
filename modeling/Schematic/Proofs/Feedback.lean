import Mathlib.Data.Fintype.Card
import Mathlib.Data.Set.Finite.Basic
import Mathlib.Logic.Relation
import Mathlib.Order.WellFounded
import Schematic.Proofs.Wiring
import Schematic.Netlist.Feedback

/-!
# Feedback

The rows of bits decide reachability, and the loops found in them are the classes of mutual reach.

* `Rows.has_closure_iff`: **the closure holds exactly the paths of one edge or more.** Every step
  makes it transitive through one more number (`Rows.Through.through`) and adds nothing but paths.
* `Netlist.exists_loop_iff`: two signals are in one loop exactly if each reaches the other.
* `Circuit.ReadsFrom`: the ids that a node reads, one step backwards along a resolved wire.
* `Circuit.transGen_readsFrom_iff`: paths of ids are paths of signals, in the other direction.
* `Netlist.exists_source`: the element at the source of a wire, from whose id the wire is read.
-/

namespace Schematic

open Relation

/-- **A walk that never has to end closes a cycle**, if it stays in a list. -/
theorem exists_transGen_self {α : Type} {r : α → α → Prop} {l : List α} {p : α → Prop}
    (hne : ∃ a ∈ l, p a) (hnext : ∀ a ∈ l, p a → ∃ b ∈ l, p b ∧ r a b) :
    ∃ a ∈ l, p a ∧ TransGen r a a := by
  by_contra hno
  have : Finite {a // a ∈ l ∧ p a} := l.finite_toSet.subset fun _ ha => ha.1
  have : IsTrans {a // a ∈ l ∧ p a} fun b a => TransGen r a b := ⟨fun _ _ _ hba hcb => hcb.trans hba⟩
  have : Std.Irrefl fun b a : {a // a ∈ l ∧ p a} => TransGen r (a : α) b :=
    ⟨fun a h => hno ⟨a, a.2.1, a.2.2, h⟩⟩
  have hwf := Finite.wellFounded_of_trans_of_irrefl
    fun b a : {a // a ∈ l ∧ p a} => TransGen r (a : α) b
  -- a member after which no other comes has none next to it
  obtain ⟨a, ha⟩ := hne
  obtain ⟨m, -, hmin⟩ := hwf.has_min Set.univ ⟨⟨a, ha⟩, trivial⟩
  obtain ⟨b, hb, hp, hstep⟩ := hnext m m.2.1 m.2.2
  exact hmin ⟨b, hb, hp⟩ trivial (.single hstep)

/-! ## Closure -/

namespace Rows

variable {rows : Rows} {a b : ℕ}

/-- One number is related to another. -/
abbrev Rel (rows : Rows) (a b : ℕ) : Prop := rows.has a b = true

/-- What leads to `v` is related to all that `v` leads to. -/
def Through (rows : Rows) (v : ℕ) : Prop := ∀ a b, rows.Rel a v → rows.Rel v b → rows.Rel a b

theorem rel_through_iff {v : ℕ} :
    (rows.through v).Rel a b ↔ rows.Rel a b ∨ rows.Rel a v ∧ rows.Rel v b := by
  rw [Rel, has_through, Bool.or_eq_true, Bool.and_eq_true]

theorem lt_size_of_rel (h : rows.Rel a b) : a < rows.size := by
  by_contra ha
  rw [Rel, has, Array.getD_eq_getD_getElem?, Array.getElem?_eq_none (by omega)] at h
  simp at h

theorem through_self (rows : Rows) (v : ℕ) : (rows.through v).Through v := by
  intro a b ha hb
  rw [rel_through_iff] at ha hb ⊢
  have ha : rows.Rel a v := ha.elim id And.left
  have hb : rows.Rel v b := hb.elim id And.right
  exact Or.inr ⟨ha, hb⟩

/-- A step for `v` keeps what the steps before it reached. -/
theorem Through.through {u : ℕ} (h : rows.Through u) (v : ℕ) : (rows.through v).Through u := by
  intro a b ha hb
  rw [rel_through_iff] at ha hb ⊢
  -- both halves of the path may use `v`; wherever they do, `u` is cut out by what held before
  rcases ha with ha | ⟨ha, hvu⟩ <;> rcases hb with hb | ⟨huv, hb⟩
  · exact Or.inl (h a b ha hb)
  · exact Or.inr ⟨h a v ha huv, hb⟩
  · exact Or.inr ⟨ha, h v b hvu hb⟩
  · exact Or.inr ⟨ha, hb⟩

theorem rel_foldl_through (vs : List ℕ) (h : rows.Rel a b) : (vs.foldl through rows).Rel a b := by
  induction vs generalizing rows with
  | nil => exact h
  | cons v vs ih => exact ih (rel_through_iff.2 (Or.inl h))

theorem Through.foldl {u : ℕ} (h : rows.Through u) (vs : List ℕ) :
    (vs.foldl Rows.through rows).Through u := by
  induction vs generalizing rows with
  | nil => exact h
  | cons v vs ih => exact ih (h.through v)

theorem through_foldl {vs : List ℕ} {v : ℕ} (hv : v ∈ vs) : (vs.foldl through rows).Through v := by
  induction vs generalizing rows with
  | nil => cases hv
  | cons u vs ih =>
    rcases List.mem_cons.1 hv with rfl | hv
    · exact (through_self rows v).foldl vs
    · exact ih hv

theorem transGen_of_foldl (vs : List ℕ) (h : (vs.foldl through rows).Rel a b) :
    TransGen rows.Rel a b := by
  induction vs generalizing rows a b with
  | nil => exact .single h
  | cons v vs ih =>
    refine TransGen.closed (fun x y hxy => ?_) a b (ih h)
    rcases rel_through_iff.1 hxy with hxy | ⟨hxv, hvy⟩
    · exact .single hxy
    · exact .tail (.single hxv) hvy

theorem rel_closure_trans {d : ℕ} (hab : rows.closure.Rel a b) (hbd : rows.closure.Rel b d) :
    rows.closure.Rel a d := by
  -- every number inside a path has a row, so it was admitted by some step
  have hb : b < rows.size := by
    obtain ⟨x, hx, -⟩ := TransGen.head'_iff.1 (transGen_of_foldl _ hbd)
    exact lt_size_of_rel hx
  exact through_foldl (List.mem_range.2 hb) a d hab hbd

/-- **The closure holds exactly the paths of one edge or more.** -/
theorem has_closure_iff : rows.closure.has a b = true ↔ TransGen rows.Rel a b := by
  refine ⟨transGen_of_foldl _, fun h => ?_⟩
  induction h with
  | single h => exact rel_foldl_through _ h
  | tail _ h ih => exact rel_closure_trans ih (rel_foldl_through _ h)

theorem size_link (edge : ℕ × ℕ) : (rows.link edge).size = rows.size := Array.size_modify

theorem rel_link_iff {x y : ℕ} :
    (rows.link (x, y)).Rel a b ↔ rows.Rel a b ∨ (a, b) = (x, y) ∧ a < rows.size := by
  simp only [Rel, has, link, Array.getD_eq_getD_getElem?, Array.getElem?_modify, Prod.mk.injEq]
  by_cases hx : x = a
  · subst hx
    by_cases hlt : x < rows.size
    · simp [hlt, Nat.testBit_or, Nat.one_shiftLeft, Nat.testBit_two_pow, @eq_comm _ b y]
    · simp [hlt]
  · simp [hx, Ne.symm hx]

theorem rel_foldl_link_iff {edges : List (ℕ × ℕ)} :
    (edges.foldl link rows).Rel a b ↔ rows.Rel a b ∨ (a, b) ∈ edges ∧ a < rows.size := by
  induction edges generalizing rows with
  | nil => simp
  | cons edge edges ih =>
    rw [List.foldl_cons, ih, size_link, rel_link_iff, List.mem_cons, or_assoc, ← or_and_right]

theorem rel_ofEdges_iff {n : ℕ} {edges : List (ℕ × ℕ)} :
    (ofEdges n edges).Rel a b ↔ (a, b) ∈ edges ∧ a < n := by
  rw [ofEdges, rel_foldl_link_iff, Array.size_replicate]
  refine or_iff_right ?_
  rw [Rel, has, Array.getD_eq_getD_getElem?, Array.getElem?_replicate]
  split <;> simp

end Rows

/-! ## Loops -/

namespace Netlist

/-- One signal drives an input of an element that writes another. -/
def Feeds (n : Netlist) (a b : ℕ) : Prop := (a, b) ∈ n.edges

theorem feeds_iff {n : Netlist} {a b : ℕ} :
    n.Feeds a b ↔ ∃ e ∈ n.elements, e.signal = b ∧ ∃ w ∈ e.cell.wires, w.source = some a := by
  simp only [Feeds, edges, List.mem_flatMap, List.mem_filterMap, Option.map_eq_some_iff,
    Prod.mk.injEq]
  constructor
  · rintro ⟨e, he, w, hw, s, hs, rfl, rfl⟩
    exact ⟨e, he, rfl, w, hw, hs⟩
  · rintro ⟨e, he, rfl, w, hw, hs⟩
    exact ⟨e, he, w, hw, a, hs, rfl, rfl⟩

variable {c : Circuit} {a b : ℕ}

theorem Feeds.lt_size (h : (ofCircuit c).Feeds a b) : a < (ofCircuit c).signals.size := by
  obtain ⟨e, he, -, w, hw, hsource⟩ := feeds_iff.1 h
  obtain ⟨k, -, -, hk⟩ := of_mem_wires he hw
  exact (sound_signals c).lt_size (hk.symm.trans hsource)

theorem has_closure_iff :
    (Rows.ofEdges (ofCircuit c).signals.size (ofCircuit c).edges).closure.has a b = true ↔
      TransGen (ofCircuit c).Feeds a b := by
  have : (Rows.ofEdges (ofCircuit c).signals.size (ofCircuit c).edges).Rel = (ofCircuit c).Feeds := by
    ext x y
    exact Rows.rel_ofEdges_iff.trans (and_iff_left_of_imp Feeds.lt_size)
  rw [Rows.has_closure_iff, this]

theorem lt_size_of_transGen (h : TransGen (ofCircuit c).Feeds a b) :
    a < (ofCircuit c).signals.size := by
  obtain ⟨x, hx, -⟩ := TransGen.head'_iff.1 h
  exact hx.lt_size

/-- The signals that reach a signal and are reached from it. -/
def loopAt (c : Circuit) (s : ℕ) : List ℕ :=
  loopOf (Rows.ofEdges (ofCircuit c).signals.size (ofCircuit c).edges).closure
    (ofCircuit c).signals.size s

theorem mem_loopAt {s : ℕ} : a ∈ loopAt c s ↔
    TransGen (ofCircuit c).Feeds s a ∧ TransGen (ofCircuit c).Feeds a s := by
  rw [loopAt, loopOf, List.mem_filter, List.mem_range, Bool.and_eq_true, has_closure_iff,
    has_closure_iff]
  exact and_iff_right_of_imp fun h => lt_size_of_transGen h.2

theorem mem_loops {l : List ℕ} : l ∈ (ofCircuit c).loops ↔
    ∃ s, TransGen (ofCircuit c).Feeds s s ∧ loopAt c s = l ∧ l.head? = some s := by
  simp only [loops, List.mem_filterMap, List.mem_filter, List.mem_range, has_closure_iff]
  constructor
  · rintro ⟨s, ⟨-, hs⟩, hl⟩
    split at hl
    · rename_i hhead
      cases hl
      exact ⟨s, hs, rfl, hhead⟩
    · cases hl
  · rintro ⟨s, hs, rfl, hhead⟩
    exact ⟨s, ⟨lt_size_of_transGen hs, hs⟩, if_pos hhead⟩

/-- Signals of one loop have the same loop. -/
theorem loopAt_eq {s : ℕ} (h : a ∈ loopAt c s) : loopAt c a = loopAt c s := by
  obtain ⟨hsa, has⟩ := mem_loopAt.1 h
  refine List.filter_congr fun x _ => ?_
  rw [Bool.eq_iff_iff, Bool.and_eq_true, Bool.and_eq_true, has_closure_iff, has_closure_iff,
    has_closure_iff, has_closure_iff]
  constructor
  · rintro ⟨hax, hxa⟩
    exact ⟨hsa.trans hax, hxa.trans has⟩
  · rintro ⟨hsx, hxs⟩
    exact ⟨has.trans hsx, hxs.trans hsa⟩

/-- **Two signals are in one loop exactly if each reaches the other.** -/
theorem exists_loop_iff : (∃ l ∈ (ofCircuit c).loops, a ∈ l ∧ b ∈ l) ↔
    TransGen (ofCircuit c).Feeds a b ∧ TransGen (ofCircuit c).Feeds b a := by
  constructor
  · rintro ⟨l, hl, ha, hb⟩
    obtain ⟨s, -, rfl, -⟩ := mem_loops.1 hl
    obtain ⟨hsa, has⟩ := mem_loopAt.1 ha
    obtain ⟨hsb, hbs⟩ := mem_loopAt.1 hb
    exact ⟨has.trans hsb, hbs.trans hsa⟩
  · rintro ⟨hab, hba⟩
    have haa : a ∈ loopAt c a := mem_loopAt.2 ⟨hab.trans hba, hab.trans hba⟩
    -- the loop is reported for its first signal, which has the same loop
    obtain ⟨f, hf⟩ : ∃ f, (loopAt c a).head? = some f :=
      ⟨_, List.head?_eq_some_head (List.ne_nil_of_mem haa)⟩
    have hmem : f ∈ loopAt c a := List.mem_of_head? hf
    obtain ⟨haf, hfa⟩ := mem_loopAt.1 hmem
    refine ⟨loopAt c f, mem_loops.2 ⟨f, hfa.trans haf, rfl, ?_⟩, ?_, ?_⟩
    · rw [loopAt_eq hmem, hf]
    · rw [loopAt_eq hmem]
      exact haa
    · rw [loopAt_eq hmem]
      exact mem_loopAt.2 ⟨hab, hba⟩

end Netlist

/-! ## Loops by id -/

namespace Circuit

variable (c : Circuit)

/-- A node with this id reads a connection. -/
def Reads (id : String) (k : Connection) : Prop :=
  ∃ e ∈ (Netlist.ofCircuit c).elements, e.node.id = id ∧
    ∃ w ∈ e.cell.wires, c.connections[w.connection]? = some k

/-- One step backwards along a resolved wire, to the declared id at its source. -/
def ReadsFrom (id source : String) : Prop :=
  ∃ k, c.Reads id k ∧ k.source.node = source ∧ source ∈ c.nodes.map (·.id)

variable {c} {id id' : String} {a b : ℕ}

theorem ReadsFrom.declared (h : c.ReadsFrom id id') : id' ∈ c.nodes.map (·.id) := by
  obtain ⟨_, -, -, hdeclared⟩ := h
  exact hdeclared

theorem readsFrom_iff : c.ReadsFrom id id' ↔
    ∃ a b, (Netlist.ofCircuit c).signals.number? id = some a ∧
      (Netlist.ofCircuit c).signals.number? id' = some b ∧ (Netlist.ofCircuit c).Feeds b a := by
  constructor
  · rintro ⟨k, ⟨e, he, rfl, w, hw, hk⟩, rfl, hdeclared⟩
    obtain ⟨b, hb⟩ := Option.isSome_iff_exists.1 ((Netlist.isSome_number?_iff c).2 hdeclared)
    obtain ⟨k', hk', -, hsource⟩ := Netlist.of_mem_wires he hw
    obtain rfl := Option.some.inj (hk'.symm.trans hk)
    exact ⟨e.signal, b, (Netlist.of_mem_elements he).2.1, hb,
      Netlist.feeds_iff.2 ⟨e, he, rfl, w, hw, hsource.trans hb⟩⟩
  · rintro ⟨a, b, ha, hb, h⟩
    obtain ⟨e, he, rfl, w, hw, hsource⟩ := Netlist.feeds_iff.1 h
    obtain ⟨k, hk, -, hnum⟩ := Netlist.of_mem_wires he hw
    have hid := (Netlist.sound_signals c).number?_inj (Netlist.of_mem_elements he).2.1 ha
    have hid' := (Netlist.sound_signals c).number?_inj (hnum.symm.trans hsource) hb
    exact ⟨k, ⟨e, he, hid, w, hw, hk⟩, hid', (Netlist.isSome_number?_iff c).1 (by rw [hb]; rfl)⟩

/-- Paths of ids are paths of signals, in the other direction. -/
theorem transGen_readsFrom_iff (ha : (Netlist.ofCircuit c).signals.number? id = some a)
    (hb : (Netlist.ofCircuit c).signals.number? id' = some b) :
    TransGen c.ReadsFrom id id' ↔ TransGen (Netlist.ofCircuit c).Feeds b a := by
  constructor
  · intro h
    induction h generalizing b with
    | single h =>
      obtain ⟨a', b', ha', hb', h⟩ := readsFrom_iff.1 h
      obtain rfl := Option.some.inj (ha'.symm.trans ha)
      obtain rfl := Option.some.inj (hb'.symm.trans hb)
      exact .single h
    | tail _ h ih =>
      obtain ⟨d, b', hd, hb', h⟩ := readsFrom_iff.1 h
      obtain rfl := Option.some.inj (hb'.symm.trans hb)
      exact .head h (ih hd)
  · intro h
    induction h generalizing id with
    | single h => exact .single (readsFrom_iff.2 ⟨_, _, ha, hb, h⟩)
    | tail _ h ih =>
      -- the signal before the last has a name, as everything that feeds has
      obtain ⟨d, hd⟩ := Netlist.exists_number?_of_lt h.lt_size
      exact .head (readsFrom_iff.2 ⟨_, _, ha, hd, h⟩) (ih hd)

end Circuit

/-- Every source of a wire is the signal of an element, from whose id the wire is read. -/
theorem Netlist.exists_source {c : Circuit} {e : Element} (he : e ∈ (ofCircuit c).elements) {w : Wire}
    (hw : w ∈ e.cell.wires) {s : ℕ} (hs : w.source = some s) :
    ∃ e' ∈ (ofCircuit c).elements, e'.signal = s ∧ c.ReadsFrom e.node.id e'.node.id := by
  obtain ⟨k, hk, -, hsource⟩ := of_mem_wires he hw
  have hnum := hsource.symm.trans hs
  have hdeclared := (isSome_number?_iff c).1 (by rw [hnum]; rfl)
  obtain ⟨n, hn, hid⟩ := List.mem_map.1 hdeclared
  obtain ⟨e', he', rfl⟩ := exists_element hn
  have hsignal := (of_mem_elements he').2.1
  rw [hid, hnum] at hsignal
  exact ⟨e', he', (Option.some.inj hsignal).symm, k, ⟨e, he, rfl, w, hw, hk⟩, hid.symm,
    hid ▸ hdeclared⟩

end Schematic
