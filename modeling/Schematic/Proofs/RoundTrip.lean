import Mathlib.Algebra.Order.BigOperators.Group.List
import Mathlib.Algebra.Order.Ring.Nat
import Schematic.Proofs.Lines

/-!
# The canonical script is read back

* `Circuit.parse_script`: **reading the canonical script of a valid circuit gives the circuit back**,
  with no diagnostics, unless the script starts with a byte-order mark.
* `Circuit.Valid.parse_marked_script`: behind one more mark, every canonical script is read back.
* `Circuit.parse_script_ne_of_mark`: a script that starts with the mark is read as another circuit,
  because the mark is dropped and some field needs it.
* `Script.parse_canonical`: both together for what a script declares.
-/

namespace Schematic

open Script Text

/-- What a circuit holds that is declared by a script. -/
structure Circuit.Valid (c : Circuit) : Prop where
  nodes : ∀ n ∈ c.nodes, n.Valid
  connections : ∀ k ∈ c.connections, k.Valid

theorem Script.valid_parse (s : String) : (parse s).circuit.Valid :=
  ⟨fun _ => valid_of_mem_nodes, fun _ => valid_of_mem_connections⟩

/-- A line is written without a line feed. -/
theorem Node.newline_not_mem_line {n : Node} (h : n.Valid) : '\n' ∉ n.line.toList := by
  have hnum := fun i : ℤ => not_mem_toString_int i (c := '\n') (by decide) (by decide)
  have hopt : '\n' ∉ n.optionText := by
    rw [optionText, List.mem_flatMap]
    rintro ⟨w, hw, hm⟩
    exact (h.isWord_of_mem w hw).newline_not_mem (by simpa using hm)
  rw [toList_line, tailText]
  simp only [List.mem_append, List.mem_cons, not_or]
  exact ⟨h.type_word.newline_not_mem, by decide, h.id_word.newline_not_mem, by decide, by decide,
    by decide, hnum _, by decide, by decide, hnum _, hopt⟩

theorem Connection.newline_not_mem_line {c : Connection} (h : c.Valid) : '\n' ∉ c.line.toList := by
  have htext : ∀ e : Endpoint, e.Valid → '\n' ∉ e.text.toList := by
    intro e he
    rw [Endpoint.toList_text, List.mem_append, List.mem_cons, not_or, not_or]
    exact ⟨he.node_newline, by decide, he.slot_newline⟩
  rw [toList_line]
  simp only [List.mem_append, List.mem_cons, not_or]
  exact ⟨⟨htext _ h.source, by decide, by decide⟩, by decide, htext _ h.target⟩

theorem Script.Item.ofRaw_nil : Item.ofRaw [] = .nothing := rfl

namespace Circuit

theorem eq_iff {a b : Circuit} : a = b ↔ a.nodes = b.nodes ∧ a.connections = b.connections := by
  cases a
  cases b
  rw [mk.injEq]

variable {c : Circuit}

/-- The lines of the canonical script as characters. -/
def lineTexts (c : Circuit) : List (List Char) := c.scriptLines.map String.toList

theorem toList_script (c : Circuit) : c.script.toList = c.lineTexts.flatMap (· ++ ['\n']) := by
  simp [script, lineTexts, String.toList_join, List.flatMap_map]

/-- The lines of the canonical script, by what they declare. -/
theorem lineTexts_eq (c : Circuit) : ∃ gap, (∀ l ∈ gap, l = []) ∧
    c.lineTexts = c.nodes.map (·.line.toList) ++ gap ++ c.connections.map (·.line.toList) := by
  refine ⟨(if c.nodes.isEmpty || c.connections.isEmpty then [] else [""]).map String.toList, ?_, ?_⟩
  · split <;> simp
  · simp only [lineTexts, scriptLines, List.map_append, List.map_map, Function.comp_def]

theorem Valid.newline_not_mem (h : c.Valid) : ∀ l ∈ c.lineTexts, '\n' ∉ l := by
  obtain ⟨gap, hgap, hc⟩ := c.lineTexts_eq
  intro l hl
  rw [hc, List.mem_append, List.mem_append, List.mem_map, List.mem_map] at hl
  rcases hl with (⟨n, hn, rfl⟩ | hl) | ⟨k, hk, rfl⟩
  · exact Node.newline_not_mem_line (h.nodes n hn)
  · simp [hgap l hl]
  · exact Connection.newline_not_mem_line (h.connections k hk)

/-- The lines of a canonical script are read back as they were written. -/
theorem Valid.pieces_script (h : c.Valid) :
    pieces (· == '\n') c.script.toList = c.lineTexts ++ [[]] := by
  rw [toList_script]
  refine pieces_flatMap (by decide) fun l hl a ha => ?_
  have := h.newline_not_mem l hl
  simp only [beq_eq_false_iff_ne]
  rintro rfl
  exact this ha

theorem dropMark_eq_self {s : List Char} (hs : s.head? ≠ some byteOrderMark) : dropMark s = s := by
  cases s with
  | nil => rfl
  | cons a r => simp only [dropMark, if_neg (show a ≠ byteOrderMark by simpa using hs)]

/-- What the lines of a canonical script declare. -/
theorem Valid.items_lineTexts (h : c.Valid) : ∃ gap, (∀ i ∈ gap, i = Item.nothing) ∧
    c.lineTexts.map Item.ofRaw = c.nodes.map .node ++ gap ++ c.connections.map .connection := by
  obtain ⟨gap, hgap, hc⟩ := c.lineTexts_eq
  refine ⟨gap.map Item.ofRaw, fun i hi => ?_, ?_⟩
  · obtain ⟨l, hl, rfl⟩ := List.mem_map.1 hi
    rw [hgap l hl, Item.ofRaw_nil]
  · have hn : c.nodes.map (fun n => Item.ofRaw n.line.toList) = c.nodes.map .node :=
      List.map_congr_left fun n hn => Node.ofRaw_line (h.nodes n hn)
    have hk : c.connections.map (fun k => Item.ofRaw k.line.toList) = c.connections.map .connection :=
      List.map_congr_left fun k hk => Connection.ofRaw_line (h.connections k hk)
    simp only [hc, List.map_append, List.map_map, Function.comp_def, hn, hk]

/-- The items of a canonical script: what it declares, and blank lines. -/
theorem Valid.items_eq (h : c.Valid) {s : String} (hs : dropMark s.toList = c.script.toList) :
    ∃ gap, (∀ i ∈ gap, i = Item.nothing) ∧
      items s = c.nodes.map .node ++ gap ++ c.connections.map .connection ++ [.nothing] := by
  obtain ⟨gap, hgap, hitems⟩ := h.items_lineTexts
  refine ⟨gap, hgap, ?_⟩
  rw [items, lines, hs, h.pieces_script, List.map_append, hitems, List.map_singleton, Item.ofRaw_nil]

/-- **A script that holds the canonical script of a valid circuit, with or without a mark that is dropped,
gives the circuit back.** -/
theorem Valid.parse_eq (h : c.Valid) {s : String} (hs : dropMark s.toList = c.script.toList) :
    parse s = ⟨c, []⟩ := by
  obtain ⟨gap, hgap, hi⟩ := h.items_eq hs
  have hskip : ∀ {α : Type} (f : Item → Option α), f .nothing = none → gap.filterMap f = [] :=
    fun f hf => List.filterMap_eq_nil_iff.2 fun i hm => by rw [hgap i hm, hf]
  have hnodes : (items s).filterMap Item.node? = c.nodes := by
    rw [hi]
    simp only [List.filterMap_append, List.filterMap_map, hskip Item.node? rfl]
    simp [Function.comp_def, Item.node?]
  have hconnections : (items s).filterMap Item.connection? = c.connections := by
    rw [hi]
    simp only [List.filterMap_append, List.filterMap_map, hskip Item.connection? rfl]
    simp [Function.comp_def, Item.connection?]
  have hfault : ∀ i ∈ items s, i.fault? = none := by
    intro i hm
    rw [hi] at hm
    simp only [List.mem_append, List.mem_map, List.mem_singleton] at hm
    rcases hm with ((⟨n, -, rfl⟩ | hm) | ⟨k, -, rfl⟩) | rfl
    · rfl
    · rw [hgap i hm]; rfl
    · rfl
    · rfl
  have hdiag : (parse s).diagnostics = [] := by
    refine List.filterMap_eq_nil_iff.2 fun p hp => ?_
    obtain ⟨i, line⟩ := p
    simp only [hfault i (List.fst_mem_of_mem_zipIdx hp), Option.map_none]
  have hcircuit : (parse s).circuit = c := eq_iff.2 ⟨hnodes, hconnections⟩
  calc parse s
    _ = ⟨(parse s).circuit, (parse s).diagnostics⟩ := rfl
    _ = ⟨c, []⟩ := by rw [hcircuit, hdiag]

/-- **Reading the canonical script of a valid circuit gives the circuit back.** -/
theorem parse_script (h : c.Valid) (hs : c.script.toList.head? ≠ some byteOrderMark) :
    parse c.script = ⟨c, []⟩ :=
  h.parse_eq (dropMark_eq_self hs)

/-- A mark in front of the canonical script is dropped, so that one of the script itself is not. -/
theorem Valid.parse_marked_script (h : c.Valid) :
    parse (String.singleton byteOrderMark ++ c.script) = ⟨c, []⟩ := by
  apply h.parse_eq
  rw [String.toList_append, String.toList_singleton, List.singleton_append, dropMark, if_pos rfl]

/-! ## A mark in front -/

/-- The number of byte-order marks in all fields. -/
def marks (c : Circuit) : ℕ := (c.nodes.map Node.marks).sum + (c.connections.map Connection.marks).sum

/-- All byte-order marks of a canonical script stand in the fields. -/
theorem count_script (c : Circuit) : c.script.toList.count byteOrderMark = c.marks := by
  obtain ⟨gap, hgap, hc⟩ := c.lineTexts_eq
  have hline : ∀ ls : List (List Char), (ls.flatMap (· ++ ['\n'])).count byteOrderMark =
      (ls.map (·.count byteOrderMark)).sum := by
    intro ls
    induction ls with
    | nil => rfl
    | cons l ls ih =>
      have hnl : ['\n'].count byteOrderMark = 0 := by decide
      rw [List.flatMap_cons, List.count_append, List.count_append, ih, hnl]
      simp
  have hgap : (gap.map (·.count byteOrderMark)).sum = 0 :=
    List.sum_eq_zero fun k hk => by
      obtain ⟨l, hl, rfl⟩ := List.mem_map.1 hk
      rw [hgap l hl]
      rfl
  rw [toList_script, hline, hc]
  simp [hgap, Function.comp_def, Node.count_line, Connection.count_line, marks]

end Circuit

/-- The number of byte-order marks in what an item declares. -/
def Script.Item.marks : Item → ℕ
  | .node n => n.marks
  | .connection c => c.marks
  | .nothing | .fault _ => 0

theorem Script.Item.marks_ofRaw_le (raw : List Char) :
    (Item.ofRaw raw).marks ≤ raw.count byteOrderMark := by
  cases h : Item.ofRaw raw with
  | nothing => exact Nat.zero_le _
  | node n => exact Node.marks_le_of_ofRaw h
  | connection c => exact Connection.marks_le_of_ofRaw h
  | fault f => exact Nat.zero_le _

theorem Script.marks_filterMap (l : List Item) :
    (Circuit.mk (l.filterMap Item.node?) (l.filterMap Item.connection?)).marks =
      (l.map Item.marks).sum := by
  induction l with
  | nil => rfl
  | cons i l ih =>
    simp only [Circuit.marks, List.map_cons, List.sum_cons] at ih ⊢
    cases i <;> simp only [List.filterMap_cons, Item.node?, Item.connection?, Item.marks,
      List.map_cons, List.sum_cons] <;> omega

/-- A script declares no more byte-order marks than it holds after the one in front. -/
theorem Script.marks_parse_le (s : String) :
    (parse s).circuit.marks ≤ (dropMark s.toList).count byteOrderMark := by
  have hparts := (flatten_pieces_sublist (p := (· == '\n')) (dropMark s.toList)).count_le byteOrderMark
  rw [List.count_flatten] at hparts
  refine le_trans ?_ hparts
  simp only [parse, marks_filterMap, items, lines, List.map_map]
  exact List.sum_le_sum fun l _ => Item.marks_ofRaw_le l

/-- **A canonical script that starts with a byte-order mark is read as another circuit.** -/
theorem Circuit.parse_script_ne_of_mark {c : Circuit}
    (hs : c.script.toList.head? = some byteOrderMark) : (parse c.script).circuit ≠ c := by
  -- the marks of a script are those of its fields, and reading loses the one in front
  intro he
  have hle := marks_parse_le c.script
  obtain ⟨r, hr⟩ : ∃ r, c.script.toList = byteOrderMark :: r := by
    cases h : c.script.toList with
    | nil => rw [h] at hs; cases hs
    | cons a r => rw [h] at hs; cases hs; exact ⟨r, rfl⟩
  have hcount := c.count_script
  rw [hr, List.count_cons_self] at hcount
  rw [he, hr, dropMark, if_pos rfl] at hle
  omega

namespace Script

/-- The canonical script of what a script declares. -/
def canonical (s : String) : String := (parse s).circuit.script

/-- **What a script declares is read back from its canonical script, unless that starts with a
byte-order mark**; then it gives no diagnostics, and its own canonical script is the same. -/
theorem parse_canonical (s : String) :
    (((parse (canonical s)).circuit.nodes = (parse s).circuit.nodes ∧
        (parse (canonical s)).circuit.connections = (parse s).circuit.connections) ↔
      (canonical s).toList.head? ≠ some byteOrderMark) ∧
    ((canonical s).toList.head? ≠ some byteOrderMark →
      (parse (canonical s)).diagnostics = [] ∧ canonical (canonical s) = canonical s) := by
  have hv : (parse s).circuit.Valid := valid_parse s
  have hread : (canonical s).toList.head? ≠ some byteOrderMark →
      parse (canonical s) = ⟨(parse s).circuit, []⟩ := fun hs => Circuit.parse_script hv hs
  rw [← Circuit.eq_iff]
  refine ⟨⟨fun h hs => ?_, fun hs => ?_⟩, fun hs => ⟨?_, ?_⟩⟩
  · exact Circuit.parse_script_ne_of_mark hs h
  · rw [hread hs]
  · rw [hread hs]
  · calc canonical (canonical s)
      _ = (parse (canonical s)).circuit.script := rfl
      _ = canonical s := by rw [hread hs, canonical]

end Script

end Schematic
