import Schematic.Proofs.RoundTrip
import Schematic.Proofs.Words

/-!
# Reading line by line

A script is read one line at a time, and what one line gives depends on that line alone: its number goes into
the diagnostic, and nothing else of the script goes into anything.

* `Item.on`: what a line gives on its own. `Parsed.append`, `Parsed.down`: one result after another, and a
  result further down.
* `parsedFrom_append`, `parsedFrom_down`: **items give together what each part of them gives**, and the same
  further down.
* `mem_diagnostics_parsedFrom`, `pairwise_diagnostics_parsedFrom`: diagnostics stand on the lines of faults, in
  order.
* `parse_append`: a line feed between two texts separates what they give.
* `parse_of_lines`, `parse_of_fault`: what a script gives besides one of its lines, and without a malformed one.
* `Recoded`, `parse_recoded`: CR LF may stand for a line feed.
* `parse_line_by_line`: **all of this for every script.**
-/

namespace Schematic.Script

open Text

/-! ## Results -/

/-- A diagnostic some lines further down. -/
def Diagnostic.down (k : ℕ) (d : Diagnostic) : Diagnostic := { d with line := d.line + k }

namespace Parsed

/-- One result after another. -/
def append (p q : Parsed) : Parsed :=
  ⟨⟨p.circuit.nodes ++ q.circuit.nodes, p.circuit.connections ++ q.circuit.connections⟩,
    p.diagnostics ++ q.diagnostics⟩

instance : Append Parsed := ⟨append⟩

/-- The same result some lines further down. -/
def down (k : ℕ) (p : Parsed) : Parsed := { p with diagnostics := p.diagnostics.map (Diagnostic.down k) }

/-- The number of nodes, connections and diagnostics. -/
def size (p : Parsed) : ℕ := p.circuit.nodes.length + p.circuit.connections.length + p.diagnostics.length

@[simp] theorem nodes_append (p q : Parsed) :
    (p ++ q).circuit.nodes = p.circuit.nodes ++ q.circuit.nodes := rfl

@[simp] theorem connections_append (p q : Parsed) :
    (p ++ q).circuit.connections = p.circuit.connections ++ q.circuit.connections := rfl

@[simp] theorem diagnostics_append (p q : Parsed) : (p ++ q).diagnostics = p.diagnostics ++ q.diagnostics :=
  rfl

@[ext] theorem ext_parts {p q : Parsed} (hn : p.circuit.nodes = q.circuit.nodes)
    (hc : p.circuit.connections = q.circuit.connections) (hd : p.diagnostics = q.diagnostics) : p = q := by
  obtain ⟨⟨_, _⟩, _⟩ := p
  obtain ⟨⟨_, _⟩, _⟩ := q
  simp_all

theorem append_assoc (p q r : Parsed) : p ++ q ++ r = p ++ (q ++ r) := by
  ext1 <;> simp

theorem down_append (k : ℕ) (p q : Parsed) : (p ++ q).down k = p.down k ++ q.down k := by
  ext1 <;> simp [down]

end Parsed

/-- What an item gives on its own, on the line with this number. -/
def Item.on (line : ℕ) : Item → Parsed
  | .nothing => ⟨⟨[], []⟩, []⟩
  | .node n => ⟨⟨[n], []⟩, []⟩
  | .connection c => ⟨⟨[], [c]⟩, []⟩
  | .fault f => ⟨⟨[], []⟩, [⟨line, f⟩]⟩

theorem Item.size_on_le (line : ℕ) (i : Item) : (i.on line).size ≤ 1 := by
  cases i <;> simp [on, Parsed.size]

/-! ## Items -/

/-- What items give that stand on consecutive lines from the one with number `first`. -/
def parsedFrom (first : ℕ) (items : List Item) : Parsed :=
  { circuit := ⟨items.filterMap Item.node?, items.filterMap Item.connection?⟩
    diagnostics := (items.zipIdx first).filterMap fun (item, line) => item.fault?.map (⟨line, ·⟩) }

theorem parse_eq (s : String) : parse s = parsedFrom 1 (items s) := rfl

variable {first k : ℕ} {is js : List Item} {d : Diagnostic}

theorem parsedFrom_nil : parsedFrom first [] = ⟨⟨[], []⟩, []⟩ := rfl

/-- An item gives what it gives on its own, and then come the others. -/
theorem parsedFrom_cons (i : Item) : parsedFrom first (i :: is) = i.on first ++ parsedFrom (first + 1) is := by
  cases i <;> rfl

/-- **What items give, put together, is what each part of them gives.** -/
theorem parsedFrom_append :
    parsedFrom first (is ++ js) = parsedFrom first is ++ parsedFrom (first + is.length) js := by
  induction is generalizing first with
  | nil => rfl
  | cons i is ih =>
    rw [List.cons_append, parsedFrom_cons, parsedFrom_cons, ih, Parsed.append_assoc, List.length_cons,
      Nat.add_right_comm, Nat.add_assoc]

/-- Further down, the same items give the same. -/
theorem parsedFrom_down : parsedFrom (first + k) is = (parsedFrom first is).down k := by
  induction is generalizing first with
  | nil => rfl
  | cons i is ih =>
    have hitem : i.on (first + k) = (i.on first).down k := by cases i <;> rfl
    rw [parsedFrom_cons, parsedFrom_cons, Parsed.down_append, ← ih, hitem, Nat.add_right_comm]

theorem Item.mem_diagnostics_on {i : Item} :
    d ∈ (i.on k).diagnostics ↔ i = .fault d.fault ∧ d.line = k := by
  obtain ⟨line, f⟩ := d
  cases i <;> simp [on, eq_comm, and_comm]

/-- Diagnostics stand on the lines of faults, and on no others. -/
theorem mem_diagnostics_parsedFrom : d ∈ (parsedFrom first is).diagnostics ↔
    ∃ k, is[k]? = some (.fault d.fault) ∧ d.line = first + k := by
  induction is generalizing first with
  | nil => simp [parsedFrom_nil]
  | cons i is ih =>
    rw [parsedFrom_cons, Parsed.diagnostics_append, List.mem_append, Item.mem_diagnostics_on, ih]
    constructor
    · rintro (⟨hi, hline⟩ | ⟨k, hk, hline⟩)
      · exact ⟨0, by rw [hi]; rfl, hline⟩
      · exact ⟨k + 1, hk, by omega⟩
    · rintro ⟨- | k, hk, hline⟩
      · exact Or.inl ⟨Option.some.inj hk, hline⟩
      · exact Or.inr ⟨k, hk, by omega⟩

/-- Diagnostics stand in the order of their lines, not two on one line. -/
theorem pairwise_diagnostics_parsedFrom : (parsedFrom first is).diagnostics.Pairwise (·.line < ·.line) := by
  induction is generalizing first with
  | nil => exact List.Pairwise.nil
  | cons i is ih =>
    have hitem : (i.on first).diagnostics.Pairwise (·.line < ·.line) := by
      cases i <;> simp [Item.on]
    rw [parsedFrom_cons, Parsed.diagnostics_append, List.pairwise_append]
    refine ⟨hitem, ih, fun d hd e he => ?_⟩
    obtain ⟨-, hd⟩ := Item.mem_diagnostics_on.1 hd
    obtain ⟨k, -, he⟩ := mem_diagnostics_parsedFrom.1 he
    omega

/-! ## Lines -/

theorem length_pieces {p : Char → Bool} (s : List Char) : (pieces p s).length = s.countP p + 1 := by
  induction s with
  | nil => rfl
  | cons c s ih =>
    by_cases hc : p c = true
    · rw [pieces_cons_sep hc, List.length_cons, ih, List.countP_cons_of_pos hc]
    · obtain ⟨w, ws, hw⟩ := List.exists_cons_of_ne_nil (pieces_ne_nil (p := p) s)
      rw [pieces_cons_other (by simpa using hc) hw, List.countP_cons_of_neg hc, ← ih, hw]
      rfl

/-- Only the mark in front of a whole script is dropped. -/
theorem dropMark_append_newline (x y : List Char) : dropMark (x ++ '\n' :: y) = dropMark x ++ '\n' :: y := by
  cases x with
  | nil => rfl
  | cons c x =>
    simp only [List.cons_append, dropMark]
    split <;> rfl

/-- A script has one line more than line feeds. -/
theorem length_lines (s : String) : (lines s).length = s.toList.count '\n' + 1 := by
  have hmark : (dropMark s.toList).count '\n' = s.toList.count '\n' := by
    cases s.toList with
    | nil => rfl
    | cons c x =>
      simp only [dropMark]
      split
      · rename_i hc
        rw [hc, List.count_cons_of_ne (by decide)]
      · rfl
  rw [lines, length_pieces, ← hmark]
  rfl

/-- **A line feed separates the lines of two texts.** -/
theorem lines_append {a b : String} (hb : b.toList.head? ≠ some byteOrderMark) :
    lines (a ++ "\n" ++ b) = lines a ++ lines b := by
  have htext : (a ++ "\n" ++ b).toList = a.toList ++ '\n' :: b.toList := by simp
  rw [lines, htext, dropMark_append_newline, pieces_append_cons (by decide), lines, lines,
    Circuit.dropMark_eq_self hb]

/-- **What two texts give with a line feed between them**: what the first gives, and what the second gives
so many lines further down. -/
theorem parse_append {a b : String} (hb : b.toList.head? ≠ some byteOrderMark) :
    parse (a ++ "\n" ++ b) = parse a ++ (parse b).down (1 + a.toList.count '\n') := by
  have hitems : items (a ++ "\n" ++ b) = items a ++ items b := by
    rw [items, lines_append hb, List.map_append, items, items]
  have hlength : (items a).length = 1 + a.toList.count '\n' := by
    rw [items, List.length_map, length_lines, Nat.add_comm]
  rw [parse_eq, hitems, parsedFrom_append, hlength, parsedFrom_down, parse_eq, parse_eq]

/-- What a script gives besides what one of its lines gives. -/
theorem parse_of_lines {s : String} {before after : List (List Char)} {l : List Char}
    (hs : lines s = before ++ l :: after) :
    parse s = parsedFrom 1 (before.map Item.ofRaw) ++ (Item.ofRaw l).on (before.length + 1) ++
      parsedFrom (before.length + 2) (after.map Item.ofRaw) := by
  rw [parse_eq, items, hs, List.map_append, List.map_cons, parsedFrom_append, parsedFrom_cons,
    Parsed.append_assoc, List.length_map, Nat.add_comm 1]

/-- **Without a malformed line a script gives the same, but for the diagnostic of that line.** -/
theorem parse_of_fault {s s' : String} {before after : List (List Char)} {l : List Char} {f : Fault}
    (hs : lines s = before ++ l :: after) (hs' : lines s' = before ++ [] :: after)
    (hf : Item.ofRaw l = .fault f) :
    (parse s').circuit = (parse s).circuit ∧
      (parse s').diagnostics = (parse s).diagnostics.filter (·.line ≠ before.length + 1) := by
  have hbefore : ∀ d ∈ (parsedFrom 1 (before.map Item.ofRaw)).diagnostics, d.line ≠ before.length + 1 := by
    intro d hd
    obtain ⟨k, hk, hline⟩ := mem_diagnostics_parsedFrom.1 hd
    obtain ⟨hlt, -⟩ := List.getElem?_eq_some_iff.1 hk
    rw [List.length_map] at hlt
    omega
  have hafter : ∀ d ∈ (parsedFrom (before.length + 2) (after.map Item.ofRaw)).diagnostics,
      d.line ≠ before.length + 1 := by
    intro d hd
    obtain ⟨k, -, hline⟩ := mem_diagnostics_parsedFrom.1 hd
    omega
  have hkeep {ds : List Diagnostic} (h : ∀ d ∈ ds, d.line ≠ before.length + 1) :
      ds.filter (·.line ≠ before.length + 1) = ds :=
    List.filter_eq_self.2 fun d hd => by simpa using h d hd
  rw [parse_of_lines hs, parse_of_lines hs', hf, Item.ofRaw_nil]
  refine ⟨rfl, ?_⟩
  simp only [Parsed.diagnostics_append, List.filter_append, hkeep hbefore, hkeep hafter]
  simp [Item.on]

/-! ## Line endings -/

/-- The same text with CR LF instead of some of the line feeds. -/
inductive Recoded : List Char → List Char → Prop where
  | nil : Recoded [] []
  | keep (c : Char) {s t : List Char} (h : Recoded s t) : Recoded (c :: s) (c :: t)
  | crlf {s t : List Char} (h : Recoded s t) : Recoded ('\n' :: s) ('\r' :: '\n' :: t)

theorem Recoded.append_left {s t : List Char} (h : Recoded s t) (x : List Char) :
    Recoded (x ++ s) (x ++ t) := by
  induction x with
  | nil => exact h
  | cons c x ih => exact ih.keep c

theorem Recoded.dropMark {s t : List Char} (h : Recoded s t) : Recoded (dropMark s) (dropMark t) := by
  cases h with
  | nil => exact .nil
  | keep c h =>
    simp only [Script.dropMark]
    split
    · exact h
    · exact h.keep c
  | crlf h => exact h.crlf

/-- Line by line, a carriage return may have come at the end. -/
theorem Recoded.forall₂_pieces {s t : List Char} (h : Recoded s t) :
    List.Forall₂ (fun l l' => l' = l ∨ l' = l ++ ['\r']) (pieces (· == '\n') s) (pieces (· == '\n') t) := by
  induction h with
  | nil => exact .cons (Or.inl rfl) .nil
  | @keep c s t _ ih =>
    rcases eq_or_ne c '\n' with rfl | hc
    · rw [pieces_cons_sep (by decide), pieces_cons_sep (by decide)]
      exact .cons (Or.inl rfl) ih
    · -- the character joins the first line of both texts
      have hc : (c == '\n') = false := by simpa using hc
      obtain ⟨l, ls, hs⟩ := List.exists_cons_of_ne_nil (pieces_ne_nil (p := (· == '\n')) s)
      obtain ⟨l', ls', ht⟩ := List.exists_cons_of_ne_nil (pieces_ne_nil (p := (· == '\n')) t)
      rw [hs, ht, List.forall₂_cons] at ih
      rw [pieces_cons_other (p := (· == '\n')) hc hs, pieces_cons_other (p := (· == '\n')) hc ht]
      refine .cons (ih.1.imp ?_ ?_) ih.2
      · rintro rfl
        rfl
      · rintro rfl
        rfl
  | @crlf s t _ ih =>
    have hcr : pieces (· == '\n') ('\r' :: '\n' :: t) = ['\r'] :: pieces (· == '\n') t :=
      pieces_cons_other (by decide) (pieces_cons_sep (by decide) t)
    rw [pieces_cons_sep (by decide), hcr]
    exact .cons (Or.inr rfl) ih

/-- Blanks at the end of a line are of no account. -/
theorem Item.ofRaw_append_blanks {b : List Char} (hb : Blanks b) (l : List Char) :
    Item.ofRaw (l ++ b) = Item.ofRaw l := by
  have htrim : trim (l ++ b) = trim l := by
    simpa using trim_append_blanks (a := []) (by simp [Blanks]) hb l
  rw [Item.ofRaw, Item.ofRaw, Line.classify, Line.classify, htrim]

/-- **CR LF may stand for any of the line feeds.** -/
theorem parse_recoded {s t : String} (h : Recoded s.toList t.toList) : parse t = parse s := by
  have hlines : List.Forall₂ (fun l l' => l' = l ∨ l' = l ++ ['\r']) (lines s) (lines t) :=
    h.dropMark.forall₂_pieces
  have hitems : items t = items s := by
    rw [items, items, ← List.forall₂_eq_eq_eq, List.forall₂_map_left_iff, List.forall₂_map_right_iff]
    refine hlines.flip.imp ?_
    rintro l' l (rfl | rfl)
    · rfl
    · exact Item.ofRaw_append_blanks (by decide) l
  rw [parse_eq, hitems, parse_eq]

/-! ## Scripts -/

/-- **Reading is line by line.** A line feed separates what two texts give, unless the second starts with a
byte-order mark. What one line gives, at most one node, connection or diagnostic, stands between what the
lines before and after it give without it. A malformed line gives its diagnostic only, diagnostics stand on
the malformed lines in order, and CR LF is as good as a line feed. -/
theorem parse_line_by_line :
    (∀ a b : String, b.toList.head? ≠ some byteOrderMark →
      parse (a ++ "\n" ++ b) = parse a ++ (parse b).down (1 + a.toList.count '\n')) ∧
    (∀ s before l after, lines s = before ++ l :: after →
      parse s = parsedFrom 1 (before.map Item.ofRaw) ++ (Item.ofRaw l).on (before.length + 1) ++
        parsedFrom (before.length + 2) (after.map Item.ofRaw) ∧
      ((Item.ofRaw l).on (before.length + 1)).size ≤ 1) ∧
    (∀ s s' before l after f, lines s = before ++ l :: after → Item.ofRaw l = .fault f →
      lines s' = before ++ [] :: after →
      (parse s').circuit = (parse s).circuit ∧
        (parse s').diagnostics = (parse s).diagnostics.filter (·.line ≠ before.length + 1)) ∧
    (∀ s, (parse s).diagnostics.Pairwise (·.line < ·.line) ∧
      ∀ d, d ∈ (parse s).diagnostics ↔
        ∃ k l, d.line = k + 1 ∧ (lines s)[k]? = some l ∧ Item.ofRaw l = .fault d.fault) ∧
    ∀ s t : String, Recoded s.toList t.toList → parse t = parse s := by
  refine ⟨fun a b => parse_append, fun s before l after hs => ⟨parse_of_lines hs, Item.size_on_le _ _⟩,
    fun s s' before l after f hs hf hs' => parse_of_fault hs hs' hf,
    fun s => ⟨pairwise_diagnostics_parsedFrom, fun d => ?_⟩, fun s t => parse_recoded⟩
  rw [parse_eq, mem_diagnostics_parsedFrom]
  constructor
  · rintro ⟨k, hk, hline⟩
    obtain ⟨l, hl, hf⟩ := Option.map_eq_some_iff.1 (List.getElem?_map ▸ hk)
    exact ⟨k, l, by omega, hl, hf⟩
  · rintro ⟨k, l, hline, hl, hf⟩
    exact ⟨k, by rw [items, List.getElem?_map, hl, Option.map_some, hf], by omega⟩

/-- Three lines, the second one malformed: cut after the first, without the second, and with CR LF. -/
theorem parse_line_by_line_mixed :
    parse ("In A @ 0, 0" ++ "\n" ++ "NOT @ 1, 1\nA -> Y") =
      parse "In A @ 0, 0" ++ (parse "NOT @ 1, 1\nA -> Y").down 1 ∧
    parse "In A @ 0, 0\nNOT @ 1, 1\nA -> Y" =
      ⟨⟨[⟨"A", "In", 0, 0, []⟩], []⟩, []⟩ ++ ⟨⟨[], []⟩, [⟨2, .missingTypeOrId⟩]⟩ ++
        ⟨⟨[], [⟨⟨"A", "out"⟩, ⟨"Y", "in"⟩⟩]⟩, []⟩ ∧
    (parse "In A @ 0, 0\n\nA -> Y").circuit = (parse "In A @ 0, 0\nNOT @ 1, 1\nA -> Y").circuit ∧
    ⟨2, .missingTypeOrId⟩ ∈ (parse "In A @ 0, 0\nNOT @ 1, 1\nA -> Y").diagnostics ∧
    parse "In A @ 0, 0\r\nNOT @ 1, 1\nA -> Y" = parse "In A @ 0, 0\nNOT @ 1, 1\nA -> Y" := by
  obtain ⟨happend, hline, hfault, hdiagnostics, hrecoded⟩ := parse_line_by_line
  have hlines : lines "In A @ 0, 0\nNOT @ 1, 1\nA -> Y" =
      ["In A @ 0, 0".toList] ++ "NOT @ 1, 1".toList :: ["A -> Y".toList] := by decide +kernel
  have hmalformed : Item.ofRaw "NOT @ 1, 1".toList = .fault .missingTypeOrId := by decide +kernel
  refine ⟨happend _ _ (by decide), ?_, ?_, ?_, ?_⟩
  · exact (hline _ _ _ _ hlines).1.trans (by decide +kernel)
  · exact (hfault _ _ _ _ _ _ hlines hmalformed (by decide +kernel)).1
  · exact ((hdiagnostics _).2 _).2 ⟨1, _, rfl, by rw [hlines]; rfl, hmalformed⟩
  · have hrest : Recoded "NOT @ 1, 1\nA -> Y".toList "NOT @ 1, 1\nA -> Y".toList := by
      simpa using Recoded.nil.append_left "NOT @ 1, 1\nA -> Y".toList
    exact hrecoded _ _ (hrest.crlf.append_left "In A @ 0, 0".toList)

end Schematic.Script
