import Schematic.Proofs.Fields
import Schematic.Script.Print

/-!
# Written lines are read back

* `Node.ofRaw_line`, `Connection.ofRaw_line`: **the line written for a valid node or connection
  declares exactly that node or connection.** Written with single spaces and both slots spelled out,
  it holds no earlier arrow, `@` or dot than the one at which it has to be cut.
* `Node.marks_le_of_ofRaw`, `Connection.marks_le_of_ofRaw`: a line declares no more byte-order marks
  than it holds. So a line that lost its mark declares something else.
-/

namespace Schematic

open Script Text

namespace Script

/-- The characters of a number: a sign and digits. -/
theorem mem_toString_int {i : ℤ} {c : Char} (h : c ∈ (toString i).toList) :
    c = '-' ∨ c.isDigit = true := by
  have hnat : ∀ n : ℕ, ∀ c ∈ (toString n).toList, c.isDigit = true := by
    intro n c hc
    rw [Nat.toString_eq_ofList_toDigits, String.toList_ofList] at hc
    exact Nat.isDigit_of_mem_toDigits (by decide) (by decide) hc
  cases i with
  | ofNat n => exact Or.inr (hnat n c h)
  | negSucc n =>
    rw [show toString (Int.negSucc n) = "-" ++ toString (n + 1) from rfl, String.toList_append] at h
    rcases List.mem_append.1 h with h | h
    · exact Or.inl (by simpa using h)
    · exact Or.inr (hnat _ c h)

theorem not_isBlank_of_isDigit {c : Char} (h : c.isDigit = true) : isBlank c = false := by
  simp only [Char.isDigit, Bool.and_eq_true, decide_eq_true_eq, UInt32.le_iff_toNat_le] at h
  have h1 : 48 ≤ c.toNat := h.1
  have h2 : c.toNat ≤ 57 := h.2
  simp only [isBlank, blankRanges, List.any_cons, List.any_nil, Bool.or_false, Bool.or_eq_false_iff,
    Bool.and_eq_false_iff, decide_eq_false_iff_not]
  omega

theorem isWord_toString (i : ℤ) : IsWord (toString i).toList := by
  refine ⟨fun h => ?_, fun c hc => ?_⟩
  · have hr := integer?_toString i (r := []) (by simp)
    rw [h] at hr
    cases hr
  · rcases mem_toString_int hc with rfl | hd
    · decide
    · exact not_isBlank_of_isDigit hd

/-- A number holds no character but its sign and digits. -/
theorem not_mem_toString_int (i : ℤ) {c : Char} (hc : c ≠ '-') (hd : c.isDigit = false) :
    c ∉ (toString i).toList := by
  intro h
  rcases mem_toString_int h with h | h
  · exact hc h
  · rw [hd] at h; cases h

theorem not_arrow_toString (i : ℤ) : ¬ arrow <:+: (toString i).toList := fun h =>
  not_mem_toString_int i (c := '>') (by decide) (by decide) (h.subset (by decide))

/-- Coordinates are read back, up to the first character that is no digit. -/
theorem Coordinates.read?_written {x y : ℤ} (hx : InRange x) (hy : InRange y) {r : List Char}
    (hr : ∀ c ∈ r.head?, c.isDigit = false) :
    Coordinates.read? ((toString x).toList ++ ',' :: ' ' :: ((toString y).toList ++ r)) =
      some ⟨x, y, r⟩ := by
  have hskip : ∀ (i : ℤ) (s : List Char),
      skipBlanks ((toString i).toList ++ s) = (toString i).toList ++ s := by
    intro i s
    refine skipBlanks_eq_self fun c hc => ?_
    rw [List.head?_append_of_ne_nil _ (isWord_toString i).ne_nil] at hc
    exact (isWord_toString i).trimmed.head c hc
  have hcomma : ∀ s, skipBlanks (',' :: s) = ',' :: s := fun s =>
    skipBlanks_eq_self (by rintro c ⟨⟩; decide)
  have hspace : ∀ s, skipBlanks (' ' :: s) = skipBlanks s := fun s => by
    simp [skipBlanks, show isBlank ' ' = true by decide]
  have hc : ∀ c ∈ (',' :: ' ' :: ((toString y).toList ++ r)).head?, c.isDigit = false := by
    rintro c ⟨⟩; decide
  simp only [Coordinates.read?, hskip, integer?_toString x hc, hcomma, comma?, hspace,
    integer?_toString y hr, Option.bind_eq_bind, Option.bind_some, hx, hy, and_self, if_true]

end Script

/-! ## Nodes -/

namespace Node

/-- The options of a node as they stand in its line. -/
def optionText (n : Node) : List Char := (n.options.map String.toList).flatMap (' ' :: ·)

/-- The part of a line after the `@` and a space. -/
def tailText (n : Node) : List Char :=
  (toString n.x).toList ++ ',' :: ' ' :: ((toString n.y).toList ++ n.optionText)

theorem toList_line (n : Node) :
    n.line.toList = n.type.toList ++ ' ' :: (n.id.toList ++ ' ' :: '@' :: ' ' :: n.tailText) := by
  simp [line, tailText, optionText, String.toList_join, List.flatMap_map]

variable {n : Node}

theorem Valid.isWord_of_mem (h : n.Valid) : ∀ w ∈ n.options.map String.toList, IsWord w := by
  intro w hw
  obtain ⟨o, ho, rfl⟩ := List.mem_map.1 hw
  exact h.option_word o ho

theorem Valid.trimmed_tailText (h : n.Valid) : Trimmed n.tailText := by
  have hy := trimmed_append_words (isWord_toString n.y) h.isWord_of_mem
  have hne : (toString n.y).toList ++ n.optionText ≠ [] :=
    List.append_ne_nil_of_left_ne_nil (isWord_toString n.y).ne_nil _
  have := (isWord_toString n.x).trimmed.append hy (isWord_toString n.x).ne_nil hne [',', ' ']
  rwa [List.append_assoc] at this

theorem Valid.trimmed_line (h : n.Valid) : Trimmed n.line.toList := by
  have hne : n.tailText ≠ [] := by simp [tailText]
  rw [toList_line]
  simpa using h.type_word.trimmed.append h.trimmed_tailText h.type_word.ne_nil hne
    (' ' :: n.id.toList ++ [' ', '@', ' '])

/-- No arrow is written. -/
theorem Valid.not_arrow_line (h : n.Valid) : ¬ arrow <:+: n.line.toList := by
  have hopt : ¬ ∃ v ∈ n.options.map String.toList, arrow <:+: v := by
    rintro ⟨v, hv, hi⟩
    obtain ⟨o, ho, rfl⟩ := List.mem_map.1 hv
    exact h.option_arrow o ho hi
  -- no arrow reaches across the spaces and the comma that are written
  have hspace : ' ' ∉ arrow := by decide
  have hat : ¬ arrow <:+: ['@'] := by decide
  have hx : ¬ arrow <:+: (toString n.x).toList ++ ',' :: [] := by
    rw [infix_append_cons_iff (by decide), not_or]
    exact ⟨not_arrow_toString n.x, by decide⟩
  have hy : ¬ arrow <:+: (toString n.y).toList ++ n.optionText := by
    rw [optionText, infix_append_words_iff hspace, not_or]
    exact ⟨not_arrow_toString n.y, hopt⟩
  have htail : ¬ arrow <:+: n.tailText := by
    have := (infix_append_cons_iff (b := (toString n.y).toList ++ n.optionText) hspace).not.2
      (not_or.2 ⟨hx, hy⟩)
    rwa [List.append_assoc] at this
  rw [toList_line, infix_append_cons_iff hspace, infix_append_cons_iff hspace,
    show '@' :: ' ' :: n.tailText = ['@'] ++ ' ' :: n.tailText from rfl, infix_append_cons_iff hspace]
  exact fun hi => hi.elim h.type_arrow fun hi => hi.elim h.id_arrow fun hi => hi.elim hat htail

/-- **The line written for a valid node declares exactly that node.** -/
theorem ofRaw_line (h : n.Valid) : Item.ofRaw n.line.toList = .node n := by
  have hspace : isBlank ' ' = true := by decide
  have hcut : trim n.line.toList =
      (n.type.toList ++ ' ' :: n.id.toList ++ [' ']) ++ '@' :: (' ' :: n.tailText) := by
    rw [trim_eq_self h.trimmed_line, toList_line]
    simp
  have hat : '@' ∉ n.type.toList ++ ' ' :: n.id.toList ++ [' '] := by
    simp [h.type_at, h.id_at]
  have harrow : ¬ arrow <:+: trim n.line.toList := by
    rw [trim_eq_self h.trimmed_line]
    exact h.not_arrow_line
  have hslashes : ¬ slashes <+: trim n.line.toList := by
    rw [trim_eq_self h.trimmed_line, toList_line, prefix_append_cons_iff (by decide)]
    exact h.type_slashes
  -- the line is cut where it should be; its two parts lose only the space next to the `@`
  have hhead : Trimmed (n.type.toList ++ ' ' :: n.id.toList) := by
    simpa using h.type_word.trimmed.append h.id_word.trimmed h.type_word.ne_nil h.id_word.ne_nil [' ']
  have htrim : trim (n.type.toList ++ ' ' :: n.id.toList ++ [' ']) =
      n.type.toList ++ ' ' :: n.id.toList := by
    simpa using trim_append (a := []) (by simp) hhead (b := [' ']) (by simpa using hspace)
  have htail : trim (' ' :: n.tailText) = n.tailText := by
    simpa using trim_append (a := [' ']) (by simpa using hspace) h.trimmed_tailText (b := []) (by simp)
  have hwords : words (n.type.toList ++ ' ' :: n.id.toList) = [n.type.toList, n.id.toList] := by
    rw [words_append_cons hspace, h.type_word.words_eq, h.id_word.words_eq]
    rfl
  have hdigit : ∀ c ∈ n.optionText.head?, c.isDigit = false := by
    -- the second number ends at the space before the first option
    intro c hc
    unfold optionText at hc
    cases ho : n.options with
    | nil => simp [ho] at hc
    | cons o os =>
      have : c = ' ' := by simpa [ho] using hc.symm
      subst this
      decide
  have hplace := Coordinates.read?_written h.x_range h.y_range hdigit
  rw [Item.ofRaw, classify_node hcut hat harrow hslashes, htrim, htail, Item.ofLine, Node.read,
    hwords]
  simp only [tailText, hplace]
  simp [optionText, words_flatMap h.isWord_of_mem]

end Node

/-! ## Connections -/

namespace Endpoint

variable {e : Endpoint}

theorem toList_text (e : Endpoint) : e.text.toList = e.node.toList ++ '.' :: e.slot.toList := by
  simp [text]

theorem Valid.trimmed_text (h : e.Valid) : Trimmed e.text.toList := by
  rw [toList_text]
  -- with an empty slot the dot is the last character
  rcases eq_or_ne e.slot.toList [] with hs | hs
  · have hdot : Trimmed ['.'] := (isWord_iff.2 (by decide)).trimmed
    simpa [hs] using h.node_trimmed.append hdot h.node_ne_nil (by simp) []
  · simpa using h.node_trimmed.append h.slot_trimmed h.node_ne_nil hs ['.']

/-- An endpoint is read back from its text, whatever the default slot. -/
theorem read_text (h : e.Valid) (slot : String) : Endpoint.read slot e.text.toList = e := by
  have hc : cut ['.'] e.text.toList = some (e.node.toList, e.slot.toList) := by
    rw [toList_text]
    exact cut_char h.node_dot _
  simp only [Endpoint.read, hc, trim_eq_self h.node_trimmed, trim_eq_self h.slot_trimmed,
    String.ofList_toList]

end Endpoint

namespace Connection

variable {c : Connection}

theorem toList_line (c : Connection) :
    c.line.toList = c.source.text.toList ++ ' ' :: arrow ++ ' ' :: c.target.text.toList := by
  simp [line, arrow]

theorem Valid.trimmed_line (h : c.Valid) : Trimmed c.line.toList := by
  have hne : ∀ e : Endpoint, e.text.toList ≠ [] := fun e => by simp [Endpoint.toList_text]
  rw [toList_line]
  simpa using h.source.trimmed_text.append h.target.trimmed_text (hne _) (hne _)
    (' ' :: arrow ++ [' '])

theorem Valid.not_arrow_source (h : c.Valid) : ¬ arrow <:+: c.source.text.toList := by
  rw [Endpoint.toList_text, infix_append_cons_iff (by decide)]
  rintro (hi | hi)
  · exact h.node_arrow hi
  · exact h.slot_arrow hi

/-- **The line written for a valid connection declares exactly that connection.** -/
theorem ofRaw_line (h : c.Valid) : Item.ofRaw c.line.toList = .connection c := by
  have hspace : isBlank ' ' = true := by decide
  have hline : trim c.line.toList =
      (c.source.text.toList ++ [' ']) ++ arrow ++ (' ' :: c.target.text.toList) := by
    rw [trim_eq_self h.trimmed_line, toList_line]
    simp
  have harrow : ¬ arrow <:+: c.source.text.toList ++ [' '] := by
    rw [infix_append_cons_iff (by decide)]
    rintro (hi | hi)
    · exact h.not_arrow_source hi
    · revert hi; decide
  have hslashes : ¬ slashes <+: trim c.line.toList := by
    rw [trim_eq_self h.trimmed_line, toList_line, Endpoint.toList_text, List.append_assoc,
      List.append_assoc, List.cons_append, prefix_append_cons_iff (by decide)]
    exact h.node_slashes
  have hsource : trim (c.source.text.toList ++ [' ']) = c.source.text.toList := by
    simpa using trim_append (a := []) (by simp) h.source.trimmed_text (b := [' ']) (by simpa using hspace)
  have htarget : trim (' ' :: c.target.text.toList) = c.target.text.toList := by
    simpa using trim_append (a := [' ']) (by simpa using hspace) h.target.trimmed_text (b := []) (by simp)
  have hne : (c.source.node.isEmpty || c.target.node.isEmpty) = false := by
    simpa using And.intro h.source.node_ne_nil h.target.node_ne_nil
  rw [Item.ofRaw, classify_connection hline harrow hslashes, hsource, htarget, Item.ofLine,
    Connection.read]
  simp only [Endpoint.read_text h.source, Endpoint.read_text h.target, hne, Bool.false_eq_true,
    if_false]

end Connection

/-! ## Byte-order marks -/

/-- The number of byte-order marks in the fields of a node. -/
def Node.marks (n : Node) : ℕ :=
  n.type.toList.count byteOrderMark + n.id.toList.count byteOrderMark +
    n.optionText.count byteOrderMark

/-- The number of byte-order marks at either end of a connection. -/
def Endpoint.marks (e : Endpoint) : ℕ :=
  e.node.toList.count byteOrderMark + e.slot.toList.count byteOrderMark

/-- The number of byte-order marks in the fields of a connection. -/
def Connection.marks (c : Connection) : ℕ := c.source.marks + c.target.marks

theorem count_mark_cons {c : Char} (hc : c ≠ byteOrderMark) (s : List Char) :
    (c :: s).count byteOrderMark = s.count byteOrderMark :=
  List.count_cons_of_ne hc

/-- All byte-order marks of a written line stand in the fields. -/
theorem Node.count_line (n : Node) : n.line.toList.count byteOrderMark = n.marks := by
  have hx := fun i : ℤ => List.count_eq_zero_of_not_mem
    (not_mem_toString_int i (c := byteOrderMark) (by decide) (by decide))
  have hspace := count_mark_cons (c := ' ') (by decide)
  have hat := count_mark_cons (c := '@') (by decide)
  have hcomma := count_mark_cons (c := ',') (by decide)
  simp only [toList_line, tailText, List.count_append, hspace, hat, hcomma, hx, marks]
  omega

theorem Connection.count_line (c : Connection) : c.line.toList.count byteOrderMark = c.marks := by
  have hspace := count_mark_cons (c := ' ') (by decide)
  have hdot := count_mark_cons (c := '.') (by decide)
  have harrow : arrow.count byteOrderMark = 0 := by decide
  simp only [toList_line, Endpoint.toList_text, List.count_append, hspace, hdot,
    harrow, marks, Endpoint.marks]
  omega

theorem count_flatMap_words (ws : List (List Char)) :
    (ws.flatMap (' ' :: ·)).count byteOrderMark = ws.flatten.count byteOrderMark := by
  induction ws with
  | nil => rfl
  | cons w ws ih =>
    rw [List.flatMap_cons, List.cons_append, count_mark_cons (by decide), List.count_append, ih,
      List.flatten_cons, List.count_append]

/-- **A line declares no node with more byte-order marks than it holds.** -/
theorem Node.marks_le_of_ofRaw {raw : List Char} {n : Node} (h : Item.ofRaw raw = .node n) :
    n.marks ≤ raw.count byteOrderMark := by
  obtain ⟨head, tail, hl, hn⟩ := Node.exists_of_ofRaw h
  obtain ⟨a, b, hline, rfl, rfl, -⟩ := classify_eq_node hl
  obtain ⟨type, id, more, place, hw, hp, rfl⟩ := Node.eq_of_read hn
  have hraw := (trim_isInfix raw).sublist.count_le byteOrderMark
  have ha := (trim_isInfix a).sublist.count_le byteOrderMark
  have hb := (trim_isInfix b).sublist.count_le byteOrderMark
  have hrest := (Coordinates.rest_suffix hp).sublist.count_le byteOrderMark
  have hhead := (flatten_words_sublist (trim a)).count_le byteOrderMark
  have hopts := (flatten_words_sublist place.rest).count_le byteOrderMark
  rw [hw, List.flatten_cons, List.flatten_cons, List.count_append, List.count_append] at hhead
  rw [hline, List.count_append, count_mark_cons (by decide)] at hraw
  have hopt : (Node.optionText ⟨.ofList id, .ofList type, place.x, place.y,
      (words place.rest).map .ofList⟩).count byteOrderMark =
        (words place.rest).flatten.count byteOrderMark := by
    rw [← count_flatMap_words, optionText, List.map_map]
    congr 2
    simp [Function.comp_def]
  simp only [marks, hopt, String.toList_ofList]
  omega

theorem Endpoint.marks_read_le (slot : String) (hslot : slot.toList.count byteOrderMark = 0)
    (text : List Char) : (Endpoint.read slot text).marks ≤ text.count byteOrderMark := by
  unfold Endpoint.read
  split
  · rename_i node s hc
    have hnode := (trim_isInfix node).sublist.count_le byteOrderMark
    have hs := (trim_isInfix s).sublist.count_le byteOrderMark
    rw [← cut_append hc, List.append_assoc, List.count_append, List.singleton_append,
      count_mark_cons (by decide)]
    simp only [marks, String.toList_ofList]
    omega
  · have ht := (trim_isInfix text).sublist.count_le byteOrderMark
    simp only [marks, String.toList_ofList, hslot]
    omega

/-- **A line declares no connection with more byte-order marks than it holds.** -/
theorem Connection.marks_le_of_ofRaw {raw : List Char} {c : Connection}
    (h : Item.ofRaw raw = .connection c) : c.marks ≤ raw.count byteOrderMark := by
  obtain ⟨left, right, hl, hc⟩ := Connection.exists_of_ofRaw h
  obtain ⟨a, b, hline, rfl, rfl, -⟩ := classify_eq_connection hl
  obtain ⟨rfl, -⟩ := Connection.eq_of_read hc
  have hraw := (trim_isInfix raw).sublist.count_le byteOrderMark
  have ha := (trim_isInfix a).sublist.count_le byteOrderMark
  have hb := (trim_isInfix b).sublist.count_le byteOrderMark
  have hsource := Endpoint.marks_read_le defaultSourceSlot (by decide) (trim a)
  have htarget := Endpoint.marks_read_le defaultTargetSlot (by decide) (trim b)
  rw [hline, List.count_append, List.count_append] at hraw
  simp only [marks]
  omega

end Schematic
