import Schematic.Proofs.Text
import Schematic.Script.Parse

/-!
# What a line can declare

* `Node.Valid`, `Connection.Valid`: what the fields of a declared node or connection hold. A field is
  free text but for the markers at which its line was cut.
* `Node.valid_of_ofRaw`, `Connection.valid_of_ofRaw`: **every node and every connection that a line
  declares is valid.**
* `Script.valid_of_mem_nodes`, `Script.valid_of_mem_connections`: the same for a whole script.
-/

namespace Schematic

open Script

/-- What the fields of a node hold that is declared by a line. -/
structure Node.Valid (n : Node) : Prop where
  type_word : Text.IsWord n.type.toList
  id_word : Text.IsWord n.id.toList
  option_word : ∀ o ∈ n.options, Text.IsWord o.toList
  type_arrow : ¬ arrow <:+: n.type.toList
  id_arrow : ¬ arrow <:+: n.id.toList
  option_arrow : ∀ o ∈ n.options, ¬ arrow <:+: o.toList
  type_at : '@' ∉ n.type.toList
  id_at : '@' ∉ n.id.toList
  type_slashes : ¬ slashes <+: n.type.toList
  x_range : InRange n.x
  y_range : InRange n.y

/-- What the fields of either end of a connection hold that is declared by a line. -/
structure Endpoint.Valid (e : Endpoint) : Prop where
  node_ne_nil : e.node.toList ≠ []
  node_dot : '.' ∉ e.node.toList
  node_trimmed : Text.Trimmed e.node.toList
  slot_trimmed : Text.Trimmed e.slot.toList
  node_newline : '\n' ∉ e.node.toList
  slot_newline : '\n' ∉ e.slot.toList

/-- What the fields of a connection hold that is declared by a line. Only the source is read from
text without an arrow, and only the id of the source stands in front of a line. -/
structure Connection.Valid (c : Connection) : Prop where
  source : c.source.Valid
  target : c.target.Valid
  node_arrow : ¬ arrow <:+: c.source.node.toList
  slot_arrow : ¬ arrow <:+: c.source.slot.toList
  node_slashes : ¬ slashes <+: c.source.node.toList

namespace Script

/-- An arrow is not completed by the dash in front of another one. -/
theorem arrow_infix_concat {x : List Char} : arrow <:+: x ++ arrow.dropLast ↔ arrow <:+: x := by
  rw [show arrow.dropLast = ['-'] from rfl, List.infix_concat_iff]
  refine ⟨fun h => h.resolve_left fun hs => ?_, Or.inr⟩
  rcases List.suffix_concat_iff.1 hs with h | ⟨t, ht, -⟩
  · cases h
  · have := congrArg List.getLast? ht
    simp [arrow] at this

/-- How a line of a connection is cut. -/
theorem classify_eq_connection {raw left right : List Char}
    (h : Line.classify raw = .connection left right) :
    ∃ a b, Text.trim raw = a ++ arrow ++ b ∧ left = Text.trim a ∧ right = Text.trim b ∧
      ¬ arrow <:+: a ∧ ¬ slashes <+: Text.trim raw := by
  simp only [Line.classify] at h
  split at h
  · cases h
  rename_i hb
  simp only [Bool.or_eq_true, not_or, List.isPrefixOf_iff_prefix] at hb
  split at h
  · rename_i a b hc
    cases h
    exact ⟨a, b, (Text.cut_append hc).symm, rfl, rfl,
      fun hi => Text.not_infix_of_cut (by decide) hc (arrow_infix_concat.2 hi), hb.2⟩
  · split at h <;> cases h

/-- How a line of a node is cut. -/
theorem classify_eq_node {raw head tail : List Char} (h : Line.classify raw = .node head tail) :
    ∃ a b, Text.trim raw = a ++ '@' :: b ∧ head = Text.trim a ∧ tail = Text.trim b ∧ '@' ∉ a ∧
      ¬ arrow <:+: Text.trim raw ∧ ¬ slashes <+: Text.trim raw := by
  simp only [Line.classify] at h
  split at h
  · cases h
  rename_i hb
  simp only [Bool.or_eq_true, not_or, List.isPrefixOf_iff_prefix] at hb
  split at h
  · cases h
  rename_i harrow
  split at h
  · rename_i a b hc
    cases h
    exact ⟨a, b, by simpa [atSign] using (Text.cut_append hc).symm, rfl, rfl, Text.not_mem_of_cut hc,
      (Text.cut_eq_none_iff (by decide)).1 harrow, hb.2⟩
  · cases h

/-- A line that is neither blank nor a comment. -/
theorem not_ignored {text : List Char} (hne : text ≠ []) (hs : ¬ slashes <+: text) :
    (text.isEmpty || slashes.isPrefixOf text) = false := by
  rw [Bool.or_eq_false_iff, ← Bool.not_eq_true (slashes.isPrefixOf _), List.isPrefixOf_iff_prefix]
  exact ⟨by simpa using hne, hs⟩

/-- A line is cut at its first arrow. -/
theorem classify_connection {raw a b : List Char} (h : Text.trim raw = a ++ arrow ++ b)
    (ha : ¬ arrow <:+: a) (hs : ¬ slashes <+: Text.trim raw) :
    Line.classify raw = .connection (Text.trim a) (Text.trim b) := by
  have hb := not_ignored (by rw [h]; simp [arrow]) hs
  have hc : Text.cut arrow (Text.trim raw) = some (a, b) := by
    rw [h]
    exact Text.cut_append_marker (by decide) (fun hi => ha (arrow_infix_concat.1 hi)) b
  simp only [Line.classify, hb, hc, Bool.false_eq_true, if_false]

/-- A line without an arrow is cut at its first `@`. -/
theorem classify_node {raw a b : List Char} (h : Text.trim raw = a ++ '@' :: b) (ha : '@' ∉ a)
    (harrow : ¬ arrow <:+: Text.trim raw) (hs : ¬ slashes <+: Text.trim raw) :
    Line.classify raw = .node (Text.trim a) (Text.trim b) := by
  have hb := not_ignored (by rw [h]; simp) hs
  have hn : Text.cut arrow (Text.trim raw) = none := (Text.cut_eq_none_iff (by decide)).2 harrow
  have hc : Text.cut atSign (Text.trim raw) = some (a, b) := by
    rw [h]
    exact Text.cut_char ha b
  simp only [Line.classify, hb, hn, hc, Bool.false_eq_true, if_false]

theorem digits?_suffix {s r : List Char} {n : Nat} (h : Text.digits? s = some (n, r)) : r <:+ s := by
  simp only [Text.digits?] at h
  split at h
  · cases h
  · cases h
    exact List.dropWhile_suffix _

theorem integer?_suffix {s r : List Char} {i : Int} (h : Text.integer? s = some (i, r)) :
    r <:+ s := by
  unfold Text.integer? at h
  split at h <;> obtain ⟨⟨n, r'⟩, hd, hr⟩ := Option.map_eq_some_iff.1 h <;> cases hr
  · exact (digits?_suffix hd).trans (List.suffix_cons _ _)
  · exact digits?_suffix hd

theorem comma?_suffix {s r : List Char} (h : comma? s = some r) : r <:+ s := by
  unfold comma? at h
  split at h
  · cases h
    exact List.suffix_cons _ _
  · cases h

/-- The text after the coordinates is the end of the text that holds them. -/
theorem Coordinates.rest_suffix {tail : List Char} {c : Coordinates}
    (h : Coordinates.read? tail = some c) : c.rest <:+ tail := by
  simp only [Coordinates.read?, Option.bind_eq_bind, Option.bind_eq_some_iff] at h
  obtain ⟨⟨x, r⟩, hx, r', hr, ⟨y, rest⟩, hy, h⟩ := h
  have hskip : ∀ s, Text.skipBlanks s <:+ s := fun s => List.dropWhile_suffix _
  split at h
  · cases h
    exact (integer?_suffix hy).trans <| (hskip _).trans <| (comma?_suffix hr).trans <|
      (hskip _).trans <| (integer?_suffix hx).trans (hskip _)
  · cases h

end Script

/-- A line that declares a node is cut at an `@`. -/
theorem Node.exists_of_ofRaw {raw : List Char} {n : Node} (h : Item.ofRaw raw = .node n) :
    ∃ head tail, Line.classify raw = .node head tail ∧ Node.read head tail = .ok n := by
  unfold Item.ofRaw Item.ofLine at h
  split at h
  · cases h
  · cases h
  · split at h <;> cases h
  · rename_i head tail hl
    split at h
    · rename_i hn
      cases h
      exact ⟨head, tail, hl, hn⟩
    · cases h

/-- A line that declares a connection is cut at an arrow. -/
theorem Connection.exists_of_ofRaw {raw : List Char} {c : Connection}
    (h : Item.ofRaw raw = .connection c) :
    ∃ left right, Line.classify raw = .connection left right ∧ Connection.read left right = .ok c := by
  unfold Item.ofRaw Item.ofLine at h
  split at h
  · cases h
  · cases h
  · rename_i left right hl
    split at h
    · rename_i hc
      cases h
      exact ⟨left, right, hl, hc⟩
    · cases h
  · split at h <;> cases h

/-- What a node is made of. -/
theorem Node.eq_of_read {head tail : List Char} {n : Node} (h : Node.read head tail = .ok n) :
    ∃ type id more place, Text.words head = type :: id :: more ∧
      Coordinates.read? tail = some place ∧
      n = ⟨.ofList id, .ofList type, place.x, place.y, (Text.words place.rest).map .ofList⟩ := by
  unfold Node.read at h
  split at h
  · rename_i type id more hw
    split at h
    · rename_i place hp
      cases h
      exact ⟨type, id, more, place, hw, hp, rfl⟩
    · cases h
  · cases h

/-- What a connection is made of. -/
theorem Connection.eq_of_read {left right : List Char} {c : Connection}
    (h : Connection.read left right = .ok c) :
    c = ⟨Endpoint.read defaultSourceSlot left, Endpoint.read defaultTargetSlot right⟩ ∧
      c.source.node.toList ≠ [] ∧ c.target.node.toList ≠ [] := by
  simp only [Connection.read, Bool.or_eq_true, String.isEmpty_iff] at h
  split at h
  · cases h
  · rename_i hne
    cases h
    rw [not_or] at hne
    simpa using hne

/-- **Every node that a line declares is valid.** -/
theorem Node.valid_of_ofRaw {raw : List Char} {n : Node} (h : Item.ofRaw raw = .node n) :
    n.Valid := by
  obtain ⟨head, tail, hl, hn⟩ := Node.exists_of_ofRaw h
  obtain ⟨a, b, hline, rfl, rfl, hat, harrow, hslashes⟩ := classify_eq_node hl
  have ha : a <+: Text.trim raw := hline ▸ List.prefix_append _ _
  have hb : b <:+: Text.trim raw := hline ▸ ⟨a ++ ['@'], [], by simp⟩
  have hfront := Text.head?_of_prefix ha (Text.trimmed_trim raw).head
  obtain ⟨type, id, more, place, hw, hp, rfl⟩ := Node.eq_of_read hn
  -- the first two words stand before the `@`, the options after it
  have hword : ∀ w ∈ Text.words (Text.trim a),
      Text.IsWord w ∧ ¬ arrow <:+: w ∧ '@' ∉ w := by
    intro w hm
    have hwa : w <:+: a := (Text.infix_of_mem_words hm).trans (Text.trim_isInfix a)
    refine ⟨Text.isWord_of_mem_words hm, fun hi => ?_, fun hm => hat (hwa.subset hm)⟩
    exact harrow (hi.trans (hwa.trans ha.isInfix))
  obtain ⟨htw, htarrow, htat⟩ := hword type (by rw [hw]; simp)
  obtain ⟨hiw, hiarrow, hiat⟩ := hword id (by rw [hw]; simp)
  have hopt : ∀ o ∈ Text.words place.rest, Text.IsWord o ∧ ¬ arrow <:+: o := by
    intro o ho
    have hob : o <:+: b := (Text.infix_of_mem_words ho).trans <|
      (Coordinates.rest_suffix hp).isInfix.trans (Text.trim_isInfix b)
    exact ⟨Text.isWord_of_mem_words ho, fun hi => harrow (hi.trans (hob.trans hb))⟩
  have hslash : ¬ slashes <+: type := by
    -- slashes in front of the type would be in front of the line
    intro hs
    have htype : type <+: Text.trim a := Text.words_prefix (Text.trimmed_trim a).head hw
    exact hslashes (hs.trans <| htype.trans <| (Text.trim_prefix hfront).trans ha)
  obtain ⟨hx, hy⟩ := Coordinates.inRange_of_read? hp
  refine
    { type_word := by simpa using htw
      id_word := by simpa using hiw
      option_word := ?_
      type_arrow := by simpa using htarrow
      id_arrow := by simpa using hiarrow
      option_arrow := ?_
      type_at := by simpa using htat
      id_at := by simpa using hiat
      type_slashes := by simpa using hslash
      x_range := hx
      y_range := hy }
  · intro o ho
    obtain ⟨w, hm, rfl⟩ := List.mem_map.1 ho
    simpa using (hopt w hm).1
  · intro o ho
    obtain ⟨w, hm, rfl⟩ := List.mem_map.1 ho
    simpa using (hopt w hm).2

theorem Endpoint.valid_of_read {slot : String} {text : List Char}
    (hslot : Text.IsWord slot.toList) (hnl : '\n' ∉ text)
    (hne : (Endpoint.read slot text).node.toList ≠ []) : (Endpoint.read slot text).Valid := by
  unfold Endpoint.read at hne ⊢
  split at hne
  · rename_i node s hc
    have htext : text = node ++ ['.'] ++ s := (Text.cut_append hc).symm
    have hdot : '.' ∉ Text.trim node := by
      intro hm
      exact Text.not_mem_of_cut hc ((Text.trim_isInfix node).subset hm)
    have hnode : '\n' ∉ Text.trim node := by
      intro hm
      have := (Text.trim_isInfix node).subset hm
      exact hnl (by rw [htext]; simp [this])
    have hs : '\n' ∉ Text.trim s := by
      intro hm
      have := (Text.trim_isInfix s).subset hm
      exact hnl (by rw [htext]; simp [this])
    simp only [String.toList_ofList] at hne ⊢
    exact
      { node_ne_nil := by simpa using hne
        node_dot := by simpa using hdot
        node_trimmed := by simpa using Text.trimmed_trim node
        slot_trimmed := by simpa using Text.trimmed_trim s
        node_newline := by simpa using hnode
        slot_newline := by simpa using hs }
  · rename_i hc
    have hdot : '.' ∉ Text.trim text := by
      intro hm
      exact Text.not_mem_of_cut_none hc ((Text.trim_isInfix text).subset hm)
    have hnode : '\n' ∉ Text.trim text := by
      intro hm
      exact hnl ((Text.trim_isInfix text).subset hm)
    exact
      { node_ne_nil := hne
        node_dot := by simpa using hdot
        node_trimmed := by simpa using Text.trimmed_trim text
        slot_trimmed := hslot.trimmed
        node_newline := by simpa using hnode
        slot_newline := hslot.newline_not_mem }

/-- The id of an endpoint is in front of a text that starts with no blank. -/
theorem Endpoint.node_prefix_of_read (slot : String) {text : List Char}
    (ht : ∀ c ∈ text.head?, Text.isBlank c = false) :
    (Endpoint.read slot text).node.toList <+: text := by
  unfold Endpoint.read
  split
  · rename_i node s hc
    have hp : node <+: text := ⟨['.'] ++ s, by rw [← List.append_assoc, Text.cut_append hc]⟩
    simpa using (Text.trim_prefix (Text.head?_of_prefix hp ht)).trans hp
  · simpa using Text.trim_prefix ht

/-- The slot of an endpoint is written in its text, or the default. -/
theorem Endpoint.slot_infix_of_read (slot : String) (text : List Char) :
    (Endpoint.read slot text).slot = slot ∨ (Endpoint.read slot text).slot.toList <:+: text := by
  unfold Endpoint.read
  split
  · rename_i node s hc
    have hs : s <:+: text := ⟨node ++ ['.'], [], by simpa using Text.cut_append hc⟩
    exact Or.inr (by simpa using (Text.trim_isInfix s).trans hs)
  · exact Or.inl rfl

/-- **Every connection that a line declares is valid.** -/
theorem Connection.valid_of_ofRaw {raw : List Char} (hnl : '\n' ∉ raw) {c : Connection}
    (h : Item.ofRaw raw = .connection c) : c.Valid := by
  obtain ⟨left, right, hl, hc⟩ := Connection.exists_of_ofRaw h
  obtain ⟨a, b, hline, rfl, rfl, harrow, hslashes⟩ := classify_eq_connection hl
  have ha : a <+: Text.trim raw := hline ▸ ⟨arrow ++ b, by simp⟩
  have hb : b <:+: Text.trim raw := hline ▸ ⟨a ++ arrow, [], by simp⟩
  have hraw : '\n' ∉ Text.trim raw := by
    intro hm
    exact hnl ((Text.trim_isInfix raw).subset hm)
  have hleft : '\n' ∉ Text.trim a := by
    intro hm
    exact hraw (ha.subset ((Text.trim_isInfix a).subset hm))
  have hright : '\n' ∉ Text.trim b := by
    intro hm
    exact hraw (hb.subset ((Text.trim_isInfix b).subset hm))
  have hfront := Text.head?_of_prefix ha (Text.trimmed_trim raw).head
  obtain ⟨rfl, hsource, htarget⟩ := Connection.eq_of_read hc
  have hnode := Endpoint.node_prefix_of_read defaultSourceSlot (Text.trimmed_trim a).head
  refine
    { source := Endpoint.valid_of_read (Text.isWord_iff.2 (by decide)) hleft hsource
      target := Endpoint.valid_of_read (Text.isWord_iff.2 (by decide)) hright htarget
      node_arrow := ?_
      slot_arrow := ?_
      node_slashes := ?_ }
  · intro hi
    exact harrow (hi.trans (hnode.isInfix.trans (Text.trim_isInfix a)))
  · -- the default slot holds no arrow, and a written one stands before the first
    intro hi
    rcases Endpoint.slot_infix_of_read defaultSourceSlot (Text.trim a) with hd | hs
    · rw [hd] at hi
      revert hi
      decide
    · exact harrow (hi.trans (hs.trans (Text.trim_isInfix a)))
  · intro hs
    have hid : (Endpoint.read defaultSourceSlot (Text.trim a)).node.toList <+: Text.trim raw :=
      hnode.trans <| (Text.trim_prefix hfront).trans ha
    exact hslashes (hs.trans hid)

namespace Script

variable {s : String}

/-- A line of a script holds no line feed. -/
theorem newline_not_mem_of_mem_lines {l : List Char} (hl : l ∈ lines s) : '\n' ∉ l := fun hm => by
  simpa using Text.not_sep_of_mem_pieces hl _ hm

theorem valid_of_mem_nodes {n : Node} (hn : n ∈ (parse s).circuit.nodes) : n.Valid := by
  obtain ⟨i, hi, hin⟩ := List.mem_filterMap.1 hn
  obtain ⟨raw, -, rfl⟩ := List.mem_map.1 hi
  have hr : Item.ofRaw raw = .node n := by
    cases hr : Item.ofRaw raw <;> simp_all [Item.node?]
  exact Node.valid_of_ofRaw hr

theorem valid_of_mem_connections {c : Connection} (hc : c ∈ (parse s).circuit.connections) :
    c.Valid := by
  obtain ⟨i, hi, hic⟩ := List.mem_filterMap.1 hc
  obtain ⟨raw, hraw, rfl⟩ := List.mem_map.1 hi
  refine Connection.valid_of_ofRaw (newline_not_mem_of_mem_lines hraw) ?_
  cases hr : Item.ofRaw raw <;> simp_all [Item.connection?]

end Script

end Schematic
