import Schematic.Text.Blank

/-!
# Splitting a text

* `pieces`: the parts between the separators, empty parts kept.
* `words`: the maximal runs without a blank.
* `cut`: the two parts around the first occurrence of a marker.
* `pieces_append_cons`, `words_append_cons`: a separator splits a text in two.
* `cut_append`: before, marker and after make up the text.
-/

namespace Schematic.Text

/-- The parts of a text between the characters that satisfy `p`; one part more than separators. -/
def pieces (p : Char → Bool) (s : List Char) : List (List Char) :=
  s.foldr
    (fun c ps => if p c then [] :: ps else
      match ps with
      | [] => [[c]]
      | w :: ws => (c :: w) :: ws)
    [[]]

/-- The maximal runs of non-blank characters. -/
def words (s : List Char) : List (List Char) := (pieces isBlank s).filter (! ·.isEmpty)

/-- The text before and the text after the first occurrence of a non-empty marker. -/
def cut (marker : List Char) : List Char → Option (List Char × List Char)
  | [] => none
  | c :: r =>
    if marker.isPrefixOf (c :: r) then some ([], (c :: r).drop marker.length)
    else (cut marker r).map fun p => (c :: p.1, p.2)

variable {p : Char → Bool} {c : Char}

theorem pieces_nil : pieces p [] = [[]] := rfl

theorem pieces_cons_sep (hc : p c = true) (r : List Char) : pieces p (c :: r) = [] :: pieces p r := by
  simp [pieces, hc]

theorem pieces_ne_nil (s : List Char) : pieces p s ≠ [] := by
  cases s with
  | nil => simp [pieces]
  | cons c r =>
    simp only [pieces, List.foldr_cons]
    split
    · simp
    · split <;> simp

/-- A character that is no separator joins the first piece. -/
theorem pieces_cons_other (hc : p c = false) {r w : List Char} {ws : List (List Char)}
    (h : pieces p r = w :: ws) : pieces p (c :: r) = (c :: w) :: ws := by
  simp only [pieces, List.foldr_cons, hc, Bool.false_eq_true, if_false]
  rw [show List.foldr _ _ r = w :: ws from h]

/-- **A separator splits a text in two.** -/
theorem pieces_append_cons (hc : p c = true) (x y : List Char) :
    pieces p (x ++ c :: y) = pieces p x ++ pieces p y := by
  induction x with
  | nil => simp [pieces_nil, pieces_cons_sep hc]
  | cons a x ih =>
    rw [List.cons_append]
    by_cases ha : p a = true
    · rw [pieces_cons_sep ha, pieces_cons_sep ha, ih, List.cons_append]
    · have ha : p a = false := by simpa using ha
      obtain ⟨w, ws, hw⟩ := List.exists_cons_of_ne_nil (pieces_ne_nil (p := p) x)
      have hxy : pieces p (x ++ c :: y) = w :: (ws ++ pieces p y) := by
        rw [ih, hw, List.cons_append]
      rw [pieces_cons_other ha hw, pieces_cons_other ha hxy, List.cons_append]

/-- A blank splits the words of a text in two. -/
theorem words_append_cons (hc : isBlank c = true) (x y : List Char) :
    words (x ++ c :: y) = words x ++ words y := by
  rw [words, pieces_append_cons hc, List.filter_append]
  rfl

/-- **Nothing is lost by a cut.** -/
theorem cut_append {marker s before after : List Char} (h : cut marker s = some (before, after)) :
    before ++ marker ++ after = s := by
  induction s generalizing before after with
  | nil => simp [cut] at h
  | cons c r ih =>
    simp only [cut] at h
    split at h
    · rename_i hm
      obtain ⟨t, ht⟩ := List.isPrefixOf_iff_prefix.1 hm
      simp only [Option.some.injEq, Prod.mk.injEq] at h
      obtain ⟨rfl, rfl⟩ := h
      simp [← ht]
    · obtain ⟨⟨b, a⟩, hp, h⟩ := Option.map_eq_some_iff.1 h
      simp only [Prod.mk.injEq] at h
      obtain ⟨rfl, rfl⟩ := h
      simp [← ih hp]

end Schematic.Text
