import Mathlib.Data.List.Flatten
import Mathlib.Data.List.Infix
import Mathlib.Data.List.TakeWhile
import Schematic.Text.Split

/-!
# Trimming, cutting and splitting

The laws of the text functions on which reading and writing a script rest.

* `trim_append`: **trimming drops exactly the blanks around a text** that has none at its ends.
* `cut_append_marker`, `cut_eq_none_iff`, `not_infix_of_cut`: a cut is made at the first occurrence
  of its marker.
* `words_flatMap`, `isWord_of_mem_words`: words are read back, and hold no blank.
* `pieces_flatMap`: lines that each end with a separator are read back.
-/

namespace Schematic.Text

/-- No blank at either end. -/
structure Trimmed (s : List Char) : Prop where
  head : ∀ c ∈ s.head?, isBlank c = false
  last : ∀ c ∈ s.getLast?, isBlank c = false

theorem head?_of_prefix {a s : List Char} (h : a <+: s) (hs : ∀ c ∈ s.head?, isBlank c = false) :
    ∀ c ∈ a.head?, isBlank c = false := by
  intro c hc
  obtain ⟨r, rfl⟩ := h
  refine hs c ?_
  rw [List.head?_append, hc]
  rfl

/-- Some characters, none of them blank. -/
structure IsWord (s : List Char) : Prop where
  ne_nil : s ≠ []
  blankless : ∀ c ∈ s, isBlank c = false

theorem isWord_iff {s : List Char} : IsWord s ↔ s ≠ [] ∧ s.all (fun c => !isBlank c) = true := by
  simp only [List.all_eq_true, Bool.not_eq_true']
  constructor
  · intro h
    exact ⟨h.ne_nil, h.blankless⟩
  · intro h
    exact ⟨h.1, h.2⟩

theorem IsWord.trimmed {s : List Char} (h : IsWord s) : Trimmed s :=
  ⟨fun c hc => h.blankless c (List.mem_of_mem_head? hc),
    fun c hc => h.blankless c (List.mem_of_getLast? hc)⟩

theorem IsWord.not_mem {s : List Char} {c : Char} (h : IsWord s) (hc : isBlank c = true) : c ∉ s := by
  intro hm
  rw [h.blankless c hm] at hc
  cases hc

theorem IsWord.newline_not_mem {s : List Char} (h : IsWord s) : '\n' ∉ s := h.not_mem (by decide)

/-- A trimmed text between two trimmed texts that are not empty may be anything. -/
theorem Trimmed.append {a b : List Char} (ha : Trimmed a) (hb : Trimmed b) (hna : a ≠ [])
    (hnb : b ≠ []) (m : List Char) : Trimmed (a ++ m ++ b) := by
  refine ⟨fun c hc => ?_, fun c hc => ?_⟩
  · rw [List.append_assoc, List.head?_append_of_ne_nil _ hna] at hc
    exact ha.head c hc
  · rw [List.getLast?_append_of_ne_nil _ hnb] at hc
    exact hb.last c hc

/-! ## Trimming -/

theorem skipBlanks_append {a s : List Char} (ha : ∀ c ∈ a, isBlank c = true)
    (hs : ∀ c ∈ s.head?, isBlank c = false) : skipBlanks (a ++ s) = s := by
  rw [skipBlanks, List.dropWhile_append_of_pos ha]
  cases s with
  | nil => rfl
  | cons c r => simp [hs c (by simp)]

/-- A text that starts with no blank is left as it is. -/
theorem skipBlanks_eq_self {s : List Char} (hs : ∀ c ∈ s.head?, isBlank c = false) :
    skipBlanks s = s :=
  skipBlanks_append (a := []) (by simp) hs

/-- **Trimming drops exactly the blanks around a text that has none at its ends.** -/
theorem trim_append {a s b : List Char} (ha : ∀ c ∈ a, isBlank c = true) (hs : Trimmed s)
    (hb : ∀ c ∈ b, isBlank c = true) : trim (a ++ s ++ b) = s := by
  rcases eq_or_ne s [] with rfl | hne
  · have hall : ∀ c ∈ a ++ [] ++ b, isBlank c = true := by
      intro c hc
      rw [List.append_nil, List.mem_append] at hc
      exact hc.elim (ha c) (hb c)
    have hnil : skipBlanks (a ++ [] ++ b) = [] := List.dropWhile_eq_nil_iff.2 hall
    rw [trim, hnil]
    rfl
  · have hfront : skipBlanks (a ++ s ++ b) = s ++ b := by
      rw [List.append_assoc]
      refine skipBlanks_append ha fun c hc => hs.head c ?_
      rwa [List.head?_append_of_ne_nil _ hne] at hc
    -- the back is trimmed as the front of the reversed text
    have hback : skipBlanks (b.reverse ++ s.reverse) = s.reverse := by
      refine skipBlanks_append (fun c hc => hb c (List.mem_reverse.1 hc)) fun c hc => hs.last c ?_
      rwa [List.head?_reverse] at hc
    rw [trim, hfront, List.reverse_append, hback, List.reverse_reverse]

theorem trim_eq_self {s : List Char} (hs : Trimmed s) : trim s = s := by
  simpa using trim_append (a := []) (b := []) (by simp) hs (by simp)

/-- What trimming drops are blanks. -/
theorem exists_eq_append_trim (s : List Char) :
    ∃ a b, s = a ++ trim s ++ b ∧ (∀ c ∈ a, isBlank c = true) ∧ ∀ c ∈ b, isBlank c = true := by
  set t := s.dropWhile isBlank with ht
  refine ⟨s.takeWhile isBlank, (t.reverse.takeWhile isBlank).reverse, ?_,
    fun c hc => List.mem_takeWhile_imp hc,
    fun c hc => List.mem_takeWhile_imp (List.mem_reverse.1 hc)⟩
  have htrim : trim s ++ (t.reverse.takeWhile isBlank).reverse = t := by
    rw [trim, skipBlanks, skipBlanks, ← ht, ← List.reverse_append,
      List.takeWhile_append_dropWhile, List.reverse_reverse]
  rw [List.append_assoc, htrim, ht, List.takeWhile_append_dropWhile]

theorem trim_isInfix (s : List Char) : trim s <:+: s := by
  obtain ⟨a, b, h, -, -⟩ := exists_eq_append_trim s
  exact ⟨a, b, h.symm⟩

/-- The trimmed text is the front of what is left after the blanks in front. -/
theorem trim_prefix_skipBlanks (s : List Char) : trim s <+: skipBlanks s := by
  have : skipBlanks (skipBlanks s).reverse <:+ (skipBlanks s).reverse := List.dropWhile_suffix _
  simpa [trim] using List.reverse_prefix.2 this

theorem trimmed_trim (s : List Char) : Trimmed (trim s) := by
  refine ⟨fun c hc => ?_, fun c hc => ?_⟩
  · obtain ⟨r, hr⟩ := trim_prefix_skipBlanks s
    refine head?_skipBlanks s ?_
    rw [← hr, List.head?_append, hc]
    rfl
  · rw [trim, List.getLast?_reverse] at hc
    exact head?_skipBlanks _ hc

/-- Of a text that starts with no blank, trimming leaves the front. -/
theorem trim_prefix {s : List Char} (hs : ∀ c ∈ s.head?, isBlank c = false) : trim s <+: s := by
  simpa [skipBlanks_eq_self hs] using trim_prefix_skipBlanks s

/-! ## Cutting -/

theorem prefix_append_dropLast (x m y : List Char) : x ++ m.dropLast <+: x ++ m ++ y := by
  rw [List.append_assoc, List.prefix_append_right_inj]
  exact (List.dropLast_prefix m).trans (List.prefix_append _ _)

/-- **A cut is made where the marker first occurs.** That it does not occur earlier has to be said
of the text before it together with all of the marker but its last character. -/
theorem cut_append_marker {m x : List Char} (hm : m ≠ []) (h : ¬ m <:+: x ++ m.dropLast)
    (y : List Char) : cut m (x ++ m ++ y) = some (x, y) := by
  induction x with
  | nil =>
    obtain ⟨c, r, rfl⟩ := List.exists_cons_of_ne_nil hm
    simp [cut]
  | cons a x ih =>
    have hnot : ¬ m <+: a :: (x ++ m ++ y) := by
      -- a marker here would end within the text that is said not to hold one
      intro hp
      have hq : a :: x ++ m.dropLast <+: a :: (x ++ m ++ y) := prefix_append_dropLast (a :: x) m y
      have hlen : m.length ≤ (a :: x ++ m.dropLast).length := by simp; omega
      exact h (List.prefix_of_prefix_length_le hp hq hlen).isInfix
    have hx : ¬ m <:+: x ++ m.dropLast := by
      intro hi
      exact h (List.infix_cons hi)
    have hb : m.isPrefixOf (a :: (x ++ m ++ y)) = false := by
      rw [← Bool.not_eq_true, List.isPrefixOf_iff_prefix]; exact hnot
    simp only [List.cons_append, cut, hb, ih hx, Option.map_some, Bool.false_eq_true, if_false]

theorem cut_eq_none_iff {m s : List Char} (hm : m ≠ []) : cut m s = none ↔ ¬ m <:+: s := by
  induction s with
  | nil => simp [cut, hm]
  | cons c r ih =>
    rw [List.infix_cons_iff, not_or, ← ih, ← List.isPrefixOf_iff_prefix]
    simp only [cut]
    split <;> simp_all

/-- The marker does not occur before the place of a cut. -/
theorem not_infix_of_cut {m s x y : List Char} (hm : m ≠ []) (h : cut m s = some (x, y)) :
    ¬ m <:+: x ++ m.dropLast := by
  induction s generalizing x y with
  | nil => simp [cut] at h
  | cons c r ih =>
    simp only [cut] at h
    split at h
    · rename_i hp
      cases h
      intro hi
      have hlen := hi.length_le
      have hpos := List.length_pos_iff.2 hm
      rw [List.nil_append, List.length_dropLast] at hlen
      omega
    · rename_i hp
      obtain ⟨⟨x', y'⟩, hc, h⟩ := Option.map_eq_some_iff.1 h
      cases h
      rw [List.cons_append, List.infix_cons_iff, not_or]
      refine ⟨fun hq => hp ?_, ih hc⟩
      rw [List.isPrefixOf_iff_prefix, ← cut_append hc]
      exact hq.trans (prefix_append_dropLast (c :: x') m y')

/-- A marker of one character: the text before it does not hold it. -/
theorem cut_char {c : Char} {x : List Char} (h : c ∉ x) (y : List Char) :
    cut [c] (x ++ c :: y) = some (x, y) := by
  have hx : ¬ [c] <:+: x ++ [c].dropLast := by simpa [List.singleton_infix_iff] using h
  have := cut_append_marker (by simp) hx y
  rwa [List.append_assoc] at this

theorem not_mem_of_cut {c : Char} {s x y : List Char} (h : cut [c] s = some (x, y)) : c ∉ x := by
  simpa [List.singleton_infix_iff] using not_infix_of_cut (by simp) h

theorem not_mem_of_cut_none {c : Char} {s : List Char} (h : cut [c] s = none) : c ∉ s := by
  simpa [List.singleton_infix_iff] using (cut_eq_none_iff (by simp)).1 h

/-- A marker does not reach across a character that it does not hold. -/
theorem infix_append_cons_iff {m a b : List Char} {c : Char} (hc : c ∉ m) :
    m <:+: a ++ c :: b ↔ m <:+: a ∨ m <:+: b := by
  refine ⟨fun h => ?_, fun h => h.elim List.infix_append_of_infix_left fun h =>
    List.infix_append_of_infix_right (List.infix_cons h)⟩
  -- the marker lies on one side of the character, or would begin its second part with it
  rcases List.infix_append_iff_ne_nil.1 h with h | h | ⟨l, r, -, hr, rfl, -, hb⟩
  · exact Or.inl h
  · rcases List.infix_cons_iff.1 h with h | h
    · rcases List.prefix_cons_iff.1 h with rfl | ⟨t, rfl, -⟩
      · exact Or.inl (List.nil_infix)
      · exact absurd List.mem_cons_self hc
    · exact Or.inr h
  · rcases List.prefix_cons_iff.1 hb with rfl | ⟨t, rfl, -⟩
    · exact absurd rfl hr
    · exact absurd (by simp) hc

/-- A marker in front ends before a character that it does not hold. -/
theorem prefix_append_cons_iff {m a b : List Char} {c : Char} (hc : c ∉ m) :
    m <+: a ++ c :: b ↔ m <+: a := by
  refine ⟨fun h => ?_, fun h => h.trans (List.prefix_append _ _)⟩
  rcases List.prefix_or_prefix_of_prefix h (List.prefix_append a (c :: b)) with ha | ⟨t, rfl⟩
  · exact ha
  · rcases List.prefix_cons_iff.1 ((List.prefix_append_right_inj _).1 h) with rfl | ⟨r, rfl, -⟩
    · simp
    · exact absurd (by simp) hc

/-! ## Splitting -/

variable {p : Char → Bool}

/-- The pieces lie in the text: the first in front, the others inside. -/
theorem prefix_of_pieces {s w : List Char} {ws : List (List Char)} (h : pieces p s = w :: ws) :
    w <+: s ∧ ∀ v ∈ ws, v <:+: s := by
  induction s generalizing w ws with
  | nil =>
    rw [pieces_nil] at h
    cases h
    exact ⟨List.nil_prefix, by simp⟩
  | cons c r ih =>
    obtain ⟨w₀, ws₀, hr⟩ := List.exists_cons_of_ne_nil (pieces_ne_nil (p := p) r)
    obtain ⟨hw, hws⟩ := ih hr
    by_cases hc : p c = true
    · rw [pieces_cons_sep hc, hr] at h
      cases h
      refine ⟨List.nil_prefix, fun v hv => List.infix_cons ?_⟩
      rcases List.mem_cons.1 hv with rfl | hv
      · exact hw.isInfix
      · exact hws v hv
    · rw [pieces_cons_other (by simpa using hc) hr] at h
      cases h
      exact ⟨List.cons_prefix_cons.2 ⟨rfl, hw⟩, fun v hv => List.infix_cons (hws v hv)⟩

theorem infix_of_mem_pieces {s v : List Char} (hv : v ∈ pieces p s) : v <:+: s := by
  obtain ⟨w, ws, h⟩ := List.exists_cons_of_ne_nil (pieces_ne_nil (p := p) s)
  rw [h] at hv
  rcases List.mem_cons.1 hv with rfl | hv
  · exact (prefix_of_pieces h).1.isInfix
  · exact (prefix_of_pieces h).2 v hv

/-- No piece holds a separator. -/
theorem not_sep_of_mem_pieces {s v : List Char} (hv : v ∈ pieces p s) : ∀ c ∈ v, p c = false := by
  induction s generalizing v with
  | nil => rw [pieces_nil, List.mem_singleton] at hv; subst hv; simp
  | cons a r ih =>
    by_cases ha : p a = true
    · rw [pieces_cons_sep ha] at hv
      rcases List.mem_cons.1 hv with rfl | hv
      · simp
      · exact ih hv
    · have ha : p a = false := by simpa using ha
      obtain ⟨w, ws, hr⟩ := List.exists_cons_of_ne_nil (pieces_ne_nil (p := p) r)
      rw [pieces_cons_other ha hr] at hv
      rw [hr] at ih
      rcases List.mem_cons.1 hv with rfl | hv
      · intro c hc
        rcases List.mem_cons.1 hc with rfl | hc
        · exact ha
        · exact ih List.mem_cons_self c hc
      · exact ih (List.mem_cons_of_mem _ hv)

/-- A text without separators is its only piece. -/
theorem pieces_of_not_sep {s : List Char} (h : ∀ c ∈ s, p c = false) : pieces p s = [s] := by
  induction s with
  | nil => rfl
  | cons c r ih =>
    exact pieces_cons_other (h c List.mem_cons_self) (ih fun a ha => h a (List.mem_cons_of_mem _ ha))

/-- **Lines that each end with a separator are read back**, with an empty piece after the last. -/
theorem pieces_flatMap {sep : Char} (hsep : p sep = true) {ls : List (List Char)}
    (h : ∀ l ∈ ls, ∀ c ∈ l, p c = false) : pieces p (ls.flatMap (· ++ [sep])) = ls ++ [[]] := by
  induction ls with
  | nil => rfl
  | cons l ls ih =>
    rw [List.flatMap_cons, List.append_assoc, List.singleton_append, pieces_append_cons hsep,
      pieces_of_not_sep (h l List.mem_cons_self), ih fun m hm => h m (List.mem_cons_of_mem _ hm)]
    rfl

/-- Splitting drops separators only. -/
theorem flatten_pieces_sublist (s : List Char) : (pieces p s).flatten.Sublist s := by
  induction s with
  | nil => exact List.Sublist.refl _
  | cons c r ih =>
    by_cases hc : p c = true
    · rw [pieces_cons_sep hc]
      exact ih.trans (List.sublist_cons_self _ _)
    · obtain ⟨w, ws, hr⟩ := List.exists_cons_of_ne_nil (pieces_ne_nil (p := p) r)
      rw [pieces_cons_other (by simpa using hc) hr]
      rw [hr] at ih
      exact ih.cons_cons c

theorem flatten_words_sublist (s : List Char) : (words s).flatten.Sublist s := by
  rw [words, List.flatten_filter_not_isEmpty]
  exact flatten_pieces_sublist s

theorem isWord_of_mem_words {s w : List Char} (h : w ∈ words s) : IsWord w := by
  obtain ⟨hw, hne⟩ := List.mem_filter.1 h
  exact ⟨by simpa using hne, not_sep_of_mem_pieces hw⟩

theorem infix_of_mem_words {s w : List Char} (h : w ∈ words s) : w <:+: s :=
  infix_of_mem_pieces (List.mem_filter.1 h).1

/-- The first word of a text that starts with no blank is in front of it. -/
theorem words_prefix {s w : List Char} {ws : List (List Char)}
    (hs : ∀ c ∈ s.head?, isBlank c = false) (h : words s = w :: ws) : w <+: s := by
  cases s with
  | nil => simp [words, pieces_nil] at h
  | cons c r =>
    have hc : isBlank c = false := hs c (by simp)
    obtain ⟨u, us, hr⟩ := List.exists_cons_of_ne_nil (pieces_ne_nil (p := isBlank) r)
    have hcr := pieces_cons_other hc hr
    rw [words, hcr, List.filter_cons_of_pos (by simp)] at h
    cases h
    exact (prefix_of_pieces hcr).1

theorem IsWord.words_eq {w : List Char} (h : IsWord w) : words w = [w] := by
  rw [words, pieces_of_not_sep h.blankless]
  simp [h.ne_nil]

/-- Words with a space before each, after a first one, have no blank at the ends. -/
theorem trimmed_append_words {w : List Char} {ws : List (List Char)} (hw : IsWord w)
    (h : ∀ v ∈ ws, IsWord v) : Trimmed (w ++ ws.flatMap (' ' :: ·)) := by
  rcases List.eq_nil_or_concat ws with rfl | ⟨vs, v, rfl⟩
  · simpa using hw.trimmed
  · have hv : IsWord v := h v (by simp)
    simpa using hw.trimmed.append hv.trimmed hw.ne_nil hv.ne_nil (vs.flatMap (' ' :: ·) ++ [' '])

/-- A marker without a space does not reach across words. -/
theorem infix_append_words_iff {m w : List Char} {ws : List (List Char)} (hm : ' ' ∉ m) :
    m <:+: w ++ ws.flatMap (' ' :: ·) ↔ m <:+: w ∨ ∃ v ∈ ws, m <:+: v := by
  induction ws generalizing w with
  | nil => simp
  | cons v vs ih =>
    rw [List.flatMap_cons, List.cons_append, infix_append_cons_iff hm, ih]
    simp

/-- **Words are read back** when a space stands before each. -/
theorem words_flatMap {ws : List (List Char)} (h : ∀ w ∈ ws, IsWord w) :
    words (ws.flatMap (' ' :: ·)) = ws := by
  induction ws with
  | nil => rfl
  | cons w ws ih =>
    have hw := (h w List.mem_cons_self).words_eq
    have ih := ih fun v hv => h v (List.mem_cons_of_mem _ hv)
    have hsp : isBlank ' ' = true := by decide
    have hfront : ∀ s, words (' ' :: s) = words s := fun s => words_append_cons hsp [] s
    rw [List.flatMap_cons, List.cons_append, hfront]
    -- the word ends at the space of the next one, if there is one
    cases ws with
    | nil => simpa using hw
    | cons v vs =>
      rw [List.flatMap_cons, List.cons_append, hfront] at ih
      rw [List.flatMap_cons, List.cons_append, words_append_cons hsp, hw, ih]
      rfl

end Schematic.Text
