import Mathlib.Data.List.DropRight
import Schematic.Proofs.Text

/-!
# Words between blanks

The text functions once more, for texts with blanks anywhere: those of `Schematic.Proofs.Text` are about texts
that have their blanks in one known place.

* `Blanks`, `AtBlank`, `Spaced`: blanks, the end of a word, and a text made of some words.
* `words_eq_iff`: **the words of a text are those it is made of.**
* `trim_append_blanks`, `exists_trim_eq`: what trimming leaves of a text between blanks.
* `IsWord.infix_trim_iff`: no word is lost by trimming.
-/

namespace Schematic.Text

/-- Some blanks, or none. -/
def Blanks (s : List Char) : Prop := ∀ c ∈ s, isBlank c = true

instance (s : List Char) : Decidable (Blanks s) :=
  decidable_of_iff (s.all isBlank = true) List.all_eq_true

/-- Nothing, or a text that starts with a blank: what may follow a word. -/
def AtBlank (s : List Char) : Prop := ∀ c ∈ s.head?, isBlank c = true

instance (s : List Char) : Decidable (AtBlank s) :=
  decidable_of_iff (s.head?.all isBlank = true) (Option.all_eq_true _ _)

/-- A text made of some words, in this order, with blanks between them and around them. -/
inductive Spaced : List Char → List (List Char) → Prop where
  | nil {s : List Char} (hs : Blanks s) : Spaced s []
  | cons {b w r : List Char} {ws : List (List Char)} (hb : Blanks b) (hw : IsWord w) (hr : AtBlank r)
      (hrest : Spaced r ws) : Spaced (b ++ w ++ r) (w :: ws)

variable {a b s t r w : List Char} {ws : List (List Char)}

theorem Blanks.append (ha : Blanks a) (hb : Blanks b) : Blanks (a ++ b) := by
  intro c hc
  exact (List.mem_append.1 hc).elim (ha c) (hb c)

theorem Blanks.not_mem {c : Char} (hb : Blanks b) (hc : isBlank c = false) : c ∉ b := by
  intro hm
  rw [hb c hm] at hc
  cases hc

/-- A word is not found among blanks. -/
theorem IsWord.not_infix (hw : IsWord w) (hb : Blanks b) : ¬ w <:+: b := by
  intro hi
  obtain ⟨c, hc⟩ := List.exists_mem_of_ne_nil w hw.ne_nil
  exact hb.not_mem (hw.blankless c hc) (hi.subset hc)

theorem Blanks.atBlank_append (hb : Blanks b) (hne : b ≠ []) (r : List Char) : AtBlank (b ++ r) := by
  intro c hc
  rw [List.head?_append_of_ne_nil _ hne] at hc
  exact hb c (List.mem_of_mem_head? hc)

/-- A blank in front belongs to no word. -/
theorem words_cons_blank {c : Char} (hc : isBlank c = true) (s : List Char) : words (c :: s) = words s :=
  words_append_cons hc [] s

theorem words_blanks_append (hb : Blanks b) (s : List Char) : words (b ++ s) = words s := by
  induction b with
  | nil => rfl
  | cons c b ih =>
    rw [List.cons_append, words_cons_blank (hb c List.mem_cons_self)]
    exact ih fun d hd => hb d (List.mem_cons_of_mem _ hd)

theorem words_blanks (hb : Blanks b) : words b = [] := by
  have := words_blanks_append hb []
  rwa [List.append_nil] at this

/-- After a word come the words of what follows it. -/
theorem IsWord.words_append (hw : IsWord w) (hr : AtBlank r) : words (w ++ r) = w :: words r := by
  cases r with
  | nil => rw [List.append_nil, hw.words_eq]; rfl
  | cons c r =>
    have hc : isBlank c = true := hr c rfl
    rw [words_append_cons hc, hw.words_eq, words_cons_blank hc]
    rfl

/-- The blanks at the ends are of no account for the words. -/
theorem words_append_blanks (hb : Blanks b) (s : List Char) : words (s ++ b) = words s := by
  cases b with
  | nil => rw [List.append_nil]
  | cons c b =>
    have hb' : Blanks b := fun d hd => hb d (List.mem_cons_of_mem _ hd)
    rw [words_append_cons (hb c List.mem_cons_self), words_blanks hb', List.append_nil]

theorem words_trim (s : List Char) : words (trim s) = words s := by
  obtain ⟨a, b, hs, ha, hb⟩ := exists_eq_append_trim s
  conv_rhs => rw [hs]
  rw [words_append_blanks hb, words_blanks_append ha]

theorem takeWhile_append_skipBlanks (s : List Char) : s.takeWhile isBlank ++ skipBlanks s = s :=
  List.takeWhile_append_dropWhile

theorem blanks_takeWhile (s : List Char) : Blanks (s.takeWhile isBlank) := fun _ hc =>
  List.mem_takeWhile_imp hc

/-- A text that is not blank has a first word, with blanks before it and a blank or nothing after it. -/
theorem exists_first_word (hs : ¬ Blanks s) :
    ∃ b w r, s = b ++ w ++ r ∧ Blanks b ∧ IsWord w ∧ AtBlank r := by
  have hcut := takeWhile_append_skipBlanks s
  cases hfront : skipBlanks s with
  | nil => exact absurd (List.dropWhile_eq_nil_iff.1 hfront) hs
  | cons c r =>
    have hc : isBlank c = false := head?_skipBlanks s (by rw [hfront]; rfl)
    have hr : r.takeWhile (! isBlank ·) ++ r.dropWhile (! isBlank ·) = r := List.takeWhile_append_dropWhile
    refine ⟨s.takeWhile isBlank, c :: r.takeWhile (! isBlank ·), r.dropWhile (! isBlank ·), ?_,
      blanks_takeWhile s, ⟨List.cons_ne_nil _ _, fun d hd => ?_⟩, fun d hd => ?_⟩
    · rw [List.append_assoc, List.cons_append, hr, ← hfront, hcut]
    · rcases List.mem_cons.1 hd with rfl | hd
      · exact hc
      · simpa using List.mem_takeWhile_imp hd
    · have := List.head?_dropWhile_not (! isBlank ·) r
      rw [hd] at this
      simpa using this

/-- The words of a text are those it is made of. -/
theorem Spaced.words_eq (h : Spaced s ws) : words s = ws := by
  induction h with
  | nil hs => exact words_blanks hs
  | cons hb hw hr hrest ih => rw [List.append_assoc, words_blanks_append hb, hw.words_append hr, ih]

/-- **The words of a text are those it is made of**, and nothing else is one of its words. -/
theorem words_eq_iff : words s = ws ↔ Spaced s ws := by
  refine ⟨fun h => ?_, Spaced.words_eq⟩
  induction ws generalizing s with
  | nil =>
    refine .nil (by_contra fun hs => ?_)
    obtain ⟨b, w, r, rfl, hb, hw, hr⟩ := exists_first_word hs
    rw [List.append_assoc, words_blanks_append hb, hw.words_append hr] at h
    cases h
  | cons w ws ih =>
    have hs : ¬ Blanks s := fun hs => by
      rw [words_blanks hs] at h
      cases h
    obtain ⟨b, w', r, rfl, hb, hw, hr⟩ := exists_first_word hs
    rw [List.append_assoc, words_blanks_append hb, hw.words_append hr] at h
    cases h
    exact .cons hb hw hr (ih rfl)

/-- A text with at least two words. Between the first two there is a blank. -/
theorem words_eq_cons_cons_iff {i : List Char} : words s = t :: i :: ws ↔
    ∃ a b g, s = a ++ t ++ b ++ i ++ g ∧ Blanks a ∧ IsWord t ∧ Blanks b ∧ b ≠ [] ∧ IsWord i ∧ AtBlank g ∧
      words g = ws := by
  constructor
  · intro h
    obtain - | @⟨a, _, _, _, ha, ht, hafter, hrest⟩ := words_eq_iff.1 h
    obtain - | @⟨b, _, g, _, hb, hi, hg, hws⟩ := hrest
    refine ⟨a, b, g, by simp only [List.append_assoc], ha, ht, hb, ?_, hi, hg, hws.words_eq⟩
    -- without a blank the second word would go on with the first
    rintro rfl
    obtain ⟨c, i, rfl⟩ := List.exists_cons_of_ne_nil hi.ne_nil
    exact hi.not_mem (hafter c rfl) List.mem_cons_self
  · rintro ⟨a, b, g, rfl, ha, ht, hb, hne, hi, hg, rfl⟩
    have hrest := hb.atBlank_append hne (i ++ g)
    simp only [List.append_assoc, words_blanks_append ha, ht.words_append hrest, words_blanks_append hb,
      hi.words_append hg]

/-! ## Trimming -/

/-- Blanks around a text are trimmed with its own. -/
theorem trim_append_blanks (ha : Blanks a) (hb : Blanks b) (s : List Char) :
    trim (a ++ s ++ b) = trim s := by
  obtain ⟨p, q, hs, hp, hq⟩ := exists_eq_append_trim s
  have h : a ++ s ++ b = a ++ p ++ trim s ++ (q ++ b) := by
    conv_lhs => rw [hs]
    simp only [List.append_assoc]
  rw [h, trim_append (Blanks.append ha hp) (trimmed_trim s) (Blanks.append hq hb)]

/-- Trimming leaves what has no blanks at its ends, and of what follows it drops blanks at the end. -/
theorem exists_trim_eq (ha : Blanks a) (ht : Trimmed t) (hne : t ≠ []) (r : List Char) :
    ∃ r' b, r = r' ++ b ∧ Blanks b ∧ trim (a ++ t ++ r) = t ++ r' := by
  have hr : r.rdropWhile isBlank ++ r.rtakeWhile isBlank = r := List.rdropWhile_append_rtakeWhile
  have hb : Blanks (r.rtakeWhile isBlank) := fun _ hc => List.mem_rtakeWhile_imp hc
  refine ⟨r.rdropWhile isBlank, r.rtakeWhile isBlank, hr.symm, hb, ?_⟩
  have hcore : Trimmed (t ++ r.rdropWhile isBlank) := by
    refine ⟨fun c hc => ?_, fun c hc => ?_⟩
    · rw [List.head?_append_of_ne_nil _ hne] at hc
      exact ht.head c hc
    · rcases eq_or_ne (r.rdropWhile isBlank) [] with hnil | hcons
      · rw [hnil, List.append_nil] at hc
        exact ht.last c hc
      · rw [List.getLast?_append_of_ne_nil _ hcons, List.getLast?_eq_getLast_of_ne_nil hcons] at hc
        cases hc
        simpa using List.rdropWhile_last_not isBlank r hcons
  have h : a ++ t ++ r = a ++ (t ++ r.rdropWhile isBlank) ++ r.rtakeWhile isBlank := by
    conv_lhs => rw [← hr]
    simp only [List.append_assoc]
  rw [h, trim_append ha hcore hb]

/-- A word is found in a text exactly if it is found between the blanks at its ends. -/
theorem IsWord.infix_trim_iff (hw : IsWord w) : w <:+: trim s ↔ w <:+: s := by
  refine ⟨fun h => h.trans (trim_isInfix s), fun h => ?_⟩
  obtain ⟨p, q, hs, hp, hq⟩ := exists_eq_append_trim s
  rw [hs] at h
  have h : w <:+: p ++ trim s := by
    cases q with
    | nil => rwa [List.append_nil] at h
    | cons c q =>
      have hq' : Blanks q := fun d hd => hq d (List.mem_cons_of_mem _ hd)
      rw [infix_append_cons_iff (hw.not_mem (hq c List.mem_cons_self))] at h
      exact h.resolve_right (hw.not_infix hq')
  rcases List.eq_nil_or_concat p with rfl | ⟨p, c, rfl⟩
  · exact h
  · have hp' : Blanks p := fun d hd => hp d (by simp [hd])
    rw [List.concat_eq_append, List.append_assoc, List.singleton_append,
      infix_append_cons_iff (hw.not_mem (hp c (by simp)))] at h
    exact h.resolve_left (hw.not_infix hp')

end Schematic.Text
