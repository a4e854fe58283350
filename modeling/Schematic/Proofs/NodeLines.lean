import Schematic.Proofs.LineByLine

/-!
# The grammar of node lines

What a line has to look like to declare a node, said by how it can be written and not by how it is read.

* `Numeral`, `Coordinates.Written`, `Node.Written`: the grammar, as relations between a text and what it
  stands for. No order of trimming, cutting or scanning is in them.
* `integer?_eq_some_iff`, `Coordinates.read?_eq_some_iff`: **numbers and coordinates are read exactly where
  they are so written.** Where a scanner could stop early or go on, the next character decides.
* `classify_eq_node_iff`: a line is cut at its first `@`, however it is trimmed before and after.
* `Item.ofRaw_eq_node_iff`: **a line declares a node exactly if it writes the node and holds no arrow.**
* `parse_node_line`: the same for a script of one line, with the diagnostic of a line that writes no node.
-/

namespace Schematic

open Script Text

namespace Script

/-! ## Numerals -/

/-- A decimal numeral with its value: some digits, zeros in front allowed, after an optional minus sign. -/
inductive Numeral : List Char → ℤ → Prop where
  | plain {ds : List Char} (hne : ds ≠ []) (hds : ∀ c ∈ ds, c.isDigit = true) :
      Numeral ds (Nat.ofDigitChars 10 ds 0)
  | minus {ds : List Char} (hne : ds ≠ []) (hds : ∀ c ∈ ds, c.isDigit = true) :
      Numeral ('-' :: ds) (-(Nat.ofDigitChars 10 ds 0 : ℤ))

/-- A text that does not go on with a digit. -/
def PastDigits (s : List Char) : Prop := ∀ c ∈ s.head?, c.isDigit = false

instance (s : List Char) : Decidable (PastDigits s) :=
  decidable_of_iff (s.head?.all (! ·.isDigit) = true) (by simp [PastDigits, Option.all_eq_true])

theorem digits?_eq_some_iff {s r : List Char} {n : ℕ} : digits? s = some (n, r) ↔
    ∃ ds, s = ds ++ r ∧ ds ≠ [] ∧ (∀ c ∈ ds, c.isDigit = true) ∧ PastDigits r ∧
      n = Nat.ofDigitChars 10 ds 0 := by
  constructor
  · intro h
    simp only [digits?] at h
    split at h
    · cases h
    · rename_i hne
      cases h
      refine ⟨s.takeWhile Char.isDigit, List.takeWhile_append_dropWhile.symm, hne,
        fun c hc => List.mem_takeWhile_imp hc, fun c hc => ?_, rfl⟩
      have := List.head?_dropWhile_not Char.isDigit s
      rw [hc] at this
      simpa using this
  · rintro ⟨ds, rfl, hne, hds, hr, rfl⟩
    obtain ⟨htake, hdrop⟩ := takeWhile_append_of_all hds hr
    simp only [digits?, htake, hdrop]

/-- **A number is read exactly where a numeral is written that is not followed by another digit.** -/
theorem integer?_eq_some_iff {s r : List Char} {i : ℤ} : integer? s = some (i, r) ↔
    ∃ X, s = X ++ r ∧ Numeral X i ∧ PastDigits r := by
  constructor
  · intro h
    unfold integer? at h
    split at h <;> obtain ⟨⟨n, r'⟩, hd, hr⟩ := Option.map_eq_some_iff.1 h <;> cases hr <;>
      obtain ⟨ds, rfl, hne, hds, hrest, rfl⟩ := digits?_eq_some_iff.1 hd
    · exact ⟨'-' :: ds, rfl, .minus hne hds, hrest⟩
    · exact ⟨ds, rfl, .plain hne hds, hrest⟩
  · rintro ⟨X, rfl, hX, hr⟩
    cases hX with
    | plain hne hds =>
      obtain ⟨c, ds, rfl⟩ := List.exists_cons_of_ne_nil hne
      have hc : c ≠ '-' := by
        rintro rfl
        exact absurd (hds _ List.mem_cons_self) (by decide)
      have hd := digits?_eq_some_iff.2 ⟨c :: ds, rfl, hne, hds, hr, rfl⟩
      rw [List.cons_append] at hd ⊢
      rw [integer?_of_digit hc, hd]
      rfl
    | minus hne hds =>
      have hd := digits?_eq_some_iff.2 ⟨_, rfl, hne, hds, hr, rfl⟩
      rw [List.cons_append, integer?, hd]
      rfl

theorem Numeral.isWord {X : List Char} {i : ℤ} (h : Numeral X i) : IsWord X := by
  cases h with
  | plain hne hds => exact ⟨hne, fun c hc => not_isBlank_of_isDigit (hds c hc)⟩
  | minus hne hds =>
    refine ⟨List.cons_ne_nil _ _, fun c hc => ?_⟩
    rcases List.mem_cons.1 hc with rfl | hc
    · decide
    · exact not_isBlank_of_isDigit (hds c hc)

/-- No digit comes where a blank may come, up to a character that is no digit itself. -/
theorem pastDigits_blanks_append {b r : List Char} (hb : Blanks b) (hr : PastDigits r) :
    PastDigits (b ++ r) := by
  cases b with
  | nil => exact hr
  | cons c b =>
    rintro d ⟨⟩
    rw [← Bool.not_eq_true]
    intro hd
    have hblank := hb c List.mem_cons_self
    rw [not_isBlank_of_isDigit hd] at hblank
    cases hblank

/-- A number after blanks. -/
theorem integer?_skipBlanks_eq_some_iff {s r : List Char} {i : ℤ} : integer? (skipBlanks s) = some (i, r) ↔
    ∃ b X, s = b ++ X ++ r ∧ Blanks b ∧ Numeral X i ∧ PastDigits r := by
  constructor
  · intro h
    obtain ⟨X, hs, hX, hr⟩ := integer?_eq_some_iff.1 h
    refine ⟨s.takeWhile isBlank, X, ?_, blanks_takeWhile s, hX, hr⟩
    rw [List.append_assoc, ← hs, takeWhile_append_skipBlanks]
  · rintro ⟨b, X, rfl, hb, hX, hr⟩
    have hskip : skipBlanks (b ++ (X ++ r)) = X ++ r := by
      refine skipBlanks_append hb fun c hc => ?_
      rw [List.head?_append_of_ne_nil _ hX.isWord.ne_nil] at hc
      exact hX.isWord.trimmed.head c hc
    rw [List.append_assoc, hskip]
    exact integer?_eq_some_iff.2 ⟨X, rfl, hX, hr⟩

/-- A comma after blanks. -/
theorem comma?_skipBlanks_eq_some_iff {s r : List Char} : comma? (skipBlanks s) = some r ↔
    ∃ b, s = b ++ ',' :: r ∧ Blanks b := by
  constructor
  · intro h
    unfold comma? at h
    split at h
    · rename_i hs
      cases h
      exact ⟨s.takeWhile isBlank, by rw [← hs, takeWhile_append_skipBlanks], blanks_takeWhile s⟩
    · cases h
  · rintro ⟨b, rfl, hb⟩
    rw [skipBlanks_append hb (by rintro c ⟨⟩; decide)]
    rfl

/-! ## Coordinates -/

/-- A text that starts with two numerals in range around a comma, blanks allowed before each of the three,
and does not go on with a digit. -/
inductive Coordinates.Written : List Char → Coordinates → Prop where
  | intro {a X b d Y r : List Char} {x y : ℤ} (ha : Blanks a) (hX : Numeral X x) (hb : Blanks b)
      (hd : Blanks d) (hY : Numeral Y y) (hr : PastDigits r) (hx : InRange x) (hy : InRange y) :
      Coordinates.Written (a ++ X ++ b ++ ',' :: (d ++ Y ++ r)) ⟨x, y, r⟩

/-- **Coordinates are read exactly where they are written.** -/
theorem Coordinates.read?_eq_some_iff {s : List Char} {c : Coordinates} :
    Coordinates.read? s = some c ↔ Coordinates.Written s c := by
  simp only [Coordinates.read?, Option.bind_eq_bind, Option.bind_eq_some_iff, Prod.exists,
    integer?_skipBlanks_eq_some_iff, comma?_skipBlanks_eq_some_iff]
  constructor
  · rintro ⟨x, _, ⟨a, X, rfl, ha, hX, -⟩, _, ⟨b, rfl, hb⟩, y, r, ⟨d, Y, rfl, hd, hY, hr⟩, hc⟩
    split at hc
    · rename_i hrange
      cases hc
      rw [← List.append_assoc]
      exact .intro ha hX hb hd hY hr hrange.1 hrange.2
    · cases hc
  · rintro ⟨ha, hX, hb, hd, hY, hr, hx, hy⟩
    have hcomma : ∀ r, PastDigits (',' :: r) := by
      rintro r c ⟨⟩
      decide
    refine ⟨_, _, ⟨_, _, List.append_assoc _ _ _, ha, hX, pastDigits_blanks_append hb (hcomma _)⟩, _,
      ⟨_, rfl, hb⟩, _, _, ⟨_, _, rfl, hd, hY, hr⟩, if_pos ⟨hx, hy⟩⟩

/-- Trimming a text may shorten what follows the coordinates, but does not change its words. -/
theorem Coordinates.exists_written_trim_iff {s : List Char} {x y : ℤ} {os : List (List Char)} :
    (∃ r, Coordinates.Written (trim s) ⟨x, y, r⟩ ∧ words r = os) ↔
      ∃ r, Coordinates.Written s ⟨x, y, r⟩ ∧ words r = os := by
  constructor
  · rintro ⟨r, hw, rfl⟩
    obtain ⟨p, q, hs, hp, hq⟩ := exists_eq_append_trim s
    refine ⟨r ++ q, ?_, words_append_blanks hq r⟩
    generalize trim s = t at hs hw
    subst hs
    cases hw with
    | intro ha hX hb hd hY hr hx hy =>
      have hrq : PastDigits (r ++ q) := by
        cases r with
        | nil => simpa using pastDigits_blanks_append (r := []) hq (by simp [PastDigits])
        | cons c r => exact hr
      simpa only [List.append_assoc, List.cons_append] using
        Coordinates.Written.intro (Blanks.append hp ha) hX hb hd hY hrq hx hy
  · rintro ⟨r, hw, rfl⟩
    cases hw with
    | @intro a X b d Y r x y ha hX hb hd hY hr hx hy =>
      -- from the first numeral to the second there is nothing to trim
      have hpair : Trimmed (X ++ (b ++ ',' :: d) ++ Y) :=
        hX.isWord.trimmed.append hY.isWord.trimmed hX.isWord.ne_nil hY.isWord.ne_nil _
      have hne : X ++ (b ++ ',' :: d) ++ Y ≠ [] := List.append_ne_nil_of_right_ne_nil _ hY.isWord.ne_nil
      obtain ⟨r, q, rfl, hq, htrim⟩ := exists_trim_eq ha hpair hne r
      refine ⟨r, ?_, (words_append_blanks hq r).symm⟩
      have hr : PastDigits r := by
        intro c hc
        refine hr c ?_
        rw [List.head?_append, hc]
        rfl
      have hs : a ++ X ++ b ++ ',' :: (d ++ Y ++ (r ++ q)) =
          a ++ (X ++ (b ++ ',' :: d) ++ Y) ++ (r ++ q) := by
        simp only [List.append_assoc, List.cons_append]
      rw [hs, htrim]
      simpa only [List.append_assoc, List.cons_append, List.nil_append] using
        Coordinates.Written.intro (a := []) (by simp [Blanks]) hX hb hd hY hr hx hy

/-! ## Lines -/

/-- A line with two slashes in front. -/
def IsComment (l : List Char) : Prop := ∃ b r, l = b ++ slashes ++ r ∧ Blanks b

variable {l a b head tail : List Char}

theorem slashes_prefix_trim_iff : slashes <+: trim l ↔ IsComment l := by
  constructor
  · rintro ⟨r, hr⟩
    obtain ⟨p, q, hl, hp, -⟩ := exists_eq_append_trim l
    refine ⟨p, r ++ q, ?_, hp⟩
    rw [← hr] at hl
    simpa only [List.append_assoc] using hl
  · rintro ⟨p, r, rfl, hp⟩
    have hslashes : IsWord slashes := isWord_iff.2 (by decide)
    obtain ⟨r, b, rfl, -, htrim⟩ := exists_trim_eq hp hslashes.trimmed hslashes.ne_nil r
    rw [htrim]
    exact List.prefix_append _ _

/-- A line that starts with a word is a comment if the word starts with two slashes. -/
theorem isComment_append_iff {w r : List Char} (hb : Blanks b) (hw : IsWord w) (hr : AtBlank r) :
    IsComment (b ++ w ++ r) ↔ slashes <+: w := by
  constructor
  · intro h
    obtain ⟨r', q, rfl, -, htrim⟩ := exists_trim_eq hb hw.trimmed hw.ne_nil r
    rw [← slashes_prefix_trim_iff, htrim] at h
    -- the slashes end before the blank after the word
    cases r' with
    | nil => rwa [List.append_nil] at h
    | cons c r' =>
      have hslashes : IsWord slashes := isWord_iff.2 (by decide)
      have hc : c ∉ slashes := hslashes.not_mem (hr c rfl)
      rwa [prefix_append_cons_iff hc] at h
  · rintro ⟨s, rfl⟩
    exact ⟨b, s ++ r, by simp only [List.append_assoc], hb⟩

/-- The first `@` of a trimmed line is the first of the line. The two halves differ in blanks at their ends
only. -/
theorem exists_append_at_of_trim (h : trim l = a ++ '@' :: b) (ha : '@' ∉ a) :
    ∃ a' b', l = a' ++ '@' :: b' ∧ '@' ∉ a' ∧ trim a' = trim a ∧ trim b' = trim b := by
  obtain ⟨p, q, hl, hp, hq⟩ := exists_eq_append_trim l
  have hat : '@' ∉ p := Blanks.not_mem hp (by decide)
  refine ⟨p ++ a, b ++ q, ?_, ?_, ?_, ?_⟩
  · rw [h] at hl
    simpa only [List.append_assoc, List.cons_append] using hl
  · rw [List.mem_append, not_or]
    exact ⟨hat, ha⟩
  · simpa using trim_append_blanks (b := []) hp (by simp [Blanks]) a
  · simpa using trim_append_blanks (a := []) (by simp [Blanks]) hq b

/-- **A line is cut at its first `@`**, if it is no comment and holds no arrow; trimming the line first
makes no difference. -/
theorem classify_eq_node_iff : Line.classify l = .node head tail ↔
    ∃ a b, l = a ++ '@' :: b ∧ '@' ∉ a ∧ ¬ arrow <:+: l ∧ ¬ IsComment l ∧
      head = trim a ∧ tail = trim b := by
  have harrow : IsWord arrow := isWord_iff.2 (by decide)
  constructor
  · intro h
    obtain ⟨a, b, hcut, rfl, rfl, hat, hnarrow, hcomment⟩ := classify_eq_node h
    obtain ⟨a', b', hl, hat', ha, hb⟩ := exists_append_at_of_trim hcut hat
    exact ⟨a', b', hl, hat', harrow.infix_trim_iff.not.1 hnarrow, slashes_prefix_trim_iff.not.1 hcomment,
      ha.symm, hb.symm⟩
  · rintro ⟨a, b, hcut, hat, hnarrow, hcomment, rfl, rfl⟩
    have hmem : '@' ∈ trim l := by
      have hword : IsWord ['@'] := isWord_iff.2 (by decide)
      rw [← List.singleton_infix_iff, hword.infix_trim_iff, List.singleton_infix_iff, hcut]
      simp
    obtain ⟨a₁, b₁, htrim, hat₁⟩ := List.eq_append_cons_of_mem hmem
    obtain ⟨a', b', hl, hat', ha, hb⟩ := exists_append_at_of_trim htrim hat₁
    -- there is one first `@`
    have hfirst : some (a', b') = some (a, b) := by
      rw [← cut_char hat' b', ← hl, hcut, cut_char hat b]
    cases hfirst
    rw [classify_node htrim hat₁ (harrow.infix_trim_iff.not.2 hnarrow)
      (slashes_prefix_trim_iff.not.2 hcomment), ha, hb]

end Script

/-! ## Nodes -/

/-- A line that writes a node: two words with blanks between them, whatever stands apart from them up to the
first `@`, coordinates, and the options. -/
inductive Node.Written : List Char → Node → Prop where
  | intro {a t b i g s r : List Char} {x y : ℤ} {o : List (List Char)}
      (ha : Blanks a) (ht : IsWord t) (hslashes : ¬ slashes <+: t) (htat : '@' ∉ t)
      (hb : Blanks b) (hne : b ≠ []) (hi : IsWord i) (hiat : '@' ∉ i) (hg : AtBlank g) (hgat : '@' ∉ g)
      (hplace : Coordinates.Written s ⟨x, y, r⟩) (ho : Spaced r o) :
      Node.Written (a ++ t ++ b ++ i ++ g ++ '@' :: s) ⟨.ofList i, .ofList t, x, y, o.map .ofList⟩

/-- How the two halves of a line are read, trimmed or not. -/
theorem Node.read_trim_eq_ok_iff {a b : List Char} {n : Node} : Node.read (trim a) (trim b) = .ok n ↔
    ∃ t i ws x y r, words a = t :: i :: ws ∧ Coordinates.Written b ⟨x, y, r⟩ ∧
      n = ⟨.ofList i, .ofList t, x, y, (words r).map .ofList⟩ := by
  constructor
  · intro h
    obtain ⟨t, i, ws, ⟨x, y, r⟩, hwords, hplace, rfl⟩ := Node.eq_of_read h
    rw [words_trim] at hwords
    obtain ⟨r', hw, hr'⟩ :=
      Coordinates.exists_written_trim_iff.1 ⟨r, Coordinates.read?_eq_some_iff.1 hplace, rfl⟩
    exact ⟨t, i, ws, x, y, r', hwords, hw, by rw [hr']⟩
  · rintro ⟨t, i, ws, x, y, r, hwords, hw, rfl⟩
    obtain ⟨r', hw', hr'⟩ := Coordinates.exists_written_trim_iff.2 ⟨r, hw, rfl⟩
    rw [Node.read, words_trim, hwords]
    simp only [Coordinates.read?_eq_some_iff.2 hw', hr']

/-- What is wrong with a line that cannot be read. -/
theorem Node.eq_of_read_error {a b : List Char} {f : Fault} (h : Node.read (trim a) (trim b) = .error f) :
    f = if (words a).length < 2 then .missingTypeOrId else .invalidCoordinates := by
  unfold Node.read at h
  rw [words_trim] at h
  split at h
  · rename_i hwords
    rw [hwords, if_neg (by simp)]
    split at h <;> cases h
    rfl
  · rename_i hwords
    cases h
    rcases hw : words a with - | ⟨t, - | ⟨i, ws⟩⟩
    · rfl
    · rfl
    · exact absurd hw (hwords t i ws)

/-- **A line declares a node exactly if it writes the node and holds no arrow.** -/
theorem Script.Item.ofRaw_eq_node_iff {l : List Char} {n : Node} :
    Item.ofRaw l = .node n ↔ ¬ arrow <:+: l ∧ Node.Written l n := by
  constructor
  · intro h
    obtain ⟨head, tail, hl, hn⟩ := Node.exists_of_ofRaw h
    obtain ⟨front, s, rfl, hat, hnarrow, hcomment, rfl, rfl⟩ := classify_eq_node_iff.1 hl
    obtain ⟨t, i, ws, x, y, r, hwords, hplace, rfl⟩ := Node.read_trim_eq_ok_iff.1 hn
    obtain ⟨a, b, g, rfl, ha, ht, hb, hne, hi, hg, -⟩ := words_eq_cons_cons_iff.1 hwords
    have hslashes : ¬ slashes <+: t := by
      rw [← isComment_append_iff ha ht (hb.atBlank_append hne (i ++ g ++ '@' :: s))]
      simpa only [List.append_assoc] using hcomment
    simp only [List.mem_append, not_or] at hat
    obtain ⟨⟨⟨⟨-, htat⟩, -⟩, hiat⟩, hgat⟩ := hat
    exact ⟨hnarrow, .intro ha ht hslashes htat hb hne hi hiat hg hgat hplace (words_eq_iff.1 rfl)⟩
  · rintro ⟨hnarrow, hw⟩
    cases hw with
    | @intro a t b i g s r x y o ha ht hslashes htat hb hne hi hiat hg hgat hplace ho =>
      have hat : '@' ∉ a ++ t ++ b ++ i ++ g := by
        simp only [List.mem_append, not_or]
        exact ⟨⟨⟨⟨ha.not_mem (by decide), htat⟩, hb.not_mem (by decide)⟩, hiat⟩, hgat⟩
      have hcomment : ¬ IsComment (a ++ t ++ b ++ i ++ g ++ '@' :: s) := by
        rw [← isComment_append_iff ha ht (hb.atBlank_append hne (i ++ g ++ '@' :: s))] at hslashes
        simpa only [List.append_assoc] using hslashes
      have hwords : words (a ++ t ++ b ++ i ++ g) = t :: i :: words g :=
        words_eq_cons_cons_iff.2 ⟨a, b, g, rfl, ha, ht, hb, hne, hi, hg, rfl⟩
      rw [Item.ofRaw, classify_eq_node_iff.2 ⟨_, s, rfl, hat, hnarrow, hcomment, rfl, rfl⟩, Item.ofLine,
        Node.read_trim_eq_ok_iff.2 ⟨t, i, _, x, y, r, hwords, hplace, rfl⟩, ho.words_eq]

namespace Script

/-- A script of one line gives what the line gives. -/
theorem parse_of_line {s : String} {l : List Char} (hs : dropMark s.toList = l) (hl : '\n' ∉ l) :
    parse s = (Item.ofRaw l).on 1 := by
  have hlines : lines s = [l] := by
    rw [lines, hs]
    refine pieces_of_not_sep fun c hc => ?_
    rw [beq_eq_false_iff_ne]
    rintro rfl
    exact hl hc
  rw [parse_eq, items, hlines, List.map_singleton]
  cases Item.ofRaw l <;> rfl

/-- **Node lines are read exactly by the grammar.** A script of one line gives a node exactly if the line
writes that node and holds no arrow, and then nothing else. Any other line with an `@` that holds no arrow
and is no comment gives nothing but one diagnostic. -/
theorem parse_node_line {s : String} {l : List Char} (hs : dropMark s.toList = l) (hl : '\n' ∉ l) :
    (∀ n, n ∈ (parse s).circuit.nodes ↔ ¬ arrow <:+: l ∧ Node.Written l n) ∧
    (∀ n, ¬ arrow <:+: l → Node.Written l n → parse s = ⟨⟨[n], []⟩, []⟩) ∧
    ∀ a b, l = a ++ '@' :: b → '@' ∉ a → ¬ arrow <:+: l → ¬ IsComment l → (¬ ∃ n, Node.Written l n) →
      parse s = ⟨⟨[], []⟩,
        [⟨1, if (words a).length < 2 then .missingTypeOrId else .invalidCoordinates⟩]⟩ := by
  rw [parse_of_line hs hl]
  refine ⟨fun n => ?_, fun n hnarrow hw => ?_, fun a b hcut hat hnarrow hcomment hnone => ?_⟩
  · rw [← Item.ofRaw_eq_node_iff]
    cases Item.ofRaw l <;> simp [Item.on, eq_comm]
  · rw [Item.ofRaw_eq_node_iff.2 ⟨hnarrow, hw⟩]
    rfl
  · have hline := classify_eq_node_iff.2 ⟨a, b, hcut, hat, hnarrow, hcomment, rfl, rfl⟩
    cases hread : Node.read (trim a) (trim b) with
    | ok n =>
      have hn : Item.ofRaw l = .node n := by rw [Item.ofRaw, hline, Item.ofLine, hread]
      exact absurd ⟨n, (Item.ofRaw_eq_node_iff.1 hn).2⟩ hnone
    | error f =>
      have hf : Item.ofRaw l = .fault f := by rw [Item.ofRaw, hline, Item.ofLine, hread]
      rw [hf, ← Node.eq_of_read_error hread]
      rfl

/-- Lines at the edge of the grammar: wide blanks, an `@` next to a word, zeros in front and an option where
the second number ends; a number one too large; a type without an id. -/
theorem parse_node_line_edges :
    parse "\uFEFF\tAND\u00A0g2 x@-007 ,12on  two\r" =
      ⟨⟨[⟨"g2", "AND", -7, 12, ["on", "two"]⟩], []⟩, []⟩ ∧
    parse "In A @ 9223372036854775808, 0" = ⟨⟨[], []⟩, [⟨1, .invalidCoordinates⟩]⟩ ∧
    parse "In@0,0" = ⟨⟨[], []⟩, [⟨1, .missingTypeOrId⟩]⟩ := by
  have hplace : Coordinates.Written
      ([] ++ "-007".toList ++ [' '] ++ ',' :: ([] ++ "12".toList ++ "on  two\r".toList))
      ⟨-7, 12, "on  two\r".toList⟩ := by
    refine .intro ?_ (.minus ?_ (List.all_eq_true.1 ?_)) ?_ ?_ (.plain ?_ (List.all_eq_true.1 ?_)) ?_ ?_ ?_ <;>
      decide
  have hgate : Node.Written
      (['\t'] ++ "AND".toList ++ ['\u00A0'] ++ "g2".toList ++ " x".toList ++ '@' ::
        ([] ++ "-007".toList ++ [' '] ++ ',' :: ([] ++ "12".toList ++ "on  two\r".toList)))
      ⟨"g2", "AND", -7, 12, ["on".toList, "two".toList].map .ofList⟩ := by
    refine .intro ?_ (isWord_iff.2 ?_) ?_ ?_ ?_ ?_ (isWord_iff.2 ?_) ?_ ?_ ?_ hplace (words_eq_iff.1 ?_) <;>
      decide
  have hcomment {l : List Char} (h : ¬ slashes <+: trim l) : ¬ IsComment l := slashes_prefix_trim_iff.not.1 h
  have hnone {s : String} {l : List Char} (hs : dropMark s.toList = l) (hl : '\n' ∉ l) (ha : ¬ arrow <:+: l)
      (h : (parse s).circuit.nodes = []) : ¬ ∃ n, Node.Written l n := by
    rintro ⟨n, hn⟩
    have hmem := ((parse_node_line hs hl).1 n).2 ⟨ha, hn⟩
    rw [h] at hmem
    cases hmem
  refine ⟨?_, ?_, ?_⟩
  · exact (parse_node_line (by decide +kernel) (by decide +kernel)).2.1 _ (by decide +kernel) hgate
  · refine (parse_node_line rfl ?_).2.2 "In A ".toList " 9223372036854775808, 0".toList ?_ ?_ ?_
      (hcomment ?_) (hnone rfl ?_ ?_ ?_) <;> decide +kernel
  · refine (parse_node_line rfl ?_).2.2 "In".toList "0,0".toList ?_ ?_ ?_ (hcomment ?_)
      (hnone rfl ?_ ?_ ?_) <;> decide +kernel

end Script

end Schematic
