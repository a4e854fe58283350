import Mathlib.Data.List.Flatten
import Mathlib.Data.List.TakeWhile
import Schematic.Json
import Schematic.Text.Numeral

/-!
# Reading JSON

A reader for the grammar of JSON, with any spaces between the tokens and with all escapes of a
string. Of the numbers it knows the integers; a fraction or an exponent is refused.

* `Json.read?`: the value of a whole text. `Json.value?` reads one value in front of a text, to a
  depth that the length of the text bounds.
* `Json.character?_escape`: a character is read back from its escape.
* `Json.listed?_separated`: the items of an array or an object are read back if each of them is.
* `Json.value?_chars`: **a value is read back from its text**, in every layout that breaks lines
  with spaces. So `Json.read?_compact`, `Json.read?_pretty`.
-/

namespace Schematic.Json

/-! ## The reader -/

def isSpace (c : Char) : Bool := c = ' ' || c = '\t' || c = '\n' || c = '\r'

def skipSpaces (s : List Char) : List Char := s.dropWhile isSpace

def hexValue? (c : Char) : Option ℕ :=
  if '0' ≤ c ∧ c ≤ '9' then some (c.toNat - '0'.toNat)
  else if 'a' ≤ c ∧ c ≤ 'f' then some (c.toNat - 'a'.toNat + 10)
  else if 'A' ≤ c ∧ c ≤ 'F' then some (c.toNat - 'A'.toNat + 10)
  else none

/-- A UTF-16 unit, in four digits. -/
def unit? : List Char → Option (ℕ × List Char)
  | a :: b :: c :: d :: r => do
    let a ← hexValue? a
    let b ← hexValue? b
    let c ← hexValue? c
    let d ← hexValue? d
    some (((a * 16 + b) * 16 + c) * 16 + d, r)
  | _ => none

/-- A character by its UTF-16 units, one of them or a pair of surrogates. -/
def unicode? (s : List Char) : Option (Char × List Char) := do
  let (u, r) ← unit? s
  if u < 0xd800 ∨ 0xe000 ≤ u then
    some (Char.ofNat u, r)
  else
    match r with
    | '\\' :: 'u' :: r => do
      let (v, r) ← unit? r
      if u < 0xdc00 ∧ 0xdc00 ≤ v ∧ v < 0xe000 then
        some (Char.ofNat (0x10000 + (u - 0xd800) * 0x400 + (v - 0xdc00)), r)
      else none
    | _ => none

/-- What a letter or a sign stands for after a backslash. -/
def escaped? : Char → Option Char
  | '"' => some '"'
  | '\\' => some '\\'
  | '/' => some '/'
  | 'b' => some '\x08'
  | 'f' => some '\x0c'
  | 'n' => some '\n'
  | 'r' => some '\r'
  | 't' => some '\t'
  | _ => none

/-- The next character of a string. The characters below a space stand escaped only. -/
def character? : List Char → Option (Char × List Char)
  | [] => none
  | '\\' :: 'u' :: r => unicode? r
  | '\\' :: c :: r => (escaped? c).map fun e => (e, r)
  | c :: r => if c = '\\' ∨ c.toNat < 0x20 then none else some (c, r)

/-- At most so many characters of a string, up to its closing quote. -/
def characters? : ℕ → List Char → Option (List Char × List Char)
  | _, [] => none
  | fuel, c :: r =>
    if c = '"' then some ([], r)
    else
      match fuel with
      | 0 => none
      | fuel + 1 => do
        let (e, r) ← character? (c :: r)
        let (es, r) ← characters? fuel r
        some (e :: es, r)

/-- A string after its opening quote. -/
def string? (s : List Char) : Option (String × List Char) :=
  (characters? s.length s).map fun (cs, r) => (String.ofList cs, r)

/-- Digits that start with a zero, after an optional minus sign, and are more than this zero. -/
def hasLeadingZero : List Char → Bool
  | '-' :: '0' :: d :: _ => d.isDigit
  | '0' :: d :: _ => d.isDigit
  | _ => false

/-- An integer. -/
def number? (s : List Char) : Option (ℤ × List Char) := do
  let (n, r) ← Text.integer? s
  if hasLeadingZero s ∨ r.head? ∈ [some '.', some 'e', some 'E'] then none else some (n, r)

section

variable {α : Type} (item? : List Char → Option (α × List Char)) (close : Char)

/-- At most so many items with commas between them, up to a closing bracket. -/
def listed? : ℕ → List Char → Option (List α × List Char)
  | 0, _ => none
  | fuel + 1, s => do
    let (x, r) ← item? s
    match skipSpaces r with
    | [] => none
    | c :: r =>
      if c = close then some ([x], r)
      else if c = ',' then do
        let (xs, r) ← listed? fuel r
        some (x :: xs, r)
      else none

/-- What stands after an opening bracket: nothing before the closing bracket, or some items. -/
def bracketed? (fuel : ℕ) (s : List Char) : Option (List α × List Char) :=
  match skipSpaces s with
  | [] => none
  | c :: r => if c = close then some ([], r) else listed? item? close fuel s

/-- A key, a colon and an item. -/
def member? (s : List Char) : Option ((String × α) × List Char) :=
  match skipSpaces s with
  | '"' :: r => do
    let (k, r) ← string? r
    match skipSpaces r with
    | ':' :: r => do
      let (x, r) ← item? r
      some ((k, x), r)
    | _ => none
  | _ => none

end

/-- The value in front of a text, if its brackets are not nested too deep, and the text after it. -/
def value? : ℕ → List Char → Option (Json × List Char)
  | 0, _ => none
  | fuel + 1, s =>
    match skipSpaces s with
    | 'n' :: 'u' :: 'l' :: 'l' :: r => some (.null, r)
    | 't' :: 'r' :: 'u' :: 'e' :: r => some (.bool true, r)
    | 'f' :: 'a' :: 'l' :: 's' :: 'e' :: r => some (.bool false, r)
    | '"' :: r => (string? r).map fun (s, r) => (.string s, r)
    | '[' :: r => (bracketed? (value? fuel) ']' fuel r).map fun (vs, r) => (.array vs, r)
    | '\x7b' :: r =>
      (bracketed? (member? (value? fuel)) '\x7d' fuel r).map fun (ms, r) => (.object ms, r)
    | s => (number? s).map fun (n, r) => (.number n, r)

/-- The value of a text. Only spaces may follow it. -/
def read? (s : String) : Option Json := do
  let (v, r) ← value? s.toList.length s.toList
  if skipSpaces r = [] then some v else none

/-! ## Spaces and what ends a value -/

variable {a r : List Char}

/-- Nothing but spaces. -/
def Spaces (a : List Char) : Prop := ∀ c ∈ a, isSpace c = true

theorem spaces_nil : Spaces [] := fun _ h => absurd h List.not_mem_nil

theorem skipSpaces_append (ha : Spaces a) (r : List Char) :
    skipSpaces (a ++ r) = skipSpaces r :=
  List.dropWhile_append_of_pos ha

theorem skipSpaces_cons {c : Char} (hc : isSpace c = false) (r : List Char) :
    skipSpaces (c :: r) = c :: r :=
  List.dropWhile_cons_of_neg (by simp [hc])

theorem skipSpaces_append_cons (ha : Spaces a) {c : Char} (hc : isSpace c = false) (r : List Char) :
    skipSpaces (a ++ c :: r) = c :: r := by
  rw [skipSpaces_append ha, skipSpaces_cons hc]

/-- A text that may follow a value: nothing, or one that starts with a space, a comma or a closing
bracket. -/
def Ends (r : List Char) : Prop :=
  ∀ c ∈ r.head?, isSpace c = true ∨ c = ',' ∨ c = ']' ∨ c = '\x7d'

theorem Ends.append (ha : Spaces a) (hr : Ends r) : Ends (a ++ r) := by
  cases a with
  | nil => exact hr
  | cons c a =>
    intro c' hc'
    rw [List.cons_append, List.head?_cons, Option.mem_some_iff] at hc'
    exact .inl (ha c' (by simp [hc']))

theorem ends_cons {c : Char} (hc : c = ',' ∨ c = ']' ∨ c = '\x7d') (r : List Char) : Ends (c :: r) := by
  intro c' hc'
  rw [List.head?_cons, Option.mem_some_iff] at hc'
  exact .inr (hc' ▸ hc)

/-- A space, a comma or a bracket does not go on with a number. -/
theorem Ends.not_number (hr : Ends r) {c : Char} (hc : c ∈ r.head?) :
    c.isDigit = false ∧ c ≠ '.' ∧ c ≠ 'e' ∧ c ≠ 'E' := by
  rcases hr c hc with h | rfl | rfl | rfl
  · simp only [isSpace, Bool.or_eq_true, decide_eq_true_eq] at h
    rcases h with ((rfl | rfl) | rfl) | rfl <;> decide
  · decide
  · decide
  · decide

/-! ## Strings -/

theorem hexValue?_hexDigit : ∀ n < 16, hexValue? (hexDigit n) = some n := by decide

/-- The character of a number below a space is read back from the four digits of the number. -/
theorem unicode?_hexDigits {c : Char} (hc : c.toNat < 0x20) (r : List Char) :
    unicode? ('0' :: '0' :: hexDigit (c.toNat / 16) :: hexDigit (c.toNat % 16) :: r) =
      some (c, r) := by
  have hzero : hexValue? '0' = some 0 := by decide
  have hnumber : ((0 * 16 + 0) * 16 + c.toNat / 16) * 16 + c.toNat % 16 = c.toNat := by omega
  have hunit : unit? ('0' :: '0' :: hexDigit (c.toNat / 16) :: hexDigit (c.toNat % 16) :: r) =
      some (c.toNat, r) := by
    simp only [unit?, hzero, hexValue?_hexDigit (c.toNat / 16) (by omega),
      hexValue?_hexDigit (c.toNat % 16) (by omega), Option.bind_eq_bind, Option.bind_some, hnumber]
  rw [unicode?, hunit]
  simp only [Option.bind_eq_bind, Option.bind_some]
  rw [if_pos (by omega), Char.ofNat_toNat]

/-- A character stands after a backslash by a letter or by its number, or stands for itself. -/
theorem escape_cases (c : Char) :
    (∃ e, escape c = ['\\', e] ∧ escaped? e = some c) ∨
    (c.toNat < 0x20 ∧ escape c =
      ['\\', 'u', '0', '0', hexDigit (c.toNat / 16), hexDigit (c.toNat % 16)]) ∨
    (escape c = [c] ∧ c ≠ '"' ∧ c ≠ '\\' ∧ ¬c.toNat < 0x20) := by
  unfold escape
  split
  case h_8 hquote hbackslash _ _ _ _ _ =>
    by_cases h : c.toNat < 0x20
    · exact .inr (.inl ⟨h, if_pos h⟩)
    · exact .inr (.inr ⟨if_neg h, hquote, hbackslash, h⟩)
  all_goals exact .inl ⟨_, rfl, rfl⟩

/-- **A character is read back from its escape.** -/
theorem character?_escape (c : Char) (r : List Char) :
    character? (escape c ++ r) = some (c, r) := by
  rcases escape_cases c with ⟨e, hc, he⟩ | ⟨h, hc⟩ | ⟨hc, -, hbackslash, h⟩
  · have hu : e ≠ 'u' := by
      rintro rfl
      cases he
    rw [hc]
    simp [character?, he]
  · rw [hc]
    exact unicode?_hexDigits h r
  · rw [hc]
    simp [character?, hbackslash, h]

/-- No escape starts with a quote. -/
theorem escape_eq_cons (c : Char) : ∃ e es, escape c = e :: es ∧ e ≠ '"' := by
  rcases escape_cases c with ⟨e, hc, -⟩ | ⟨-, hc⟩ | ⟨hc, hquote, -⟩
  · exact ⟨_, _, hc, by decide⟩
  · exact ⟨_, _, hc, by decide⟩
  · exact ⟨_, _, hc, hquote⟩

theorem length_le_flatMap_escape (cs : List Char) : cs.length ≤ (cs.flatMap escape).length := by
  induction cs with
  | nil => exact Nat.zero_le _
  | cons c cs ih =>
    obtain ⟨e, es, he, -⟩ := escape_eq_cons c
    simp only [List.flatMap_cons, he, List.length_append, List.length_cons]
    omega

/-- The characters of a string are read back, up to the closing quote. -/
theorem characters?_flatMap_escape (cs r : List Char) {fuel : ℕ} (h : cs.length ≤ fuel) :
    characters? fuel (cs.flatMap escape ++ '"' :: r) = some (cs, r) := by
  induction cs generalizing fuel with
  | nil => unfold characters?; simp
  | cons c cs ih =>
    obtain ⟨fuel, rfl⟩ : ∃ n, fuel = n + 1 := ⟨fuel - 1, by simp at h; omega⟩
    obtain ⟨e, es, he, hne⟩ := escape_eq_cons c
    have hc := character?_escape c (cs.flatMap escape ++ '"' :: r)
    rw [List.flatMap_cons, List.append_assoc]
    rw [he, List.cons_append] at hc ⊢
    simp only [characters?, if_neg hne, hc, Option.bind_eq_bind, Option.bind_some,
      ih (Nat.le_of_succ_le_succ h)]

/-- A string is read back from its text. -/
theorem string?_quote (s : String) (r : List Char) :
    string? ((quote s).tail ++ r) = some (s, r) := by
  have htail : (quote s).tail ++ r = s.toList.flatMap escape ++ '"' :: r := by simp [quote]
  have hfuel : s.toList.length ≤ (s.toList.flatMap escape ++ '"' :: r).length := by
    have := length_le_flatMap_escape s.toList
    rw [List.length_append]
    omega
  rw [htail, string?, characters?_flatMap_escape _ _ hfuel]
  simp

/-! ## Numbers -/

theorem toList_toString_ofNat (n : ℕ) :
    (toString (Int.ofNat n)).toList = Nat.toDigits 10 n := by
  rw [show toString (Int.ofNat n) = toString n from rfl, Nat.toString_eq_ofList_toDigits,
    String.toList_ofList]

theorem toList_toString_negSucc (n : ℕ) :
    (toString (Int.negSucc n)).toList = '-' :: Nat.toDigits 10 (n + 1) := by
  rw [show toString (Int.negSucc n) = "-" ++ toString (n + 1) from rfl, String.toList_append,
    show "-".toList = ['-'] from rfl, Nat.toString_eq_ofList_toDigits, String.toList_ofList]
  rfl

/-- The digits of a positive number start with a digit that is not zero. -/
theorem toDigits_eq_cons {n : ℕ} (hn : 0 < n) :
    ∃ d ds, Nat.toDigits 10 n = d :: ds ∧ d ≠ '0' ∧ d ≠ '-' := by
  have hdigit : ∀ n < 10, 0 < n → n.digitChar ≠ '0' ∧ n.digitChar ≠ '-' := by decide
  induction n using Nat.strongRecOn with
  | ind n ih =>
    rcases Nat.lt_or_ge n 10 with hlt | hge
    · exact ⟨n.digitChar, [], Nat.toDigits_of_lt_base hlt, hdigit n hlt hn⟩
    · obtain ⟨d, ds, hd, hzero⟩ := ih (n / 10) (by omega) (by omega)
      refine ⟨d, ds ++ [(n % 10).digitChar], ?_, hzero⟩
      rw [Nat.toDigits_of_base_le (by decide) hge, hd, List.cons_append]

/-- No integer is written with a zero in front of other digits. -/
theorem hasLeadingZero_toString (n : ℤ) (hr : ∀ c ∈ r.head?, c.isDigit = false) :
    hasLeadingZero ((toString n).toList ++ r) = false := by
  rcases n with (_ | n) | n
  · cases r with
    | nil => rfl
    | cons c r => exact hr c rfl
  · obtain ⟨d, ds, hd, hzero, hminus⟩ := toDigits_eq_cons n.succ_pos
    rw [toList_toString_ofNat, hd]
    simp [hasLeadingZero, hzero, hminus]
  · obtain ⟨d, ds, hd, hzero, -⟩ := toDigits_eq_cons n.succ_pos
    rw [toList_toString_negSucc, hd]
    simp [hasLeadingZero, hzero]

/-- An integer is read back from its text. -/
theorem number?_toString (n : ℤ) (hr : Ends r) :
    number? ((toString n).toList ++ r) = some (n, r) := by
  have hdigit : ∀ c ∈ r.head?, c.isDigit = false := fun c hc => (hr.not_number hc).1
  have hend : r.head? ∉ [some '.', some 'e', some 'E'] := by
    intro hmem
    rcases hc : r.head? with _ | c
    · simp [hc] at hmem
    · obtain ⟨-, hdot, he, hE⟩ := hr.not_number hc
      simp [hc, hdot, he, hE] at hmem
  rw [number?, Text.integer?_toString n hdigit]
  simp only [Option.bind_eq_bind, Option.bind_some]
  rw [if_neg]
  rintro (hzero | hmem)
  · rw [hasLeadingZero_toString n hdigit] at hzero
    cases hzero
  · exact hend hmem

/-! ## Items between commas -/

section

variable {α : Type} {item? : List Char → Option (α × List Char)} {close : Char}
  {text : α → List Char}

/-- The texts of some items with commas between them. -/
def separated (text : α → List Char) (x : α) (xs : List α) : List Char :=
  text x ++ xs.flatMap fun y => ',' :: text y

theorem separated_cons_append (x y : α) (ys : List α) (r : List Char) :
    separated text x (y :: ys) ++ r = text x ++ ',' :: (separated text y ys ++ r) := by
  simp [separated]

theorem length_le_separated (x : α) (xs : List α) : xs.length ≤ (separated text x xs).length := by
  induction xs with
  | nil => exact Nat.zero_le _
  | cons y ys ih =>
    simp only [separated, List.flatMap_cons, List.length_append, List.length_cons] at ih ⊢
    omega

theorem length_text_le_separated {x y : α} {xs : List α} (hy : y ∈ x :: xs) :
    (text y).length ≤ (separated text x xs).length := by
  rcases List.mem_cons.1 hy with rfl | hy
  · simp [separated]
  · have hinfix : text y <:+: xs.flatMap fun y => ',' :: text y := by
      obtain ⟨us, vs, rfl⟩ := List.append_of_mem hy
      exact ⟨us.flatMap (fun y => ',' :: text y) ++ [','], vs.flatMap fun y => ',' :: text y,
        by simp⟩
    have := hinfix.length_le
    rw [separated, List.length_append]
    omega

/-- **Listed items are read back** if each of them is, whatever stands after it. -/
theorem listed?_separated (hclose : close = ']' ∨ close = '\x7d')
    (ha : Spaces a) (x : α) (xs : List α)
    (hitem : ∀ y ∈ x :: xs, ∀ r, Ends r → item? (text y ++ r) = some (y, r)) {fuel : ℕ}
    (hfuel : xs.length < fuel) :
    listed? item? close fuel (separated text x xs ++ (a ++ close :: r)) = some (x :: xs, r) := by
  induction xs generalizing x fuel with
  | nil =>
    obtain ⟨fuel, rfl⟩ : ∃ n, fuel = n + 1 := ⟨fuel - 1, by omega⟩
    have hspace : isSpace close = false := by rcases hclose with rfl | rfl <;> decide
    have hx := hitem x (by simp) (a ++ close :: r) (.append ha (ends_cons (.inr hclose) r))
    rw [separated, List.flatMap_nil, List.append_nil, listed?, hx]
    simp only [Option.bind_eq_bind, Option.bind_some, skipSpaces_append_cons ha hspace, if_true]
  | cons y ys ih =>
    obtain ⟨fuel, rfl⟩ : ∃ n, fuel = n + 1 := ⟨fuel - 1, by omega⟩
    have hcomma : ',' ≠ close := by rcases hclose with rfl | rfl <;> decide
    have hys := ih y (fun z hz => hitem z (by simp [hz])) (Nat.lt_of_succ_lt_succ hfuel)
    rw [separated_cons_append, listed?, hitem x (by simp) _ (ends_cons (.inl rfl) _)]
    simp only [Option.bind_eq_bind, Option.bind_some, skipSpaces_cons (c := ',') (by decide),
      if_neg hcomma, if_true, hys]

/-- Items are read back after an opening bracket too, if the first one does not look like the
closing bracket. -/
theorem bracketed?_separated (hclose : close = ']' ∨ close = '\x7d')
    (ha : Spaces a) (x : α) (xs : List α)
    (hitem : ∀ y ∈ x :: xs, ∀ r, Ends r → item? (text y ++ r) = some (y, r))
    (hhead : ∀ r, ∃ c s, skipSpaces (text x ++ r) = c :: s ∧ c ≠ close) {fuel : ℕ}
    (hfuel : xs.length < fuel) :
    bracketed? item? close fuel (separated text x xs ++ (a ++ close :: r)) = some (x :: xs, r) := by
  obtain ⟨c, s, hs, hc⟩ := hhead (xs.flatMap (fun y => ',' :: text y) ++ (a ++ close :: r))
  rw [bracketed?, separated, List.append_assoc, hs]
  simp only [if_neg hc]
  rw [← List.append_assoc]
  exact listed?_separated hclose ha x xs hitem hfuel

end

/-! ## Values -/

/-- A layout that breaks lines with spaces and writes no more than spaces around a colon. -/
structure Layout.Spaced (l : Layout) : Prop where
  lineBreak : ∀ depth, Spaces (l.lineBreak depth)
  colon : ∃ a b, l.colon = a ++ ':' :: b ∧ Spaces a ∧ Spaces b

theorem spaced_oneLine : oneLine.Spaced := ⟨fun _ => spaces_nil, [], [], rfl, spaces_nil, spaces_nil⟩

theorem spaced_indented : indented.Spaced := by
  refine ⟨fun depth c hc => ?_, [], [' '], rfl, spaces_nil, by simp [Spaces, isSpace]⟩
  rcases List.mem_cons.1 hc with rfl | hc
  · decide
  · rw [List.eq_of_mem_replicate hc]
    decide

variable {l : Layout}

/-- An item of an array, after the line break in front of it. -/
def itemChars (l : Layout) (depth : ℕ) (v : Json) : List Char :=
  l.lineBreak depth ++ chars l depth v

/-- A member of an object, after the line break in front of it. -/
def memberChars (l : Layout) (depth : ℕ) (m : String × Json) : List Char :=
  l.lineBreak depth ++ quote m.1 ++ l.colon ++ chars l depth m.2

theorem chars_array (l : Layout) (depth : ℕ) (v : Json) (vs : List Json) :
    chars l depth (.array (v :: vs)) =
      '[' :: (separated (itemChars l (depth + 1)) v vs ++ (l.lineBreak depth ++ [']'])) := by
  have hafter : itemsAfter l depth vs =
      vs.flatMap (fun u => ',' :: itemChars l (depth + 1) u) ++ (l.lineBreak depth ++ [']']) := by
    induction vs with
    | nil => rw [itemsAfter, List.flatMap_nil, List.nil_append]
    | cons u us ih => simp [itemsAfter, itemChars, ih]
  simp [chars, hafter, separated, itemChars]

theorem chars_object (l : Layout) (depth : ℕ) (m : String × Json) (ms : List (String × Json)) :
    chars l depth (.object (m :: ms)) =
      '\x7b' :: (separated (memberChars l (depth + 1)) m ms ++ (l.lineBreak depth ++ ['\x7d'])) := by
  have hafter : membersAfter l depth ms =
      ms.flatMap (fun m => ',' :: memberChars l (depth + 1) m) ++
        (l.lineBreak depth ++ ['\x7d']) := by
    induction ms with
    | nil => rw [membersAfter, List.flatMap_nil, List.nil_append]
    | cons m ms ih => simp [membersAfter, memberChars, ih]
  simp [chars, hafter, separated, memberChars]

theorem value?_append (ha : Spaces a) (fuel : ℕ) (s : List Char) :
    value? fuel (a ++ s) = value? fuel s := by
  cases fuel with
  | zero => rfl
  | succ fuel => rw [value?, value?, skipSpaces_append ha]

theorem isSpace_eq_false_of_number {c : Char} (hc : c = '-' ∨ c.isDigit = true) :
    isSpace c = false := by
  by_contra h
  simp only [isSpace, Bool.not_eq_false, Bool.or_eq_true, decide_eq_true_eq] at h
  rcases h with ((rfl | rfl) | rfl) | rfl <;> revert hc <;> decide

/-- What starts no word, no string and no bracket is read as a number. -/
theorem value?_of_number {c : Char} (hc : c = '-' ∨ c.isDigit = true) (fuel : ℕ) (s : List Char) :
    value? (fuel + 1) (c :: s) = (number? (c :: s)).map fun p => (.number p.1, p.2) := by
  rw [value?, skipSpaces_cons (isSpace_eq_false_of_number hc)]
  split
  case h_7 => rfl
  all_goals
    rename_i heq
    obtain ⟨rfl, -⟩ := List.cons.inj heq
    exact absurd hc (by decide)

theorem toString_eq_cons (n : ℤ) :
    ∃ c cs, (toString n).toList = c :: cs ∧ (c = '-' ∨ c.isDigit = true) := by
  rcases n with n | n
  · obtain ⟨c, cs, hc⟩ := List.exists_cons_of_ne_nil (Nat.toDigits_ne_nil (b := 10) (n := n))
    refine ⟨c, cs, (toList_toString_ofNat n).trans hc, .inr ?_⟩
    exact Nat.isDigit_of_mem_toDigits (b := 10) (n := n) (by decide) (by decide) (by simp [hc])
  · exact ⟨_, _, toList_toString_negSucc n, .inl rfl⟩

/-- The text of a value starts with no space and no closing bracket. -/
theorem chars_eq_cons (l : Layout) (depth : ℕ) (v : Json) :
    ∃ c s, chars l depth v = c :: s ∧ isSpace c = false ∧ c ≠ ']' := by
  match v with
  | .null => exact ⟨_, _, rfl, by decide, by decide⟩
  | .bool true => exact ⟨_, _, rfl, by decide, by decide⟩
  | .bool false => exact ⟨_, _, rfl, by decide, by decide⟩
  | .number n =>
    obtain ⟨c, s, hs, hc⟩ := toString_eq_cons n
    refine ⟨c, s, by rw [chars, hs], isSpace_eq_false_of_number hc, ?_⟩
    rintro rfl
    exact absurd hc (by decide)
  | .string s => exact ⟨_, _, by rw [chars, quote], by decide, by decide⟩
  | .array [] => exact ⟨_, _, rfl, by decide, by decide⟩
  | .object [] => exact ⟨_, _, rfl, by decide, by decide⟩
  | .array (v :: vs) => exact ⟨_, _, chars_array l depth v vs, by decide, by decide⟩
  | .object (m :: ms) => exact ⟨_, _, chars_object l depth m ms, by decide, by decide⟩

/-- A member starts with the quote of its key. -/
theorem skipSpaces_memberChars (hl : l.Spaced) (depth : ℕ) (m : String × Json) (r : List Char) :
    skipSpaces (memberChars l depth m ++ r) =
      '"' :: ((quote m.1).tail ++ (l.colon ++ (chars l depth m.2 ++ r))) := by
  have htext : memberChars l depth m ++ r =
      l.lineBreak depth ++ '"' :: ((quote m.1).tail ++ (l.colon ++ (chars l depth m.2 ++ r))) := by
    simp [memberChars, quote]
  rw [htext, skipSpaces_append_cons (hl.lineBreak depth) (by decide)]

/-- A member is read back if its value is. -/
theorem member?_memberChars (hl : l.Spaced) {fuel depth : ℕ} (m : String × Json)
    (hm : value? fuel (chars l depth m.2 ++ r) = some (m.2, r)) :
    member? (value? fuel) (memberChars l depth m ++ r) = some (m, r) := by
  obtain ⟨a, b, hcolon, ha, hb⟩ := hl.colon
  rw [member?, skipSpaces_memberChars hl]
  simp only [string?_quote, Option.bind_eq_bind, Option.bind_some, hcolon, List.append_assoc,
    List.cons_append, skipSpaces_append_cons ha (c := ':') (by decide), value?_append hb, hm]

theorem length_le_of_array {depth fuel : ℕ} {v w : Json} {vs : List Json} (hw : w ∈ v :: vs)
    (hfuel : (chars l depth (.array (v :: vs))).length ≤ fuel + 1) :
    (chars l (depth + 1) w).length ≤ fuel ∧ vs.length < fuel := by
  have hitem : (itemChars l (depth + 1) w).length ≤
      (separated (itemChars l (depth + 1)) v vs).length := length_text_le_separated hw
  have hitems : vs.length ≤ (separated (itemChars l (depth + 1)) v vs).length :=
    length_le_separated v vs
  rw [chars_array] at hfuel
  simp only [itemChars, List.length_append, List.length_cons, List.length_nil] at hfuel hitem
  omega

theorem length_le_of_object {depth fuel : ℕ} {m w : String × Json} {ms : List (String × Json)}
    (hw : w ∈ m :: ms) (hfuel : (chars l depth (.object (m :: ms))).length ≤ fuel + 1) :
    (chars l (depth + 1) w.2).length ≤ fuel ∧ ms.length < fuel := by
  have hitem : (memberChars l (depth + 1) w).length ≤
      (separated (memberChars l (depth + 1)) m ms).length := length_text_le_separated hw
  have hitems : ms.length ≤ (separated (memberChars l (depth + 1)) m ms).length :=
    length_le_separated m ms
  rw [chars_object] at hfuel
  simp only [memberChars, List.length_append, List.length_cons, List.length_nil] at hfuel hitem
  omega

/-- An array is read back if its items are. -/
theorem value?_array (hl : l.Spaced) {depth fuel : ℕ} {v : Json} {vs : List Json}
    (hvs : ∀ w ∈ v :: vs, ∀ r, Ends r → value? fuel (chars l (depth + 1) w ++ r) = some (w, r))
    (hfuel : vs.length < fuel) (r : List Char) :
    value? (fuel + 1) (chars l depth (.array (v :: vs)) ++ r) = some (.array (v :: vs), r) := by
  have hitem : ∀ w ∈ v :: vs, ∀ r, Ends r →
      value? fuel (itemChars l (depth + 1) w ++ r) = some (w, r) := by
    intro w hw r hr
    rw [itemChars, List.append_assoc, value?_append (hl.lineBreak _)]
    exact hvs w hw r hr
  have hhead : ∀ r, ∃ c s, skipSpaces (itemChars l (depth + 1) v ++ r) = c :: s ∧ c ≠ ']' := by
    intro r
    obtain ⟨c, s, hs, hspace, hc⟩ := chars_eq_cons l (depth + 1) v
    refine ⟨c, s ++ r, ?_, hc⟩
    rw [itemChars, hs, List.append_assoc, List.cons_append,
      skipSpaces_append_cons (hl.lineBreak _) hspace]
  have hitems := bracketed?_separated (r := r) (.inl rfl) (hl.lineBreak depth) v vs hitem hhead hfuel
  rw [chars_array, value?, List.cons_append, skipSpaces_cons (by decide)]
  simp only [List.append_assoc, List.singleton_append, hitems, Option.map_some]

/-- An object is read back if the values of its members are. -/
theorem value?_object (hl : l.Spaced) {depth fuel : ℕ} {m : String × Json} {ms : List (String × Json)}
    (hms : ∀ w ∈ m :: ms, ∀ r, Ends r → value? fuel (chars l (depth + 1) w.2 ++ r) = some (w.2, r))
    (hfuel : ms.length < fuel) (r : List Char) :
    value? (fuel + 1) (chars l depth (.object (m :: ms)) ++ r) = some (.object (m :: ms), r) := by
  have hmember : ∀ w ∈ m :: ms, ∀ r, Ends r →
      member? (value? fuel) (memberChars l (depth + 1) w ++ r) = some (w, r) :=
    fun w hw r hr => member?_memberChars hl w (hms w hw r hr)
  have hhead : ∀ r, ∃ c s, skipSpaces (memberChars l (depth + 1) m ++ r) = c :: s ∧ c ≠ '\x7d' :=
    fun r => ⟨_, _, skipSpaces_memberChars hl (depth + 1) m r, by decide⟩
  have hmembers := bracketed?_separated (r := r) (.inr rfl) (hl.lineBreak depth) m ms hmember hhead hfuel
  rw [chars_object, value?, List.cons_append, skipSpaces_cons (by decide)]
  simp only [List.append_assoc, List.singleton_append, hmembers, Option.map_some]

/-- **A value is read back from its text**, whatever stands after it. -/
theorem value?_chars (hl : l.Spaced) (v : Json) (depth : ℕ) {fuel : ℕ}
    (hfuel : (chars l depth v).length ≤ fuel) {r : List Char} (hr : Ends r) :
    value? fuel (chars l depth v ++ r) = some (v, r) := by
  obtain ⟨fuel, rfl⟩ : ∃ n, fuel = n + 1 := by
    obtain ⟨c, s, hs, -⟩ := chars_eq_cons l depth v
    refine ⟨fuel - 1, ?_⟩
    rw [hs, List.length_cons] at hfuel
    omega
  -- what stands in brackets is shorter by the brackets, so the smaller bound is enough for it
  match v with
  | .null => rfl
  | .bool true => rfl
  | .bool false => rfl
  | .number n =>
    obtain ⟨c, s, hs, hc⟩ := toString_eq_cons n
    have hn := number?_toString n hr
    rw [chars, hs, List.cons_append] at *
    rw [value?_of_number hc, hn]
    rfl
  | .string s =>
    have htext : chars l depth (.string s) ++ r = '"' :: ((quote s).tail ++ r) := by
      rw [chars]
      rfl
    rw [htext, value?, skipSpaces_cons (by decide)]
    simp only [string?_quote, Option.map_some]
  | .array [] => rfl
  | .object [] => rfl
  | .array (v :: vs) =>
    refine value?_array hl (fun w hw r hr => ?_) (length_le_of_array (List.mem_cons_self ..) hfuel).2 r
    exact value?_chars hl w (depth + 1) (length_le_of_array hw hfuel).1 hr
  | .object (m :: ms) =>
    refine value?_object hl ?_ (length_le_of_object (List.mem_cons_self ..) hfuel).2 r
    rintro ⟨k, w⟩ hw r hr
    have hsize : sizeOf w < sizeOf (m :: ms) := by
      have hmember := List.sizeOf_lt_of_mem hw
      rw [Prod.mk.sizeOf_spec] at hmember
      omega
    exact value?_chars hl w (depth + 1) (length_le_of_object hw hfuel).1 hr

/-- A whole text is read back, in every layout that breaks lines with spaces. -/
theorem read?_ofList_chars (hl : l.Spaced) (v : Json) (depth : ℕ) :
    read? (String.ofList (chars l depth v)) = some v := by
  have hv := value?_chars hl v depth le_rfl (r := []) (by simp [Ends])
  rw [List.append_nil] at hv
  rw [read?, String.toList_ofList, hv]
  rfl

theorem read?_compact (v : Json) : read? v.compact = some v := read?_ofList_chars spaced_oneLine v 0

theorem read?_pretty (v : Json) : read? v.pretty = some v := read?_ofList_chars spaced_indented v 0

/-- Other writers may put spaces between the tokens and write a character as a pair of surrogates. -/
example : (read? "[ -7,\n\"\\u00E9\\ud83d\\ude00\" ]").map compact = some "[-7,\"é😀\"]" := by
  decide +kernel

/-- A surrogate on its own, a line break in a string, a leading zero, a comma at the end and a second
value are refused. -/
example : ["\"\\ud83d\"", "\"\n\"", "[01]", "[1,]", "null 1"].map (fun s => (read? s).isSome) =
    List.replicate 5 false := by
  decide +kernel

end Schematic.Json
