/-!
# Decimal numerals

* `digits?`: the longest run of ASCII digits in front, with its value.
* `integer?`: the same with an optional minus sign.
* `integer?_toString`: **an integer is read back from its text**.
* `natural`: a whole text as a number below a limit, with the first thing that is wrong in it.
-/

namespace Schematic.Text

/-- The number written by the digits in front of a text, and the text after them. -/
def digits? (s : List Char) : Option (Nat × List Char) :=
  match s.takeWhile Char.isDigit with
  | [] => none
  | ds => some (Nat.ofDigitChars 10 ds 0, s.dropWhile Char.isDigit)

/-- As `digits?`, with an optional minus sign before the digits. -/
def integer? : List Char → Option (Int × List Char)
  | '-' :: r => (digits? r).map fun p => (-(p.1 : Int), p.2)
  | s => (digits? s).map fun p => ((p.1 : Int), p.2)

/-- Why a text is no number. -/
inductive NumeralError where
  | empty
  | invalidDigit
  | tooLarge
  deriving DecidableEq

def NumeralError.message : NumeralError → String
  | .empty => "cannot parse integer from empty string"
  | .invalidDigit => "invalid digit found in string"
  | .tooLarge => "number too large to fit in target type"

/-- Reads digits after those that make up `n`; of several faults the leftmost is reported. -/
def naturalFrom (limit : Nat) : Nat → List Char → Except NumeralError Nat
  | n, [] => .ok n
  | n, c :: r =>
    if c.isDigit then
      let m := 10 * n + (c.toNat - '0'.toNat)
      if m < limit then naturalFrom limit m r else .error .tooLarge
    else .error .invalidDigit

/-- A number below `limit`, written in digits after an optional plus sign. -/
def natural (limit : Nat) : List Char → Except NumeralError Nat
  | [] => .error .empty
  | ['+'] => .error .invalidDigit
  | '+' :: r => naturalFrom limit 0 r
  | s => naturalFrom limit 0 s

/-- A number that is read is below the limit. -/
theorem naturalFrom_lt {limit n m : Nat} {s : List Char} (hn : n < limit)
    (h : naturalFrom limit n s = .ok m) : m < limit := by
  induction s generalizing n with
  | nil => simp_all [naturalFrom]
  | cons c r ih =>
    simp only [naturalFrom] at h
    split at h
    · split at h
      · exact ih ‹_› h
      · cases h
    · cases h

theorem takeWhile_append_of_all {ds r : List Char} (hd : ∀ c ∈ ds, c.isDigit = true)
    (hr : ∀ c ∈ r.head?, c.isDigit = false) :
    (ds ++ r).takeWhile Char.isDigit = ds ∧ (ds ++ r).dropWhile Char.isDigit = r := by
  induction ds with
  | nil =>
    cases r with
    | nil => simp
    | cons c r => simp [hr c (by simp)]
  | cons c ds ih =>
    have hc := hd c (by simp)
    have := ih fun a ha => hd a (by simp [ha])
    simp [hc, this]

/-- A number is read back from its digits, up to the first character that is no digit. -/
theorem digits?_toString (n : Nat) {r : List Char} (hr : ∀ c ∈ r.head?, c.isDigit = false) :
    digits? ((toString n).toList ++ r) = some (n, r) := by
  rw [Nat.toString_eq_ofList_toDigits, String.toList_ofList, digits?]
  have hall : ∀ c ∈ Nat.toDigits 10 n, c.isDigit = true :=
    fun c hc => Nat.isDigit_of_mem_toDigits (by decide) (by decide) hc
  obtain ⟨ht, hd⟩ := takeWhile_append_of_all hall hr
  rw [ht, hd]
  split
  · rename_i h; exact absurd h Nat.toDigits_ne_nil
  · rw [Nat.ofDigitChars_ten_toDigits]

/-- The digits of a number are read as a number without sign. -/
theorem integer?_of_digit {c : Char} (hc : c ≠ '-') (r : List Char) :
    integer? (c :: r) = (digits? (c :: r)).map fun p => ((p.1 : Int), p.2) := by
  unfold integer?
  split
  · rename_i h; simp at h; exact absurd h.1 hc
  · rfl

/-- **An integer is read back from its text**, up to the first character that is no digit. -/
theorem integer?_toString (i : Int) {r : List Char} (hr : ∀ c ∈ r.head?, c.isDigit = false) :
    integer? ((toString i).toList ++ r) = some (i, r) := by
  cases i with
  | ofNat n =>
    have h := digits?_toString n hr
    rw [show toString (Int.ofNat n) = toString n from rfl]
    cases ht : (toString n).toList with
    | nil =>
      rw [Nat.toString_eq_ofList_toDigits, String.toList_ofList] at ht
      exact absurd ht Nat.toDigits_ne_nil
    | cons c cs =>
      have hc : c ≠ '-' := by
        rintro rfl
        rw [Nat.toString_eq_ofList_toDigits, String.toList_ofList] at ht
        have := Nat.isDigit_of_mem_toDigits (b := 10) (n := n) (c := '-') (by decide) (by decide)
          (by simp [ht])
        exact absurd this (by decide)
      rw [ht] at h
      rw [List.cons_append, integer?_of_digit hc, ← List.cons_append, h]
      rfl
  | negSucc n =>
    rw [show toString (Int.negSucc n) = "-" ++ toString (n + 1) from rfl, String.toList_append,
      show "-".toList = ['-'] from rfl]
    simp only [List.cons_append, List.nil_append, integer?]
    rw [digits?_toString (n + 1) hr]
    rfl

end Schematic.Text
