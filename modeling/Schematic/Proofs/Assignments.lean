import Mathlib
import Schematic.Assignment
import Schematic.Proofs.Fields

/-!
# What an assignment can drive

An assignment is cut at its first `=`, so it reaches every id that holds none. The ids of a script hold no
blanks, which is why trimming never stands in the way, but nothing keeps an `=` out of them.

* `SameLetter`: characters that differ in the case of an ASCII letter at most.
* `Assignment.Written`: the texts that give a level to an id.
* `Assignment.read_eq_ok_iff`: **an assignment is read off exactly the texts that give it**;
  `Assignment.read_of_not_written`: every other text is refused, and handed back.
* `Assignment.exists_written_iff`: which assignments can be written at all.
* `Script.assignable_inputs`: **which inputs of a script can be driven.**
-/

namespace Schematic

/-! ## Words for a level -/

/-- Equal, or the two cases of one ASCII letter. -/
def SameLetter (c d : Char) : Prop :=
  c = d ∨ (c.isUpper ∧ d.toNat = c.toNat + 32) ∨ (d.isUpper ∧ c.toNat = d.toNat + 32)

theorem toNat_toLower {c : Char} (h : c.isUpper = true) : c.toLower.toNat = c.toNat + 32 := by
  have hrange : c.toNat ≤ 90 := by
    simp only [Char.isUpper, Bool.decide_and, Bool.and_eq_true, decide_eq_true_eq] at h
    exact h.2
  have hvalid : (c.toNat + 32).isValidChar := Or.inl (by omega)
  rw [Char.toLower_eq_of_isUpper h, Char.toNat_ofNat, if_pos hvalid]

/-- A character in lower case is another one if they are the same up to the case, and that one is no
capital. -/
theorem toLower_eq_iff {c d : Char} (hd : d.isUpper = false) : c.toLower = d ↔ SameLetter c d := by
  rw [SameLetter, hd]
  cases hc : c.isUpper with
  | true =>
    have hne : c ≠ d := by
      rintro rfl
      rw [hc] at hd
      cases hd
    have hlower := toNat_toLower hc
    constructor
    · rintro rfl
      exact Or.inr (Or.inl ⟨rfl, hlower⟩)
    · intro h
      have hd : d.toNat = c.toNat + 32 := by simpa [hne] using h
      exact Char.toNat_inj.1 (hlower.trans hd.symm)
  | false =>
    rw [Char.toLower_eq_of_not_isUpper (by simp [hc])]
    simp

/-- The words for a level. -/
def levelWords : Bool → List String
  | true => ["1", "true", "on", "high"]
  | false => ["0", "false", "off", "low"]

theorem level?_eq_some_iff {w : String} {v : Bool} : level? w = some v ↔ w ∈ levelWords v := by
  have hhigh : highWords.contains w = true ↔ w ∈ levelWords true := List.contains_iff_mem
  have hlow : lowWords.contains w = true ↔ w ∈ levelWords false := List.contains_iff_mem
  -- no word stands for both levels
  have hapart : w ∈ levelWords false → w ∉ levelWords true := by
    have hall : ∀ w ∈ levelWords false, w ∉ levelWords true := by decide
    exact hall w
  simp only [level?, hhigh, hlow]
  cases v with
  | true => by_cases h : w ∈ levelWords true <;> simp [h]
  | false => by_cases h : w ∈ levelWords false <;> simp [h, hapart]

/-- A word for a level, whatever the case of its letters. -/
def IsLevelWord (w : List Char) (v : Bool) : Prop :=
  ∃ word ∈ levelWords v, List.Forall₂ SameLetter w word.toList

theorem map_toLower_eq_iff {s w : List Char} (hw : ∀ d ∈ w, d.isUpper = false) :
    s.map Char.toLower = w ↔ List.Forall₂ SameLetter s w := by
  induction s generalizing w with
  | nil => cases w <;> simp
  | cons c s ih =>
    cases w with
    | nil => simp
    | cons d w =>
      have hd : d.isUpper = false := hw d List.mem_cons_self
      have hrest := ih fun x hx => hw x (List.mem_cons_of_mem d hx)
      rw [List.map_cons, List.cons.injEq, List.forall₂_cons, toLower_eq_iff hd, hrest]

/-- What a word stands for is looked up in lower case. -/
theorem level?_map_toLower_eq_some_iff {w : List Char} {v : Bool} :
    level? (String.ofList (w.map Char.toLower)) = some v ↔ IsLevelWord w v := by
  have hall : ∀ v, ((levelWords v).all fun word => word.toList.all fun d => !d.isUpper) = true := by
    decide
  have hlower : ∀ v, ∀ word ∈ levelWords v, ∀ d ∈ word.toList, d.isUpper = false := by
    simpa only [List.all_eq_true, Bool.not_eq_true'] using hall
  rw [level?_eq_some_iff, IsLevelWord]
  constructor
  · intro h
    refine ⟨_, h, ?_⟩
    rw [← map_toLower_eq_iff (hlower v _ h), String.toList_ofList]
  · rintro ⟨word, hword, h⟩
    rw [(map_toLower_eq_iff (hlower v word hword)).2 h, String.ofList_toList]
    exact hword

/-! ## Assignments -/

namespace Assignment

/-- A text gives a level to an id: before its first `=` stands the id, and after it a word for the level.
The blanks around either do not count. -/
def Written (text : String) (a : Assignment) : Prop :=
  ∃ left right, text.toList = left ++ '=' :: right ∧ '=' ∉ left ∧ Text.trim left ≠ [] ∧
    a.id.toList = Text.trim left ∧ IsLevelWord (Text.trim right) a.level

variable {text : String} {a : Assignment} {left right : List Char}

/-- A text without an `=` is refused. -/
theorem read_of_not_mem (h : '=' ∉ text.toList) : read text = .error ⟨text, .noEqualsSign⟩ := by
  have hcut : Text.cut ['='] text.toList = none := by
    rw [Text.cut_eq_none_iff (by decide), List.singleton_infix_iff]
    exact h
  rw [read, hcut]

theorem read_of_empty (h : text.toList = left ++ '=' :: right) (hl : '=' ∉ left)
    (hid : Text.trim left = []) : read text = .error ⟨text, .emptyId⟩ := by
  rw [read, h, Text.cut_char hl]
  simp only [hid]

/-- A text with an id is decided by the word after the `=`. -/
theorem read_of_id (h : text.toList = left ++ '=' :: right) (hl : '=' ∉ left) (hid : Text.trim left ≠ []) :
    read text = match level? (String.ofList ((Text.trim right).map Char.toLower)) with
      | some v => .ok ⟨String.ofList (Text.trim left), v⟩
      | none => .error ⟨text, .notALevel (String.ofList ((Text.trim right).map Char.toLower))⟩ := by
  rw [read, h, Text.cut_char hl]
  cases hc : Text.trim left with
  | nil => exact absurd hc hid
  | cons c r =>
    cases hlevel : level? (String.ofList ((Text.trim right).map Char.toLower)) with
    | none => simp only [hc, hlevel]
    | some v => simp only [hc, hlevel]

/-- A text is cut at its first `=`, if it has one. -/
theorem exists_first_equals (h : '=' ∈ text.toList) :
    ∃ left right, text.toList = left ++ '=' :: right ∧ '=' ∉ left := by
  cases hcut : Text.cut ['='] text.toList with
  | none => exact absurd h (Text.not_mem_of_cut_none hcut)
  | some parts =>
    refine ⟨parts.1, parts.2, ?_, Text.not_mem_of_cut hcut⟩
    rw [← Text.cut_append hcut, List.append_assoc, List.singleton_append]

theorem Written.read_eq (h : Written text a) : read text = .ok a := by
  obtain ⟨left, right, htext, hl, hne, hid, hword⟩ := h
  rw [read_of_id htext hl hne, level?_map_toLower_eq_some_iff.2 hword, ← hid, String.ofList_toList]

/-- **A text that gives no level to an id is refused, and handed back with the fault.** -/
theorem read_of_not_written (h : ∀ a, ¬Written text a) : ∃ fault, read text = .error ⟨text, fault⟩ := by
  by_cases hmem : '=' ∈ text.toList
  · obtain ⟨left, right, htext, hl⟩ := exists_first_equals hmem
    by_cases hid : Text.trim left = []
    · exact ⟨_, read_of_empty htext hl hid⟩
    · rw [read_of_id htext hl hid]
      cases hlevel : level? (String.ofList ((Text.trim right).map Char.toLower)) with
      | none => exact ⟨_, rfl⟩
      | some v =>
        have hword : IsLevelWord (Text.trim right) v := level?_map_toLower_eq_some_iff.1 hlevel
        refine absurd ⟨left, right, htext, hl, hid, ?_, hword⟩ (h ⟨String.ofList (Text.trim left), v⟩)
        rw [String.toList_ofList]
  · exact ⟨_, read_of_not_mem hmem⟩

/-- **An assignment is read off exactly the texts that give it.** -/
theorem read_eq_ok_iff : read text = .ok a ↔ Written text a := by
  constructor
  · intro h
    by_contra hno
    -- a text that gives another assignment would be read as that one
    have hnone : ∀ b, ¬Written text b := by
      intro b hb
      have hab : a = b := Except.ok.inj (h.symm.trans hb.read_eq)
      exact hno (hab ▸ hb)
    obtain ⟨fault, hfault⟩ := read_of_not_written hnone
    rw [h] at hfault
    cases hfault
  · exact Written.read_eq

/-- An assignment can be written if its id is not empty, has no blanks at its ends and holds no `=`. -/
theorem exists_written_iff : (∃ text, Written text a) ↔
    a.id.toList ≠ [] ∧ Text.Trimmed a.id.toList ∧ '=' ∉ a.id.toList := by
  constructor
  · rintro ⟨text, left, right, -, hl, hne, hid, -⟩
    rw [hid]
    refine ⟨hne, Text.trimmed_trim left, fun hmem => hl ?_⟩
    exact (Text.trim_isInfix left).subset hmem
  · rintro ⟨hne, htrimmed, hequals⟩
    obtain ⟨word, hword, hself⟩ : ∃ word ∈ levelWords a.level, Text.trim word.toList = word.toList := by
      cases a.level with
      | true => exact ⟨"1", by decide, by decide⟩
      | false => exact ⟨"0", by decide, by decide⟩
    have htrim : Text.trim a.id.toList = a.id.toList := Text.trim_eq_self htrimmed
    refine ⟨a.id ++ "=" ++ word, a.id.toList, word.toList, ?_, hequals, ?_, htrim.symm, word, hword, ?_⟩
    · simp
    · rwa [htrim]
    · rw [hself]
      exact List.forall₂_same.2 fun c _ => Or.inl rfl

end Assignment

/-- **Which inputs of a script can be driven.** An input can be given each of the two levels exactly if its
id holds no `=`. A text gives a level to an id exactly if the id, not empty, stands trimmed before the first
`=` of the text and one of the eight words, in any case of ASCII letters, stands trimmed after it; any other
text is refused, and handed back with the fault. -/
theorem Script.assignable_inputs :
    (∀ script, ∀ n ∈ (parse script).circuit.nodes, n.type = "In" → ∀ v,
      (∃ text, Assignment.read text = .ok ⟨n.id, v⟩) ↔ '=' ∉ n.id.toList) ∧
    (∀ text id v, Assignment.read text = .ok ⟨id, v⟩ ↔ Assignment.Written text ⟨id, v⟩) ∧
    (∀ text, (∀ id v, ¬Assignment.Written text ⟨id, v⟩) →
      ∃ fault, Assignment.read text = .error ⟨text, fault⟩) := by
  refine ⟨fun script n hn _ v => ?_, fun text id v => Assignment.read_eq_ok_iff, fun text hnone => ?_⟩
  · have hword : Text.IsWord n.id.toList := (valid_of_mem_nodes hn).id_word
    simp only [Assignment.read_eq_ok_iff, Assignment.exists_written_iff]
    exact ⟨fun h => h.2.2, fun h => ⟨hword.ne_nil, hword.trimmed, h⟩⟩
  · exact Assignment.read_of_not_written fun a => hnone a.id a.level

/-- Two inputs with an `=` in their ids, and one without. -/
def Script.equated : String := "In A=1 @ 0, 0\nIn =B @ 0, 0\nIn É.Ü @ 0, 0"

/-- The first two cannot be driven, and the last one can, but not by a capital that is not ASCII. -/
theorem Script.equated_inputs :
    (¬∃ text, Assignment.read text = .ok ⟨"A=1", true⟩) ∧
    (¬∃ text, Assignment.read text = .ok ⟨"=B", false⟩) ∧
    (∃ text, Assignment.read text = .ok ⟨"É.Ü", true⟩) ∧
    ∃ fault, Assignment.read "É.Ü=HÍGH" = .error ⟨"É.Ü=HÍGH", fault⟩ := by
  obtain ⟨hinputs, -, hrefused⟩ := assignable_inputs
  have hnodes : (parse equated).circuit.nodes =
      [⟨"A=1", "In", 0, 0, []⟩, ⟨"=B", "In", 0, 0, []⟩, ⟨"É.Ü", "In", 0, 0, []⟩] := by decide +kernel
  have hinputs := hinputs equated
  rw [hnodes] at hinputs
  refine ⟨?_, ?_, ?_, ?_⟩
  · rw [hinputs ⟨"A=1", "In", 0, 0, []⟩ (by decide) rfl true]
    decide
  · rw [hinputs ⟨"=B", "In", 0, 0, []⟩ (by decide) rfl false]
    decide
  · rw [hinputs ⟨"É.Ü", "In", 0, 0, []⟩ (by decide) rfl true]
    decide
  · refine hrefused "É.Ü=HÍGH" fun id v hwritten => ?_
    have hread : Assignment.read "É.Ü=HÍGH" = .error ⟨"É.Ü=HÍGH", .notALevel "hÍgh"⟩ := by decide +kernel
    rw [hwritten.read_eq] at hread
    cases hread

end Schematic
