import Std.Data.TreeMap

/-!
# Signals

The distinct ids of the nodes are numbered; nodes declared with one id share one signal.

* `Signals.ofIds`: the numbers `0, 1, …` in order of first declaration.
* `Signals.number?`, `Signals.name?`: from id to number and back.
* `Signals.sound_ofIds`: **numbers and names are inverse to each other**.
* `Signals.isSome_number?_ofIds`: exactly the given ids have a number.
-/

namespace Schematic

/-- Distinct ids with their numbers. -/
structure Signals where
  names : Array String
  numbers : Std.TreeMap String Nat

namespace Signals

def empty : Signals := ⟨#[], ∅⟩

/-- Gives an id the next number, unless it has one. -/
def add (s : Signals) (id : String) : Signals :=
  if s.numbers.contains id then s else ⟨s.names.push id, s.numbers.insert id s.names.size⟩

/-- **The ids, numbered in order of first appearance.** -/
def ofIds (ids : List String) : Signals := ids.foldl add empty

def size (s : Signals) : Nat := s.names.size

def number? (s : Signals) (id : String) : Option Nat := s.numbers[id]?

def name? (s : Signals) (signal : Nat) : Option String := s.names[signal]?

/-- The number of a name and the name of a number are the same pairs. -/
def Sound (s : Signals) : Prop := ∀ id k, s.number? id = some k ↔ s.name? k = some id

theorem sound_empty : empty.Sound := by
  intro id k
  simp [empty, number?, name?]

theorem mem_add {s : Signals} {id id' : String} :
    id' ∈ (s.add id).numbers ↔ id = id' ∨ id' ∈ s.numbers := by
  unfold add
  split
  · rename_i h
    rw [← Std.TreeMap.mem_iff_contains] at h
    exact ⟨Or.inr, fun h' => h'.elim (fun e => e ▸ h) fun x => x⟩
  · rw [Std.TreeMap.mem_insert, Std.LawfulEqCmp.compare_eq_iff_eq]

theorem Sound.add {s : Signals} (h : s.Sound) (id : String) : (s.add id).Sound := by
  unfold Signals.add
  split
  · exact h
  · rename_i hc
    have hnone : s.numbers[id]? = none := by simpa using hc
    intro id' k
    have hk := h id' k
    simp only [number?, name?] at hk
    simp only [number?, name?, Std.TreeMap.getElem?_insert, Std.LawfulEqCmp.compare_eq_iff_eq,
      Array.getElem?_push]
    by_cases hid : id = id'
    · subst hid
      by_cases hs : k = s.names.size
      · simp [hs]
      · rw [hnone] at hk
        simp [hs, Ne.symm hs, ← hk]
    · by_cases hs : k = s.names.size
      · subst hs
        simp [hid, hk]
      · simp [hid, hs, hk]

theorem sound_foldl {s : Signals} (h : s.Sound) (ids : List String) : (ids.foldl add s).Sound := by
  induction ids generalizing s with
  | nil => exact h
  | cons id ids ih => exact ih (h.add id)

/-- **Numbers and names are inverse to each other.** -/
theorem sound_ofIds (ids : List String) : (ofIds ids).Sound := sound_foldl sound_empty ids

theorem mem_foldl_add {s : Signals} {ids : List String} {id : String} :
    id ∈ (ids.foldl add s).numbers ↔ id ∈ ids ∨ id ∈ s.numbers := by
  induction ids generalizing s with
  | nil => simp
  | cons a ids ih =>
    rw [List.foldl_cons, ih, mem_add, List.mem_cons]
    grind

/-- An id has a number when it is one of the ids. -/
theorem isSome_number?_ofIds {ids : List String} {id : String} :
    ((ofIds ids).number? id).isSome ↔ id ∈ ids := by
  rw [number?, ← Std.TreeMap.mem_iff_isSome_getElem?, ofIds, mem_foldl_add]
  simp [empty]

end Signals

end Schematic
