/-!
# Reachability

A relation on the numbers below `n` is kept as rows of bits: bit `b` of row `a` says that `a` is
related to `b`.

* `Rows.ofEdges`: the relation with given edges.
* `Rows.closure`: the relation "a path of one edge or more leads from `a` to `b`".
* `Rows.has_through`: one step of the closure admits one more number inside paths.
-/

namespace Schematic

/-- A relation on numbers, row by row. -/
abbrev Rows := Array Nat

namespace Rows

/-- Whether `a` is related to `b`. -/
def has (rows : Rows) (a b : Nat) : Bool := (rows.getD a 0).testBit b

/-- Relates `a` to `b` as well. -/
def link (rows : Rows) (edge : Nat × Nat) : Rows := rows.modify edge.1 (· ||| 1 <<< edge.2)

/-- The relation on the numbers below `n` with the given edges. -/
def ofEdges (n : Nat) (edges : List (Nat × Nat)) : Rows := edges.foldl link (Array.replicate n 0)

/-- Relates all that is related to `v` to all that `v` is related to. -/
def through (rows : Rows) (v : Nat) : Rows :=
  rows.map fun row => if row.testBit v then row ||| rows.getD v 0 else row

/-- **Whether a path of one edge or more leads from one number to another.** -/
def closure (rows : Rows) : Rows := (List.range rows.size).foldl through rows

/-- One step of the closure admits `v` inside paths. -/
theorem has_through (rows : Rows) (v a b : Nat) :
    (rows.through v).has a b = (rows.has a b || (rows.has a v && rows.has v b)) := by
  simp only [has, through, Array.getD_eq_getD_getElem?, Array.getElem?_map]
  cases h : rows[a]? with
  | none => simp
  | some row =>
    simp only [Option.map_some, Option.getD_some]
    split
    · rename_i hv; simp [Nat.testBit_or, hv]
    · rename_i hv; simp [hv]

end Rows

end Schematic
