import Mathlib

/-!
# Joins of multisets of tuples

The SQL meaning of a chain of joins. A tuple lists one entry per joined table, `none` where an
outer join put NULLs in place of a row. Joins associate to the left: each table is joined to the
tuples of all tables before it. The second half of the module splits a chain into the tuples that
grow from the left side and those that start at an unmatched row of a right side.
-/
namespace Relational

open Multiset

variable {Row : Type*}

/-- One entry for each joined table, `none` for a table whose columns are all NULL. -/
abbrev Tuple (Row : Type*) := List (Option Row)

/-- The kinds of joins. A cross join is an inner join whose condition always holds. -/
inductive JoinKind where
  | inner
  | left
  | right
  | full
  deriving DecidableEq, Repr

/-- Tuples of the left side without a match are kept. -/
def JoinKind.keepsLeft : JoinKind → Bool
  | .left | .full => true
  | .inner | .right => false

/-- Rows of the right side without a match are kept. -/
def JoinKind.keepsRight : JoinKind → Bool
  | .right | .full => true
  | .inner | .left => false

/-- A table on the right side of a join. -/
structure Operand (Row : Type*) where
  kind : JoinKind
  rows : Multiset Row
  on : Tuple Row → Row → Bool

namespace Operand

/-- The tuple extended by each row that matches it. -/
def matched (operand : Operand Row) (tuple : Tuple Row) : Multiset (Tuple Row) :=
  (operand.rows.filter fun row => operand.on tuple row = true).map fun row => tuple ++ [some row]

/-- What a join makes of one tuple of its left side. -/
def extend (operand : Operand Row) (tuple : Tuple Row) : Multiset (Tuple Row) :=
  if operand.kind.keepsLeft = true ∧ ∀ row ∈ operand.rows, operand.on tuple row = false then
    {tuple ++ [none]}
  else operand.matched tuple

/-- The rows of the right side that match no tuple of the left side. -/
def unmatched (operand : Operand Row) (tuples : Multiset (Tuple Row)) : Multiset Row :=
  operand.rows.filter fun row => ∀ tuple ∈ tuples, operand.on tuple row = false

/-- A row of the right side with NULLs for the `arity` tables before it. -/
def rightOnly (arity : Nat) (row : Row) : Tuple Row := List.replicate arity none ++ [some row]

/-- The join of tuples over `arity` tables with one more table. -/
def join (operand : Operand Row) (arity : Nat) (tuples : Multiset (Tuple Row)) :
    Multiset (Tuple Row) :=
  tuples.bind operand.extend +
    if operand.kind.keepsRight then (operand.unmatched tuples).map (rightOnly arity) else 0

end Operand

/-- The left-associative join of tuples over `arity` tables with a list of further tables. -/
def joinChain (arity : Nat) (tuples : Multiset (Tuple Row)) :
    List (Operand Row) → Multiset (Tuple Row)
  | [] => tuples
  | operand :: rest => joinChain (arity + 1) (operand.join arity tuples) rest

/-! ## Left and right growth -/

/-- The tuples that grow from one tuple when every join only extends its left side. -/
def grow (tuple : Tuple Row) : List (Operand Row) → Multiset (Tuple Row)
  | [] => {tuple}
  | operand :: rest => (operand.extend tuple).bind fun longer => grow longer rest

/-- The tuples that start at an unmatched row of some right side. -/
def rightStarts (arity : Nat) (tuples : Multiset (Tuple Row)) :
    List (Operand Row) → Multiset (Tuple Row)
  | [] => 0
  | operand :: rest =>
    (if operand.kind.keepsRight then
      (operand.unmatched tuples).bind fun row => grow (Operand.rightOnly arity row) rest
    else 0) + rightStarts (arity + 1) (operand.join arity tuples) rest

/-- A chain of joins is the left growth of its tuples and of the unmatched right rows. -/
theorem joinChain_eq_grow_add_rightStarts (arity : Nat) (tuples : Multiset (Tuple Row))
    (operands : List (Operand Row)) :
    joinChain arity tuples operands =
      tuples.bind (fun tuple => grow tuple operands) + rightStarts arity tuples operands := by
  induction operands generalizing arity tuples with
  | nil =>
    have whole : tuples.bind (fun tuple => {tuple}) = tuples :=
      (bind_singleton tuples id).trans (map_id tuples)
    simp [joinChain, grow, rightStarts, whole]
  | cons operand rest ih =>
    rw [joinChain, ih]
    conv_lhs => rw [Operand.join]
    rw [add_bind, bind_assoc, add_assoc]
    congr 2
    split
    · rw [bind_map]
    · rw [zero_bind]

end Relational
