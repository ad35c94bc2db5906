/-!
Cells that keep a value from when it is first needed until it is dropped.
-/

namespace ClassAtlas

/-- A kept value, and how many have been built. -/
structure Cell (α : Type) where
  value : Option α
  builds : Nat
  deriving Inhabited

namespace Cell

variable {α : Type}

/-- The cell without a value. -/
def empty : Cell α := ⟨none, 0⟩

/-- The kept value, or else a new one, and the cell that keeps it. -/
@[inline] def get (c : Cell α) (build : Unit → α) : α × Cell α :=
  match c.value with
  | some a => (a, c)
  | none =>
    let a := build ()
    (a, ⟨some a, c.builds + 1⟩)

/-- The cell after its value has been dropped. -/
def drop (c : Cell α) : Cell α :=
  { c with value := none }

/-- Whether a value is kept. -/
def isBuilt (c : Cell α) : Bool :=
  c.value.isSome

end Cell

end ClassAtlas
