import Mathlib.Order.Lattice
import Mathlib.Data.Nat.Basic

/-!
# Bounding boxes

A box starts out inside out (`Box.start`) and is extended by one cell after the other. After at
least one cell it is the least box that contains the cells: it contains all of them and each of
its sides touches one (`Box.extend_encloses`).
-/

namespace BoundingBox

/-- A rectangle of cells, its borders included. -/
structure Box where
  minX : Nat
  maxX : Nat
  minY : Nat
  maxY : Nat
  deriving DecidableEq, Repr

namespace Box

/-- The box that contains nothing, for coordinates up to `limit`. -/
def start (limit : Nat) : Box := ⟨limit, 0, limit, 0⟩

/-- The box extended by a cell. -/
def extend (box : Box) (cell : Nat × Nat) : Box where
  minX := min box.minX cell.1
  maxX := max box.maxX cell.1
  minY := min box.minY cell.2
  maxY := max box.maxY cell.2

/-- The cell lies in the box. -/
def Contains (box : Box) (cell : Nat × Nat) : Prop :=
  (box.minX ≤ cell.1 ∧ cell.1 ≤ box.maxX) ∧ box.minY ≤ cell.2 ∧ cell.2 ≤ box.maxY

/-- The box is the least one that contains the cells. -/
structure Encloses (box : Box) (cells : List (Nat × Nat)) : Prop where
  contains : ∀ cell ∈ cells, box.Contains cell
  minX : ∃ cell ∈ cells, cell.1 = box.minX
  maxX : ∃ cell ∈ cells, cell.1 = box.maxX
  minY : ∃ cell ∈ cells, cell.2 = box.minY
  maxY : ∃ cell ∈ cells, cell.2 = box.maxY

/-- A box that encloses cells is not inside out. -/
theorem Encloses.ordered {box : Box} {cells : List (Nat × Nat)} (h : box.Encloses cells) :
    box.minX ≤ box.maxX ∧ box.minY ≤ box.maxY := by
  obtain ⟨cell, hcell, hx⟩ := h.minX
  obtain ⟨⟨-, hx'⟩, hy, hy'⟩ := h.contains cell hcell
  exact ⟨hx ▸ hx', hy.trans hy'⟩

/-- The box lies inside another one. -/
def Within (box other : Box) : Prop :=
  (other.minX ≤ box.minX ∧ box.maxX ≤ other.maxX) ∧ other.minY ≤ box.minY ∧ box.maxY ≤ other.maxY

/-- The box that encloses cells lies inside every box that contains them. -/
theorem Encloses.within {box other : Box} {cells : List (Nat × Nat)} (h : box.Encloses cells)
    (hother : ∀ cell ∈ cells, other.Contains cell) : box.Within other := by
  obtain ⟨left, hleft, hminX⟩ := h.minX
  obtain ⟨right, hright, hmaxX⟩ := h.maxX
  obtain ⟨top, htop, hminY⟩ := h.minY
  obtain ⟨bottom, hbottom, hmaxY⟩ := h.maxY
  have hleft := (hother left hleft).1.1
  have hright := (hother right hright).1.2
  have htop := (hother top htop).2.1
  have hbottom := (hother bottom hbottom).2.2
  unfold Within
  omega

/-- One cell is enclosed by the box that was extended by it first. -/
theorem extend_start {limit : Nat} {cell : Nat × Nat} (hx : cell.1 ≤ limit)
    (hy : cell.2 ≤ limit) : ((start limit).extend cell).Encloses [cell] := by
  have hbox : (start limit).extend cell = ⟨cell.1, cell.1, cell.2, cell.2⟩ := by
    simp [start, extend, hx, hy]
  rw [hbox]
  refine ⟨?_, ⟨cell, ?_, rfl⟩, ⟨cell, ?_, rfl⟩, ⟨cell, ?_, rfl⟩, ⟨cell, ?_, rfl⟩⟩
  · intro c hc
    obtain rfl := List.mem_singleton.mp hc
    exact ⟨⟨le_rfl, le_rfl⟩, le_rfl, le_rfl⟩
  all_goals exact List.mem_singleton_self cell

/-- A side of a box touches a cell after the extension if it did before or touches the new one. -/
theorem touches {cells : List (Nat × Nat)} {cell : Nat × Nat} {side side' : Nat}
    (coordinate : Nat × Nat → Nat) (h : ∃ c ∈ cells, coordinate c = side)
    (hside : side' = side ∨ side' = coordinate cell) :
    ∃ c ∈ cells ++ [cell], coordinate c = side' := by
  rcases hside with rfl | rfl
  · obtain ⟨c, hc, hside⟩ := h
    exact ⟨c, List.mem_append_left _ hc, hside⟩
  · exact ⟨cell, by simp, rfl⟩

/-- Extending a box by a cell encloses that cell too. -/
theorem Encloses.extend {box : Box} {cells : List (Nat × Nat)} (h : box.Encloses cells)
    (cell : Nat × Nat) : (box.extend cell).Encloses (cells ++ [cell]) := by
  constructor
  case contains =>
    intro c hc
    simp only [Contains, Box.extend]
    rcases List.mem_append.mp hc with hc | hc
    · have hin := h.contains c hc
      simp only [Contains] at hin
      omega
    · obtain rfl := List.mem_singleton.mp hc
      omega
  case minX => exact touches Prod.fst h.minX (by simp only [Box.extend]; omega)
  case maxX => exact touches Prod.fst h.maxX (by simp only [Box.extend]; omega)
  case minY => exact touches Prod.snd h.minY (by simp only [Box.extend]; omega)
  case maxY => exact touches Prod.snd h.maxY (by simp only [Box.extend]; omega)

/-- Extending a box by further cells encloses them too. -/
theorem Encloses.foldl {box : Box} {cells : List (Nat × Nat)} (h : box.Encloses cells)
    (rest : List (Nat × Nat)) : (rest.foldl Box.extend box).Encloses (cells ++ rest) := by
  induction rest generalizing box cells with
  | nil => simpa using h
  | cons cell rest ih => simpa using ih (h.extend cell)

/-- A box extended by cells one after the other encloses them. -/
theorem extend_encloses {limit : Nat} {cells : List (Nat × Nat)} (hne : cells ≠ [])
    (h : ∀ cell ∈ cells, cell.1 ≤ limit ∧ cell.2 ≤ limit) :
    (cells.foldl extend (start limit)).Encloses cells := by
  cases cells with
  | nil => exact absurd rfl hne
  | cons cell cells =>
      obtain ⟨hx, hy⟩ := h cell List.mem_cons_self
      exact (extend_start hx hy).foldl cells

end Box

end BoundingBox
