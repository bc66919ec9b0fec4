import Mathlib.Algebra.Order.Ring.Abs
import Mathlib.Algebra.Order.Ring.Int
import Mathlib.Data.Set.Basic
import Mathlib.Tactic.Linarith
import Mathlib.Tactic.Ring

/-!
# Digital circles

In column `i` of an octant a circle of radius `r` is `height r i` rows above its center. A loop can
follow it without square roots: it keeps the value `test` of the circle's equation half a row below
the next point, and goes down a row when that is not inside the circle. Until the columns meet the
rows it is never more than half a row off, and the eight mirror images of what it finds make up the
whole circle.
-/

namespace DigitalCircle

/-- The row of the circle in column `i`, as the loop finds it. -/
def height (r : Int) : Nat → Int
  | 0 => r
  | i + 1 =>
      if ((i : Int) + 1) ^ 2 + height r i ^ 2 - height r i - r ^ 2 < 0 then height r i
      else height r i - 1

/-- What the loop keeps: less than zero if the point half a row below the next one is inside the
circle. -/
def test (r : Int) (i : Nat) : Int := ((i : Int) + 1) ^ 2 + height r i ^ 2 - height r i - r ^ 2

/-- The loop comes to column `i`: the columns before it are less than their rows. -/
def Reached (r : Int) (i : Nat) : Prop := ∀ j < i, (j : Int) < height r j

variable {r : Int} {i : Nat}

/-- The loop starts with the circle's highest point. -/
theorem test_zero (r : Int) : test r 0 = 1 - r := by
  unfold test height
  ring

/-- The row in the next column. -/
theorem height_succ (r : Int) (i : Nat) :
    height r (i + 1) = if test r i < 0 then height r i else height r i - 1 := rfl

/-- The loop keeps the equation without multiplying. -/
theorem test_succ (r : Int) (i : Nat) :
    test r (i + 1) =
      if test r i < 0 then test r i + i * 2 + 3 else test r i + i * 2 - height r i * 2 + 5 := by
  rw [test, height_succ]
  push_cast
  split <;> (unfold test; ring)

/-- The circle goes down. -/
theorem height_succ_le (r : Int) (i : Nat) :
    height r i - 1 ≤ height r (i + 1) ∧ height r (i + 1) ≤ height r i := by
  rw [height_succ]
  split <;> omega

/-- The loop starts. -/
theorem reached_zero (r : Int) : Reached r 0 := fun _ hj => absurd hj (Nat.not_lt_zero _)

/-- The loop goes on while the column is less than the row. -/
theorem reached_succ : Reached r (i + 1) ↔ Reached r i ∧ (i : Int) < height r i := by
  constructor
  · exact fun h => ⟨fun j hj => h j (Nat.lt_succ_of_lt hj), h i (Nat.lt_succ_self i)⟩
  · rintro ⟨hbefore, hi⟩ j hj
    rcases Nat.lt_succ_iff_lt_or_eq.mp hj with hlt | rfl
    · exact hbefore j hlt
    · exact hi

/-- No row is above the radius. -/
theorem height_le (r : Int) (i : Nat) : height r i ≤ r := by
  induction i with
  | zero => exact le_rfl
  | succ i ih => exact (height_succ_le r i).2.trans ih

/-- While the column is less than the row, the point is outside the circle of the row below and
inside that of the row above. -/
theorem near_of_lt (hr : 0 < r) (hreached : Reached r i) (hi : (i : Int) < height r i) :
    (i : Int) ^ 2 + height r i ^ 2 - height r i < r ^ 2 ∧
      r ^ 2 ≤ (i : Int) ^ 2 + height r i ^ 2 + height r i := by
  induction i with
  | zero =>
      unfold height
      push_cast
      constructor <;> linarith
  | succ i ih =>
      obtain ⟨hbefore, hlt⟩ := reached_succ.mp hreached
      obtain ⟨hlower, hupper⟩ := ih hbefore hlt
      have htest : test r i = ((i : Int) + 1) ^ 2 + height r i ^ 2 - height r i - r ^ 2 := rfl
      rw [height_succ] at hi ⊢
      push_cast at hi ⊢
      have hsquare : ((i : Int) + 1) ^ 2 = (i : Int) ^ 2 + 2 * i + 1 := by ring
      split at hi
      · rw [if_pos ‹_›]
        constructor <;> linarith
      · rw [if_neg ‹_›]
        have hrow : (height r i - 1) ^ 2 = height r i ^ 2 - 2 * height r i + 1 := by ring
        constructor <;> linarith

/-- Where the loop comes, the point is at most half a row off the circle. -/
theorem near_of_reached (hr : 0 < r) (hreached : Reached r i) :
    (i : Int) ^ 2 + height r i ^ 2 - height r i ≤ r ^ 2 ∧
      r ^ 2 ≤ (i : Int) ^ 2 + height r i ^ 2 + height r i := by
  cases i with
  | zero =>
      obtain ⟨hlower, hupper⟩ := near_of_lt hr hreached hr
      exact ⟨hlower.le, hupper⟩
  | succ i =>
      obtain ⟨hbefore, hlt⟩ := reached_succ.mp hreached
      obtain ⟨hlower, hupper⟩ := near_of_lt hr hbefore hlt
      have htest : test r i = ((i : Int) + 1) ^ 2 + height r i ^ 2 - height r i - r ^ 2 := rfl
      have hsquare : ((i : Int) + 1) ^ 2 = (i : Int) ^ 2 + 2 * i + 1 := by ring
      have hrow : (height r i - 1) ^ 2 = height r i ^ 2 - 2 * height r i + 1 := by ring
      rw [height_succ]
      push_cast
      split
      · constructor <;> linarith
      · constructor <;> linarith

/-- The rows the loop comes to are not below the center. -/
theorem height_nonneg (hr : 0 < r) (hreached : Reached r i) : 0 ≤ height r i := by
  cases i with
  | zero => exact hr.le
  | succ i =>
      have hlt := (reached_succ.mp hreached).2
      have hnext := (height_succ_le r i).1
      omega

/-- Only of the smallest circle a row is that of the center. -/
theorem height_pos (hr : 1 < r) (hreached : Reached r i) : 0 < height r i := by
  cases i with
  | zero => exact zero_lt_one.trans hr
  | succ i =>
      have hlt := (reached_succ.mp hreached).2
      have hnext := (height_succ_le r i).1
      cases i with
      | zero =>
          have hstart : height r 0 = r := rfl
          omega
      | succ i => omega

/-- The columns the loop comes to are not right of the radius. -/
theorem reached_le (hr : 0 < r) (hreached : Reached r i) : (i : Int) ≤ r := by
  cases i with
  | zero => exact hr.le
  | succ i =>
      have hlt := (reached_succ.mp hreached).2
      have hle := height_le r i
      push_cast
      omega

/-- The value that the loop keeps is small. -/
theorem test_bounds (hr : 0 < r) (hreached : Reached r i) :
    -(2 * r) < test r i ∧ test r i ≤ 2 * r + 1 := by
  obtain ⟨hlower, hupper⟩ := near_of_reached hr hreached
  have hheight := height_le r i
  have hcolumn := reached_le hr hreached
  have hsquare : ((i : Int) + 1) ^ 2 = (i : Int) ^ 2 + 2 * i + 1 := by ring
  unfold test
  constructor <;> linarith

/-- The loop comes to every column of the octant, and the row there is not less than the column. -/
theorem reached_of_le (hr : 0 < r) {a : Nat} (ha : 2 * (a : Int) ^ 2 ≤ r ^ 2) :
    Reached r a ∧ (a : Int) ≤ height r a := by
  have hreached : Reached r a := by
    induction a with
    | zero => exact reached_zero r
    | succ a ih =>
        push_cast at ha
        have hcolumn := Int.natCast_nonneg a
        have hbefore := ih (by nlinarith)
        refine reached_succ.mpr ⟨hbefore, ?_⟩
        obtain ⟨-, hupper⟩ := near_of_reached hr hbefore
        by_contra hge
        have hnonneg := height_nonneg hr hbefore
        nlinarith
  refine ⟨hreached, ?_⟩
  obtain ⟨-, hupper⟩ := near_of_reached hr hreached
  have hnonneg := height_nonneg hr hreached
  by_contra hlt
  nlinarith

/-! ## The whole circle -/

/-- The mirror images of a point of an octant, in the order in which a loop draws them. -/
def mirrors (x y : Int) : List (Int × Int) :=
  [(x, y), (-x, y), (x, -y), (-x, -y), (y, x), (-y, x), (y, -x), (-y, -x)]

/-- The mirror images of a point are those at its distances from the two axes. -/
theorem mem_mirrors {x y : Int} {p : Int × Int} :
    p ∈ mirrors x y ↔ |p.1| = |x| ∧ |p.2| = |y| ∨ |p.1| = |y| ∧ |p.2| = |x| := by
  obtain ⟨a, b⟩ := p
  simp only [mirrors, List.mem_cons, List.not_mem_nil, or_false, Prod.mk.injEq, abs_eq_abs]
  tauto

/-- The points of the digital circle, the center taken as the origin. -/
def circle (r : Int) : Set (Int × Int) := {p | ∃ i, Reached r i ∧ p ∈ mirrors i (height r i)}

/-- The circle's highest, lowest, leftmost and rightmost points, and those in the columns from one
on. -/
theorem mem_circle {p : Int × Int} :
    p ∈ circle r ↔ (∃ i, 0 < i ∧ Reached r i ∧ p ∈ mirrors i (height r i)) ∨ p ∈ mirrors 0 r := by
  constructor
  · rintro ⟨i, hreached, hmem⟩
    rcases Nat.eq_zero_or_pos i with rfl | hpos
    · exact .inr hmem
    · exact .inl ⟨i, hpos, hreached, hmem⟩
  · rintro (⟨i, -, hreached, hmem⟩ | hmem)
    · exact ⟨i, hreached, hmem⟩
    · exact ⟨0, reached_zero r, hmem⟩

/-- The mirror images of what the loop finds are not farther from the axes than the radius. -/
theorem mirrors_le (hr : 0 < r) (hreached : Reached r i) {p : Int × Int}
    (h : p ∈ mirrors i (height r i)) : |p.1| ≤ r ∧ |p.2| ≤ r := by
  have hcolumn := reached_le hr hreached
  have hrow := height_le r i
  have hnonneg := height_nonneg hr hreached
  rcases mem_mirrors.mp h with ⟨hx, hy⟩ | ⟨hx, hy⟩
  · rw [hx, hy, abs_of_nonneg hnonneg, Nat.abs_cast]
    exact ⟨hcolumn, hrow⟩
  · rw [hx, hy, abs_of_nonneg hnonneg, Nat.abs_cast]
    exact ⟨hrow, hcolumn⟩

/-- What a set of points must be to show the circle of radius `r` around the origin. -/
structure Round (r : Int) (points : Set (Int × Int)) : Prop where
  /-- It is the same left and right. -/
  flip : ∀ p ∈ points, (-p.1, p.2) ∈ points
  /-- It is the same seen from the side. -/
  turn : ∀ p ∈ points, (p.2, p.1) ∈ points
  /-- It is at most half a pixel off. -/
  near : ∀ p ∈ points, |p.1 ^ 2 + p.2 ^ 2 - r ^ 2| ≤ max |p.1| |p.2|
  /-- It has a point in every direction. -/
  full : ∀ a, 2 * a ^ 2 ≤ r ^ 2 → ∃ b, |a| ≤ b ∧ (a, b) ∈ points

/-- The digital circle shows the circle. -/
theorem circle_round (hr : 0 < r) : Round r (circle r) where
  flip := by
    rintro p ⟨i, hreached, hmem⟩
    refine ⟨i, hreached, ?_⟩
    rw [mem_mirrors] at hmem ⊢
    rwa [abs_neg]
  turn := by
    rintro p ⟨i, hreached, hmem⟩
    refine ⟨i, hreached, ?_⟩
    rw [mem_mirrors] at hmem ⊢
    rwa [and_comm, or_comm, and_comm]
  near := by
    rintro p ⟨i, hreached, hmem⟩
    obtain ⟨hlower, hupper⟩ := near_of_reached hr hreached
    have hnear : |(i : Int) ^ 2 + height r i ^ 2 - r ^ 2| ≤ |height r i| := by
      rw [abs_of_nonneg (height_nonneg hr hreached), abs_le]
      constructor <;> linarith
    rw [← sq_abs p.1, ← sq_abs p.2]
    rcases mem_mirrors.mp hmem with ⟨hx, hy⟩ | ⟨hx, hy⟩
    · rw [hx, hy, sq_abs, sq_abs]
      exact hnear.trans (le_max_right _ _)
    · rw [hx, hy, sq_abs, sq_abs, add_comm (height r i ^ 2)]
      exact hnear.trans (le_max_left _ _)
  full := by
    intro a ha
    have hcolumn : ((a.natAbs : Nat) : Int) = |a| := Int.natCast_natAbs a
    obtain ⟨hreached, hle⟩ := reached_of_le (a := a.natAbs) hr (by rwa [hcolumn, sq_abs])
    rw [hcolumn] at hle
    refine ⟨height r a.natAbs, hle, a.natAbs, hreached, mem_mirrors.mpr (.inl ⟨?_, rfl⟩)⟩
    rw [hcolumn, abs_abs]

end DigitalCircle
