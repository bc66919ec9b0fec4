import Mathlib.Algebra.Order.Ring.Int
import Mathlib.Tactic.Linarith
import Mathlib.Tactic.Ring

/-!
# Digital lines

A line of slope `dy / dx`, at most one, climbs `dy * i / dx` rows in `i` columns. `climb` rounds it
to the nearest row. A loop can follow it without dividing: it keeps `slack`, from which it takes
`dy` in every column, and when that would be negative it climbs a row and adds `dx`.
-/

namespace DigitalLine

/-- How many rows the line has climbed after `i` columns, rounded to the nearest and, between two
rows, to the lower one. -/
def climb (dx dy i : Int) : Int := (dy * i + (dx - 1) / 2) / dx

/-- What the loop keeps of the rounding: half a row more than the line is below its row. -/
def slack (dx dy i : Int) : Int := dx / 2 - dy * i + dx * climb dx dy i

variable {dx dy i : Int}

/-- The slack is less than a row. -/
theorem slack_bounds (dy i : Int) (hdx : 0 < dx) : 0 ≤ slack dx dy i ∧ slack dx dy i < dx := by
  have hfloor := Int.mul_ediv_self_le (x := dy * i + (dx - 1) / 2) (k := dx) hdx.ne'
  have hceil := Int.lt_mul_ediv_self_add (x := dy * i + (dx - 1) / 2) hdx
  unfold slack climb
  omega

/-- Only the row of the line leaves a slack of less than a row. -/
theorem climb_unique (hdx : 0 < dx) {row : Int}
    (h : 0 ≤ dx / 2 - dy * i + dx * row ∧ dx / 2 - dy * i + dx * row < dx) :
    row = climb dx dy i := by
  have hbounds := slack_bounds dy i hdx
  unfold slack at hbounds
  have hlower : dx * (row - climb dx dy i) < dx * 1 := by linarith
  have hupper : dx * (climb dx dy i - row) < dx * 1 := by linarith
  have hlower := lt_of_mul_lt_mul_left hlower hdx.le
  have hupper := lt_of_mul_lt_mul_left hupper hdx.le
  omega

/-- The next column of a line that is not a point. -/
theorem climb_add_one (hdy : 0 ≤ dy ∧ dy ≤ dx) (hdx : 0 < dx) :
    climb dx dy (i + 1) = climb dx dy i + if slack dx dy i - dy < 0 then 1 else 0 := by
  have hbounds := slack_bounds dy i hdx
  refine (climb_unique hdx ?_).symm
  have hnext :
      dx / 2 - dy * (i + 1) + dx * (climb dx dy i + if slack dx dy i - dy < 0 then 1 else 0)
      = slack dx dy i - dy + if slack dx dy i - dy < 0 then dx else 0 := by
    unfold slack
    split <;> ring
  rw [hnext]
  split <;> omega

/-- A point does not climb. -/
theorem climb_point (dy i : Int) : climb 0 dy i = 0 := Int.ediv_zero _

/-- The next column: the line climbs a row exactly when the slack is used up. -/
theorem climb_succ (hdy : 0 ≤ dy ∧ dy ≤ dx) :
    climb dx dy (i + 1) = climb dx dy i + if slack dx dy i - dy < 0 then 1 else 0 := by
  rcases (hdy.1.trans hdy.2).eq_or_lt with hpoint | hdx
  · subst hpoint
    obtain rfl : dy = 0 := le_antisymm hdy.2 hdy.1
    simp [climb_point, slack]
  · exact climb_add_one hdy hdx

/-- The slack in the next column. -/
theorem slack_succ (hdy : 0 ≤ dy ∧ dy ≤ dx) :
    slack dx dy (i + 1) = slack dx dy i - dy + if slack dx dy i - dy < 0 then dx else 0 := by
  have hclimb := climb_succ (i := i) hdy
  unfold slack at hclimb ⊢
  rw [hclimb]
  split <;> ring

/-- The slack is never more than a row, not even at a point. -/
theorem slack_le (hdy : 0 ≤ dy ∧ dy ≤ dx) (i : Int) :
    0 ≤ slack dx dy i ∧ slack dx dy i ≤ dx := by
  rcases (hdy.1.trans hdy.2).eq_or_lt with hpoint | hdx
  · subst hpoint
    obtain rfl : dy = 0 := le_antisymm hdy.2 hdy.1
    simp [slack]
  · exact ⟨(slack_bounds dy i hdx).1, (slack_bounds dy i hdx).2.le⟩

/-- The line begins in the first row. -/
theorem climb_zero (hdy : 0 ≤ dy ∧ dy ≤ dx) : climb dx dy 0 = 0 := by
  rcases (hdy.1.trans hdy.2).eq_or_lt with hpoint | hdx
  · subst hpoint
    exact climb_point dy 0
  · exact (climb_unique hdx (by omega)).symm

/-- The line ends in the last row. -/
theorem climb_last (hdy : 0 ≤ dy ∧ dy ≤ dx) : climb dx dy dx = dy := by
  rcases (hdy.1.trans hdy.2).eq_or_lt with hpoint | hdx
  · subst hpoint
    rw [climb_point]
    omega
  · refine (climb_unique hdx ?_).symm
    rw [mul_comm dy dx]
    omega

/-- The line is nowhere more than half a row off. -/
theorem climb_near (hdy : 0 ≤ dy ∧ dy ≤ dx) (i : Int) :
    -dx ≤ 2 * (dx * climb dx dy i - dy * i) ∧ 2 * (dx * climb dx dy i - dy * i) ≤ dx := by
  rcases (hdy.1.trans hdy.2).eq_or_lt with hpoint | hdx
  · subst hpoint
    obtain rfl : dy = 0 := le_antisymm hdy.2 hdy.1
    simp
  · have hbounds := slack_bounds dy i hdx
    unfold slack at hbounds
    omega

/-- The line stays between its ends. -/
theorem climb_bounds (hdy : 0 ≤ dy ∧ dy ≤ dx) (hi : 0 ≤ i ∧ i ≤ dx) :
    0 ≤ climb dx dy i ∧ climb dx dy i ≤ dy := by
  have hdx := hdy.1.trans hdy.2
  have hleft : 0 ≤ dy * i := mul_nonneg hdy.1 hi.1
  have hright : dy * i ≤ dy * dx := mul_le_mul_of_nonneg_left hi.2 hdy.1
  rcases hdx.eq_or_lt with hpoint | hpos
  · subst hpoint
    rw [climb_point]
    exact ⟨le_rfl, hdy.1⟩
  constructor
  · exact Int.ediv_nonneg (by omega) hdx
  · calc
      climb dx dy i ≤ climb dx dy dx := Int.ediv_le_ediv hpos (by omega)
      _ = dy := climb_last hdy

end DigitalLine
