import Mathlib.Tactic.LinearCombination
import SaiyuanClock.Library.DigitalLine
import SaiyuanClock.Strokes

/-!
# Slanted lines

`OLEDDisplay_drawLine` follows a line along the axis on which it is longer and never divides. The
points it inks are those of the digital line: one in every column, or row, between the ends, and
none further than half a pixel from the line.
-/

namespace SaiyuanClock

open Drawing DigitalLine

variable {g : Geometry}

/-- The loop of `OLEDDisplay_drawLine` from column `x0` on, for at most `fuel` tests. -/
def Frame.lineFrom (color : Color) (steep : Bool) (x1 dx dy ystep : Int) :
    Nat → Int → Int → Int → Frame g → Option (Frame g)
  | 0, _, _, _, _ => none
  | fuel + 1, x0, y0, err, b =>
      if x0 ≤ x1 then
        (if steep then b.setPixelColor color y0 x0 else b.setPixelColor color x0 y0).bind fun b =>
          let err := int16 (err - dy)
          if err < 0 then
            lineFrom color steep x1 dx dy ystep fuel (int16 (x0 + 1)) (int16 (y0 + ystep))
              (int16 (err + dx)) b
          else lineFrom color steep x1 dx dy ystep fuel (int16 (x0 + 1)) y0 err b
      else some b

/-- `OLEDDisplay_drawLine` for at most `fuel` tests of its loop. -/
def Frame.drawLine (fuel : Nat) (color : Color) (x0 y0 x1 y1 : Int) (b : Frame g) :
    Option (Frame g) :=
  let steep := decide (|x1 - x0| < |y1 - y0|)
  let (x0, y0, x1, y1) := if steep then (y0, x0, y1, x1) else (x0, y0, x1, y1)
  let (x0, y0, x1, y1) := if x1 < x0 then (x1, y1, x0, y0) else (x0, y0, x1, y1)
  let dx := int16 (x1 - x0)
  let dy := int16 |y1 - y0|
  b.lineFrom color steep x1 dx dy (if y0 < y1 then 1 else -1) fuel x0 y0 (dx.tdiv 2)

/-- The point at a place along a line and across it. -/
def along (g : Geometry) (steep : Bool) (a c : Int) : Set (Point g) :=
  if steep then dot g c a else dot g a c

/-- Setting the pixel at a place along a line and across it. -/
theorem set_along_stamps (color : Color) (steep : Bool) (a c : Int) :
    Stamps Frame.pixel color.ink (along g steep a c) fun b =>
      if steep then b.setPixelColor color c a else b.setPixelColor color a c := by
  cases steep with
  | false => exact set_pixel_color_stamps color a c
  | true => exact set_pixel_color_stamps color c a

/-- Different places along a line have different points. -/
theorem along_disjoint {steep : Bool} {a a' : Int} (h : a ≠ a') (c c' : Int) :
    Disjoint (along g steep a c) (along g steep a' c') := by
  refine Set.disjoint_left.mpr fun point hfirst hother => h ?_
  cases steep with
  | false => exact hfirst.1.symm.trans hother.1
  | true => exact hfirst.2.symm.trans hother.2

/-- The points of a digital line from its column `i` on. -/
def lineSet (g : Geometry) (steep : Bool) (x0 y0 dx dy ystep i : Int) : Set (Point g) :=
  {point | ∃ j, (i ≤ j ∧ j ≤ dx) ∧ point ∈ along g steep (x0 + j) (y0 + ystep * climb dx dy j)}

/-- The rest of a digital line is its next point and the rest after it. -/
theorem line_set_succ {steep : Bool} {x0 y0 dx dy ystep i : Int} (h : i ≤ dx) :
    lineSet g steep x0 y0 dx dy ystep i =
      along g steep (x0 + i) (y0 + ystep * climb dx dy i) ∪
        lineSet g steep x0 y0 dx dy ystep (i + 1) := by
  ext point
  simp only [lineSet, Set.mem_ofPred_eq, Set.mem_union]
  constructor
  · rintro ⟨j, ⟨hij, hj⟩, hpoint⟩
    rcases hij.eq_or_lt with rfl | hlt
    · exact .inl hpoint
    · exact .inr ⟨j, ⟨by omega, hj⟩, hpoint⟩
  · rintro (hpoint | ⟨j, ⟨hij, hj⟩, hpoint⟩)
    · exact ⟨i, ⟨le_rfl, h⟩, hpoint⟩
    · exact ⟨j, ⟨by omega, hj⟩, hpoint⟩

/-- The next point of a digital line does not come again. -/
theorem line_set_disjoint {steep : Bool} {x0 y0 dx dy ystep i : Int} (c : Int) :
    Disjoint (along g steep (x0 + i) c) (lineSet g steep x0 y0 dx dy ystep (i + 1)) := by
  refine Set.disjoint_left.mpr fun point hfirst hother => ?_
  obtain ⟨j, ⟨hij, -⟩, hpoint⟩ := hother
  have hne : x0 + i ≠ x0 + j := by omega
  exact Set.disjoint_left.mp (along_disjoint hne _ _) hfirst hpoint

/-- The loop of `OLEDDisplay_drawLine` inks the rest of the digital line. -/
theorem line_from_stamps (color : Color) (steep : Bool) {x0 y0 dx dy ystep : Int}
    (hystep : ystep = 1 ∨ ystep = -1) (hdy : 0 ≤ dy ∧ dy ≤ dx)
    (hx : -16384 ≤ x0 ∧ x0 + dx ≤ 16383)
    (hy : -16384 ≤ y0 ∧ y0 ≤ 16383 ∧ -16384 ≤ y0 + ystep * dy ∧ y0 + ystep * dy ≤ 16383)
    {i : Int} (hi : 0 ≤ i) (fuel : Nat) (hfuel : dx - i + 1 < fuel ∧ 0 < fuel) :
    Stamps Frame.pixel color.ink (lineSet g steep x0 y0 dx dy ystep i) fun b =>
      b.lineFrom color steep (x0 + dx) dx dy ystep fuel (x0 + i)
        (y0 + ystep * climb dx dy i) (slack dx dy i) := by
  induction fuel generalizing i with
  | zero => exact absurd hfuel.2 (lt_irrefl 0)
  | succ fuel ih =>
      by_cases hmore : i ≤ dx
      · have hslack := slack_le hdy i
        have hrow := climb_bounds hdy ⟨hi, hmore⟩
        have hclimb := climb_succ (i := i) hdy
        have hkept := slack_succ (i := i) hdy
        have hcolumn : int16 (x0 + i + 1) = x0 + (i + 1) := by
          rw [int16_eq_self ⟨by omega, by omega⟩, add_assoc]
        have herr : int16 (slack dx dy i - dy) = slack dx dy i - dy :=
          int16_eq_self ⟨by omega, by omega⟩
        have hrest := ih (i := i + 1) (by omega) ⟨by omega, by omega⟩
        simp only [Frame.lineFrom, if_pos (show x0 + i ≤ x0 + dx by omega), hcolumn, herr]
        rw [line_set_succ hmore]
        refine (set_along_stamps color steep _ _).seq_disjoint ?_ (line_set_disjoint _)
        by_cases hup : slack dx dy i - dy < 0
        · rw [if_pos hup] at hclimb hkept
          have hadd : int16 (slack dx dy i - dy + dx) = slack dx dy (i + 1) := by
            rw [hkept, int16_eq_self ⟨by omega, by omega⟩]
          have hstep : int16 (y0 + ystep * climb dx dy i + ystep) =
              y0 + ystep * climb dx dy (i + 1) := by
            rw [hclimb, mul_add, mul_one, ← add_assoc]
            rcases hystep with rfl | rfl
            · exact int16_eq_self ⟨by omega, by omega⟩
            · exact int16_eq_self ⟨by omega, by omega⟩
          simp only [if_pos hup, hadd, hstep]
          exact hrest
        · rw [if_neg hup, add_zero] at hclimb hkept
          simp only [if_neg hup]
          simp only [hkept, hclimb] at hrest
          exact hrest
      · simp only [Frame.lineFrom, if_neg (show ¬ x0 + i ≤ x0 + dx by omega)]
        refine Stamps.skip.congr ?_
        ext point
        simp only [lineSet, Set.mem_ofPred_eq, Set.mem_empty_iff_false, false_iff]
        rintro ⟨j, ⟨hij, hj⟩, -⟩
        omega

/-- The points of the line between two points: along the axis on which the line is longer, from its
lower end on. -/
def lineThrough (g : Geometry) (x0 y0 x1 y1 : Int) : Set (Point g) :=
  let steep := decide (|x1 - x0| < |y1 - y0|)
  let (x0, y0, x1, y1) := if steep then (y0, x0, y1, x1) else (x0, y0, x1, y1)
  let (x0, y0, x1, y1) := if x1 < x0 then (x1, y1, x0, y0) else (x0, y0, x1, y1)
  lineSet g steep x0 y0 (x1 - x0) |y1 - y0| (if y0 < y1 then 1 else -1) 0

/-- The direction and the length of the climb. -/
theorem direction_mul_abs (y0 y1 : Int) :
    (if y0 < y1 then 1 else -1) * |y1 - y0| = y1 - y0 := by
  split
  · rw [abs_of_pos (by omega), one_mul]
  · rw [abs_of_nonpos (by omega)]
    omega

/-- A line along its longer axis, from its lower end on. -/
theorem line_from_start (color : Color) (steep : Bool) {x0 y0 x1 y1 : Int} (hx : x0 ≤ x1)
    (hlonger : |y1 - y0| ≤ x1 - x0) (hx0 : -16384 ≤ x0) (hx1 : x1 ≤ 16383)
    (hy0 : -16384 ≤ y0 ∧ y0 ≤ 16383) (hy1 : -16384 ≤ y1 ∧ y1 ≤ 16383) {fuel : Nat}
    (hfuel : x1 - x0 + 1 < fuel) :
    Stamps Frame.pixel color.ink
      (lineSet g steep x0 y0 (x1 - x0) |y1 - y0| (if y0 < y1 then 1 else -1) 0) fun b =>
        b.lineFrom color steep x1 (int16 (x1 - x0)) (int16 |y1 - y0|) (if y0 < y1 then 1 else -1)
          fuel x0 y0 ((int16 (x1 - x0)).tdiv 2) := by
  have habs := abs_nonneg (y1 - y0)
  have hdx : int16 (x1 - x0) = x1 - x0 := int16_eq_self ⟨by omega, by omega⟩
  have hdy : int16 |y1 - y0| = |y1 - y0| := int16_eq_self ⟨by omega, by omega⟩
  have hhalf : (x1 - x0).tdiv 2 = slack (x1 - x0) |y1 - y0| 0 := by
    rw [slack, climb_zero ⟨habs, hlonger⟩, Int.tdiv_eq_ediv_of_nonneg (by omega)]
    omega
  have hystep : (if y0 < y1 then (1 : Int) else -1) = 1 ∨
      (if y0 < y1 then (1 : Int) else -1) = -1 := by
    split
    · exact .inl rfl
    · exact .inr rfl
  have hend := direction_mul_abs y0 y1
  have hloop := line_from_stamps (g := g) color steep hystep ⟨habs, hlonger⟩
    ⟨hx0, by omega⟩ ⟨hy0.1, hy0.2, by omega, by omega⟩ le_rfl fuel ⟨by omega, by omega⟩
  rw [climb_zero ⟨habs, hlonger⟩, mul_zero, add_zero, add_zero, ← hhalf,
    show x0 + (x1 - x0) = x1 by omega] at hloop
  rwa [hdx, hdy]

/-- With coordinates whose differences are `int16_t`, `OLEDDisplay_drawLine` ends, never leaves the
buffer, and inks the points of the digital line that are on the screen. -/
theorem draw_line_stamps (color : Color) {x0 y0 x1 y1 : Int} (hx0 : -16384 ≤ x0 ∧ x0 ≤ 16383)
    (hy0 : -16384 ≤ y0 ∧ y0 ≤ 16383) (hx1 : -16384 ≤ x1 ∧ x1 ≤ 16383)
    (hy1 : -16384 ≤ y1 ∧ y1 ≤ 16383) {fuel : Nat} (hfuel : 32769 ≤ fuel) :
    Stamps Frame.pixel color.ink (lineThrough g x0 y0 x1 y1) fun b =>
      b.drawLine fuel color x0 y0 x1 y1 := by
  unfold Frame.drawLine lineThrough
  by_cases hsteep : |x1 - x0| < |y1 - y0|
  · simp only [hsteep, decide_true, if_true]
    by_cases hswap : y1 < y0
    · simp only [if_pos hswap]
      rw [abs_of_neg (a := y1 - y0) (by omega)] at hsteep
      exact line_from_start color true hswap.le (by rw [abs_sub_comm]; omega) hy1.1 hy0.2 hx1 hx0
        (by omega)
    · simp only [if_neg hswap]
      rw [abs_of_nonneg (a := y1 - y0) (by omega)] at hsteep
      exact line_from_start color true (by omega) hsteep.le hy0.1 hy1.2 hx0 hx1 (by omega)
  · simp only [hsteep, decide_false, Bool.false_eq_true, if_false]
    by_cases hswap : x1 < x0
    · simp only [if_pos hswap]
      rw [abs_of_neg (a := x1 - x0) (by omega)] at hsteep
      exact line_from_start color false hswap.le (by rw [abs_sub_comm]; omega) hx1.1 hx0.2 hy1 hy0
        (by omega)
    · simp only [if_neg hswap]
      rw [abs_of_nonneg (a := x1 - x0) (by omega)] at hsteep
      exact line_from_start color false (by omega) (by omega) hx0.1 hx1.2 hy0 hy1 (by omega)

/-! ## What the points are -/

/-- Where a point is along a line and across it. -/
def place (steep : Bool) (point : Point g) : Int × Int :=
  if steep then (point.2, point.1) else (point.1, point.2)

/-- The points at a place. -/
theorem mem_along {steep : Bool} {a c : Int} {point : Point g} :
    point ∈ along g steep a c ↔ (place steep point).1 = a ∧ (place steep point).2 = c := by
  cases steep with
  | false => exact Iff.rfl
  | true => exact and_comm

/-- How far a point is from the line through two points, measured across the line and multiplied by
its length along it. -/
def offset (x0 y0 x1 y1 x y : Int) : Int := (x1 - x0) * (y - y0) - (y1 - y0) * (x - x0)

/-- The offset from the line taken in the other direction. -/
theorem offset_swap (x0 y0 x1 y1 x y : Int) :
    offset x1 y1 x0 y0 x y = -offset x0 y0 x1 y1 x y := by
  unfold offset
  ring

/-- What a set of points must be to show the line from `(x0, y0)` to `(x1, y1)`, the first
coordinate of each along the line and the second across it. -/
structure Follows (steep : Bool) (x0 y0 x1 y1 : Int) (line : Set (Point g)) : Prop where
  /-- It has the first end. -/
  first : along g steep x0 y0 ⊆ line
  /-- It has the second end. -/
  second : along g steep x1 y1 ⊆ line
  /-- It stays between the ends. -/
  between : ∀ point ∈ line, min x0 x1 ≤ (place steep point).1 ∧ (place steep point).1 ≤ max x0 x1
  /-- It has one point at each place between the ends. -/
  single : ∀ a, min x0 x1 ≤ a ∧ a ≤ max x0 x1 → ∃ c, ∀ point : Point g,
    (place steep point).1 = a → (point ∈ line ↔ (place steep point).2 = c)
  /-- It is at most half a pixel off. -/
  near : ∀ point ∈ line,
    |2 * offset x0 y0 x1 y1 (place steep point).1 (place steep point).2| ≤ |x1 - x0|

/-- A line is the same in both directions. -/
theorem Follows.swap {steep : Bool} {x0 y0 x1 y1 : Int} {line : Set (Point g)}
    (h : Follows steep x1 y1 x0 y0 line) : Follows steep x0 y0 x1 y1 line where
  first := h.second
  second := h.first
  between point hpoint := by
    rw [min_comm, max_comm]
    exact h.between point hpoint
  single a ha := by
    rw [min_comm, max_comm] at ha
    exact h.single a ha
  near point hpoint := by
    have hnear := h.near point hpoint
    rwa [offset_swap, mul_neg, abs_neg, abs_sub_comm] at hnear

/-- A digital line shows its line. -/
theorem line_set_follows {steep : Bool} {x0 y0 x1 y1 : Int} (hx : x0 ≤ x1)
    (hlonger : |y1 - y0| ≤ x1 - x0) :
    Follows steep x0 y0 x1 y1
      (lineSet g steep x0 y0 (x1 - x0) |y1 - y0| (if y0 < y1 then 1 else -1) 0) := by
  have hdy := And.intro (abs_nonneg (y1 - y0)) hlonger
  constructor
  case first =>
    refine fun point hpoint => ⟨0, ⟨le_rfl, by omega⟩, ?_⟩
    rwa [climb_zero hdy, mul_zero, add_zero, add_zero]
  case second =>
    refine fun point hpoint => ⟨x1 - x0, ⟨by omega, le_rfl⟩, ?_⟩
    rwa [climb_last hdy, direction_mul_abs, add_sub_cancel, add_sub_cancel]
  case between =>
    rintro point ⟨j, hj, hpoint⟩
    rw [(mem_along.mp hpoint).1]
    omega
  case single =>
    intro a ha
    refine ⟨_, fun point hplace => ⟨?_, fun hrow => ⟨a - x0, ⟨by omega, by omega⟩,
      mem_along.mpr ⟨by omega, hrow⟩⟩⟩⟩
    rintro ⟨j, hj, hpoint⟩
    rw [(mem_along.mp hpoint).2, show j = a - x0 by
      have hcolumn := (mem_along.mp hpoint).1
      omega]
  case near =>
    rintro point ⟨j, hj, hpoint⟩
    have hclimb := climb_near hdy j
    have hoffset : offset x0 y0 x1 y1 (x0 + j)
        (y0 + (if y0 < y1 then 1 else -1) * climb (x1 - x0) |y1 - y0| j) =
        (if y0 < y1 then 1 else -1) *
          ((x1 - x0) * climb (x1 - x0) |y1 - y0| j - |y1 - y0| * j) := by
      unfold offset
      linear_combination j * direction_mul_abs y0 y1
    rw [(mem_along.mp hpoint).1, (mem_along.mp hpoint).2, hoffset,
      abs_of_nonneg (a := x1 - x0) (by omega), abs_le]
    split <;> omega

/-- The points of the line between two points show it, along the axis on which it is longer. -/
theorem line_through_follows (g : Geometry) (x0 y0 x1 y1 : Int) :
    if |x1 - x0| < |y1 - y0| then Follows true y0 x0 y1 x1 (lineThrough g x0 y0 x1 y1)
    else Follows false x0 y0 x1 y1 (lineThrough g x0 y0 x1 y1) := by
  unfold lineThrough
  by_cases hsteep : |x1 - x0| < |y1 - y0|
  · simp only [hsteep, decide_true, if_true]
    by_cases hswap : y1 < y0
    · simp only [if_pos hswap]
      rw [abs_of_neg (a := y1 - y0) (by omega)] at hsteep
      exact (line_set_follows hswap.le (by rw [abs_sub_comm]; omega)).swap
    · simp only [if_neg hswap]
      rw [abs_of_nonneg (a := y1 - y0) (by omega)] at hsteep
      exact line_set_follows (by omega) hsteep.le
  · simp only [hsteep, decide_false, Bool.false_eq_true, if_false]
    by_cases hswap : x1 < x0
    · simp only [if_pos hswap]
      rw [abs_of_neg (a := x1 - x0) (by omega)] at hsteep
      exact (line_set_follows hswap.le (by rw [abs_sub_comm]; omega)).swap
    · simp only [if_neg hswap]
      rw [abs_of_nonneg (a := x1 - x0) (by omega)] at hsteep
      exact line_set_follows (by omega) (by omega)

/-- With coordinates whose differences are `int16_t`, `OLEDDisplay_drawLine` ends, never leaves the
buffer, and inks one point at each place along the axis on which the line is longer, both ends
among them and none more than half a pixel off the line. -/
theorem draw_line_inks (color : Color) {x0 y0 x1 y1 : Int} (hx0 : -16384 ≤ x0 ∧ x0 ≤ 16383)
    (hy0 : -16384 ≤ y0 ∧ y0 ≤ 16383) (hx1 : -16384 ≤ x1 ∧ x1 ≤ 16383)
    (hy1 : -16384 ≤ y1 ∧ y1 ≤ 16383) {fuel : Nat} (hfuel : 32769 ≤ fuel) :
    ∃ line : Set (Point g),
      (Stamps Frame.pixel color.ink line fun b => b.drawLine fuel color x0 y0 x1 y1) ∧
        if |x1 - x0| < |y1 - y0| then Follows true y0 x0 y1 x1 line
        else Follows false x0 y0 x1 y1 line :=
  ⟨_, draw_line_stamps color hx0 hy0 hx1 hy1 hfuel, line_through_follows g x0 y0 x1 y1⟩

/-- A steep line that starts off the screen and goes up to the left. -/
theorem draw_line_inks_steep :
    ∃ line : Set (Point .geometry128x64),
      (Stamps Frame.pixel Color.white.ink line fun b => b.drawLine 32769 .white 30 70 (-10) 5) ∧
        if |(-10 : Int) - 30| < |(5 : Int) - 70| then Follows true 70 30 5 (-10) line
        else Follows false 30 70 (-10) 5 line :=
  draw_line_inks .white (by decide) (by decide) (by decide) (by decide) le_rfl

end SaiyuanClock
