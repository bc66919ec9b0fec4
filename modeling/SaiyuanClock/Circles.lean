import SaiyuanClock.Library.DigitalCircle
import SaiyuanClock.Strokes

/-!
# Circles

`OLEDDisplay_drawCircle`, `OLEDDisplay_drawCircleQuads` and `OLEDDisplay_fillCircle` go through the
columns of an octant with the same loop and draw its mirror images: all of them, those in some
quadrants, or lines between them. What they ink is given by the digital circle.
-/

namespace SaiyuanClock

open Drawing DigitalCircle

variable {g : Geometry}

/-! ## The functions -/

/-- `x`, `y` and `dp` after the first statement of the loop of the three functions. -/
def circleStep (x y dp : Int) : Int × Int × Int :=
  if dp < 0 then (int16 (x + 1), y, int16 (dp + x * 2 + 3))
  else (int16 (x + 1), int16 (y - 1), int16 (dp + x * 2 - y * 2 + 5))

/-- The `do` loop of `OLEDDisplay_drawCircle` and of `OLEDDisplay_fillCircle` for at most `fuel`
rounds. -/
def Frame.doCircle (body : Int → Int → Frame g → Option (Frame g)) :
    Nat → Int → Int → Int → Frame g → Option (Frame g)
  | 0, _, _, _, _ => none
  | fuel + 1, x, y, dp, b =>
      let next := circleStep x y dp
      (body next.1 next.2.1 b).bind fun b =>
        if next.1 < next.2.1 then doCircle body fuel next.1 next.2.1 next.2.2 b else some b

/-- The `while` loop of `OLEDDisplay_drawCircleQuads` for at most `fuel` tests. -/
def Frame.whileCircle (body : Int → Int → Frame g → Option (Frame g)) :
    Nat → Int → Int → Int → Frame g → Option (Frame g)
  | 0, _, _, _, _ => none
  | fuel + 1, x, y, dp, b =>
      if x < y then
        let next := circleStep x y dp
        (body next.1 next.2.1 b).bind (whileCircle body fuel next.1 next.2.1 next.2.2)
      else some b

/-- Calls of `OLEDDisplay_setPixel` at places around a point. -/
def Frame.setAround (color : Color) (x0 y0 : Int) (offsets : List (Int × Int)) (b : Frame g) :
    Option (Frame g) :=
  offsets.foldlM (fun (b : Frame g) p =>
    b.setPixelColor color (int16 (x0 + p.1)) (int16 (y0 + p.2))) b

/-- `OLEDDisplay_drawCircle` for at most `fuel` rounds of its loop. -/
def Frame.drawCircle (fuel : Nat) (color : Color) (x0 y0 radius : Int) (b : Frame g) :
    Option (Frame g) :=
  (b.doCircle (fun x y b => b.setAround color x0 y0 (mirrors x y)) fuel 0 radius
    (int16 (1 - radius))).bind fun b =>
      b.setAround color x0 y0 [(radius, 0), (0, radius), (-radius, 0), (0, -radius)]

/-- The places of a round of `OLEDDisplay_drawCircleQuads`. -/
def quadMirrors (quads : UInt8) (x y : Int) : List (Int × Int) :=
  (if bit quads 0 then [(x, -y), (y, -x)] else []) ++
  (if bit quads 1 then [(-y, -x), (-x, -y)] else []) ++
  (if bit quads 2 then [(-y, x), (-x, y)] else []) ++
  (if bit quads 3 then [(x, y), (y, x)] else [])

/-- The places where `OLEDDisplay_drawCircleQuads` closes two quadrants beside each other. -/
def quadEnds (quads : UInt8) (radius : Int) : List (Int × Int) :=
  (if bit quads 0 ∧ bit quads 3 then [(radius, 0)] else []) ++
  (if bit quads 2 ∧ bit quads 3 then [(0, radius)] else []) ++
  (if bit quads 1 ∧ bit quads 2 then [(-radius, 0)] else []) ++
  (if bit quads 0 ∧ bit quads 1 then [(0, -radius)] else [])

/-- `OLEDDisplay_drawCircleQuads` for at most `fuel` tests of its loop. -/
def Frame.drawCircleQuads (fuel : Nat) (color : Color) (x0 y0 radius : Int) (quads : UInt8)
    (b : Frame g) : Option (Frame g) :=
  (b.whileCircle (fun x y b => b.setAround color x0 y0 (quadMirrors quads x y)) fuel 0 radius
    (int16 (1 - radius))).bind fun b => b.setAround color x0 y0 (quadEnds quads radius)

/-- The calls of `OLEDDisplay_drawHorizontalLine` of a round of `OLEDDisplay_fillCircle`. -/
def Frame.drawSpans (color : Color) (x0 y0 x y : Int) (b : Frame g) : Option (Frame g) :=
  (b.drawHorizontalLine color (int16 (x0 - x)) (int16 (y0 - y)) (int16 (2 * x))).bind fun b =>
    (b.drawHorizontalLine color (int16 (x0 - x)) (int16 (y0 + y)) (int16 (2 * x))).bind fun b =>
      (b.drawHorizontalLine color (int16 (x0 - y)) (int16 (y0 - x)) (int16 (2 * y))).bind fun b =>
        b.drawHorizontalLine color (int16 (x0 - y)) (int16 (y0 + x)) (int16 (2 * y))

/-- `OLEDDisplay_fillCircle` for at most `fuel` rounds of its loop. -/
def Frame.fillCircle (fuel : Nat) (color : Color) (x0 y0 radius : Int) (b : Frame g) :
    Option (Frame g) :=
  (b.doCircle (Frame.drawSpans color x0 y0) fuel 0 radius (int16 (1 - radius))).bind fun b =>
    b.drawHorizontalLine color (int16 (x0 - radius)) y0 (int16 (2 * radius))

/-! ## The loop -/

/-- Where the column is less than the row the two loops are the same. -/
theorem do_circle_eq (body : Int → Int → Frame g → Option (Frame g)) (fuel : Nat) {x y : Int}
    (h : x < y) (dp : Int) (b : Frame g) :
    b.doCircle body fuel x y dp = b.whileCircle body (fuel + 1) x y dp := by
  induction fuel generalizing x y dp b with
  | zero =>
      rw [Frame.doCircle, Frame.whileCircle, if_pos h]
      exact (Option.bind_fun_none _).symm
  | succ fuel ih =>
      rw [Frame.doCircle, Frame.whileCircle, if_pos h]
      congr 1
      funext b
      split
      · exact ih ‹_› _ b
      · rw [Frame.whileCircle, if_neg ‹_›]

variable {r : Int}

/-- In a circle that is not too large nothing wraps around, and the loop goes to the next column. -/
theorem circle_step_eq (hr : 0 < r ∧ r ≤ 16382) {i : Nat} (hreached : Reached r i)
    (hi : (i : Int) < height r i) :
    circleStep i (height r i) (test r i) =
      (((i + 1 : Nat) : Int), height r (i + 1), test r (i + 1)) := by
  have hnext := reached_succ.mpr ⟨hreached, hi⟩
  have hcolumn := reached_le hr.1 hnext
  have htest := test_bounds hr.1 hnext
  have hlow := height_nonneg hr.1 hnext
  have hhigh := height_le r (i + 1)
  rw [test_succ] at htest ⊢
  rw [height_succ] at hlow hhigh ⊢
  push_cast at hcolumn ⊢
  unfold circleStep
  split
  · rw [if_pos ‹_›] at htest
    rw [int16_eq_self ⟨by omega, by omega⟩, int16_eq_self ⟨by omega, by omega⟩]
  · rw [if_neg ‹_›] at htest hlow hhigh
    rw [int16_eq_self ⟨by omega, by omega⟩, int16_eq_self ⟨by omega, by omega⟩,
      int16_eq_self ⟨by omega, by omega⟩]

/-- The loop draws what its body draws for every column it comes to. -/
theorem while_circle_stamps {color : Color} (hcolor : color ≠ .inverse) (hr : 0 < r ∧ r ≤ 16382)
    {body : Int → Int → Frame g → Option (Frame g)} (shape : Int → Int → Set (Point g))
    (hbody : ∀ i, 0 < i → Reached r i → Stamps Frame.pixel color.ink (shape i (height r i))
      fun b => body i (height r i) b)
    {i : Nat} (hreached : Reached r i) {fuel : Nat} (hfuel : r - i < fuel) :
    Stamps Frame.pixel color.ink {point | ∃ j, i < j ∧ Reached r j ∧ point ∈ shape j (height r j)}
      fun b => b.whileCircle body fuel i (height r i) (test r i) := by
  induction fuel generalizing i with
  | zero =>
      have hcolumn := reached_le hr.1 hreached
      exact absurd hfuel (by push_cast; omega)
  | succ fuel ih =>
      by_cases hmore : (i : Int) < height r i
      · have hnext := reached_succ.mpr ⟨hreached, hmore⟩
        simp only [Frame.whileCircle, if_pos hmore, circle_step_eq hr hreached hmore]
        refine ((hbody (i + 1) (Nat.succ_pos i) hnext).seq_idempotent (Color.ink_ink hcolor)
          (ih hnext (by push_cast at hfuel ⊢; omega))).congr ?_
        ext point
        simp only [Set.mem_union, Set.mem_ofPred_eq]
        constructor
        · rintro (hpoint | ⟨j, hj, hrest⟩)
          · exact ⟨i + 1, Nat.lt_succ_self i, hnext, hpoint⟩
          · exact ⟨j, Nat.lt_of_succ_lt hj, hrest⟩
        · rintro ⟨j, hj, hj', hpoint⟩
          rcases Nat.eq_or_lt_of_le (Nat.succ_le_of_lt hj) with rfl | hlt
          · exact .inl hpoint
          · exact .inr ⟨j, hlt, hj', hpoint⟩
      · simp only [Frame.whileCircle, if_neg hmore]
        refine Stamps.skip.congr ?_
        ext point
        simp only [Set.mem_empty_iff_false, Set.mem_ofPred_eq, false_iff]
        rintro ⟨j, hj, hj', -⟩
        exact hmore (hj' i hj)

/-- The loop from its start. -/
theorem while_circle_start {color : Color} (hcolor : color ≠ .inverse) (hr : 0 < r ∧ r ≤ 16382)
    (body : Int → Int → Frame g → Option (Frame g)) (shape : Int → Int → Set (Point g))
    (hbody : ∀ i, 0 < i → Reached r i → Stamps Frame.pixel color.ink (shape i (height r i))
      fun b => body i (height r i) b) (fuel : Nat) (hfuel : r < fuel) :
    Stamps Frame.pixel color.ink {point | ∃ j, 0 < j ∧ Reached r j ∧ point ∈ shape j (height r j)}
      fun b => b.whileCircle body fuel 0 r (int16 (1 - r)) := by
  have hstart : r - (0 : Nat) < fuel := by
    push_cast
    omega
  have hloop := while_circle_stamps hcolor hr shape hbody (reached_zero r) hstart
  rwa [test_zero, Nat.cast_zero, ← int16_eq_self (n := 1 - r) ⟨by omega, by omega⟩] at hloop

/-! ## What is inked -/

/-- The points of the screen at some places around a point. -/
def around (g : Geometry) (x0 y0 : Int) (offsets : Set (Int × Int)) : Set (Point g) :=
  {point | ((point.1 : Int) - x0, (point.2 : Int) - y0) ∈ offsets}

variable {color : Color} {x0 y0 : Int}

/-- Setting pixels around a point inks them. -/
theorem set_around_stamps (hcolor : color ≠ .inverse) (hx0 : -16384 ≤ x0 ∧ x0 ≤ 16383)
    (hy0 : -16384 ≤ y0 ∧ y0 ≤ 16383) {offsets : List (Int × Int)}
    (h : ∀ p ∈ offsets, |p.1| ≤ 16382 ∧ |p.2| ≤ 16382) :
    Stamps Frame.pixel color.ink (around g x0 y0 {p | p ∈ offsets}) fun b =>
      b.setAround color x0 y0 offsets := by
  refine (Stamps.foldlM_idempotent (Color.ink_ink hcolor)
    (fun p : Int × Int => dot g (x0 + p.1) (y0 + p.2)) offsets fun p hp => ?_).congr ?_
  · obtain ⟨hx, hy⟩ := h p hp
    rw [abs_le] at hx hy
    have hxPos : int16 (x0 + p.1) = x0 + p.1 := int16_eq_self ⟨by omega, by omega⟩
    have hyPos : int16 (y0 + p.2) = y0 + p.2 := int16_eq_self ⟨by omega, by omega⟩
    simp only [hxPos, hyPos]
    exact set_pixel_color_stamps color _ _
  · ext point
    simp only [around, dot, Set.mem_ofPred_eq]
    constructor
    · rintro ⟨p, hp, hx, hy⟩
      rwa [hx, hy, add_sub_cancel_left, add_sub_cancel_left]
    · exact fun hmem => ⟨_, hmem, by omega, by omega⟩

/-- Places that the loop finds are inked around the center. -/
theorem circle_set_around {radius : Int} (hr : 0 < radius ∧ radius ≤ 16382)
    (hcolor : color ≠ .inverse) (hx0 : -16384 ≤ x0 ∧ x0 ≤ 16383)
    (hy0 : -16384 ≤ y0 ∧ y0 ≤ 16383) {i : Nat} (hreached : Reached radius i)
    {offsets : List (Int × Int)} (h : ∀ p ∈ offsets, p ∈ mirrors i (height radius i)) :
    Stamps Frame.pixel color.ink (around g x0 y0 {p | p ∈ offsets}) fun b =>
      b.setAround color x0 y0 offsets :=
  set_around_stamps hcolor hx0 hy0 fun p hp =>
    (mirrors_le hr.1 hreached (h p hp)).imp (le_trans · hr.2) (le_trans · hr.2)

/-- `OLEDDisplay_drawCircle` ends, never leaves the buffer and inks the points of the digital circle
that are on the screen; and the digital circle shows the circle. -/
theorem draw_circle_inks {radius : Int} (hr : 0 < radius ∧ radius ≤ 16382)
    (hcolor : color ≠ .inverse) (hx0 : -16384 ≤ x0 ∧ x0 ≤ 16383)
    (hy0 : -16384 ≤ y0 ∧ y0 ≤ 16383) {fuel : Nat} (hfuel : radius ≤ fuel) :
    (Stamps Frame.pixel color.ink (around g x0 y0 (circle radius)) fun b =>
      b.drawCircle fuel color x0 y0 radius) ∧ Round radius (circle radius) := by
  refine ⟨?_, circle_round hr.1⟩
  have hends : ∀ p : Int × Int, p ∈ [(radius, 0), (0, radius), (-radius, 0), (0, -radius)] ↔
      p ∈ mirrors 0 radius := by
    rintro ⟨a, b⟩
    simp only [mirrors, List.mem_cons, List.not_mem_nil, or_false, Prod.mk.injEq, neg_zero]
    tauto
  have hloop := while_circle_start (g := g) hcolor hr
    (fun x y b => b.setAround color x0 y0 (mirrors x y))
    (fun x y => around g x0 y0 {p | p ∈ mirrors x y})
    (fun i _ hreached => circle_set_around hr hcolor hx0 hy0 hreached fun _ hp => hp)
    (fuel + 1) (by push_cast; omega)
  have hlast := circle_set_around (g := g) hr hcolor hx0 hy0 (reached_zero radius)
    fun p hp => (hends p).mp hp
  simp only [Frame.drawCircle, do_circle_eq _ fuel hr.1]
  refine (hloop.seq_idempotent (Color.ink_ink hcolor) hlast).congr ?_
  ext point
  simp only [around, Set.mem_union, Set.mem_ofPred_eq, hends, mem_circle]

/-- A small circle in the corner of the screen. -/
theorem draw_circle_inks_corner :
    (Stamps Frame.pixel Color.white.ink (around .geometry128x64 0 63 (circle 5)) fun b =>
      b.drawCircle 5 .white 0 63 5) ∧ Round 5 (circle 5) :=
  draw_circle_inks ⟨by decide, by decide⟩ (by decide) ⟨by decide, by decide⟩
    ⟨by decide, by decide⟩ le_rfl

/-- Every quadrant that a place is in, or on the edge of, is selected. -/
structure Selected (quads : UInt8) (p : Int × Int) : Prop where
  upperRight : 0 ≤ p.1 ∧ p.2 ≤ 0 → bit quads 0
  upperLeft : p.1 ≤ 0 ∧ p.2 ≤ 0 → bit quads 1
  lowerLeft : p.1 ≤ 0 ∧ 0 ≤ p.2 → bit quads 2
  lowerRight : 0 ≤ p.1 ∧ 0 ≤ p.2 → bit quads 3

/-- A place inside a quadrant is in no other. -/
theorem selected_inside (quads : UInt8) {p : Int × Int} (h : p.1 ≠ 0 ∧ p.2 ≠ 0) :
    Selected quads p ↔
      ((bit quads 0 ∧ 0 < p.1 ∧ p.2 < 0 ∨ bit quads 1 ∧ p.1 < 0 ∧ p.2 < 0) ∨
        bit quads 2 ∧ p.1 < 0 ∧ 0 < p.2) ∨ bit quads 3 ∧ 0 < p.1 ∧ 0 < p.2 := by
  constructor
  · rintro ⟨h0, h1, h2, h3⟩
    rcases lt_or_gt_of_ne h.1 with hx | hx <;> rcases lt_or_gt_of_ne h.2 with hy | hy
    · exact .inl (.inl (.inr ⟨h1 ⟨hx.le, hy.le⟩, hx, hy⟩))
    · exact .inl (.inr ⟨h2 ⟨hx.le, hy.le⟩, hx, hy⟩)
    · exact .inl (.inl (.inl ⟨h0 ⟨hx.le, hy.le⟩, hx, hy⟩))
    · exact .inr ⟨h3 ⟨hx.le, hy.le⟩, hx, hy⟩
  · rintro (((⟨hbit, hx, hy⟩ | ⟨hbit, hx, hy⟩) | ⟨hbit, hx, hy⟩) | ⟨hbit, hx, hy⟩)
    · exact ⟨fun _ => hbit, by omega, by omega, by omega⟩
    · exact ⟨by omega, fun _ => hbit, by omega, by omega⟩
    · exact ⟨by omega, by omega, fun _ => hbit, by omega⟩
    · exact ⟨by omega, by omega, by omega, fun _ => hbit⟩

/-- Of the mirror images of a point inside a quadrant those in the selected quadrants are drawn. -/
theorem mem_quad_mirrors (quads : UInt8) {x y : Int} (hx : 0 < x) (hy : 0 < y) (p : Int × Int) :
    p ∈ quadMirrors quads x y ↔ p ∈ mirrors x y ∧ Selected quads p := by
  obtain ⟨a, b⟩ := p
  rw [mem_mirrors, abs_of_pos hx, abs_of_pos hy]
  -- The two places of each line of the source are those of its quadrant.
  have hcorners :
      (a = x ∧ b = -y ∨ a = y ∧ b = -x ↔
        (|a| = x ∧ |b| = y ∨ |a| = y ∧ |b| = x) ∧ 0 < a ∧ b < 0) ∧
      (a = -y ∧ b = -x ∨ a = -x ∧ b = -y ↔
        (|a| = x ∧ |b| = y ∨ |a| = y ∧ |b| = x) ∧ a < 0 ∧ b < 0) ∧
      (a = -y ∧ b = x ∨ a = -x ∧ b = y ↔
        (|a| = x ∧ |b| = y ∨ |a| = y ∧ |b| = x) ∧ a < 0 ∧ 0 < b) ∧
      (a = x ∧ b = y ∨ a = y ∧ b = x ↔
        (|a| = x ∧ |b| = y ∨ |a| = y ∧ |b| = x) ∧ 0 < a ∧ 0 < b) := by
    rcases abs_cases a with ⟨ha, ha'⟩ | ⟨ha, ha'⟩ <;>
      rcases abs_cases b with ⟨hb, hb'⟩ | ⟨hb, hb'⟩ <;> rw [ha, hb] <;>
        refine ⟨?_, ?_, ?_, ?_⟩ <;> omega
  obtain ⟨h0, h1, h2, h3⟩ := hcorners
  simp only [quadMirrors, List.mem_append, List.mem_ite_nil_right, List.mem_cons,
    List.not_mem_nil, or_false, Prod.mk.injEq, h0, h1, h2, h3]
  by_cases hmirrors : |a| = x ∧ |b| = y ∨ |a| = y ∧ |b| = x
  · have hinside : a ≠ 0 ∧ b ≠ 0 := by
      rw [← abs_pos, ← abs_pos]
      omega
    rw [selected_inside quads hinside]
    simp only [hmirrors, true_and]
  · simp only [hmirrors, false_and, and_false, or_self]

/-- The four ends of the axes are drawn where both quadrants beside them are selected. -/
theorem mem_quad_ends (quads : UInt8) (hr : 0 < r) (p : Int × Int) :
    p ∈ quadEnds quads r ↔ p ∈ mirrors 0 r ∧ Selected quads p := by
  obtain ⟨a, b⟩ := p
  have hends : (a, b) ∈ mirrors 0 r ↔
      ((a = r ∧ b = 0 ∨ a = 0 ∧ b = r) ∨ a = -r ∧ b = 0) ∨ a = 0 ∧ b = -r := by
    rw [mem_mirrors, abs_of_pos hr]
    simp only [abs_zero, abs_eq_zero, abs_eq hr.le]
    tauto
  rw [hends]
  simp only [quadEnds, List.mem_append, List.mem_ite_nil_right, List.mem_singleton,
    Prod.mk.injEq]
  constructor
  · rintro (((⟨⟨hbit, hbit'⟩, h⟩ | ⟨⟨hbit, hbit'⟩, h⟩) | ⟨⟨hbit, hbit'⟩, h⟩) | ⟨⟨hbit, hbit'⟩, h⟩)
    · exact ⟨.inl (.inl (.inl h)), fun _ => hbit, by omega, by omega, fun _ => hbit'⟩
    · exact ⟨.inl (.inl (.inr h)), by omega, by omega, fun _ => hbit, fun _ => hbit'⟩
    · exact ⟨.inl (.inr h), by omega, fun _ => hbit, fun _ => hbit', by omega⟩
    · exact ⟨.inr h, fun _ => hbit, fun _ => hbit', by omega, by omega⟩
  · rintro ⟨((h | h) | h) | h, hselected⟩
    · exact .inl (.inl (.inl ⟨⟨hselected.upperRight (by omega),
        hselected.lowerRight (by omega)⟩, h⟩))
    · exact .inl (.inl (.inr ⟨⟨hselected.lowerLeft (by omega),
        hselected.lowerRight (by omega)⟩, h⟩))
    · exact .inl (.inr ⟨⟨hselected.upperLeft (by omega), hselected.lowerLeft (by omega)⟩, h⟩)
    · exact .inr ⟨⟨hselected.upperRight (by omega), hselected.upperLeft (by omega)⟩, h⟩

/-- `OLEDDisplay_drawCircleQuads` ends, never leaves the buffer and inks those points of the digital
circle whose quadrants are selected, an end of an axis if both quadrants beside it are. -/
theorem draw_circle_quads_inks {radius : Int} (hr : 1 < radius ∧ radius ≤ 16382)
    (hcolor : color ≠ .inverse) (hx0 : -16384 ≤ x0 ∧ x0 ≤ 16383)
    (hy0 : -16384 ≤ y0 ∧ y0 ≤ 16383) (quads : UInt8) {fuel : Nat} (hfuel : radius < fuel) :
    Stamps Frame.pixel color.ink
      (around g x0 y0 {p | p ∈ circle radius ∧ Selected quads p}) fun b =>
        b.drawCircleQuads fuel color x0 y0 radius quads := by
  have hpos : 0 < radius ∧ radius ≤ 16382 := ⟨by omega, hr.2⟩
  have hmem : ∀ i, 0 < i → Reached radius i → ∀ p, p ∈ quadMirrors quads i (height radius i) ↔
      p ∈ mirrors i (height radius i) ∧ Selected quads p := fun i hi hreached =>
    mem_quad_mirrors quads (Int.natCast_pos.mpr hi) (height_pos hr.1 hreached)
  have hloop := while_circle_start (g := g) hcolor hpos
    (fun x y b => b.setAround color x0 y0 (quadMirrors quads x y))
    (fun x y => around g x0 y0 {p | p ∈ quadMirrors quads x y})
    (fun i hi hreached => circle_set_around hpos hcolor hx0 hy0 hreached fun p hp =>
      ((hmem i hi hreached p).mp hp).1) fuel hfuel
  have hlast := circle_set_around (g := g) hpos hcolor hx0 hy0 (reached_zero radius)
    fun p hp => ((mem_quad_ends quads hpos.1 p).mp hp).1
  refine (hloop.seq_idempotent (Color.ink_ink hcolor) hlast).congr ?_
  ext point
  simp only [around, Set.mem_union, Set.mem_ofPred_eq, mem_quad_ends quads hpos.1, mem_circle]
  constructor
  · rintro (⟨i, hi, hreached, h⟩ | h)
    · exact ⟨.inl ⟨i, hi, hreached, ((hmem i hi hreached _).mp h).1⟩,
        ((hmem i hi hreached _).mp h).2⟩
    · exact ⟨.inr h.1, h.2⟩
  · rintro ⟨⟨i, hi, hreached, h⟩ | h, hselected⟩
    · exact .inl ⟨i, hi, hreached, (hmem i hi hreached _).mpr ⟨h, hselected⟩⟩
    · exact .inr ⟨h, hselected⟩

/-- The upper half of a circle, with the points at its left and right. -/
theorem draw_circle_quads_inks_upper :
    Stamps Frame.pixel Color.black.ink
      (around .geometry64x48 30 30 {p | p ∈ circle 8 ∧ Selected 3 p}) fun b =>
        b.drawCircleQuads 9 .black 30 30 8 3 :=
  draw_circle_quads_inks ⟨by decide, by decide⟩ (by decide) ⟨by decide, by decide⟩
    ⟨by decide, by decide⟩ 3 (by decide)

/-! ## Filling -/

/-- The places between the mirror images of a point, from the left one on and without the right
one. -/
def spans (x y : Int) : Set (Int × Int) := {p | ∃ a, (a, p.2) ∈ mirrors x y ∧ -a ≤ p.1 ∧ p.1 < a}

/-- The lines of a round of `OLEDDisplay_fillCircle` lie between the mirror images. -/
theorem mem_spans {x y : Int} (hx : 0 ≤ x) (hy : 0 ≤ y) (p : Int × Int) :
    p ∈ spans x y ↔
      (-x ≤ p.1 ∧ p.1 < x) ∧ (p.2 = -y ∨ p.2 = y) ∨
        (-y ≤ p.1 ∧ p.1 < y) ∧ (p.2 = -x ∨ p.2 = x) := by
  simp only [spans, Set.mem_ofPred_eq, mem_mirrors, abs_of_nonneg hx, abs_of_nonneg hy, abs_eq hx,
    abs_eq hy]
  constructor
  · rintro ⟨a, h, hleft, hright⟩
    omega
  · rintro (⟨hcolumn, hrow⟩ | ⟨hcolumn, hrow⟩)
    · exact ⟨x, by omega, hcolumn⟩
    · exact ⟨y, by omega, hcolumn⟩

/-- A horizontal line that reaches as far to the left of the center as to the right inks its
points, the last one not among them. -/
theorem draw_span_stamps (color : Color) (hx0 : -16384 ≤ x0 ∧ x0 ≤ 16383)
    (hy0 : -16384 ≤ y0 ∧ y0 ≤ 16383) {w h : Int} (hw : 0 ≤ w ∧ w ≤ 16382)
    (hh : -16382 ≤ h ∧ h ≤ 16382) :
    Stamps Frame.pixel color.ink (around g x0 y0 {p | (-w ≤ p.1 ∧ p.1 < w) ∧ p.2 = h}) fun b =>
      b.drawHorizontalLine color (int16 (x0 - w)) (int16 (y0 + h)) (int16 (2 * w)) := by
  have hleft : int16 (x0 - w) = x0 - w := int16_eq_self ⟨by omega, by omega⟩
  have hrow : int16 (y0 + h) = y0 + h := int16_eq_self ⟨by omega, by omega⟩
  have hlength : int16 (2 * w) = 2 * w := int16_eq_self ⟨by omega, by omega⟩
  rw [hleft, hrow, hlength]
  refine (draw_horizontal_line_stamps color _ _ _ ⟨by omega, by omega⟩).congr ?_
  ext point
  simp only [horizontal, around, Set.mem_ofPred_eq]
  omega

/-- A round of `OLEDDisplay_fillCircle` inks the places between the mirror images of its point. -/
theorem draw_spans_stamps (hcolor : color ≠ .inverse) (hx0 : -16384 ≤ x0 ∧ x0 ≤ 16383)
    (hy0 : -16384 ≤ y0 ∧ y0 ≤ 16383) {x y : Int} (hx : 0 ≤ x ∧ x ≤ 16382)
    (hy : 0 ≤ y ∧ y ≤ 16382) :
    Stamps Frame.pixel color.ink (around g x0 y0 (spans x y)) fun b =>
      b.drawSpans color x0 y0 x y := by
  have hink := Color.ink_ink hcolor
  have habove := draw_span_stamps (g := g) color hx0 hy0 hx (h := -y) ⟨by omega, by omega⟩
  have hbelow := draw_span_stamps (g := g) color hx0 hy0 hx (h := y) ⟨by omega, by omega⟩
  have habove' := draw_span_stamps (g := g) color hx0 hy0 hy (h := -x) ⟨by omega, by omega⟩
  have hbelow' := draw_span_stamps (g := g) color hx0 hy0 hy (h := x) ⟨by omega, by omega⟩
  rw [← sub_eq_add_neg] at habove habove'
  refine (habove.seq_idempotent hink (hbelow.seq_idempotent hink
    (habove'.seq_idempotent hink hbelow'))).congr ?_
  ext point
  simp only [around, Set.mem_union, Set.mem_ofPred_eq, mem_spans hx.1 hy.1]
  tauto

/-- `OLEDDisplay_fillCircle` ends, never leaves the buffer, and inks every row between the points
that `OLEDDisplay_drawCircle` draws in it, the left one among them and the right one not. -/
theorem fill_circle_inks {radius : Int} (hr : 0 < radius ∧ radius ≤ 16382)
    (hcolor : color ≠ .inverse) (hx0 : -16384 ≤ x0 ∧ x0 ≤ 16383)
    (hy0 : -16384 ≤ y0 ∧ y0 ≤ 16383) {fuel : Nat} (hfuel : radius ≤ fuel) :
    Stamps Frame.pixel color.ink
      (around g x0 y0 {p | ∃ a, (a, p.2) ∈ circle radius ∧ -a ≤ p.1 ∧ p.1 < a}) fun b =>
        b.fillCircle fuel color x0 y0 radius := by
  have hloop := while_circle_start (g := g) hcolor hr (Frame.drawSpans color x0 y0)
    (fun x y => around g x0 y0 (spans x y))
    (fun i _ hreached => draw_spans_stamps hcolor hx0 hy0
      ⟨Int.natCast_nonneg i, (reached_le hr.1 hreached).trans hr.2⟩
      ⟨height_nonneg hr.1 hreached, (height_le radius i).trans hr.2⟩)
    (fuel + 1) (by push_cast; omega)
  have hlast := draw_span_stamps (g := g) color hx0 hy0 ⟨hr.1.le, hr.2⟩ (h := 0)
    ⟨by decide, by decide⟩
  rw [add_zero, int16_eq_self (n := y0) ⟨by omega, by omega⟩] at hlast
  have hmiddle : ∀ p : Int × Int, p ∈ spans 0 radius ↔
      (-radius ≤ p.1 ∧ p.1 < radius) ∧ p.2 = 0 := fun p => by
    rw [mem_spans le_rfl hr.1.le]
    omega
  simp only [Frame.fillCircle, do_circle_eq _ fuel hr.1]
  refine (hloop.seq_idempotent (Color.ink_ink hcolor) hlast).congr ?_
  ext point
  simp only [around, Set.mem_union, Set.mem_ofPred_eq, ← hmiddle, spans, mem_circle]
  constructor
  · rintro (⟨i, hi, hreached, a, hmem, hbetween⟩ | ⟨a, hmem, hbetween⟩)
    · exact ⟨a, .inl ⟨i, hi, hreached, hmem⟩, hbetween⟩
    · exact ⟨a, .inr hmem, hbetween⟩
  · rintro ⟨a, ⟨i, hi, hreached, hmem⟩ | hmem, hbetween⟩
    · exact .inl ⟨i, hi, hreached, a, hmem, hbetween⟩
    · exact .inr ⟨a, hmem, hbetween⟩

/-- A filled circle that is cut off by the edge of the screen. -/
theorem fill_circle_inks_edge :
    Stamps Frame.pixel Color.white.ink
      (around .geometry128x32 127 16 {p | ∃ a, (a, p.2) ∈ circle 10 ∧ -a ≤ p.1 ∧ p.1 < a}) fun b =>
        b.fillCircle 10 .white 127 16 10 :=
  fill_circle_inks ⟨by decide, by decide⟩ (by decide) ⟨by decide, by decide⟩
    ⟨by decide, by decide⟩ le_rfl

end SaiyuanClock
