import SaiyuanClock.Display

/-!
# Lines and rectangles

The horizontal and vertical lines of the display driver clip their arguments and then write bytes:
a horizontal line one bit of each byte, a vertical line the rest of a page, whole pages and the
start of a page. Both ink exactly the points of the line that are on the screen, as if they were
set one by one.
-/

namespace SaiyuanClock

open Drawing

variable {g : Geometry}

/-- The conversion to `int16_t`. -/
def int16 (n : Int) : Int := (n + 32768) % 65536 - 32768

/-- The conversion keeps the values of `int16_t`. -/
theorem int16_eq_self {n : Int} (h : -32768 ≤ n ∧ n < 32768) : int16 n = n := by
  unfold int16
  omega

/-- The first position and the length of a line that starts at `start`, cut to the positions from
zero to below `limit`. -/
def clip (start length limit : Int) : Int × Int :=
  let rest := if start < 0 then int16 (length + start) else length
  let first := if start < 0 then 0 else start
  (first, if first + rest > limit then limit - first else rest)

/-- `OLEDDisplay_drawHorizontalLine`. -/
def Frame.drawHorizontalLine (color : Color) (x y length : Int) (b : Frame g) :
    Option (Frame g) :=
  if y < 0 ∨ g.height ≤ y then some b
  else
    let clipped := clip x length g.width
    if clipped.2 ≤ 0 then some b
    else
      (List.range clipped.2.toNat).foldlM
        (fun (b : Frame g) (i : Nat) =>
          b.update (clipped.1 + i + y / 8 * g.width) (color.apply (pixelMask y))) b

/-- The mask with which a vertical line starts `yOffset` rows above the end of a page. -/
def headMask (yOffset length : Int) : UInt8 :=
  let drawBit := ~~~byteOf (0xFF >>> yOffset.toNat)
  if length < yOffset then drawBit &&& byteOf (0xFF >>> (yOffset - length).toNat) else drawBit

/-- The mask with which a vertical line ends in the rows of its last page. -/
def tailMask (length : Int) : UInt8 := byteOf (1 <<< (length % 8).toNat - 1)

/-- A whole byte is drawn. -/
def Color.fill : Color → UInt8 → UInt8
  | .white, _ => 0xFF
  | .black, _ => 0x00
  | .inverse, byte => ~~~byte

/-- The part of a vertical line from the top of a page on. -/
def Frame.drawPages (color : Color) (x page length : Int) (b : Frame g) : Option (Frame g) :=
  ((List.range (length / 8).toNat).foldlM
    (fun (b : Frame g) (i : Nat) => b.update (x + (page + i) * g.width) color.fill) b).bind
      fun (b : Frame g) =>
        if length % 8 > 0 then
          b.update (x + (page + length / 8) * g.width) (color.apply (tailMask length))
        else some b

/-- `OLEDDisplay_drawVerticalLine`. -/
def Frame.drawVerticalLine (color : Color) (x y length : Int) (b : Frame g) : Option (Frame g) :=
  if x < 0 ∨ g.width ≤ x then some b
  else
    let clipped := clip y length g.height
    if clipped.2 ≤ 0 then some b
    else if clipped.1 % 8 = 0 then b.drawPages color x (clipped.1 / 8) clipped.2
    else
      -- the rest of the first page takes a mask of its own
      let yOffset := 8 - clipped.1 % 8
      (b.update (x + clipped.1 / 8 * g.width)
        (color.apply (headMask yOffset clipped.2))).bind fun (b : Frame g) =>
          if clipped.2 < yOffset then some b
          else b.drawPages color x (clipped.1 / 8 + 1) (clipped.2 - yOffset)

/-! ## Masks -/

/-- The bits of `0xFF >> n`. -/
theorem test_bit_ones (n k : Nat) : (0xFF >>> n).testBit k = decide (n + k < 8) := by
  rw [Nat.testBit_shiftRight]
  exact Nat.testBit_two_pow_sub_one 8 (n + k)

/-- The bits of a complement. -/
theorem bit_not (byte : UInt8) {k : Nat} (h : k < 8) : bit (~~~byte) k = !bit byte k := by
  simp only [bit, ← UInt8.toNat_toBitVec, UInt8.toBitVec_not, BitVec.testBit_toNat,
    BitVec.getLsbD_not]
  simp [h]

/-- The bits of a conjunction. -/
theorem bit_and (a b : UInt8) (k : Nat) : bit (a &&& b) k = (bit a k && bit b k) := by
  simp [bit]

/-- The head mask selects the first rows of the line. -/
theorem bit_head_mask {yOffset : Int} (length : Int) (hoffset : 0 < yOffset ∧ yOffset < 8)
    {k : Nat} (h : k < 8) :
    bit (headMask yOffset length) k =
      decide (8 - yOffset ≤ k ∧ (k : Int) < 8 - yOffset + length) := by
  unfold headMask
  by_cases hshort : length < yOffset
  · rw [if_pos hshort, bit_and, bit_not _ h, bit_byte_of _ h, bit_byte_of _ h, test_bit_ones,
      test_bit_ones, ← decide_not, ← Bool.decide_and, decide_eq_decide]
    omega
  · rw [if_neg hshort, bit_not _ h, bit_byte_of _ h, test_bit_ones, ← decide_not,
      decide_eq_decide]
    omega

/-- The tail mask selects the last rows of the line. -/
theorem bit_tail_mask (length : Int) {k : Nat} (h : k < 8) :
    bit (tailMask length) k = decide ((k : Int) < length % 8) := by
  rw [tailMask, bit_byte_of _ h, Nat.one_shiftLeft, Nat.testBit_two_pow_sub_one,
    decide_eq_decide]
  omega

/-- Drawing a whole byte is drawing the full mask. -/
theorem Color.fill_eq (color : Color) : color.fill = color.apply 0xFF := by
  funext byte
  cases color with
  | white => exact UInt8.or_neg_one.symm
  | black =>
      have hnot : ~~~(0xFF : UInt8) = 0 := rfl
      simp [fill, apply, hnot]
  | inverse => exact UInt8.xor_neg_one.symm

/-! ## Lines -/

/-- The points of a horizontal line. -/
def horizontal (g : Geometry) (x y length : Int) : Set (Point g) :=
  {point | (x ≤ point.1 ∧ point.1 < x + length) ∧ (point.2 : Int) = y}

/-- The points of a vertical line. -/
def vertical (g : Geometry) (x y length : Int) : Set (Point g) :=
  {point | (point.1 : Int) = x ∧ y ≤ point.2 ∧ point.2 < y + length}

/-- Cutting a line keeps its positions between zero and the limit. -/
theorem clip_eq (start limit : Int) {length : Int}
    (hlength : -32768 ≤ length + min start 0 ∧ length < 32768) :
    clip start length limit =
      (max start 0, min (length + min start 0) (limit - max start 0)) := by
  unfold clip
  by_cases hstart : start < 0
  · have hrest : int16 (length + start) = length + start := int16_eq_self ⟨by omega, by omega⟩
    simp only [if_pos hstart, hrest, Prod.mk.injEq]
    omega
  · simp only [if_neg hstart, Prod.mk.injEq]
    omega

/-- `OLEDDisplay_drawHorizontalLine` never leaves the buffer and inks the points of the line that
are on the screen. -/
theorem draw_horizontal_line_stamps (color : Color) (x y length : Int)
    (hlength : -32768 ≤ length + min x 0 ∧ length < 32768) :
    Stamps Frame.pixel color.ink (horizontal g x y length) fun b =>
      b.drawHorizontalLine color x y length := by
  have hheight := g.height_eq
  simp only [Frame.drawHorizontalLine, clip_eq x g.width hlength]
  by_cases hy : y < 0 ∨ g.height ≤ y
  · simp only [if_pos hy]
    refine Stamps.skip.congr ?_
    ext point
    have hrow := point.2.isLt
    simp only [horizontal, Set.mem_ofPred_eq, Set.mem_empty_iff_false, false_iff]
    omega
  simp only [if_neg hy]
  generalize hclipped : min (length + min x 0) (g.width - max x 0) = clipped
  by_cases hempty : clipped ≤ 0
  · simp only [if_pos hempty]
    refine Stamps.skip.congr ?_
    ext point
    have hcolumn := point.1.isLt
    simp only [horizontal, Set.mem_ofPred_eq, Set.mem_empty_iff_false, false_iff]
    omega
  simp only [if_neg hempty]
  refine (Stamps.foldlM_disjoint (fun (i : Nat) => dot g (max x 0 + i) y) (List.range clipped.toNat)
    (fun i hi => ?_) ?_).congr ?_
  · have hi := List.mem_range.mp hi
    refine (update_stamps color (pixelMask y) ⟨by omega, by omega⟩ ⟨by omega, by omega⟩).congr ?_
    ext point
    have hmod : (point.2 : Nat) % 8 < 8 := Nat.mod_lt _ (by decide)
    simp only [byteShape, dot, Set.mem_ofPred_eq, bit_pixel_mask _ hmod, decide_eq_true_eq]
    omega
  · refine List.nodup_range.imp fun hne => Set.disjoint_left.mpr fun point hfirst hother => ?_
    simp only [dot, Set.mem_ofPred_eq] at hfirst hother
    omega
  · ext point
    have hcolumn := point.1.isLt
    simp only [horizontal, dot, Set.mem_ofPred_eq, List.mem_range]
    constructor
    · rintro ⟨i, hi, hx, hrow⟩
      exact ⟨⟨by omega, by omega⟩, hrow⟩
    · rintro ⟨⟨hx, hx'⟩, hrow⟩
      exact ⟨point.1 - (max x 0).toNat, by omega, by omega, hrow⟩

/-- The part of a vertical line from the top of a page on inks its points. -/
theorem draw_pages_stamps (color : Color) {x : Int} (page : Int) {length : Int}
    (hx : 0 ≤ x ∧ x < g.width) (hpage : 0 ≤ page) (hlength : 0 ≤ length)
    (hend : 8 * page + length ≤ g.height) :
    Stamps Frame.pixel color.ink (vertical g x (8 * page) length) fun b =>
      b.drawPages color x page length := by
  have hheight := g.height_eq
  have hbytes : Stamps Frame.pixel color.ink (vertical g x (8 * page) (length / 8 * 8)) fun b =>
      (List.range (length / 8).toNat).foldlM
        (fun (b : Frame g) (i : Nat) => b.update (x + (page + i) * g.width) color.fill) b := by
    refine (Stamps.foldlM_disjoint (fun (i : Nat) => vertical g x (8 * (page + i)) 8)
      (List.range (length / 8).toNat) (fun i hi => ?_) ?_).congr ?_
    · have hi := List.mem_range.mp hi
      rw [color.fill_eq]
      refine (update_stamps color 0xFF hx ⟨by omega, by omega⟩).congr ?_
      ext point
      have hmod : (point.2 : Nat) % 8 < 8 := Nat.mod_lt _ (by decide)
      have hbit : bit 0xFF (point.2 % 8) = true := by
        show Nat.testBit 255 _ = true
        rw [show (255 : Nat) = 2 ^ 8 - 1 from rfl, Nat.testBit_two_pow_sub_one]
        exact decide_eq_true hmod
      simp only [byteShape, vertical, Set.mem_ofPred_eq, hbit, and_true]
      omega
    · refine List.nodup_range.imp fun hne => Set.disjoint_left.mpr fun point hfirst hother => ?_
      simp only [vertical, Set.mem_ofPred_eq] at hfirst hother
      omega
    · ext point
      simp only [vertical, Set.mem_ofPred_eq, List.mem_range]
      constructor
      · rintro ⟨i, hi, hcolumn, hrow⟩
        exact ⟨hcolumn, by omega, by omega⟩
      · rintro ⟨hcolumn, hrow, hrow'⟩
        exact ⟨point.2 / 8 - page.toNat, by omega, hcolumn, by omega, by omega⟩
  have hrest : Stamps Frame.pixel color.ink
      (vertical g x (8 * (page + length / 8)) (length % 8)) fun b =>
        if length % 8 > 0 then
          b.update (x + (page + length / 8) * g.width) (color.apply (tailMask length))
        else some b := by
    by_cases htail : length % 8 > 0
    · simp only [if_pos htail]
      refine (update_stamps color (tailMask length) hx ⟨by omega, by omega⟩).congr ?_
      ext point
      have hmod : (point.2 : Nat) % 8 < 8 := Nat.mod_lt _ (by decide)
      simp only [byteShape, vertical, Set.mem_ofPred_eq, bit_tail_mask _ hmod, decide_eq_true_eq]
      omega
    · simp only [if_neg htail]
      refine Stamps.skip.congr ?_
      ext point
      simp only [vertical, Set.mem_ofPred_eq, Set.mem_empty_iff_false, false_iff]
      omega
  refine (hbytes.seq_disjoint hrest (Set.disjoint_left.mpr fun point hfirst hother => ?_)).congr ?_
  · simp only [vertical, Set.mem_ofPred_eq] at hfirst hother
    omega
  · ext point
    simp only [vertical, Set.mem_union, Set.mem_ofPred_eq]
    omega

/-- `OLEDDisplay_drawVerticalLine`, which writes whole bytes where it can, never leaves the buffer
and inks the points of the line that are on the screen. -/
theorem draw_vertical_line_stamps (color : Color) (x y length : Int)
    (hlength : -32768 ≤ length + min y 0 ∧ length < 32768) :
    Stamps Frame.pixel color.ink (vertical g x y length) fun b =>
      b.drawVerticalLine color x y length := by
  have hheight := g.height_eq
  simp only [Frame.drawVerticalLine, clip_eq y g.height hlength]
  by_cases hx : x < 0 ∨ g.width ≤ x
  · simp only [if_pos hx]
    refine Stamps.skip.congr ?_
    ext point
    have hcolumn := point.1.isLt
    simp only [vertical, Set.mem_ofPred_eq, Set.mem_empty_iff_false, false_iff]
    omega
  simp only [if_neg hx]
  generalize hclipped : min (length + min y 0) (g.height - max y 0) = clipped
  by_cases hempty : clipped ≤ 0
  · simp only [if_pos hempty]
    refine Stamps.skip.congr ?_
    ext point
    have hrow := point.2.isLt
    simp only [vertical, Set.mem_ofPred_eq, Set.mem_empty_iff_false, false_iff]
    omega
  have hline : vertical g x (max y 0) clipped = vertical g x y length := by
    ext point
    have hrow := point.2.isLt
    simp only [vertical, Set.mem_ofPred_eq]
    omega
  simp only [if_neg hempty]
  rw [← hline]
  generalize htop : max y 0 = top at hclipped ⊢
  by_cases haligned : top % 8 = 0
  · simp only [if_pos haligned]
    refine (draw_pages_stamps color (top / 8) ⟨by omega, by omega⟩ (by omega) (by omega)
      (by omega)).congr ?_
    rw [show 8 * (top / 8) = top by omega]
  simp only [if_neg haligned]
  have hoffset : 0 < 8 - top % 8 := by omega
  have hoffset' : 8 - top % 8 < 8 := by omega
  have hhead : Stamps Frame.pixel color.ink
      (vertical g x top (min clipped (8 - top % 8))) fun b =>
        b.update (x + top / 8 * g.width) (color.apply (headMask (8 - top % 8) clipped)) := by
    refine (update_stamps color _ ⟨by omega, by omega⟩ ⟨by omega, by omega⟩).congr ?_
    ext point
    have hmod : (point.2 : Nat) % 8 < 8 := Nat.mod_lt _ (by decide)
    simp only [byteShape, vertical, Set.mem_ofPred_eq, decide_eq_true_eq,
      bit_head_mask clipped ⟨hoffset, hoffset'⟩ hmod]
    omega
  have hrest : Stamps Frame.pixel color.ink
      (vertical g x (top + (8 - top % 8)) (clipped - (8 - top % 8))) fun b =>
        if clipped < 8 - top % 8 then some b
        else b.drawPages color x (top / 8 + 1) (clipped - (8 - top % 8)) := by
    by_cases hshort : clipped < 8 - top % 8
    · simp only [if_pos hshort]
      refine Stamps.skip.congr ?_
      ext point
      simp only [vertical, Set.mem_ofPred_eq, Set.mem_empty_iff_false, false_iff]
      omega
    · simp only [if_neg hshort]
      refine (draw_pages_stamps color (top / 8 + 1) ⟨by omega, by omega⟩ (by omega)
        (by omega) (by omega)).congr ?_
      rw [show 8 * (top / 8 + 1) = top + (8 - top % 8) by omega]
  refine (hhead.seq_disjoint hrest (Set.disjoint_left.mpr fun point hfirst hother => ?_)).congr ?_
  · simp only [vertical, Set.mem_ofPred_eq] at hfirst hother
    omega
  · ext point
    simp only [vertical, Set.mem_union, Set.mem_ofPred_eq]
    omega

/-- The pixels of a line one by one, as a vertical line could be drawn with
`OLEDDisplay_setPixel`. -/
def Frame.setColumn (color : Color) (x y length : Int) (b : Frame g) : Option (Frame g) :=
  (List.range length.toNat).foldlM
    (fun (b : Frame g) (i : Nat) => b.setPixelColor color x (y + i)) b

/-- Setting the pixels of a line one by one inks its points. -/
theorem set_column_stamps (color : Color) (x y length : Int) :
    Stamps Frame.pixel color.ink (vertical g x y length) fun b =>
      b.setColumn color x y length := by
  refine (Stamps.foldlM_disjoint (fun (i : Nat) => dot g x (y + i)) (List.range length.toNat)
    (fun i _ => set_pixel_color_stamps color x (y + i)) ?_).congr ?_
  · refine List.nodup_range.imp fun hne => Set.disjoint_left.mpr fun point hfirst hother => ?_
    simp only [dot, Set.mem_ofPred_eq] at hfirst hother
    omega
  · ext point
    simp only [vertical, dot, Set.mem_ofPred_eq, List.mem_range]
    constructor
    · rintro ⟨i, hi, hcolumn, hrow⟩
      exact ⟨hcolumn, by omega, by omega⟩
    · rintro ⟨hcolumn, hrow, hrow'⟩
      exact ⟨(point.2 - y).toNat, by omega, hcolumn, by omega⟩

/-- The byte-wise vertical line is the line set pixel by pixel. -/
theorem draw_vertical_line_eq (color : Color) (x y : Int) {length : Int}
    (hlength : -32768 ≤ length + min y 0 ∧ length < 32768) (b : Frame g) :
    b.drawVerticalLine color x y length = b.setColumn color x y length :=
  Stamps.unique Frame.pixel_injective (draw_vertical_line_stamps color x y length hlength)
    (set_column_stamps color x y length) b

/-- A line that starts above the screen and ends inside a page. -/
theorem draw_vertical_line_eq_clipped :
    (⟨Vector.replicate _ 1⟩ : Frame .geometry64x32).drawVerticalLine .inverse 3 (-2) 13 =
      (⟨Vector.replicate _ 1⟩ : Frame .geometry64x32).setColumn .inverse 3 (-2) 13 :=
  draw_vertical_line_eq .inverse 3 (-2) (by decide) _

/-! ## Rectangles -/

/-- `OLEDDisplay_drawRect`. -/
def Frame.drawRect (color : Color) (x y width height : Int) (b : Frame g) : Option (Frame g) :=
  (b.drawHorizontalLine color x y width).bind fun b =>
    (b.drawVerticalLine color x y height).bind fun b =>
      (b.drawVerticalLine color (int16 (x + width - 1)) y height).bind fun b =>
        b.drawHorizontalLine color x (int16 (y + height - 1)) width

/-- The loop of `OLEDDisplay_fillRect` from column `x` on, for at most `fuel` tests. -/
def Frame.fillColumns (color : Color) (last yMove height : Int) :
    Nat → Int → Frame g → Option (Frame g)
  | 0, _, _ => none
  | fuel + 1, x, b =>
      if x < last then
        (b.drawVerticalLine color x yMove height).bind
          (fillColumns color last yMove height fuel (int16 (x + 1)))
      else some b

/-- `OLEDDisplay_fillRect` for at most `fuel` tests of its loop. -/
def Frame.fillRect (fuel : Nat) (color : Color) (xMove yMove width height : Int) (b : Frame g) :
    Option (Frame g) :=
  b.fillColumns color (xMove + width) yMove height fuel xMove

/-- The points of a rectangle. -/
def rectangle (g : Geometry) (x y width height : Int) : Set (Point g) :=
  {point | (x ≤ point.1 ∧ point.1 < x + width) ∧ y ≤ point.2 ∧ point.2 < y + height}

/-- Up to the last column the loop of `OLEDDisplay_fillRect` ends and inks the columns. -/
theorem fill_columns_stamps (color : Color) {x : Int} (last : Int) {yMove height : Int} (fuel : Nat)
    (hfuel : last - x < fuel ∧ 0 < fuel) (hx : -32768 ≤ x) (hlast : last ≤ 32767)
    (hheight : -32768 ≤ height + min yMove 0 ∧ height < 32768) :
    Stamps Frame.pixel color.ink (rectangle g x yMove (last - x) height) fun b =>
      b.fillColumns color last yMove height fuel x := by
  induction fuel generalizing x with
  | zero => exact absurd hfuel.2 (lt_irrefl 0)
  | succ fuel ih =>
      by_cases hmore : x < last
      · have hnext : int16 (x + 1) = x + 1 := int16_eq_self ⟨by omega, by omega⟩
        simp only [Frame.fillColumns, if_pos hmore, hnext]
        refine ((draw_vertical_line_stamps color x yMove height hheight).seq_disjoint
          (ih ⟨by omega, by omega⟩ (by omega))
          (Set.disjoint_left.mpr fun point hfirst hother => ?_)).congr ?_
        · simp only [vertical, rectangle, Set.mem_ofPred_eq] at hfirst hother
          omega
        · ext point
          simp only [vertical, rectangle, Set.mem_union, Set.mem_ofPred_eq]
          omega
      · simp only [Frame.fillColumns, if_neg hmore]
        refine Stamps.skip.congr ?_
        ext point
        simp only [rectangle, Set.mem_ofPred_eq, Set.mem_empty_iff_false, false_iff]
        omega

/-- A loop of `OLEDDisplay_fillRect` up to a column behind the last `int16_t` does not end: its
counter wraps around. -/
theorem fill_columns_endless (color : Color) {x last : Int} (yMove height : Int)
    (hx : x ≤ 32767) (hlast : 32767 < last) (fuel : Nat) (b : Frame g) :
    b.fillColumns color last yMove height fuel x = none := by
  induction fuel generalizing x b with
  | zero => rfl
  | succ fuel ih =>
      have hnext : int16 (x + 1) ≤ 32767 := by
        unfold int16
        omega
      rw [Frame.fillColumns, if_pos (by omega)]
      cases b.drawVerticalLine color x yMove height with
      | none => rfl
      | some next => exact ih hnext next

/-- The border of a rectangle. -/
def border (g : Geometry) (x y width height : Int) : Set (Point g) :=
  {point | point ∈ rectangle g x y width height ∧
    ((point.1 : Int) = x ∨ (point.1 : Int) = x + width - 1 ∨ (point.2 : Int) = y ∨
      (point.2 : Int) = y + height - 1)}

/-- The corners of a rectangle. -/
def corners (x y width height : Int) : Set (Point g) :=
  {point | ((point.1 : Int) = x ∨ (point.1 : Int) = x + width - 1) ∧
    ((point.2 : Int) = y ∨ (point.2 : Int) = y + height - 1)}

end SaiyuanClock
