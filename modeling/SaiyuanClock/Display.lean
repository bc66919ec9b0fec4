import Mathlib.Data.Nat.Bitwise
import SaiyuanClock.Library.Canvas

/-!
# The frame buffer of the display

`OLEDDisplay` keeps its picture in a buffer of bytes: a byte holds eight pixels of one column, the
lowest bit on top, and a row of bytes is a page. Drawing functions compute an index and a mask of
pixels and change one byte at a time. An index outside the buffer is a fault, so the functions
below return an `Option`; `Frame.pixel` is the picture that a buffer stands for.
-/

namespace SaiyuanClock

open Drawing

/-- `OLEDDISPLAY_GEOMETRY`, without the raw mode. -/
inductive Geometry where
  | geometry128x64
  | geometry128x32
  | geometry64x48
  | geometry64x32
  deriving DecidableEq, Repr

/-- The width that `OLEDDisplay_setGeometry` sets. -/
def Geometry.width : Geometry → Nat
  | .geometry128x64 | .geometry128x32 => 128
  | .geometry64x48 | .geometry64x32 => 64

/-- The height that `OLEDDisplay_setGeometry` sets. -/
def Geometry.height : Geometry → Nat
  | .geometry128x64 => 64
  | .geometry64x48 => 48
  | .geometry128x32 | .geometry64x32 => 32

/-- The number of rows of bytes. -/
def Geometry.pages (g : Geometry) : Nat := g.height / 8

/-- `displayBufferSize` as `OLEDDisplay_alloc` computes it. -/
def Geometry.displayBufferSize (g : Geometry) : Nat := g.width * g.height / 8

/-- The pages make up the height. -/
theorem Geometry.height_eq (g : Geometry) : g.height = 8 * g.pages := by
  cases g <;> rfl

/-- The buffer has a byte for each column of each page. -/
theorem Geometry.display_buffer_size_eq (g : Geometry) :
    g.displayBufferSize = g.width * g.pages := by
  cases g <;> rfl

/-- A display is 64 or 128 pixels wide. -/
theorem Geometry.width_cases (g : Geometry) : g.width = 64 ∨ g.width = 128 := by
  cases g <;> decide

/-- A display is at least one and at most 128 pixels wide. -/
theorem Geometry.width_bounds (g : Geometry) : 0 < g.width ∧ g.width ≤ 128 := by
  cases g <;> decide

/-- A display has at least one and at most eight pages. -/
theorem Geometry.pages_bounds (g : Geometry) : 0 < g.pages ∧ g.pages ≤ 8 := by
  cases g <;> decide

/-- `OLEDDISPLAY_COLOR`. -/
inductive Color where
  | black
  | white
  | inverse
  deriving DecidableEq, Repr

/-- What drawing in a color does to a pixel. -/
def Color.ink : Color → Bool → Bool
  | .white, _ => true
  | .black, _ => false
  | .inverse, lit => !lit

/-- Drawing in a solid color twice is drawing once. -/
theorem Color.ink_ink {color : Color} (h : color ≠ .inverse) (lit : Bool) :
    color.ink (color.ink lit) = color.ink lit := by
  cases color with
  | black | white => rfl
  | inverse => exact absurd rfl h

/-- The byte after the pixels of `mask` have been drawn. -/
def Color.apply (color : Color) (mask byte : UInt8) : UInt8 :=
  match color with
  | .white => byte ||| mask
  | .black => byte &&& ~~~mask
  | .inverse => byte ^^^ mask

/-- A bit of a byte. -/
def bit (byte : UInt8) (k : Nat) : Bool := byte.toNat.testBit k

/-- A byte has eight bits. -/
theorem bit_ge (byte : UInt8) {k : Nat} (h : 8 ≤ k) : bit byte k = false := by
  refine Nat.testBit_eq_false_of_lt (lt_of_lt_of_le byte.toNat_lt ?_)
  exact Nat.pow_le_pow_right (by decide) h

/-- Drawing a mask inks the pixels of the mask and leaves the others. -/
theorem bit_apply (color : Color) (mask byte : UInt8) {k : Nat} (h : k < 8) :
    bit (color.apply mask byte) k =
      if bit mask k then color.ink (bit byte k) else bit byte k := by
  have hnot : (~~~mask).toNat.testBit k = !mask.toNat.testBit k := by
    simp only [← UInt8.toNat_toBitVec, UInt8.toBitVec_not, BitVec.testBit_toNat, BitVec.getLsbD_not]
    simp [h]
  cases color with
  | white =>
      simp only [bit, Color.apply, Color.ink, UInt8.toNat_or, Nat.testBit_or]
      by_cases hmask : mask.toNat.testBit k <;> simp [hmask]
  | black =>
      simp only [bit, Color.apply, Color.ink, UInt8.toNat_and, Nat.testBit_and, hnot]
      by_cases hmask : mask.toNat.testBit k <;> simp [hmask]
  | inverse =>
      simp only [bit, Color.apply, Color.ink, UInt8.toNat_xor, Nat.testBit_xor]
      by_cases hmask : mask.toNat.testBit k <;> simp [hmask]

/-- A byte of C after an `int` expression has been stored in it. -/
def byteOf (n : Nat) : UInt8 := UInt8.ofNat n

/-- Storing keeps the low eight bits. -/
theorem bit_byte_of (n : Nat) {k : Nat} (h : k < 8) : bit (byteOf n) k = n.testBit k := by
  have hmod : (byteOf n).toNat = n % 2 ^ 8 := by simp [byteOf]
  rw [bit, hmod, Nat.testBit_mod_two_pow]
  simp [h]

/-! ## The buffer -/

/-- A buffer of the display. -/
structure Frame (g : Geometry) where
  bytes : Vector UInt8 g.displayBufferSize
  deriving DecidableEq, Repr

/-- A point of the screen. -/
abbrev Point (g : Geometry) := Fin g.width × Fin g.height

variable {g : Geometry}

/-- Where the byte of a column and a page stands in the buffer. -/
def Geometry.position (g : Geometry) (x : Fin g.width) (page : Fin g.pages) :
    Fin g.displayBufferSize where
  val := x + page * g.width
  isLt := by
    have hlast : (page + 1) * g.width ≤ g.pages * g.width := Nat.mul_le_mul_right _ page.isLt
    rw [Nat.succ_mul] at hlast
    rw [g.display_buffer_size_eq, Nat.mul_comm g.width]
    omega

/-- The position determines the column and the page. -/
theorem Geometry.position_inj {x x' : Fin g.width} {page page' : Fin g.pages} :
    (g.position x page : Nat) = g.position x' page' ↔ x = x' ∧ page = page' := by
  constructor
  · intro h
    have hcolumn := congrArg (· % g.width) h
    have hpage := congrArg (· / g.width) h
    simp only [position, Nat.add_mul_mod_self_right, Nat.mod_eq_of_lt x.isLt,
      Nat.mod_eq_of_lt x'.isLt] at hcolumn
    simp only [position, Nat.add_mul_div_right _ _ g.width_bounds.1, Nat.div_eq_of_lt x.isLt,
      Nat.div_eq_of_lt x'.isLt, Nat.zero_add] at hpage
    exact ⟨Fin.ext hcolumn, Fin.ext hpage⟩
  · rintro ⟨rfl, rfl⟩
    rfl

/-- The page of a point. -/
def Point.page (point : Point g) : Fin g.pages :=
  ⟨point.2 / 8, by
    have hheight := g.height_eq
    have hlt := point.2.isLt
    omega⟩

/-- The byte of a column and a page. -/
def Frame.byte (b : Frame g) (x : Fin g.width) (page : Fin g.pages) : UInt8 :=
  b.bytes[g.position x page]

/-- The picture that a buffer stands for. -/
def Frame.pixel (b : Frame g) (point : Point g) : Bool :=
  bit (b.byte point.1 (Point.page point)) (point.2 % 8)

/-- A byte is determined by its bits. -/
theorem byte_ext {a b : UInt8} (h : ∀ k < 8, bit a k = bit b k) : a = b := by
  refine UInt8.toNat_inj.mp (Nat.eq_of_testBit_eq fun k => ?_)
  by_cases hk : k < 8
  · exact h k hk
  · exact (bit_ge a (by omega)).trans (bit_ge b (by omega)).symm

/-- Two buffers with the same bytes are equal. -/
theorem Frame.ext_byte {a b : Frame g} (h : ∀ x page, a.byte x page = b.byte x page) : a = b := by
  obtain ⟨a⟩ := a
  obtain ⟨b⟩ := b
  refine congrArg Frame.mk (Vector.ext fun i hi => ?_)
  have hsize := g.display_buffer_size_eq
  have hdiv : i / g.width < g.pages := by
    rw [Nat.div_lt_iff_lt_mul g.width_bounds.1, Nat.mul_comm]
    omega
  have hat := h ⟨i % g.width, Nat.mod_lt _ g.width_bounds.1⟩ ⟨i / g.width, hdiv⟩
  have hi' : i % g.width + i / g.width * g.width = i := Nat.mod_add_div' i g.width
  simpa only [byte, Geometry.position, Fin.getElem_fin, hi'] using hat

/-- A buffer is determined by its picture. -/
theorem Frame.pixel_injective : Function.Injective (Frame.pixel (g := g)) := by
  intro a b h
  refine ext_byte fun x page => byte_ext fun k hk => ?_
  have hheight := g.height_eq
  have hrow : 8 * (page : Nat) + k < g.height := by
    have hlt := page.isLt
    omega
  have hpage : Point.page (g := g) (x, ⟨8 * page + k, hrow⟩) = page := by
    refine Fin.ext ?_
    show (8 * (page : Nat) + k) / 8 = page
    omega
  have hbit : (8 * (page : Nat) + k) % 8 = k := by omega
  have hat := congrFun h (x, ⟨8 * page + k, hrow⟩)
  simpa only [pixel, hpage, hbit] using hat

/-- The byte at an index is changed. An index outside the buffer is a fault. -/
def Frame.update (b : Frame g) (i : Int) (f : UInt8 → UInt8) : Option (Frame g) :=
  if h : 0 ≤ i ∧ i < g.displayBufferSize then
    have hlt : i.toNat < g.displayBufferSize := by omega
    some ⟨b.bytes.set i.toNat (f b.bytes[i.toNat])⟩
  else none

/-- The points that a mask selects in a byte of the screen. -/
def byteShape (g : Geometry) (x page : Int) (mask : UInt8) : Set (Point g) :=
  {point | (point.1 : Int) = x ∧ (point.2 : Int) / 8 = page ∧ bit mask (point.2 % 8)}

/-- Changing a byte of the buffer changes that byte only. -/
theorem Frame.update_byte (b : Frame g) (x : Fin g.width) (page : Fin g.pages)
    (f : UInt8 → UInt8) :
    ∃ next, b.update (x + page * g.width) f = some next ∧
      ∀ x' page', next.byte x' page' =
        if x' = x ∧ page' = page then f (b.byte x page) else b.byte x' page' := by
  have hindex : ((x : Int) + page * g.width) = (g.position x page : Nat) := by
    simp [Geometry.position]
  have hlt := (g.position x page).isLt
  rw [hindex]
  refine ⟨⟨b.bytes.set (g.position x page) (f (b.byte x page))⟩, ?_, fun x' page' => ?_⟩
  · rw [update, dif_pos ⟨Int.natCast_nonneg _, Int.ofNat_lt.mpr hlt⟩]
    rfl
  · simp only [byte, Fin.getElem_fin, Vector.getElem_set, Geometry.position_inj, eq_comm (a := x),
      eq_comm (a := page)]

/-- Drawing a mask in a byte of the screen inks the points that the mask selects. -/
theorem update_stamps (color : Color) {x page : Int} (mask : UInt8) (hx : 0 ≤ x ∧ x < g.width)
    (hpage : 0 ≤ page ∧ page < g.pages) :
    Stamps Frame.pixel color.ink (byteShape g x page mask) fun b =>
      b.update (x + page * g.width) (color.apply mask) := by
  intro b
  obtain ⟨x, rfl⟩ := Int.eq_ofNat_of_zero_le hx.1
  obtain ⟨page, rfl⟩ := Int.eq_ofNat_of_zero_le hpage.1
  have hx' : x < g.width := by omega
  have hpage' : page < g.pages := by omega
  obtain ⟨next, hnext, hbyte⟩ := b.update_byte ⟨x, hx'⟩ ⟨page, hpage'⟩ (color.apply mask)
  refine ⟨next, hnext, ?_⟩
  funext point
  have hmod : (point.2 : Nat) % 8 < 8 := Nat.mod_lt _ (by decide)
  by_cases hat : point.1 = ⟨x, hx'⟩ ∧ Point.page point = ⟨page, hpage'⟩
  · have hcolumn : (point.1 : Nat) = x := congrArg Fin.val hat.1
    have hrow : (point.2 : Nat) / 8 = page := congrArg Fin.val hat.2
    rw [Frame.pixel, hbyte, if_pos hat, bit_apply _ _ _ hmod, ← hat.1, ← hat.2]
    by_cases hbit : bit mask (point.2 % 8)
    · have hmem : point ∈ byteShape g x page mask := ⟨by omega, by omega, hbit⟩
      rw [if_pos hbit, stamp_mem hmem]
      rfl
    · rw [if_neg hbit, stamp_not_mem fun h => hbit h.2.2]
      rfl
  · rw [Frame.pixel, hbyte, if_neg hat, stamp_not_mem]
    · rfl
    · rintro ⟨hcolumn, hrow, -⟩
      refine hat ⟨Fin.ext (Int.ofNat_inj.mp hcolumn), Fin.ext ?_⟩
      show (point.2 : Nat) / 8 = page
      omega

/-! ## Pixels -/

/-- The mask of one pixel of a byte. -/
def pixelMask (y : Int) : UInt8 := byteOf (1 <<< (y % 8).toNat)

/-- A pixel mask has the bit of its row. -/
theorem bit_pixel_mask (y : Int) {k : Nat} (h : k < 8) :
    bit (pixelMask y) k = decide ((y % 8).toNat = k) := by
  rw [pixelMask, bit_byte_of _ h, Nat.one_shiftLeft, Nat.testBit_two_pow]

/-- `OLEDDisplay_setPixelColor`. -/
def Frame.setPixelColor (color : Color) (x y : Int) (b : Frame g) : Option (Frame g) :=
  if 0 ≤ x ∧ x < g.width ∧ 0 ≤ y ∧ y < g.height then
    b.update (x + y / 8 * g.width) (color.apply (pixelMask y))
  else some b

/-- The point at the given coordinates, or nothing if they lie outside the screen. -/
def dot (g : Geometry) (x y : Int) : Set (Point g) :=
  {point | (point.1 : Int) = x ∧ (point.2 : Int) = y}

/-- `OLEDDisplay_setPixelColor` never leaves the buffer and inks its point if it is on the
screen. -/
theorem set_pixel_color_stamps (color : Color) (x y : Int) :
    Stamps Frame.pixel color.ink (dot g x y) fun b => b.setPixelColor color x y := by
  have hheight := g.height_eq
  by_cases h : 0 ≤ x ∧ x < g.width ∧ 0 ≤ y ∧ y < g.height
  · simp only [Frame.setPixelColor, if_pos h]
    refine (update_stamps color (pixelMask y) ⟨h.1, h.2.1⟩ ⟨by omega, by omega⟩).congr ?_
    ext point
    have hmod : (point.2 : Nat) % 8 < 8 := Nat.mod_lt _ (by decide)
    simp only [byteShape, dot, Set.mem_ofPred_eq, bit_pixel_mask _ hmod, decide_eq_true_eq]
    omega
  · simp only [Frame.setPixelColor, if_neg h]
    refine Stamps.skip.congr ?_
    ext point
    have hcolumn := point.1.isLt
    have hrow := point.2.isLt
    simp only [dot, Set.mem_ofPred_eq, Set.mem_empty_iff_false, false_iff]
    omega

/-! ## The display -/

/-- `OLEDDISPLAY_TEXT_ALIGNMENT`. -/
inductive TextAlignment where
  | left
  | right
  | center
  | centerBoth
  deriving DecidableEq, Repr

/-- `OLEDDisplay_t`: the two buffers and what the drawing functions read. -/
structure OLEDDisplay (g : Geometry) where
  buffer : Frame g
  bufferBack : Frame g
  textAlignment : TextAlignment
  color : Color
  fontData : List UInt8
  deriving DecidableEq, Repr

namespace OLEDDisplay

/-- The picture in the buffer. -/
def picture (oled : OLEDDisplay g) : Point g → Bool := oled.buffer.pixel

/-- A drawing function changes the buffer only. -/
def draw (f : Color → Frame g → Option (Frame g)) (oled : OLEDDisplay g) :
    Option (OLEDDisplay g) :=
  (f oled.color oled.buffer).map fun buffer => { oled with buffer := buffer }

/-- `OLEDDisplay_setPixel`. -/
def setPixel (x y : Int) : OLEDDisplay g → Option (OLEDDisplay g) :=
  draw fun color b => b.setPixelColor color x y

/-- The color that `OLEDDisplay_clearPixel` draws in. -/
def clearing : Color → Color
  | .black => .white
  | .white => .black
  | .inverse => .inverse

/-- `OLEDDisplay_clearPixel`. -/
def clearPixel (x y : Int) : OLEDDisplay g → Option (OLEDDisplay g) :=
  draw fun color b => b.setPixelColor (clearing color) x y

/-- `OLEDDisplay_clear`. -/
def clear (oled : OLEDDisplay g) : OLEDDisplay g :=
  { oled with buffer := ⟨Vector.replicate _ 0⟩ }

/-- `OLEDDisplay_clear` leaves every pixel dark. -/
theorem picture_clear (oled : OLEDDisplay g) : oled.clear.picture = fun _ => false := by
  funext point
  simp [picture, clear, Frame.pixel, Frame.byte, bit]

end OLEDDisplay

end SaiyuanClock
