import SaiyuanClock.Strokes

/-!
# Images and glyphs

`OLEDDisplay_drawInternal` draws a bitmap whose bytes run down its columns, eight pixels a byte.
A byte whose top is not on a page border goes to two pages of the buffer. The loop computes its
positions in `int16_t`; for images of up to 255 columns and rows nothing wraps around, and exactly
the lit pixels of the bitmap are inked, less those of the bytes that begin above the screen.
-/

namespace SaiyuanClock

open Drawing

variable {g : Geometry}

/-- The locals of the loop of `OLEDDisplay_drawInternal`. -/
structure Blit (g : Geometry) where
  yMove : Int
  yOffset : Int
  buffer : Frame g

/-- The body of the loop of `OLEDDisplay_drawInternal`. -/
def blitByte (color : Color) (xMove yMove : Int) (rasterHeight : Nat) (data : List UInt8)
    (offset : Nat) (s : Blit g) (i : Nat) : Option (Blit g) :=
  let s := if i % rasterHeight = 0 then { s with yMove := yMove, yOffset := yMove % 8 } else s
  let xPos := int16 (xMove + (i / rasterHeight : Nat))
  let yPos := int16 ((s.yMove / 8 + (i % rasterHeight : Nat)) * g.width)
  let dataPos := int16 (xPos + yPos)
  data[offset + i]?.bind fun currentByte =>
    if (0 ≤ dataPos ∧ dataPos < g.displayBufferSize) ∧ 0 ≤ xPos ∧ xPos < g.width then
      if 0 ≤ s.yOffset then
        (s.buffer.update dataPos
          (color.apply (byteOf (currentByte.toNat <<< s.yOffset.toNat)))).bind fun b =>
            if dataPos < g.displayBufferSize - g.width then
              (b.update (dataPos + g.width)
                (color.apply (byteOf (currentByte.toNat >>> (8 - s.yOffset).toNat)))).map fun b =>
                  { s with buffer := b }
            else some { s with buffer := b }
      else
        (s.buffer.update dataPos
          (color.apply (byteOf (currentByte.toNat >>> (-s.yOffset).toNat)))).map fun b =>
            { yMove := s.yMove - 8, yOffset := 8 + s.yOffset, buffer := b }
    else some s

/-- The number of bytes in a column of an image, as the `uint8_t` that the driver computes. -/
def rasterHeight (height : Int) : Nat := ((1 + (height - 1) / 8) % 256).toNat

/-- `OLEDDisplay_drawInternal`. A division by a raster height of zero is a fault. -/
def Frame.drawInternal (color : Color) (xMove yMove width height : Int) (data : List UInt8)
    (offset bytesInData : Nat) (b : Frame g) : Option (Frame g) :=
  if width < 0 ∨ height < 0 then some b
  else if yMove + height < 0 ∨ g.height < yMove then some b
  else if xMove + width < 0 ∨ g.width < xMove then some b
  else
    let raster := rasterHeight height
    let bytes := if bytesInData = 0 then (width * raster).toNat % 65536 else bytesInData
    if raster = 0 ∧ 0 < bytes then none
    else
      ((List.range bytes).foldlM (blitByte color xMove yMove raster data offset)
        ⟨yMove, yMove % 8, b⟩).map Blit.buffer

/-! ## A byte of an image -/

/-- A byte of an image drawn `yOffset` rows below the top of a page. -/
def Frame.drawByte (color : Color) (x page yOffset : Int) (byte : UInt8) (b : Frame g) :
    Option (Frame g) :=
  if (0 ≤ page ∧ page < g.pages) ∧ 0 ≤ x ∧ x < g.width then
    (b.update (x + page * g.width) (color.apply (byteOf (byte.toNat <<< yOffset.toNat)))).bind
      fun b =>
        if page + 1 < g.pages then
          b.update (x + (page + 1) * g.width)
            (color.apply (byteOf (byte.toNat >>> (8 - yOffset).toNat)))
        else some b
  else some b

/-- The lit pixels of a byte of an image whose top is in row `y`. A byte that begins above the
screen is not drawn. -/
def imageByte (g : Geometry) (x y : Int) (byte : UInt8) : Set (Point g) :=
  {point | ((point.1 : Int) = x ∧ 0 ≤ y) ∧ (y ≤ point.2 ∧ point.2 < y + 8) ∧
    bit byte (point.2 - y).toNat}

/-- The part of a byte that goes to its first page. -/
theorem bit_shift_up (byte : UInt8) (n : Nat) {k : Nat} (h : k < 8) :
    bit (byteOf (byte.toNat <<< n)) k = (decide (n ≤ k) && bit byte (k - n)) := by
  rw [bit_byte_of _ h, Nat.testBit_shiftLeft]
  rfl

/-- The part of a byte that goes to its second page. -/
theorem bit_shift_down (byte : UInt8) (n : Nat) {k : Nat} (h : k < 8) :
    bit (byteOf (byte.toNat >>> n)) k = bit byte (n + k) := by
  rw [bit_byte_of _ h, Nat.testBit_shiftRight]
  rfl

/-- A byte of an image inks its lit pixels. -/
theorem draw_byte_stamps (color : Color) (x page : Int) {yOffset : Int} (byte : UInt8)
    (hoffset : 0 ≤ yOffset ∧ yOffset < 8) :
    Stamps Frame.pixel color.ink (imageByte g x (8 * page + yOffset) byte) fun b =>
      b.drawByte color x page yOffset byte := by
  have hheight := g.height_eq
  by_cases hin : (0 ≤ page ∧ page < g.pages) ∧ 0 ≤ x ∧ x < g.width
  · simp only [Frame.drawByte, if_pos hin]
    have hfirst := update_stamps color (byteOf (byte.toNat <<< yOffset.toNat)) hin.2 hin.1
    have hsecond : Stamps Frame.pixel color.ink
        (byteShape g x (page + 1) (byteOf (byte.toNat >>> (8 - yOffset).toNat))) fun b =>
          if page + 1 < g.pages then
            b.update (x + (page + 1) * g.width)
              (color.apply (byteOf (byte.toNat >>> (8 - yOffset).toNat)))
          else some b := by
      by_cases hlast : page + 1 < g.pages
      · simp only [if_pos hlast]
        exact update_stamps color _ hin.2 ⟨by omega, hlast⟩
      · simp only [if_neg hlast]
        refine Stamps.skip.congr ?_
        ext point
        have hrow := point.2.isLt
        simp only [byteShape, Set.mem_ofPred_eq, Set.mem_empty_iff_false, false_iff]
        omega
    refine (hfirst.seq_disjoint hsecond (Set.disjoint_left.mpr fun point h h' => ?_)).congr ?_
    · have hpage := h.2.1
      have hpage' := h'.2.1
      omega
    · ext point
      have hmod : (point.2 : Nat) % 8 < 8 := Nat.mod_lt _ (by decide)
      simp only [byteShape, imageByte, Set.mem_union, Set.mem_ofPred_eq, bit_shift_up _ _ hmod,
        bit_shift_down _ _ hmod, Bool.and_eq_true, decide_eq_true_eq]
      constructor
      · rintro (⟨hx, hpage, hlow, hbit⟩ | ⟨hx, hpage, hbit⟩)
        · rw [show (point.2 : Nat) % 8 - yOffset.toNat =
            ((point.2 : Int) - (8 * page + yOffset)).toNat by omega] at hbit
          exact ⟨⟨hx, by omega⟩, ⟨by omega, by omega⟩, hbit⟩
        · have hlow : (8 - yOffset).toNat + (point.2 : Nat) % 8 < 8 := by
            by_contra hhigh
            rw [bit_ge byte (by omega)] at hbit
            exact absurd hbit (by simp)
          rw [show (8 - yOffset).toNat + (point.2 : Nat) % 8 =
            ((point.2 : Int) - (8 * page + yOffset)).toNat by omega] at hbit
          exact ⟨⟨hx, by omega⟩, ⟨by omega, by omega⟩, hbit⟩
      · rintro ⟨⟨hx, hy⟩, ⟨htop, hend⟩, hbit⟩
        by_cases hpage : (point.2 : Int) / 8 = page
        · refine .inl ⟨hx, hpage, by omega, ?_⟩
          rwa [show (point.2 : Nat) % 8 - yOffset.toNat =
            ((point.2 : Int) - (8 * page + yOffset)).toNat by omega]
        · refine .inr ⟨hx, by omega, ?_⟩
          rwa [show (8 - yOffset).toNat + (point.2 : Nat) % 8 =
            ((point.2 : Int) - (8 * page + yOffset)).toNat by omega]
  · simp only [Frame.drawByte, if_neg hin]
    refine Stamps.skip.congr ?_
    ext point
    have hcolumn := point.1.isLt
    have hrow := point.2.isLt
    simp only [imageByte, Set.mem_ofPred_eq, Set.mem_empty_iff_false, false_iff]
    omega

/-! ## The loop -/

/-- The index of a byte lies in the buffer exactly if its page is on the screen. -/
theorem cell_in_buffer_iff (g : Geometry) {x : Int} (page : Int) (hx : 0 ≤ x ∧ x < g.width) :
    (0 ≤ x + page * g.width ∧ x + page * g.width < g.displayBufferSize) ↔
      0 ≤ page ∧ page < g.pages := by
  rw [g.display_buffer_size_eq]
  rcases g.width_cases with hwidth | hwidth <;> rw [hwidth] at hx ⊢ <;> omega

/-- The index of a byte lies a page before the end of the buffer exactly if there is a next
page. -/
theorem cell_before_last_iff (g : Geometry) {x : Int} (page : Int) (hx : 0 ≤ x ∧ x < g.width) :
    x + page * g.width < g.displayBufferSize - g.width ↔ page + 1 < g.pages := by
  rw [g.display_buffer_size_eq]
  rcases g.width_cases with hwidth | hwidth <;> rw [hwidth] at hx ⊢ <;> omega

/-- In an image of moderate size at a moderate place nothing wraps around, and the body of the
loop draws one byte. -/
theorem blit_byte_eq (color : Color) {xMove yMove : Int} {raster : Nat} (data : List UInt8)
    (offset : Nat) (b : Frame g) {i : Nat} (hx : -255 ≤ xMove ∧ xMove ≤ 128)
    (hy : -255 ≤ yMove ∧ yMove ≤ 64) (hraster : 0 < raster ∧ raster ≤ 32) (hi : i < 16384) :
    blitByte color xMove yMove raster data offset ⟨yMove, yMove % 8, b⟩ i =
      data[offset + i]?.bind fun byte =>
        (b.drawByte color (xMove + (i / raster : Nat)) (yMove / 8 + (i % raster : Nat)) (yMove % 8)
          byte).map (Blit.mk yMove (yMove % 8)) := by
  have hcolumn : i / raster ≤ i := Nat.div_le_self i raster
  have hsegment : i % raster < raster := Nat.mod_lt _ hraster.1
  have hoffset : 0 ≤ yMove % 8 := Int.emod_nonneg _ (by decide)
  have hreset : (if i % raster = 0 then
      { ({ yMove := yMove, yOffset := yMove % 8, buffer := b } : Blit g) with
        yMove := yMove, yOffset := yMove % 8 } else ⟨yMove, yMove % 8, b⟩) =
      ⟨yMove, yMove % 8, b⟩ := ite_self _
  simp only [blitByte, hreset, if_pos hoffset]
  generalize i / raster = column at hcolumn ⊢
  generalize i % raster = segment at hsegment ⊢
  generalize hpage : yMove / 8 + (segment : Int) = page
  have hyPos : int16 (page * g.width) = page * g.width := by
    refine int16_eq_self ?_
    rcases g.width_cases with hwidth | hwidth <;> rw [hwidth] <;> omega
  have hxPos : int16 (xMove + column) = xMove + column := int16_eq_self ⟨by omega, by omega⟩
  generalize hx' : xMove + (column : Int) = x at hxPos ⊢
  have hdataPos : int16 (x + page * g.width) = x + page * g.width := by
    refine int16_eq_self ?_
    rcases g.width_cases with hwidth | hwidth <;> rw [hwidth] <;> omega
  simp only [hxPos, hyPos, hdataPos]
  refine congrArg _ (funext fun byte => ?_)
  by_cases hin : 0 ≤ x ∧ x < g.width
  · simp only [Frame.drawByte, cell_in_buffer_iff g page hin, cell_before_last_iff g page hin]
    by_cases hshown : (0 ≤ page ∧ page < g.pages) ∧ 0 ≤ x ∧ x < g.width
    · rw [if_pos hshown, if_pos hshown, Option.map_bind]
      refine congrArg _ (funext fun b => ?_)
      by_cases hlast : page + 1 < g.pages
      · have hnext : x + page * g.width + g.width = x + (page + 1) * g.width := by
          rw [Int.add_mul, Int.one_mul]
          omega
        simp only [Function.comp_apply, if_pos hlast, hnext]
      · simp only [Function.comp_apply, if_neg hlast]
        rfl
    · rw [if_neg hshown, if_neg hshown]
      rfl
  · rw [if_neg fun h => hin h.2, Frame.drawByte, if_neg fun h => hin h.2]
    rfl

/-- A loop over a larger state follows a loop over the part of it that changes. -/
theorem foldlM_map {Whole Part Index : Type} (k : Part → Whole) {f : Whole → Index → Option Whole}
    {h : Part → Index → Option Part} (indices : List Index)
    (hbody : ∀ i ∈ indices, ∀ part, f (k part) i = (h part i).map k) (part : Part) :
    indices.foldlM f (k part) = (indices.foldlM h part).map k := by
  induction indices generalizing part with
  | nil => rfl
  | cons i indices ih =>
      obtain ⟨hfirst, hrest⟩ := List.forall_mem_cons.mp hbody
      rw [List.foldlM_cons, List.foldlM_cons, hfirst]
      cases h part i with
      | none => rfl
      | some next => exact ih hrest next

/-- The lit pixels of an image, whose bytes run down its columns. -/
def image (g : Geometry) (x y : Int) (raster : Nat) (bytes : List UInt8) : Set (Point g) :=
  {point | ∃ i ∈ List.range bytes.length,
    point ∈ imageByte g (x + (i / raster : Nat)) (y + 8 * (i % raster : Nat)) (bytes.getD i 0)}

/-- The number of bytes that an image has: what the caller says, or all its columns. -/
def imageSize (width height : Int) (bytesInData : Nat) : Nat :=
  if bytesInData = 0 then (width * rasterHeight height).toNat else bytesInData

/-- An image of up to 255 columns and rows whose bytes stand in the data and fill no more than its
columns. -/
structure ImageFits (width height : Int) (data : List UInt8) (offset bytesInData : Nat) : Prop where
  width_le : 0 ≤ width ∧ width ≤ 255
  height_le : 0 < height ∧ height ≤ 255
  bytes_le : bytesInData ≤ width * rasterHeight height
  data_le : offset + imageSize width height bytesInData ≤ data.length

/-- The bytes that `OLEDDisplay_drawInternal` draws. -/
def imageBytes (width height : Int) (data : List UInt8) (offset bytesInData : Nat) : List UInt8 :=
  (data.drop offset).take (imageSize width height bytesInData)

/-- The raster height is the height in bytes, rounded up. -/
theorem raster_height_eq {height : Int} (h : 0 < height ∧ height ≤ 255) :
    (rasterHeight height : Int) = 1 + (height - 1) / 8 ∧ 0 < rasterHeight height ∧
      rasterHeight height ≤ 32 := by
  unfold rasterHeight
  omega

namespace ImageFits

variable {width height : Int} {data : List UInt8} {offset bytesInData : Nat}

/-- All bytes of the image are in the data. -/
theorem length_eq (h : ImageFits width height data offset bytesInData) :
    (imageBytes width height data offset bytesInData).length =
      imageSize width height bytesInData := by
  have hdata := h.data_le
  rw [imageBytes, List.length_take, List.length_drop]
  omega

/-- The image has no more bytes than its columns. -/
theorem size_le (h : ImageFits width height data offset bytesInData) :
    imageSize width height bytesInData ≤ width.toNat * rasterHeight height := by
  have hwidth := h.width_le.1
  have hbytes := h.bytes_le
  have hcast : width * rasterHeight height = ((width.toNat * rasterHeight height : Nat) : Int) := by
    rw [Int.natCast_mul, Int.toNat_of_nonneg hwidth]
  rw [hcast] at hbytes
  unfold imageSize
  rw [hcast]
  split <;> omega

/-- The image has at most 8160 bytes. -/
theorem size_lt (h : ImageFits width height data offset bytesInData) :
    imageSize width height bytesInData ≤ 255 * 32 := by
  have hwidth := h.width_le.2
  refine h.size_le.trans (Nat.mul_le_mul (by omega) (raster_height_eq h.height_le).2.2)

/-- Every byte of the image lies in one of its columns. -/
theorem column_lt (h : ImageFits width height data offset bytesInData) {i : Nat}
    (hi : i < imageSize width height bytesInData) :
    ((i / rasterHeight height : Nat) : Int) < width := by
  have hcount := h.size_le
  rw [Nat.mul_comm] at hcount
  exact Int.lt_toNat.mp (Nat.div_lt_of_lt_mul (hi.trans_le hcount))

/-- A byte of the image is a byte of the data. -/
theorem get_eq (h : ImageFits width height data offset bytesInData) {i : Nat}
    (hi : i < imageSize width height bytesInData) :
    data[offset + i]? = some ((imageBytes width height data offset bytesInData).getD i 0) := by
  have hdata := h.data_le
  rw [List.getElem?_eq_getElem (by omega), List.getD_eq_getElem _ _ (by rw [h.length_eq]; exact hi)]
  simp only [imageBytes, List.getElem_take, List.getElem_drop]

end ImageFits

/-- The bytes of an image do not meet: they lie in different columns or at different heights. -/
theorem image_bytes_disjoint {raster : Nat} (x y : Int) {i j : Nat} (byte byte' : UInt8)
    (h : i ≠ j) :
    Disjoint (imageByte g (x + (i / raster : Nat)) (y + 8 * (i % raster : Nat)) byte)
      (imageByte g (x + (j / raster : Nat)) (y + 8 * (j % raster : Nat)) byte') := by
  refine Set.disjoint_left.mpr fun point hfirst hother => h ?_
  obtain ⟨⟨hx, -⟩, hrow, -⟩ := hfirst
  obtain ⟨⟨hx', -⟩, hrow', -⟩ := hother
  have hcolumn : i / raster = j / raster := by omega
  have hsegment : i % raster = j % raster := by omega
  rw [← Nat.div_add_mod i raster, hcolumn, hsegment, Nat.div_add_mod]

/-- The bytes of an image, drawn one after the other, ink its lit pixels. -/
theorem draw_bytes_stamps (color : Color) (xMove yMove : Int) {width height : Int}
    {data : List UInt8} {offset bytesInData : Nat}
    (h : ImageFits width height data offset bytesInData) :
    Stamps Frame.pixel color.ink
      (image g xMove yMove (rasterHeight height) (imageBytes width height data offset bytesInData))
      fun b : Frame g => (List.range (imageSize width height bytesInData)).foldlM
        (fun (b : Frame g) (i : Nat) => data[offset + i]?.bind
          (b.drawByte color (xMove + (i / rasterHeight height : Nat))
            (yMove / 8 + (i % rasterHeight height : Nat)) (yMove % 8) ·)) b := by
  refine (Stamps.foldlM_disjoint (fun (i : Nat) => imageByte g
    (xMove + (i / rasterHeight height : Nat)) (yMove + 8 * (i % rasterHeight height : Nat))
    ((imageBytes width height data offset bytesInData).getD i 0)) _ (fun i hi => ?_) ?_).congr ?_
  · have hbyte := draw_byte_stamps (g := g) color (xMove + (i / rasterHeight height : Nat))
      (yMove / 8 + (i % rasterHeight height : Nat))
      ((imageBytes width height data offset bytesInData).getD i 0)
      ⟨Int.emod_nonneg yMove (by decide), Int.emod_lt_of_pos yMove (by decide)⟩
    rw [show 8 * (yMove / 8 + ((i % rasterHeight height : Nat) : Int)) + yMove % 8 =
      yMove + 8 * ((i % rasterHeight height : Nat) : Int) by omega] at hbyte
    simpa only [h.get_eq (List.mem_range.mp hi), Option.bind_some] using hbyte
  · exact List.nodup_range.imp fun hne => image_bytes_disjoint xMove yMove _ _ hne
  · rw [image, h.length_eq]

/-- `OLEDDisplay_drawInternal` never leaves the buffer and inks the lit pixels of the image that
are on the screen, less those of the bytes that begin above it. -/
theorem draw_internal_stamps (color : Color) (xMove yMove : Int) {width height : Int}
    {data : List UInt8} {offset bytesInData : Nat}
    (h : ImageFits width height data offset bytesInData) :
    Stamps Frame.pixel color.ink
      (image g xMove yMove (rasterHeight height) (imageBytes width height data offset bytesInData))
      fun b => b.drawInternal color xMove yMove width height data offset bytesInData := by
  obtain ⟨hraster, hraster', hraster''⟩ := raster_height_eq h.height_le
  have hwidth := h.width_le
  have hheight := h.height_le
  have hscreen := g.height_eq
  have hpages := g.pages_bounds.2
  have hscreen' := g.width_bounds.2
  have hbytes : (if bytesInData = 0 then (width * rasterHeight height).toNat % 65536
      else bytesInData) = imageSize width height bytesInData := by
    have hlt := h.size_lt
    unfold imageSize at hlt ⊢
    split at hlt
    · rw [if_pos ‹_›, if_pos ‹_›]
      exact Nat.mod_eq_of_lt (by omega)
    · rw [if_neg ‹_›, if_neg ‹_›]
  simp only [Frame.drawInternal, if_neg (show ¬(width < 0 ∨ height < 0) by omega), hbytes,
    if_neg (show ¬(rasterHeight height = 0 ∧ 0 < imageSize width height bytesInData) by omega)]
  have hoff : (yMove + height < 0 ∨ g.height < yMove) ∨ xMove + width < 0 ∨ g.width < xMove →
      image g xMove yMove (rasterHeight height)
        (imageBytes width height data offset bytesInData) = ∅ := by
    intro hoff
    ext point
    simp only [Set.mem_empty_iff_false, iff_false]
    rintro ⟨i, hi, ⟨hx, hy⟩, ⟨hrow, -⟩, -⟩
    have hcolumn := h.column_lt (h.length_eq ▸ List.mem_range.mp hi)
    have hsegment : i % rasterHeight height < rasterHeight height := Nat.mod_lt _ hraster'
    have hpoint := point.1.isLt
    have hpoint' := point.2.isLt
    generalize i / rasterHeight height = column at hcolumn hx
    generalize i % rasterHeight height = segment at hsegment hy hrow
    omega
  by_cases hy : yMove + height < 0 ∨ g.height < yMove
  · simp only [if_pos hy, hoff (.inl hy)]
    exact Stamps.skip
  by_cases hx : xMove + width < 0 ∨ g.width < xMove
  · simp only [if_neg hy, if_pos hx, hoff (.inr hx)]
    exact Stamps.skip
  simp only [if_neg hy, if_neg hx]
  intro b
  obtain ⟨next, hnext, hshown⟩ := draw_bytes_stamps color xMove yMove h b
  refine ⟨next, ?_, hshown⟩
  have hloop := foldlM_map (Blit.mk (g := g) yMove (yMove % 8))
    (List.range (imageSize width height bytesInData))
    (f := blitByte color xMove yMove (rasterHeight height) data offset)
    (h := fun b i => data[offset + i]?.bind
      (Frame.drawByte color (xMove + (i / rasterHeight height : Nat))
        (yMove / 8 + (i % rasterHeight height : Nat)) (yMove % 8) · b))
    (fun i hi b => by
      have hi := List.mem_range.mp hi
      have hsize := h.size_lt
      rw [blit_byte_eq color data offset b ⟨by omega, by omega⟩ ⟨by omega, by omega⟩
        ⟨hraster', hraster''⟩ (by omega), Option.map_bind]
      rfl) b
  show Option.map Blit.buffer (List.foldlM _ _ _) = some next
  rw [hloop]
  exact (congrArg (Option.map Blit.buffer) (congrArg (Option.map _) hnext))

end SaiyuanClock
