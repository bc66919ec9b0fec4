import SaiyuanClock.Glyphs
import SaiyuanClock.Uart

/-!
# Text

A font is a table of bytes: a header with the height and the first character, a jump table with
the place, the size and the width of every glyph, and the glyphs. `OLEDDisplay_drawString` cuts
its text at line breaks, aligns every line by its width and draws the glyphs one beside the other.
With a well-formed font and a text of printable characters nothing is read outside the font, and
the picture of a line is that of its glyphs side by side.
-/

namespace SaiyuanClock

open Drawing

variable {g : Geometry}

/-- `pgm_read_byte` at a position of a font. A position outside the font is a fault. -/
def readByte (fontData : List UInt8) (i : Int) : Option Nat :=
  if 0 ≤ i then fontData[i.toNat]?.map UInt8.toNat else none

/-- The entry of a character in the jump table: where its glyph starts, unless it has none, how
many bytes the glyph has, and how wide it is. -/
structure Entry where
  address : Option Nat
  size : Nat
  width : Nat
  deriving DecidableEq, Repr

/-- The entry that `OLEDDisplay_drawStringInternal` reads for the character number `charCode`. -/
def readEntry (fontData : List UInt8) (charCode : Nat) : Option Entry := do
  let msbJumpToChar ← readByte fontData (4 + charCode * 4)
  let lsbJumpToChar ← readByte fontData (4 + charCode * 4 + 1)
  let charByteSize ← readByte fontData (4 + charCode * 4 + 2)
  let currentCharWidth ← readByte fontData (4 + charCode * 4 + 3)
  some
    { address :=
        if msbJumpToChar = 255 ∧ lsbJumpToChar = 255 then none
        else some (msbJumpToChar * 256 + lsbJumpToChar)
      size := charByteSize
      width := currentCharWidth }

/-- The body of the loop of `OLEDDisplay_drawStringInternal`: the glyph of a character is drawn at
the cursor and the cursor moves by its width. -/
def drawChar (color : Color) (fontData : List UInt8) (xMove yMove : Int)
    (textHeight firstChar sizeOfJumpTable : Nat) (s : Nat × Frame g) (code : UInt8) :
    Option (Nat × Frame g) :=
  let xPos := int16 (xMove + s.1)
  if firstChar ≤ code.toNat then
    (readEntry fontData (code.toNat - firstChar)).bind fun entry =>
      (match entry.address with
        | none => some s.2
        | some address =>
            s.2.drawInternal color xPos yMove entry.width textHeight fontData
              ((4 + sizeOfJumpTable + address) % 65536) entry.size).map fun b =>
        ((s.1 + entry.width) % 65536, b)
  else some s

/-- The column of a line of text after alignment. -/
def alignX (textAlignment : TextAlignment) (xMove : Int) (textWidth : Nat) : Int :=
  match textAlignment with
  | .centerBoth | .center => int16 (xMove - textWidth / 2)
  | .right => int16 (xMove - textWidth)
  | .left => xMove

/-- The row of a line of text after alignment. -/
def alignY (textAlignment : TextAlignment) (yMove : Int) (textHeight : Nat) : Int :=
  match textAlignment with
  | .centerBoth => int16 (yMove - textHeight / 2)
  | .center | .right | .left => yMove

/-- `OLEDDisplay_drawStringInternal`. -/
def Frame.drawStringInternal (color : Color) (textAlignment : TextAlignment) (fontData : List UInt8)
    (xMove yMove : Int) (text : List UInt8) (textWidth : Nat) (b : Frame g) :
    Option (Frame g) := do
  let textHeight ← readByte fontData 1
  let firstChar ← readByte fontData 2
  let charNum ← readByte fontData 3
  let yMove := alignY textAlignment yMove textHeight
  let xMove := alignX textAlignment xMove textWidth
  if xMove + textWidth < 0 ∨ g.width < xMove then some b
  else if yMove + textHeight < 0 ∨ g.height < yMove then some b
  else
    (text.foldlM (drawChar color fontData xMove yMove textHeight firstChar (charNum * 4))
      (0, b)).map Prod.snd

/-- The body of the loop of `OLEDDisplay_getStringWidthLen`, with `stringWidth` and `maxWidth`. -/
def addCharWidth (fontData : List UInt8) (firstChar : Nat) (s : Nat × Nat) (code : UInt8) :
    Option (Nat × Nat) :=
  (readByte fontData (4 + (code.toNat - firstChar : Int) * 4 + 3)).map fun width =>
    let stringWidth := (s.1 + width) % 65536
    if code = newline then (0, max s.2 stringWidth) else (stringWidth, s.2)

/-- `OLEDDisplay_getStringWidthLen`: the loop runs from the end of the text to its start. -/
def getStringWidthLen (fontData : List UInt8) (text : List UInt8) : Option Nat := do
  let firstChar ← readByte fontData 2
  let (stringWidth, maxWidth) ← text.reverse.foldlM (addCharWidth fontData firstChar) (0, 0)
  some (max maxWidth stringWidth)

/-- The pieces that `strtok(text, "\n")` finds: the non-empty lines. -/
def textParts (text : List UInt8) : List (List UInt8) :=
  (text.splitOn newline).filter (· ≠ [])

/-- `OLEDDisplay_drawString`. -/
def Frame.drawString (color : Color) (textAlignment : TextAlignment) (fontData : List UInt8)
    (xMove yMove : Int) (strUser : List UInt8) (b : Frame g) : Option (Frame g) := do
  let lineHeight ← readByte fontData 1
  let lb := strUser.count newline
  let yOffset := if textAlignment = .centerBoth then lb * lineHeight / 2 % 65536 else 0
  (textParts strUser).zipIdx.foldlM (fun b part => do
    let textWidth ← getStringWidthLen fontData part.1
    b.drawStringInternal color textAlignment fontData xMove
      (int16 (yMove - yOffset + part.2 * lineHeight)) part.1 textWidth) b

/-! ## Well-formed fonts -/

/-- The height of a font. -/
def fontHeight (fontData : List UInt8) : Nat := (fontData.getD 1 0).toNat

/-- The first character of a font. -/
def firstChar (fontData : List UInt8) : Nat := (fontData.getD 2 0).toNat

/-- Where the glyphs of a font start. -/
def glyphStart (fontData : List UInt8) : Nat := 4 + (fontData.getD 3 0).toNat * 4

/-- The jump table has an entry for every character from the first one on, and every glyph stands
in the table and fills no more than its columns. -/
structure FontFits (fontData : List UInt8) : Prop where
  height_pos : 0 < fontHeight fontData
  table_le : glyphStart fontData ≤ fontData.length
  table_ge : 4 + (256 - firstChar fontData) * 4 ≤ glyphStart fontData
  glyphs : ∀ charCode < 256 - firstChar fontData, ∀ entry ∈ readEntry fontData charCode,
    ∀ address ∈ entry.address, glyphStart fontData + address < 65536 ∧
      ImageFits entry.width (fontHeight fontData) fontData (glyphStart fontData + address)
        entry.size

/-- A well-formed font. -/
structure Font where
  data : List UInt8
  fits : FontFits data

/-- A position inside a font can be read. -/
theorem read_byte_eq {fontData : List UInt8} {i : Nat} (h : i < fontData.length) :
    readByte fontData i = some (fontData.getD i 0).toNat := by
  rw [readByte, if_pos (Int.natCast_nonneg i), Int.toNat_natCast, List.getElem?_eq_getElem h,
    List.getD_eq_getElem _ _ h]
  rfl

namespace Font

/-- The entry of a character. -/
def entry (font : Font) (code : UInt8) : Entry :=
  (readEntry font.data (code.toNat - firstChar font.data)).getD ⟨none, 0, 0⟩

/-- How far a character moves the cursor. -/
def advance (font : Font) (code : UInt8) : Nat :=
  if firstChar font.data ≤ code.toNat then (font.entry code).width else 0

/-- The width of a line of text. -/
def lineWidth (font : Font) (text : List UInt8) : Nat := (text.map font.advance).sum

/-- The lit pixels of a character at the given position. -/
def glyph (g : Geometry) (font : Font) (x y : Int) (code : UInt8) : Set (Point g) :=
  if firstChar font.data ≤ code.toNat then
    match (font.entry code).address with
    | none => ∅
    | some address =>
        image g x y (rasterHeight (fontHeight font.data))
          (imageBytes (font.entry code).width (fontHeight font.data) font.data
            (glyphStart font.data + address) (font.entry code).size)
  else ∅

/-- The lit pixels of a line of text: its characters side by side. -/
def line (g : Geometry) (font : Font) (x y : Int) : List UInt8 → Set (Point g)
  | [] => ∅
  | code :: text => font.glyph g x y code ∪ font.line g (x + font.advance code) y text

variable (font : Font)

/-- The bytes of the entry of a printable character are in the font. -/
theorem read_jump_table {code : UInt8} (h : firstChar font.data ≤ code.toNat) {k : Nat}
    (hk : k < 4) :
    readByte font.data (4 + ((code.toNat - firstChar font.data : Nat) : Int) * 4 + k) =
      some (font.data.getD (4 + (code.toNat - firstChar font.data) * 4 + k) 0).toNat := by
  have hcode := code.toNat_lt
  have htable := font.fits.table_le
  have htable' := font.fits.table_ge
  rw [← read_byte_eq (by omega)]
  congr 1

/-- The entry of a printable character is in the font, and so is its width. -/
theorem read_entry_eq {code : UInt8} (h : firstChar font.data ≤ code.toNat) :
    readEntry font.data (code.toNat - firstChar font.data) = some (font.entry code) ∧
      readByte font.data (4 + (code.toNat - firstChar font.data : Int) * 4 + 3) =
        some (font.entry code).width := by
  have hread0 := font.read_jump_table h (k := 0) (by decide)
  have hread1 := font.read_jump_table h (k := 1) (by decide)
  have hread2 := font.read_jump_table h (k := 2) (by decide)
  have hread3 := font.read_jump_table h (k := 3) (by decide)
  simp only [Nat.cast_zero, Int.add_zero, Nat.cast_one,
    Nat.cast_ofNat] at hread0 hread1 hread2 hread3
  have hentry :
      readEntry font.data (code.toNat - firstChar font.data) = some (font.entry code) := by
    unfold entry
    simp [readEntry, hread0, hread1, hread2, hread3]
  refine ⟨hentry, ?_⟩
  rw [← Int.natCast_sub h, hread3]
  simp [entry, readEntry, hread0, hread1, hread2, hread3]

/-- The glyph of a character stands in the font and fills no more than its columns. -/
theorem glyph_fits {code : UInt8} (h : firstChar font.data ≤ code.toNat) {address : Nat}
    (haddress : (font.entry code).address = some address) :
    glyphStart font.data + address < 65536 ∧
      ImageFits (font.entry code).width (fontHeight font.data) font.data
        (glyphStart font.data + address) (font.entry code).size :=
  font.fits.glyphs _ (by have hcode := code.toNat_lt; omega) _ (font.read_entry_eq h).1 _ haddress

/-- The pixels of a character lie in its columns. -/
theorem glyph_columns {x y : Int} {code : UInt8} {point : Point g}
    (h : point ∈ font.glyph g x y code) :
    x ≤ point.1 ∧ point.1 < x + font.advance code := by
  unfold glyph at h
  by_cases hfirst : firstChar font.data ≤ code.toNat
  · rw [if_pos hfirst] at h
    split at h
    · exact absurd h (Set.notMem_empty point)
    · rename_i address haddress
      obtain ⟨-, hfits⟩ := font.glyph_fits hfirst haddress
      obtain ⟨i, hi, ⟨hcolumn, -⟩, -⟩ := h
      have hlt := hfits.column_lt (hfits.length_eq ▸ List.mem_range.mp hi)
      have hnonneg := Int.natCast_nonneg (i / rasterHeight (fontHeight font.data))
      rw [advance, if_pos hfirst]
      omega
  · rw [if_neg hfirst] at h
    exact absurd h (Set.notMem_empty point)

/-- The pixels of a line lie in its columns. -/
theorem line_columns {x y : Int} {text : List UInt8} {point : Point g}
    (h : point ∈ font.line g x y text) :
    x ≤ point.1 ∧ point.1 < x + font.lineWidth text := by
  induction text generalizing x with
  | nil => exact absurd h (Set.notMem_empty point)
  | cons code text ih =>
      have hwidth : font.lineWidth (code :: text) = font.advance code + font.lineWidth text := by
        simp [lineWidth]
      rcases h with h | h
      · have hcolumns := font.glyph_columns h
        omega
      · have hcolumns := ih h
        omega

/-! ## Lines of text -/

/-- The header of a font can be read. -/
theorem read_header :
    readByte font.data 1 = some (fontHeight font.data) ∧
      readByte font.data 2 = some (firstChar font.data) ∧
      (readByte font.data 3).map (4 + · * 4) = some (glyphStart font.data) := by
  have htable := font.fits.table_le
  have htable' := font.fits.table_ge
  have hfirst : firstChar font.data < 256 := UInt8.toNat_lt _
  refine ⟨read_byte_eq (i := 1) (by omega), read_byte_eq (i := 2) (by omega), ?_⟩
  rw [show (3 : Int) = ((3 : Nat) : Int) from rfl, read_byte_eq (by omega)]
  rfl

/-- A character is drawn at the cursor, and the cursor moves on. -/
theorem draw_char_stamps (color : Color) (xMove yMove : Int) (cursor : Nat) {charNum : Nat}
    (code : UInt8) (hnum : 4 + charNum * 4 = glyphStart font.data)
    (hx : -32768 ≤ xMove + cursor ∧ xMove + cursor < 32768)
    (hcursor : cursor + font.advance code < 65536) (b : Frame g) :
    ∃ next : Frame g,
      drawChar color font.data xMove yMove (fontHeight font.data) (firstChar font.data)
        (charNum * 4) (cursor, b) code = some (cursor + font.advance code, next) ∧
      next.pixel = stamp color.ink (font.glyph g (xMove + cursor) yMove code) b.pixel := by
  have hxPos : int16 (xMove + cursor) = xMove + cursor := int16_eq_self hx
  unfold advance at hcursor ⊢
  unfold glyph
  by_cases hfirst : firstChar font.data ≤ code.toNat
  · rw [if_pos hfirst] at hcursor
    simp only [drawChar, if_pos hfirst, hxPos, (font.read_entry_eq hfirst).1,
      Option.bind_some]
    cases haddress : (font.entry code).address with
    | none =>
        refine ⟨b, ?_, stamp_empty.symm⟩
        rw [Option.map_some, Nat.mod_eq_of_lt hcursor]
    | some address =>
        obtain ⟨haddress', hfits⟩ := font.glyph_fits hfirst haddress
        obtain ⟨next, hnext, hshown⟩ :=
          draw_internal_stamps (g := g) color (xMove + cursor) yMove hfits b
        refine ⟨next, ?_, hshown⟩
        simp only [hnum, Nat.mod_eq_of_lt haddress', hnext, Option.map_some,
          Nat.mod_eq_of_lt hcursor]
  · simp only [drawChar, if_neg hfirst]
    exact ⟨b, rfl, stamp_empty.symm⟩

/-- The characters of a line are drawn side by side. -/
theorem draw_chars_stamps (color : Color) (xMove yMove : Int) (cursor : Nat) {charNum : Nat}
    (text : List UInt8) (hnum : 4 + charNum * 4 = glyphStart font.data)
    (hx : -32768 ≤ xMove) (hend : xMove + cursor + font.lineWidth text < 32768)
    (hcursor : cursor + font.lineWidth text < 65536) (b : Frame g) :
    ∃ next : Frame g,
      text.foldlM (drawChar color font.data xMove yMove (fontHeight font.data)
        (firstChar font.data) (charNum * 4)) (cursor, b) =
          some (cursor + font.lineWidth text, next) ∧
      next.pixel = stamp color.ink (font.line g (xMove + cursor) yMove text) b.pixel := by
  induction text generalizing cursor b with
  | nil => exact ⟨b, rfl, stamp_empty.symm⟩
  | cons code text ih =>
      have hwidth : font.lineWidth (code :: text) = font.advance code + font.lineWidth text := by
        simp [lineWidth]
      rw [hwidth] at hend hcursor
      obtain ⟨middle, hmiddle, hglyph⟩ :=
        font.draw_char_stamps color xMove yMove cursor code hnum ⟨by omega, by omega⟩
          (by omega) b
      obtain ⟨next, hnext, hrest⟩ := ih (cursor + font.advance code) (by omega) (by omega) middle
      refine ⟨next, ?_, ?_⟩
      · rw [List.foldlM_cons, hmiddle, hwidth, ← Nat.add_assoc]
        exact hnext
      · have hapart : Disjoint (font.glyph g (xMove + cursor) yMove code)
            (font.line g (xMove + cursor + font.advance code) yMove text) :=
          Set.disjoint_left.mpr fun point hfirst hother => by
            have hcolumns := font.glyph_columns hfirst
            have hcolumns' := font.line_columns hother
            omega
        rw [hrest, hglyph, Nat.cast_add, ← Int.add_assoc, stamp_stamp_disjoint hapart]
        rfl

/-- A character that is shown begins above the bottom of the screen and ends below its top. -/
theorem glyph_rows {x y : Int} {code : UInt8} {point : Point g}
    (h : point ∈ font.glyph g x y code) : y ≤ point.2 ∧ 0 < y + fontHeight font.data := by
  unfold glyph at h
  by_cases hfirst : firstChar font.data ≤ code.toNat
  · rw [if_pos hfirst] at h
    split at h
    · exact absurd h (Set.notMem_empty point)
    · rename_i address haddress
      obtain ⟨-, hfits⟩ := font.glyph_fits hfirst haddress
      obtain ⟨hraster, hraster', -⟩ := raster_height_eq hfits.height_le
      obtain ⟨i, hi, ⟨-, htop⟩, ⟨hrow, -⟩, -⟩ := h
      have hsegment := Nat.mod_lt i hraster'
      generalize i % rasterHeight (fontHeight font.data) = segment at hsegment htop hrow
      omega
  · rw [if_neg hfirst] at h
    exact absurd h (Set.notMem_empty point)

/-- A line that is shown begins above the bottom of the screen and ends below its top. -/
theorem line_rows {x y : Int} {text : List UInt8} {point : Point g}
    (h : point ∈ font.line g x y text) : y ≤ point.2 ∧ 0 < y + fontHeight font.data := by
  induction text generalizing x with
  | nil => exact absurd h (Set.notMem_empty point)
  | cons code text ih =>
      rcases h with h | h
      · exact font.glyph_rows h
      · exact ih h

/-- A line beside the screen shows nothing. -/
theorem line_off_screen {x y : Int} {text : List UInt8}
    (h : (x + font.lineWidth text < 0 ∨ g.width < x) ∨
      y + fontHeight font.data < 0 ∨ g.height < y) : font.line g x y text = ∅ := by
  ext point
  simp only [Set.mem_empty_iff_false, iff_false]
  intro hmem
  have hcolumns := font.line_columns hmem
  have hrows := font.line_rows hmem
  have hpoint := point.1.isLt
  have hpoint' := point.2.isLt
  omega

/-- Alignment moves a line by at most its width. -/
theorem align_x_bounds (textAlignment : TextAlignment) {xMove : Int} {textWidth : Nat}
    (hx : -8192 ≤ xMove ∧ xMove ≤ 8192) (hwidth : textWidth ≤ 8192) :
    -16384 ≤ alignX textAlignment xMove textWidth ∧
      alignX textAlignment xMove textWidth ≤ 8192 := by
  cases textAlignment <;> simp only [alignX, int16] <;> omega

/-- `OLEDDisplay_drawStringInternal` never leaves the buffer or the font and inks the pixels of
the line, whatever width it is told, if what it takes to be left of the screen is. -/
theorem draw_string_internal_placed (color : Color) (textAlignment : TextAlignment) {xMove : Int}
    (yMove : Int) {text : List UInt8} {textWidth : Nat}
    (hx : -16384 ≤ alignX textAlignment xMove textWidth ∧
      alignX textAlignment xMove textWidth ≤ 8192)
    (hwidth : font.lineWidth text ≤ 8192)
    (hbeside : alignX textAlignment xMove textWidth + textWidth < 0 →
      alignX textAlignment xMove textWidth + font.lineWidth text < 0) :
    Stamps Frame.pixel color.ink
      (font.line g (alignX textAlignment xMove textWidth)
        (alignY textAlignment yMove (fontHeight font.data)) text) fun b =>
      b.drawStringInternal color textAlignment font.data xMove yMove text textWidth := by
  obtain ⟨hheight, hfirst, hnum⟩ := font.read_header
  obtain ⟨charNum, hcharNum, hstart⟩ := Option.map_eq_some_iff.mp hnum
  simp only [Frame.drawStringInternal, hheight, hfirst, hcharNum, Option.bind_eq_bind,
    Option.bind_some]
  generalize alignX textAlignment xMove textWidth = x at hx hbeside
  generalize alignY textAlignment yMove (fontHeight font.data) = y
  by_cases hcolumns : x + textWidth < 0 ∨ g.width < x
  · simp only [if_pos hcolumns, font.line_off_screen (.inl (hcolumns.imp_left hbeside))]
    exact Stamps.skip
  by_cases hrows : y + fontHeight font.data < 0 ∨ g.height < y
  · simp only [if_neg hcolumns, if_pos hrows, font.line_off_screen (.inr hrows)]
    exact Stamps.skip
  simp only [if_neg hcolumns, if_neg hrows]
  intro b
  obtain ⟨next, hnext, hshown⟩ := font.draw_chars_stamps color x y 0 text hstart
    (by omega) (by omega) (by omega) b
  exact ⟨next, by simp only [hnext, Option.map_some], by simpa using hshown⟩

/-- Told the width of the line, it inks the pixels of the aligned line. -/
theorem draw_string_internal_stamps (color : Color) (textAlignment : TextAlignment) {xMove : Int}
    (yMove : Int) {text : List UInt8} (hx : -8192 ≤ xMove ∧ xMove ≤ 8192)
    (hwidth : font.lineWidth text ≤ 8192) :
    Stamps Frame.pixel color.ink
      (font.line g (alignX textAlignment xMove (font.lineWidth text))
        (alignY textAlignment yMove (fontHeight font.data)) text) fun b =>
      b.drawStringInternal color textAlignment font.data xMove yMove text (font.lineWidth text) :=
  font.draw_string_internal_placed color textAlignment yMove
    (align_x_bounds textAlignment hx hwidth) hwidth id

/-! ## Texts -/

/-- The characters of a line can be looked up in the font, and the line is not too wide. -/
def Prints (text : List UInt8) : Prop :=
  (∀ code ∈ text, firstChar font.data ≤ code.toNat ∧ code ≠ newline) ∧ font.lineWidth text ≤ 8192

/-- The width of a text is the sum of the widths of its characters, whatever order they are
added in. -/
theorem foldlM_add_char_width (text : List UInt8) (width : Nat)
    (htext : ∀ code ∈ text, firstChar font.data ≤ code.toNat ∧ code ≠ newline)
    (hwidth : width + font.lineWidth text < 65536) :
    text.foldlM (addCharWidth font.data (firstChar font.data)) (width, 0) =
      some (width + font.lineWidth text, 0) := by
  induction text generalizing width with
  | nil => rfl
  | cons code text ih =>
      obtain ⟨⟨hfirst, hnewline⟩, htext⟩ := List.forall_mem_cons.mp htext
      have hadvance : font.lineWidth (code :: text) =
          (font.entry code).width + font.lineWidth text := by
        simp [lineWidth, advance, hfirst]
      rw [hadvance] at hwidth
      rw [List.foldlM_cons, addCharWidth, (font.read_entry_eq hfirst).2, Option.map_some,
        if_neg hnewline, Nat.mod_eq_of_lt (by omega), hadvance, ← Nat.add_assoc]
      exact ih _ htext (by omega)

/-- `OLEDDisplay_getStringWidthLen` of a printable line is its width. -/
theorem get_string_width_len_eq {text : List UInt8} (h : font.Prints text) :
    getStringWidthLen font.data text = some (font.lineWidth text) := by
  obtain ⟨htext, hwidth⟩ := h
  have hreverse : font.lineWidth text.reverse = font.lineWidth text := by
    simp [lineWidth, List.sum_reverse]
  have hsum := font.foldlM_add_char_width text.reverse 0
    (fun code hcode => htext code (List.mem_reverse.mp hcode)) (by omega)
  rw [hreverse, Nat.zero_add] at hsum
  simp only [getStringWidthLen, font.read_header.2.1, hsum, Option.bind_eq_bind, Option.bind_some,
    Nat.max_eq_right (Nat.zero_le _)]

/-- The pixels of a text: its non-empty lines below each other, each one aligned by its width. -/
def text (g : Geometry) (textAlignment : TextAlignment) (x y : Int) (strUser : List UInt8) :
    Set (Point g) :=
  {point | ∃ part ∈ (textParts strUser).zipIdx, point ∈ font.line g
    (alignX textAlignment x (font.lineWidth part.1))
    (alignY textAlignment (y - (if textAlignment = .centerBoth then
        strUser.count newline * fontHeight font.data / 2 else 0 : Nat) +
      part.2 * fontHeight font.data) (fontHeight font.data)) part.1}

/-- A text whose lines print and that is not too high. -/
structure PrintsAll (strUser : List UInt8) : Prop where
  lines : ∀ part ∈ textParts strUser, font.Prints part
  height_le : (strUser.count newline + 1) * fontHeight font.data ≤ 8192

/-- A text has at most one line more than it has line breaks. -/
theorem length_text_parts_le (strUser : List UInt8) :
    (textParts strUser).length ≤ strUser.count newline + 1 := by
  refine (List.length_filter_le _ _).trans (le_of_eq ?_)
  induction strUser with
  | nil => rfl
  | cons code text ih =>
      rw [List.splitOn, List.splitOnP_cons_eq_if_modifyHead, List.count_cons]
      by_cases hbreak : (code == newline) = true
      · rw [if_pos hbreak, if_pos hbreak, List.length_cons]
        exact congrArg (· + 1) ih
      · rw [if_neg hbreak, if_neg hbreak, List.length_modifyHead]
        exact ih

/-- `OLEDDisplay_drawString` in a solid color never leaves the buffer or the font and inks the
pixels of the text. -/
theorem draw_string_stamps {color : Color} (hcolor : color ≠ .inverse)
    (textAlignment : TextAlignment) {xMove yMove : Int} {strUser : List UInt8}
    (hx : -8192 ≤ xMove ∧ xMove ≤ 8192) (hy : -8192 ≤ yMove ∧ yMove ≤ 8192)
    (h : font.PrintsAll strUser) :
    Stamps Frame.pixel color.ink (font.text g textAlignment xMove yMove strUser) fun b =>
      b.drawString color textAlignment font.data xMove yMove strUser := by
  have hink := Color.ink_ink hcolor
  have hlines := length_text_parts_le strUser
  have hbreaks : strUser.count newline * fontHeight font.data ≤ 8192 := by
    have hheight := h.height_le
    rw [Nat.succ_mul] at hheight
    omega
  simp only [Frame.drawString, font.read_header.1, Option.bind_eq_bind, Option.bind_some]
  refine Stamps.foldlM_idempotent hink _ _ fun part hpart => ?_
  obtain ⟨line, index⟩ := part
  obtain ⟨hindex, hline⟩ := List.getElem?_eq_some_iff.mp (List.mk_mem_zipIdx_iff_getElem?.mp hpart)
  have hprints := h.lines line (hline ▸ List.getElem_mem hindex)
  have hrow : index * fontHeight font.data ≤ strUser.count newline * fontHeight font.data :=
    Nat.mul_le_mul_right _ (by omega)
  have hoffset : (if textAlignment = .centerBoth then
      strUser.count newline * fontHeight font.data / 2 % 65536 else 0) =
      if textAlignment = .centerBoth then
        strUser.count newline * fontHeight font.data / 2 else 0 := by
    split
    · exact Nat.mod_eq_of_lt (by omega)
    · rfl
  have hoffset' : (if textAlignment = .centerBoth then
      strUser.count newline * fontHeight font.data / 2 else 0) ≤ 8192 := by
    split <;> omega
  rw [hoffset]
  generalize (if textAlignment = .centerBoth then
    strUser.count newline * fontHeight font.data / 2 else 0) = yOffset at hoffset'
  have hyMove : int16 (yMove - yOffset + index * fontHeight font.data) =
      yMove - yOffset + index * fontHeight font.data := by
    rw [← Int.natCast_mul]
    exact int16_eq_self ⟨by omega, by omega⟩
  simp only [font.get_string_width_len_eq hprints, Option.bind_some, hyMove]
  exact font.draw_string_internal_stamps color textAlignment _ hx hprints.2

end Font

end SaiyuanClock
