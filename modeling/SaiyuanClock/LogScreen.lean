import SaiyuanClock.LogBuffer
import SaiyuanClock.Fonts

/-!
# The log on the screen

`OLEDDisplay_drawLogBuffer` draws the lines of the log buffer below each other. It remembers where
the last line break stands, not where the next line begins: every line but the first is drawn with
the line break before it, which has no glyph, and a last line that is not finished loses its last
character to it.
-/

namespace SaiyuanClock

open Drawing

variable {g : Geometry}

/-- The locals of the loop of `OLEDDisplay_drawLogBuffer`. -/
structure LogPass (g : Geometry) where
  length : Nat
  line : Nat
  lastPos : Nat
  buffer : Frame g

/-- `length` bytes of the log buffer from `lastPos` on. A byte behind those that were stored is a
fault. -/
def readLine (text : List UInt8) (lastPos length : Nat) : Option (List UInt8) :=
  if lastPos + length ≤ text.length then some ((text.drop lastPos).take length) else none

/-- The call of `OLEDDisplay_drawStringInternal` for a line of the log buffer. -/
def LogPass.drawLine (color : Color) (fontData : List UInt8) (xMove yMove : Nat)
    (text : List UInt8) (s : LogPass g) : Option (Frame g) := do
  let lineHeight ← readByte fontData 1
  let piece ← readLine text s.lastPos s.length
  s.buffer.drawStringInternal color .left fontData (int16 xMove)
    (int16 (yMove + s.line * lineHeight)) piece 0

/-- The body of the loop of `OLEDDisplay_drawLogBuffer` for a byte and its index. -/
def LogPass.next (color : Color) (fontData : List UInt8) (xMove yMove : Nat) (text : List UInt8)
    (s : LogPass g) (c : UInt8 × Nat) : Option (LogPass g) :=
  let s := { s with length := (s.length + 1) % 65536 }
  if c.1 = newline then
    (s.drawLine color fontData xMove yMove text).map fun buffer =>
      { length := 0, line := (s.line + 1) % 65536, lastPos := c.2, buffer := buffer }
  else some s

/-- What `OLEDDisplay_drawLogBuffer` does after the loop. -/
def LogPass.finish (color : Color) (fontData : List UInt8) (xMove yMove : Nat) (text : List UInt8)
    (s : LogPass g) : Option (Frame g) :=
  if 0 < s.length then s.drawLine color fontData xMove yMove text else some s.buffer

/-- The log buffer is drawn in the buffer. -/
def Frame.drawLogBuffer (color : Color) (fontData : List UInt8) (xMove yMove : Nat)
    (text : List UInt8) (b : Frame g) : Option (Frame g) :=
  (text.zipIdx.foldlM (LogPass.next color fontData xMove yMove text) ⟨0, 0, 0, b⟩).bind
    (LogPass.finish color fontData xMove yMove text)

/-- `OLEDDisplay_drawLogBuffer`, which leaves the text alignment left. -/
def OLEDDisplay.drawLogBuffer (log : LogBuffer) (xMove yMove : Nat) (oled : OLEDDisplay g) :
    Option (OLEDDisplay g) :=
  { oled with textAlignment := .left }.draw fun color b =>
    b.drawLogBuffer color oled.fontData xMove yMove log.text

/-! ## The lines -/

/-- The lines of a text that are drawn: those that are finished as they are, and the last one
without its last character, unless it is also the first. -/
def shownLines (text : List UInt8) : List (List UInt8) :=
  (text.splitOn newline).dropLast ++
    [if newline ∈ text then ((text.splitOn newline).getLastD []).dropLast else text]

/-- The lines of `rest` that are still to be drawn, when `line` was read before it and `first` tells
whether it is the first. -/
def linesFrom (first : Bool) (line : List UInt8) : List UInt8 → List (List UInt8)
  | [] => [if first then line else line.dropLast]
  | c :: rest =>
      if c = newline then line :: linesFrom false [] rest else linesFrom first (line ++ [c]) rest

/-- The lines of a text, one after another. -/
theorem lines_from_eq (first : Bool) {line : List UInt8} (h : newline ∉ line)
    (rest : List UInt8) :
    linesFrom first line rest =
      ((line ++ rest).splitOn newline).dropLast ++
        [if first = true ∧ newline ∉ rest then line ++ rest
          else (((line ++ rest).splitOn newline).getLastD []).dropLast] := by
  induction rest generalizing first line with
  | nil =>
      rw [List.append_nil, List.splitOn_eq_singleton h]
      cases first <;> simp [linesFrom]
  | cons c rest ih =>
      rw [linesFrom]
      by_cases hbreak : c = newline
      · subst hbreak
        rw [if_pos rfl, ih false (List.not_mem_nil), List.nil_append,
          List.splitOn_append_cons_self_of_not_mem h,
          List.dropLast_cons_of_ne_nil (List.splitOn_ne_nil _ _), List.cons_append]
        have hlast := List.getLast?_eq_some_getLast (List.splitOn_ne_nil newline rest)
        simp [List.getLast?_cons, hlast]
      · have hline : newline ∉ line ++ [c] := by
          simp only [List.mem_append, List.mem_singleton, not_or]
          exact ⟨h, fun heq => hbreak heq.symm⟩
        rw [if_neg hbreak, ih first hline, List.append_assoc, List.singleton_append]
        simp [Ne.symm hbreak]

/-- The lines of a text from its start. -/
theorem lines_from_start (text : List UInt8) : linesFrom true [] text = shownLines text := by
  rw [lines_from_eq true List.not_mem_nil, List.nil_append, shownLines]
  congr 2
  simp only [true_and]
  by_cases hbreak : newline ∈ text
  · rw [if_neg (not_not_intro hbreak), if_pos hbreak]
  · rw [if_pos hbreak, if_neg hbreak]

/-- A part of the text is read. -/
theorem read_line_eq (before piece after : List UInt8) :
    readLine (before ++ piece ++ after) before.length piece.length = some piece := by
  rw [readLine, if_pos (by simp), List.append_assoc, List.drop_left, List.take_left]

/-- Where the loop stands: at the start of the text, or behind a line break. -/
inductive Position : Bool → List UInt8 → Nat → Prop where
  | start : Position true [] 0
  | broken (before : List UInt8) : Position false (before ++ [newline]) before.length

/-- At a line break the line before it is read, with a line break. -/
theorem Position.read_line {first : Bool} {before : List UInt8} {lastPos : Nat}
    (h : Position first before lastPos) (line rest : List UInt8) :
    ∃ piece, readLine (before ++ line ++ newline :: rest) lastPos (line.length + 1) = some piece ∧
      (piece = line ++ [newline] ∨ piece = newline :: line) := by
  cases h with
  | start =>
      refine ⟨line ++ [newline], ?_, .inl rfl⟩
      have hread := read_line_eq [] (line ++ [newline]) rest
      simpa using hread
  | broken before =>
      refine ⟨newline :: line, ?_, .inr rfl⟩
      have hread := read_line_eq before (newline :: line) (newline :: rest)
      simpa using hread

/-- At the end of the text the last line is read, or a line break and all of it but its last
character. -/
theorem Position.read_last {first : Bool} {before : List UInt8} {lastPos : Nat}
    (h : Position first before lastPos) {line : List UInt8} (hne : line ≠ []) :
    ∃ piece, readLine (before ++ line) lastPos line.length = some piece ∧
      (first = true ∧ piece = line ∨ first = false ∧ piece = newline :: line.dropLast) := by
  cases h with
  | start =>
      refine ⟨line, ?_, .inl ⟨rfl, rfl⟩⟩
      have hread := read_line_eq [] line []
      simpa using hread
  | broken before =>
      refine ⟨newline :: line.dropLast, ?_, .inr ⟨rfl, rfl⟩⟩
      have hread := read_line_eq before (newline :: line.dropLast) [line.getLast hne]
      have hlength : (newline :: line.dropLast).length = line.length := by
        have hpos := List.length_pos_iff.mpr hne
        rw [List.length_cons, List.length_dropLast]
        omega
      rw [hlength] at hread
      simpa [List.dropLast_append_getLast] using hread

namespace Font

variable (font : Font)

/-- A line break that the font has no glyph for does not show. -/
theorem line_break (hfont : newline.toNat < firstChar font.data) {x y : Int}
    {line piece : List UInt8} (h : piece = line ++ [newline] ∨ piece = newline :: line) :
    font.line g x y piece = font.line g x y line ∧ font.lineWidth piece = font.lineWidth line := by
  have hadvance : font.advance newline = 0 := if_neg (Nat.not_le.mpr hfont)
  have hglyph : ∀ x, font.glyph g x y newline = ∅ := fun x => if_neg (Nat.not_le.mpr hfont)
  rcases h with rfl | rfl
  · constructor
    · induction line generalizing x with
      | nil => simp [Font.line, hglyph]
      | cons c line ih => rw [List.cons_append, Font.line, Font.line, ih]
    · simp [lineWidth, hadvance]
  · constructor
    · rw [Font.line, hglyph, hadvance, Nat.cast_zero, Int.add_zero, Set.empty_union]
    · simp [lineWidth, hadvance]

/-- A line of the log buffer inks the pixels of what is read for it. -/
theorem draw_line_stamps (color : Color) {xMove yMove length line lastPos : Nat}
    {text piece : List UInt8} (hx : xMove ≤ 8192) (hy : yMove ≤ 8192)
    (hrow : line * fontHeight font.data ≤ 8192)
    (hread : readLine text lastPos length = some piece) (hwidth : font.lineWidth piece ≤ 8192) :
    Stamps Frame.pixel color.ink
      (font.line g xMove (yMove + line * fontHeight font.data : Nat) piece) fun b =>
      LogPass.drawLine color font.data xMove yMove text ⟨length, line, lastPos, b⟩ := by
  have hxMove : int16 (xMove : Int) = xMove := int16_eq_self ⟨by omega, by omega⟩
  have hyMove : int16 ((yMove : Int) + (line : Int) * (fontHeight font.data : Int)) =
      (yMove + line * fontHeight font.data : Nat) := by
    rw [← Int.natCast_mul, ← Int.natCast_add]
    exact int16_eq_self ⟨by omega, by omega⟩
  simp only [LogPass.drawLine, font.read_header.1, hread, Option.bind_eq_bind, Option.bind_some,
    hxMove, hyMove]
  have halign : -16384 ≤ alignX .left xMove 0 ∧ alignX .left xMove 0 ≤ 8192 := by
    simp only [alignX]
    omega
  have hbeside : alignX .left xMove 0 + (0 : Nat) < 0 →
      alignX .left xMove 0 + font.lineWidth piece < 0 := by
    simp only [alignX]
    omega
  exact font.draw_string_internal_placed color .left _ halign hwidth hbeside

variable {color : Color} {xMove yMove : Nat}

/-- The pixels of some lines below each other, the first of them in line `k`. -/
def lines (g : Geometry) (xMove yMove k : Nat) (parts : List (List UInt8)) : Set (Point g) :=
  {point | ∃ part ∈ parts.zipIdx k, point ∈ font.line g xMove
    (yMove + part.2 * fontHeight font.data : Nat) part.1}

/-- The first line, and the others below it. -/
theorem lines_cons (k : Nat) (part : List UInt8) (parts : List (List UInt8)) :
    font.lines g xMove yMove k (part :: parts) =
      font.line g xMove (yMove + k * fontHeight font.data : Nat) part ∪
        font.lines g xMove yMove (k + 1) parts := by
  ext point
  simp [lines, List.zipIdx_cons]

/-- The rest of the loop, and what comes after it, ink the lines that are still to be drawn. -/
theorem log_pass_stamps (hcolor : color ≠ .inverse) (hfont : newline.toNat < firstChar font.data)
    (hx : xMove ≤ 8192) (hy : yMove ≤ 8192) {first : Bool} {before line rest : List UInt8}
    {k lastPos : Nat} (hposition : Position first before lastPos) (hline : newline ∉ line)
    (hlength : (before ++ line ++ rest).length < 65536)
    (hwidth : ∀ part ∈ linesFrom first line rest, font.lineWidth part ≤ 8192)
    (hrows : (k + rest.count newline) * fontHeight font.data ≤ 8192)
    (hk : k + rest.length < 65536) :
    Stamps Frame.pixel color.ink (font.lines g xMove yMove k (linesFrom first line rest)) fun b =>
      ((rest.zipIdx (before.length + line.length)).foldlM
        (LogPass.next color font.data xMove yMove (before ++ line ++ rest))
        ⟨line.length, k, lastPos, b⟩).bind
          (LogPass.finish color font.data xMove yMove (before ++ line ++ rest)) := by
  have hink := Color.ink_ink hcolor
  induction rest generalizing first before line k lastPos with
  | nil =>
      simp only [linesFrom, List.append_nil] at hwidth hlength ⊢
      rw [List.zipIdx_nil]
      simp only [List.foldlM_nil, Option.pure_def, Option.bind_some]
      rw [lines_cons]
      have hnone : font.lines g xMove yMove (k + 1) [] = ∅ := by
        ext point
        simp [lines]
      rw [hnone, Set.union_empty]
      have hrow : k * fontHeight font.data ≤ 8192 := by simpa using hrows
      by_cases hne : line = []
      · subst hne
        refine Stamps.skip.congr ?_
        cases first <;> rfl
      · obtain ⟨piece, hread, hpiece⟩ := hposition.read_last hne
        simp only [LogPass.finish, if_pos (List.length_pos_iff.mpr hne)]
        have hwidth := hwidth _ (List.mem_singleton.mpr rfl)
        rcases hpiece with ⟨rfl, rfl⟩ | ⟨rfl, rfl⟩
        · exact font.draw_line_stamps color hx hy hrow hread hwidth
        · have hpiece : newline :: line.dropLast = line.dropLast ++ [newline] ∨
              newline :: line.dropLast = newline :: line.dropLast := .inr rfl
          obtain ⟨hshown, hwide⟩ := font.line_break (g := g) hfont (x := xMove)
            (y := (yMove + k * fontHeight font.data : Nat)) hpiece
          have hstamps := font.draw_line_stamps (g := g) color hx hy hrow hread (hwide ▸ hwidth)
          rwa [hshown] at hstamps
  | cons c rest ih =>
      simp only [List.length_append, List.length_cons] at hlength hk
      simp only [List.zipIdx_cons, List.foldlM_cons, LogPass.next, Nat.mod_eq_of_lt
        (by omega : line.length + 1 < 65536)]
      by_cases hbreak : c = newline
      · subst hbreak
        rw [List.count_cons_self] at hrows
        rw [linesFrom, if_pos rfl] at hwidth ⊢
        rw [List.forall_mem_cons] at hwidth
        have hrows : (k + 1 + rest.count newline) * fontHeight font.data ≤ 8192 := by
          rwa [Nat.add_assoc, Nat.add_comm 1]
        have hrow : k * fontHeight font.data ≤ 8192 :=
          (Nat.mul_le_mul_right _ (by omega)).trans hrows
        obtain ⟨piece, hread, hpiece⟩ := hposition.read_line line rest
        obtain ⟨hshown, hwide⟩ := font.line_break (g := g) hfont (x := xMove)
          (y := (yMove + k * fontHeight font.data : Nat)) hpiece
        have hdraw := font.draw_line_stamps (g := g) color hx hy hrow hread
          (hwide ▸ hwidth.1)
        rw [hshown] at hdraw
        have hrest := ih (Position.broken (before ++ line))
          (List.not_mem_nil : newline ∉ ([] : List UInt8))
          (by simp only [List.length_append, List.length_cons, List.length_nil]; omega)
          hwidth.2 hrows (by omega)
        rw [lines_cons]
        intro b
        obtain ⟨next, hnext, hpixel⟩ := hdraw.seq_idempotent hink hrest b
        refine ⟨next, ?_, hpixel⟩
        rw [← hnext, Nat.mod_eq_of_lt (by omega : k + 1 < 65536)]
        simp [Option.bind_map, Option.bind_assoc, Nat.add_assoc]
      · rw [List.count_cons_of_ne hbreak] at hrows
        rw [linesFrom, if_neg hbreak] at hwidth ⊢
        have hline' : newline ∉ line ++ [c] := by
          simp only [List.mem_append, List.mem_singleton, not_or]
          exact ⟨hline, fun heq => hbreak heq.symm⟩
        have hrest := ih hposition hline'
          (by simp only [List.length_append, List.length_cons, List.length_nil]; omega)
          hwidth hrows (by omega)
        simpa [hbreak, Nat.add_assoc] using hrest

end Font

/-- A log buffer of two lines, the second one not finished. -/
def unfinishedLog : LogBuffer where
  logBuffer := .allocated
  text := ascii "ab\ncd"
  logBufferLine := 1
  logBufferMaxLines := 2
  logBufferSize := 8
  lastChar := 0

/-- A font with the jump table of `ArialMT_Plain_10`, all of whose glyphs are blank. -/
def blank10 : Font :=
  arialMTPlain10.font (List.replicate 1831 0) arial_mt_plain_10_consistent List.length_replicate

/-- A display that is dark. -/
def darkDisplay : OLEDDisplay .geometry128x64 where
  buffer := ⟨Vector.replicate _ 0⟩
  bufferBack := ⟨Vector.replicate _ 0⟩
  textAlignment := .right
  color := .white
  fontData := blank10.data

end SaiyuanClock
