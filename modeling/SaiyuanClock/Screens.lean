import SaiyuanClock.ClockTexts
import SaiyuanClock.Fonts
import SaiyuanClock.Library.Simulation
import SaiyuanClock.Panel

/-!
# Screens

The screens of `activity.c` are lists of calls to the display. `Output.call` executes a call on the
driver and on the device behind it. An `Easel` is what the calls are for: a set of lit points that
is drawn on, and the pictures that were displayed. `call_simulates` says that the driver and the
device do to the bytes what the easel does to the points, so that after a screen the device shows
the texts of that screen and nothing of the one before.
-/

namespace SaiyuanClock

open Drawing CommandSimulation

variable {g : Geometry} {k : Controller}

/-! ## The calls -/

/-- `OLEDDisplay_setTextAlignment`. -/
def OLEDDisplay.setTextAlignment (textAlignment : TextAlignment) (oled : OLEDDisplay g) :
    OLEDDisplay g :=
  { oled with textAlignment := textAlignment }

/-- `OLEDDisplay_setFont`. -/
def OLEDDisplay.setFont (fontData : List UInt8) (oled : OLEDDisplay g) : OLEDDisplay g :=
  { oled with fontData := fontData }

/-- `OLEDDisplay_drawString`. -/
def OLEDDisplay.drawString (xMove yMove : Int) (strUser : List UInt8) (oled : OLEDDisplay g) :
    Option (OLEDDisplay g) :=
  oled.draw fun color b =>
    b.drawString color oled.textAlignment oled.fontData xMove yMove strUser

/-- The calls to the display that the screens make. -/
inductive Call where
  | clear
  | setTextAlignment (textAlignment : TextAlignment)
  | setFont (font : Font)
  | drawString (xMove yMove : Int) (strUser : List UInt8)
  | display

/-- The driver, the device behind it, and the buffers that were displayed so far. -/
structure Output (g : Geometry) (k : Controller) where
  oled : OLEDDisplay g
  device : k.State
  displayed : List (Frame g)

/-- Execute a call. -/
def Output.call (output : Output g k) : Call → Option (Output g k)
  | .clear => some { output with oled := output.oled.clear }
  | .setTextAlignment textAlignment =>
      some { output with oled := output.oled.setTextAlignment textAlignment }
  | .setFont font => some { output with oled := output.oled.setFont font.data }
  | .drawString xMove yMove strUser =>
      (output.oled.drawString xMove yMove strUser).map fun oled => { output with oled := oled }
  | .display =>
      some
        { oled := output.oled.display.1
          device := k.deliver output.device output.oled.display.2
          displayed := output.displayed ++ [output.oled.buffer] }

/-! ## What the calls are for -/

/-- The points that are lit in a buffer. -/
def Frame.lit (b : Frame g) : Set (Point g) := {point | b.pixel point = true}

/-- The points of the display that the device lights. -/
def Controller.lit (k : Controller) (g : Geometry) (s : k.State) : Set (Point g) :=
  {point | bit (k.ram s (g.xOffset + point.1) (point.2 / 8)) (point.2 % 8) = true}

/-- A device that shows a buffer lights the points of the buffer. -/
theorem Controller.Shows.lit_eq {s : k.State} {frame : Frame g} (h : k.Shows s frame) :
    k.lit g s = frame.lit := by
  ext point
  show bit _ _ = true ↔ bit (frame.byte point.1 (Point.page point)) _ = true
  rw [← h point.1 (Point.page point)]
  rfl

/-- A set of lit points to draw on, how texts are set on it, and what was displayed so far. -/
structure Easel (g : Geometry) where
  textAlignment : TextAlignment
  font : Font
  canvas : Set (Point g)
  displayed : List (Set (Point g))

/-- What a call does to the easel: a text lights its points and touches no others. -/
def Easel.call (easel : Easel g) : Call → Easel g
  | .clear => { easel with canvas := ∅ }
  | .setTextAlignment textAlignment => { easel with textAlignment := textAlignment }
  | .setFont font => { easel with font := font }
  | .drawString xMove yMove strUser =>
      { easel with
        canvas := easel.canvas ∪ easel.font.text g easel.textAlignment xMove yMove strUser }
  | .display => { easel with displayed := easel.displayed ++ [easel.canvas] }

/-- The easel accepts a text that the font can print, not too far from the screen. -/
def Easel.Accepts (easel : Easel g) : Call → Prop
  | .drawString xMove yMove strUser =>
      (-8192 ≤ xMove ∧ xMove ≤ 8192) ∧ (-8192 ≤ yMove ∧ yMove ≤ 8192) ∧
        easel.font.PrintsAll strUser
  | _ => True

/-- The driver draws in white what is on the easel, and the device is in step with it. -/
structure Agrees (output : Output g k) (easel : Easel g) : Prop where
  color : output.oled.color = .white
  textAlignment : output.oled.textAlignment = easel.textAlignment
  font : output.oled.fontData = easel.font.data
  canvas : output.oled.buffer.lit = easel.canvas
  inStep : k.InStep (output.oled, output.device) output.displayed
  displayed : output.displayed.map Frame.lit = easel.displayed

/-- The device shows what was displayed last. -/
theorem Agrees.lit_device {output : Output g k} {easel : Easel g} (h : Agrees output easel)
    {before : List (Set (Point g))} {picture : Set (Point g)}
    (hdisplayed : easel.displayed = before ++ [picture]) : k.lit g output.device = picture := by
  obtain ⟨-, hshows, hlast⟩ := h.inStep
  obtain ⟨frames, last, hframes, -, hpicture⟩ :=
    List.map_eq_append_iff.mp (h.displayed.trans hdisplayed)
  obtain ⟨frame, rfl, rfl⟩ := List.map_eq_singleton_iff.mp hpicture
  rw [hframes] at hlast
  rw [hshows.lit_eq, hlast frame (by simp)]

/-- Drawing changes neither what the device shows nor what was displayed. -/
theorem Agrees.draw {output : Output g k} {easel : Easel g} (h : Agrees output easel)
    {oled : OLEDDisplay g} (hback : oled.bufferBack = output.oled.bufferBack) :
    k.InStep (oled, output.device) output.displayed := by
  have hdraw := h.inStep.step k (.draw output.oled oled output.device hback)
  rwa [List.append_nil] at hdraw

/-- A stamp of white lights the points of the shape. -/
theorem lit_of_stamp {b next : Frame g} {shape : Set (Point g)}
    (h : next.pixel = stamp Color.white.ink shape b.pixel) : next.lit = b.lit ∪ shape := by
  ext point
  show next.pixel point = true ↔ b.pixel point = true ∨ point ∈ shape
  rw [h]
  by_cases hmem : point ∈ shape
  · simp [stamp_mem hmem, hmem, Color.ink]
  · simp [stamp_not_mem hmem, hmem]

/-- The driver and the device do to the bytes what the easel does to the points. -/
theorem call_simulates :
    Simulates (Agrees (g := g) (k := k)) Easel.Accepts Output.call Easel.call := by
  intro output easel call h haccepts
  cases call with
  | clear =>
      refine ⟨_, rfl, h.color, h.textAlignment, h.font, ?_, h.draw rfl, h.displayed⟩
      ext point
      show output.oled.clear.picture point = true ↔ point ∈ (∅ : Set (Point g))
      rw [OLEDDisplay.picture_clear]
      simp
  | setTextAlignment textAlignment =>
      exact ⟨_, rfl, h.color, rfl, h.font, h.canvas, h.draw rfl, h.displayed⟩
  | setFont font =>
      exact ⟨_, rfl, h.color, h.textAlignment, rfl, h.canvas, h.draw rfl, h.displayed⟩
  | drawString xMove yMove strUser =>
      obtain ⟨hx, hy, hprints⟩ := haccepts
      have hwhite : Color.white ≠ .inverse := nofun
      obtain ⟨buffer, hbuffer, hstamp⟩ := easel.font.draw_string_stamps (g := g) hwhite
        easel.textAlignment hx hy hprints output.oled.buffer
      refine ⟨{ output with oled := { output.oled with buffer := buffer } }, ?_, h.color,
        h.textAlignment, h.font, ?_, h.draw rfl, h.displayed⟩
      · simp only [Output.call, OLEDDisplay.drawString, OLEDDisplay.draw, h.color, h.textAlignment,
          h.font, hbuffer, Option.map_some]
      · show buffer.lit = _
        rw [lit_of_stamp hstamp, h.canvas]
        rfl
  | display =>
      obtain ⟨hcopied, -⟩ := output.oled.display_eq
      refine ⟨_, rfl, ?_, ?_, ?_, ?_, h.inStep.step k (.display output.oled output.device), ?_⟩
      · rw [hcopied]
        exact h.color
      · rw [hcopied]
        exact h.textAlignment
      · rw [hcopied]
        exact h.font
      · rw [hcopied]
        exact h.canvas
      · simp only [List.map_append, h.displayed, List.map_cons, List.map_nil, h.canvas, Easel.call]

/-! ## Captions -/

/-- A text of at most 32 printable characters. -/
structure IsCaption (text : List UInt8) : Prop where
  printable : ∀ code ∈ text, 32 ≤ code.toNat
  length_le : text.length ≤ 32

/-- Whether a text is a caption is decidable. -/
instance (text : List UInt8) : Decidable (IsCaption text) :=
  decidable_of_iff ((text.all fun code => 32 ≤ code.toNat) = true ∧ text.length ≤ 32)
    ⟨fun ⟨hprintable, hlength⟩ => ⟨by simpa using hprintable, hlength⟩,
      fun h => ⟨by simpa using h.printable, h.length_le⟩⟩

namespace Font

variable {font : Font}

/-- A character moves the cursor by at most 255 columns. -/
theorem advance_le (code : UInt8) : font.advance code ≤ 255 := by
  unfold advance
  split
  · rename_i hfirst
    obtain ⟨-, hwidth⟩ := font.read_entry_eq hfirst
    obtain ⟨byte, -, hbyte⟩ := Option.map_eq_some_iff.mp (Option.ite_none_right_eq_some.mp hwidth).2
    have hlt := byte.toNat_lt
    omega
  · exact Nat.zero_le _

/-- A line is at most 255 columns for every character wide. -/
theorem line_width_le (text : List UInt8) : font.lineWidth text ≤ text.length * 255 := by
  induction text with
  | nil => exact Nat.zero_le _
  | cons code text ih =>
      have hwidth : font.lineWidth (code :: text) = font.advance code + font.lineWidth text := by
        simp [lineWidth]
      have hadvance := font.advance_le code
      rw [hwidth, List.length_cons]
      omega

/-- The pieces of a text without line breaks are the text, unless it is empty. -/
theorem text_parts_caption {text : List UInt8} (h : newline ∉ text) :
    textParts text = if text = [] then [] else [text] := by
  have hsplit : text.splitOn newline = [text] :=
    List.splitOnP_eq_singleton fun code hcode => beq_eq_false_iff_ne.mpr fun heq => h (heq ▸ hcode)
  rw [textParts, hsplit]
  by_cases hempty : text = [] <;> simp [hempty]

/-- A caption has no line breaks. -/
theorem newline_not_mem {text : List UInt8} (h : IsCaption text) : newline ∉ text := by
  intro hmem
  exact absurd (h.printable newline hmem) (by decide)

/-- A font that has all printable characters prints every caption. -/
theorem prints_caption {text : List UInt8} (hfirst : firstChar font.data ≤ 32)
    (h : IsCaption text) : font.PrintsAll text := by
  have hnewline := newline_not_mem h
  refine ⟨fun part hpart => ?_, ?_⟩
  · have hsame : part = text := by
      rw [text_parts_caption hnewline] at hpart
      split at hpart
      · exact absurd hpart List.not_mem_nil
      · exact List.mem_singleton.mp hpart
    rw [hsame]
    refine ⟨fun code hcode => ⟨hfirst.trans (h.printable code hcode), ?_⟩, ?_⟩
    · exact fun heq => hnewline (heq ▸ hcode)
    · have hwidth := font.line_width_le text
      have hlength := h.length_le
      omega
  · have hheight : fontHeight font.data < 256 := UInt8.toNat_lt _
    rw [List.count_eq_zero.mpr hnewline]
    omega

/-- The points of a centered caption. -/
def caption (g : Geometry) (font : Font) (x y : Int) (text : List UInt8) : Set (Point g) :=
  font.line g (int16 (x - font.lineWidth text / 2)) y text

/-- A centered text without line breaks is a caption. -/
theorem text_center {x y : Int} {text : List UInt8} (h : IsCaption text) :
    font.text g .center x y text = font.caption g x y text := by
  ext point
  simp only [Font.text, text_parts_caption (newline_not_mem h)]
  by_cases hempty : text = []
  · simp [hempty, caption, line]
  · simp [hempty, caption, alignX, alignY]

end Font

/-- The texts of `refresh_time` are captions. -/
theorem refresh_time_caption {now : Int} (h : Representable now) :
    IsCaption (refreshTime now).1 ∧ IsCaption (refreshTime now).2 := by
  obtain ⟨htime, hdate⟩ := refresh_time_fits h
  have hprintable : ∀ code, code ∈ (refreshTime now).1 ∨ code ∈ (refreshTime now).2 →
      32 ≤ code.toNat := by
    intro code hcode
    rcases refresh_time_characters now hcode with hdigit | rfl | rfl
    · exact le_trans (by decide) hdigit.1
    · decide
    · decide
  exact ⟨⟨fun code hcode => hprintable code (.inl hcode), by omega⟩,
    fun code hcode => hprintable code (.inr hcode), by omega⟩

/-- The digits of a number that a clock shows are printable, and there are at most two. -/
theorem clock_digits_caption {n : Int} (hnonneg : 0 ≤ n) (h : n < 60) :
    (∀ code ∈ ascii (toString n), 32 ≤ code.toNat) ∧ (ascii (toString n)).length ≤ 2 := by
  have hdigits : ∀ i : Nat, i < 60 → (∀ code ∈ ascii (toString (i : Int)), 32 ≤ code.toNat) ∧
      (ascii (toString (i : Int))).length ≤ 2 := by decide +kernel
  obtain ⟨i, rfl⟩ := Int.eq_ofNat_of_zero_le hnonneg
  exact hdigits i (by omega)

/-- The text of a time of day is a caption. -/
theorem text_caption {time : TimeOfDay} (h : time.Valid) : IsCaption (ascii time.text) := by
  obtain ⟨⟨hhh, hhh'⟩, ⟨hmm, hmm'⟩, hss, hss'⟩ := h
  obtain ⟨hhours, hhours'⟩ := clock_digits_caption hhh (by omega)
  obtain ⟨hminutes, hminutes'⟩ := clock_digits_caption hmm hmm'
  obtain ⟨hseconds, hseconds'⟩ := clock_digits_caption hss hss'
  have htext : ascii time.text = ascii (toString time.hh) ++ ascii ":" ++
      ascii (toString time.mm) ++ ascii ":" ++ ascii (toString time.ss) := by
    simp only [ascii, TimeOfDay.text, String.toList_append, List.map_append]
  have hcolon : ∀ code ∈ ascii ":", 32 ≤ code.toNat := by decide +kernel
  have hcolon' : (ascii ":").length = 1 := rfl
  rw [htext]
  refine ⟨fun code hcode => ?_, ?_⟩
  · simp only [List.mem_append] at hcode
    rcases hcode with (((hcode | hcode) | hcode) | hcode) | hcode
    · exact hhours code hcode
    · exact hcolon code hcode
    · exact hminutes code hcode
    · exact hcolon code hcode
    · exact hseconds code hcode
  · simp only [List.length_append]
    omega

/-! ## The screens of `activity.c` -/

/-- The glyphs of the three fonts. -/
structure Glyphs where
  plain10 : List UInt8
  plain16 : List UInt8
  plain24 : List UInt8
  length_plain10 : plain10.length = SaiyuanClock.arialMTPlain10.dataSize
  length_plain16 : plain16.length = SaiyuanClock.arialMTPlain16.dataSize
  length_plain24 : plain24.length = SaiyuanClock.arialMTPlain24.dataSize

namespace Glyphs

/-- `ArialMT_Plain_10`. -/
def arialMTPlain10 (glyphs : Glyphs) : Font :=
  SaiyuanClock.arialMTPlain10.font glyphs.plain10 arial_mt_plain_10_consistent
    glyphs.length_plain10

/-- `ArialMT_Plain_16`. -/
def arialMTPlain16 (glyphs : Glyphs) : Font :=
  SaiyuanClock.arialMTPlain16.font glyphs.plain16 arial_mt_plain_16_consistent
    glyphs.length_plain16

/-- `ArialMT_Plain_24`. -/
def arialMTPlain24 (glyphs : Glyphs) : Font :=
  SaiyuanClock.arialMTPlain24.font glyphs.plain24 arial_mt_plain_24_consistent
    glyphs.length_plain24

end Glyphs

/-- What the screens draw: `activity_clock_main` at a clock reading, the two pictures of
`activity_alarm_ringing`, and the two of `activity_alarm_setting` with the text of the alarm. -/
inductive Content where
  | clock (now : Int)
  | ringing
  | skipping
  | editor (timeStr : String)
  | confirm
  deriving DecidableEq, Repr

namespace Content

/-- The calls that draw a screen. -/
def calls (glyphs : Glyphs) : Content → List Call
  | .clock now =>
      [.clear, .setTextAlignment .center,
        .setFont glyphs.arialMTPlain24, .drawString 64 0 (refreshTime now).1,
        .setFont glyphs.arialMTPlain16, .drawString 64 25 (refreshTime now).2,
        .setFont glyphs.arialMTPlain10, .drawString 64 40 (ascii "637 Clock"), .display]
  | .ringing =>
      [.clear, .setTextAlignment .center,
        .setFont glyphs.arialMTPlain24, .drawString 64 0 (ascii "ALARM!!"), .display]
  | .skipping =>
      [.clear, .setTextAlignment .center,
        .setFont glyphs.arialMTPlain16, .drawString 64 0 (ascii "Skip for 5min"), .display]
  | .editor timeStr =>
      [.clear, .setTextAlignment .center,
        .setFont glyphs.arialMTPlain16, .drawString 64 0 (ascii "Setting alarm"), .display,
        .setFont glyphs.arialMTPlain10, .drawString 64 17 (ascii "Alarm time:"), .display,
        .setFont glyphs.arialMTPlain10, .drawString 64 25 (ascii timeStr), .display]
  | .confirm =>
      [.clear, .setTextAlignment .center,
        .setFont glyphs.arialMTPlain16, .drawString 64 0 (ascii "Confirm alarm?"), .display]

/-- The picture of a screen: its captions. -/
def picture (g : Geometry) (glyphs : Glyphs) : Content → Set (Point g)
  | .clock now =>
      glyphs.arialMTPlain24.caption g 64 0 (refreshTime now).1 ∪
        glyphs.arialMTPlain16.caption g 64 25 (refreshTime now).2 ∪
          glyphs.arialMTPlain10.caption g 64 40 (ascii "637 Clock")
  | .ringing => glyphs.arialMTPlain24.caption g 64 0 (ascii "ALARM!!")
  | .skipping => glyphs.arialMTPlain16.caption g 64 0 (ascii "Skip for 5min")
  | .editor timeStr =>
      glyphs.arialMTPlain16.caption g 64 0 (ascii "Setting alarm") ∪
        glyphs.arialMTPlain10.caption g 64 17 (ascii "Alarm time:") ∪
          glyphs.arialMTPlain10.caption g 64 25 (ascii timeStr)
  | .confirm => glyphs.arialMTPlain16.caption g 64 0 (ascii "Confirm alarm?")

/-- The pictures that are displayed while a screen is drawn: the editor builds its picture up. -/
def pictures (g : Geometry) (glyphs : Glyphs) : Content → List (Set (Point g))
  | .editor timeStr =>
      [glyphs.arialMTPlain16.caption g 64 0 (ascii "Setting alarm"),
        glyphs.arialMTPlain16.caption g 64 0 (ascii "Setting alarm") ∪
          glyphs.arialMTPlain10.caption g 64 17 (ascii "Alarm time:"),
        (Content.editor timeStr).picture g glyphs]
  | content => [content.picture g glyphs]

/-- The texts of a screen are captions. -/
def Printable : Content → Prop
  | .clock now => Representable now
  | .editor timeStr => IsCaption (ascii timeStr)
  | _ => True

variable {content : Content}

/-- The fixed texts of the screens are captions. -/
theorem fixed_captions :
    IsCaption (ascii "637 Clock") ∧ IsCaption (ascii "ALARM!!") ∧
      IsCaption (ascii "Skip for 5min") ∧ IsCaption (ascii "Setting alarm") ∧
        IsCaption (ascii "Alarm time:") ∧ IsCaption (ascii "Confirm alarm?") := by
  decide +kernel

/-- The easel accepts a caption in a font that has all printable characters. -/
theorem accepts_caption {easel : Easel g} (hfirst : firstChar easel.font.data ≤ 32) {y : Int}
    (hy : 0 ≤ y ∧ y ≤ 64) {text : List UInt8} (h : IsCaption text) :
    easel.Accepts (.drawString 64 y text) :=
  ⟨⟨by omega, by omega⟩, ⟨by omega, by omega⟩, Font.prints_caption hfirst h⟩

/-- The easel accepts the calls of a screen. -/
theorem accepts_calls (glyphs : Glyphs) (h : content.Printable) (easel : Easel g) :
    AcceptsAll Easel.Accepts Easel.call easel (content.calls glyphs) := by
  obtain ⟨hname, halarm, hskip, hsetting, htime, hconfirm⟩ := fixed_captions
  cases content with
  | clock now =>
      obtain ⟨htime, hdate⟩ := refresh_time_caption h
      exact ⟨trivial, trivial, trivial, accepts_caption (le_refl 32) (by omega) htime, trivial,
        accepts_caption (le_refl 32) (by omega) hdate, trivial,
        accepts_caption (le_refl 32) (by omega) hname, trivial, trivial⟩
  | ringing =>
      exact ⟨trivial, trivial, trivial, accepts_caption (le_refl 32) (by omega) halarm, trivial,
        trivial⟩
  | skipping =>
      exact ⟨trivial, trivial, trivial, accepts_caption (le_refl 32) (by omega) hskip, trivial,
        trivial⟩
  | editor timeStr =>
      exact ⟨trivial, trivial, trivial, accepts_caption (le_refl 32) (by omega) hsetting, trivial,
        trivial, accepts_caption (le_refl 32) (by omega) htime, trivial, trivial,
        accepts_caption (le_refl 32) (by omega) h, trivial, trivial⟩
  | confirm =>
      exact ⟨trivial, trivial, trivial, accepts_caption (le_refl 32) (by omega) hconfirm, trivial,
        trivial⟩

/-- Drawing a screen displays its pictures, whatever was drawn before. -/
theorem displayed_calls (glyphs : Glyphs) (h : content.Printable) (easel : Easel g) :
    ((content.calls glyphs).foldl Easel.call easel).displayed =
      easel.displayed ++ content.pictures g glyphs := by
  obtain ⟨hname, halarm, hskip, hsetting, htime, hconfirm⟩ := fixed_captions
  cases content with
  | clock now =>
      obtain ⟨htime, hdate⟩ := refresh_time_caption h
      simp [calls, Easel.call, pictures, picture, Font.text_center htime, Font.text_center hdate,
        Font.text_center hname]
  | ringing => simp [calls, Easel.call, pictures, picture, Font.text_center halarm]
  | skipping => simp [calls, Easel.call, pictures, picture, Font.text_center hskip]
  | editor timeStr =>
      simp [calls, Easel.call, pictures, picture, Font.text_center hsetting,
        Font.text_center htime, Font.text_center h]
  | confirm => simp [calls, Easel.call, pictures, picture, Font.text_center hconfirm]

/-- The last picture of a screen is the picture of the screen. -/
theorem pictures_eq (g : Geometry) (glyphs : Glyphs) (content : Content) :
    ∃ before, content.pictures g glyphs = before ++ [content.picture g glyphs] := by
  cases content with
  | editor timeStr => exact ⟨[_, _], rfl⟩
  | clock now | ringing | skipping | confirm => exact ⟨[], rfl⟩

/-- Drawing a screen never faults, whatever the display held before. It displays the pictures of
the screen one after the other, and then the device shows exactly the last one. -/
theorem draw_screen (glyphs : Glyphs) {output : Output g k} {easel : Easel g}
    (hagrees : Agrees output easel) (h : content.Printable) :
    ∃ (next : Output g k) (after : Easel g),
      (content.calls glyphs).foldlM Output.call output = some next ∧ Agrees next after ∧
        after.displayed = easel.displayed ++ content.pictures g glyphs ∧
          k.lit g next.device = content.picture g glyphs := by
  obtain ⟨next, hnext, hafter⟩ :=
    call_simulates.foldlM hagrees (accepts_calls glyphs h easel)
  have hdisplayed := displayed_calls glyphs h easel
  obtain ⟨before, hpictures⟩ := pictures_eq g glyphs content
  have hlast : ((content.calls glyphs).foldl Easel.call easel).displayed =
      (easel.displayed ++ before) ++ [content.picture g glyphs] := by
    rw [hdisplayed, hpictures, List.append_assoc]
  exact ⟨next, _, hnext, hafter, hdisplayed, hafter.lit_device hlast⟩

end Content

/-! ## The start -/

/-- The display after `OLEDDisplay_init` with its first font, whatever stood in the memory of the
buffers and of the device. -/
def Output.init (font : Font) (buffer bufferBack : Frame g) (s : k.State) : Output g k :=
  let oled := OLEDDisplay.alloc font.data buffer bufferBack
  { oled := oled.resetDisplay.1
    device := k.deliver s (sendInitCommands g ++ oled.resetDisplay.2)
    displayed := [oled.clear.buffer] }

variable {s : k.State}

/-- If the start commands make the device ready, then after `OLEDDisplay_init` it is in step with
the driver. -/
theorem init_in_step (font : Font) (buffer bufferBack : Frame g)
    (hready : k.Ready (k.deliver s (sendInitCommands g))) :
    k.InStep ((Output.init font buffer bufferBack s).oled,
      (Output.init font buffer bufferBack s).device)
      (Output.init font buffer bufferBack s).displayed := by
  obtain ⟨hready', hshows, hreset⟩ :=
    k.reset_shows (OLEDDisplay.alloc font.data buffer bufferBack) hready
  have hback := congrArg OLEDDisplay.bufferBack hreset
  simp only [Output.init, Controller.InStep, Controller.deliver_append, hback]
  exact ⟨hready', hshows, by simp⟩

/-- After `OLEDDisplay_init` the driver agrees with an empty easel that was displayed. -/
theorem init_agrees (font : Font) (buffer bufferBack : Frame g)
    (hready : k.Ready (k.deliver s (sendInitCommands g))) :
    Agrees (Output.init font buffer bufferBack s) ⟨.left, font, ∅, [∅]⟩ := by
  have hdark : (OLEDDisplay.alloc font.data buffer bufferBack).clear.buffer.lit = ∅ := by
    ext point
    show OLEDDisplay.picture _ point = true ↔ point ∈ (∅ : Set (Point g))
    rw [OLEDDisplay.picture_clear]
    simp
  obtain ⟨hreset, -⟩ := OLEDDisplay.display_eq
    { (OLEDDisplay.alloc font.data buffer bufferBack).clear with
      bufferBack := ⟨Vector.replicate _ 1⟩ }
  have holed : (Output.init font buffer bufferBack s).oled = _ := hreset
  refine ⟨?_, ?_, ?_, ?_, init_in_step font buffer bufferBack hready, ?_⟩
  · rw [holed]
    rfl
  · rw [holed]
    rfl
  · rw [holed]
    rfl
  · rw [holed]
    exact hdark
  · simp only [Output.init, List.map_cons, List.map_nil, hdark]

end SaiyuanClock
