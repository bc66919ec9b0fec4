import Mathlib.Data.List.FinRange
import SaiyuanClock.Display
import SaiyuanClock.Library.BoundingBox
import SaiyuanClock.Library.Steps
import SaiyuanClock.Library.WindowedMemory

/-!
# Refreshing the panel

`OLEDDisplay_display` compares the buffer with `buffer_back`, the picture that it sent last, and
sends the least rectangle of bytes that contains the differences. The panel is a parameter: a
`Controller` is any device that stores the rows of a window that was addressed by `COLUMNADDR`
and `PAGEADDR`. A panel that shows `buffer_back` shows the whole buffer after the partial update,
and over a run of drawing, displaying and resetting it always shows the picture displayed last.
-/

namespace SaiyuanClock

open BoundingBox LabelledSteps WindowedMemory

/-- A transfer on the I2C bus: `OLEDDisplay_sendCommand` or `OLEDDisplay_sendPayload`. -/
inductive Transfer where
  | command (opcode : UInt8)
  | payload (bytes : List UInt8)
  deriving DecidableEq, Repr

/-- The opcode `COLUMNADDR`. -/
def columnAddr : UInt8 := 0x21

/-- The opcode `PAGEADDR`. -/
def pageAddr : UInt8 := 0x22

variable {g : Geometry}

/-- `x_offset`: a narrow display sits in the middle of the 128 columns of the controller. -/
def Geometry.xOffset (g : Geometry) : Nat := (128 - g.width) / 2

/-- The columns of a display lie inside the controller. -/
theorem Geometry.x_offset_bounds (g : Geometry) : g.xOffset + g.width ≤ 128 := by
  cases g <;> decide

/-! ## The comparison of the buffers -/

/-- The bytes of the screen in the order of the two loops of `OLEDDisplay_display`. -/
def cells (g : Geometry) : List (Fin g.width × Fin g.pages) :=
  (List.finRange g.pages).flatMap fun y => (List.finRange g.width).map fun x => (x, y)

/-- The body of the loops: a byte that differs extends the bounds, and it is copied. -/
def compareByte (buffer : Frame g) (s : Box × Frame g) (cell : Fin g.width × Fin g.pages) :
    Box × Frame g :=
  let pos := g.position cell.1 cell.2
  (if buffer.bytes[pos] ≠ s.2.bytes[pos] then s.1.extend (cell.1, cell.2) else s.1,
    ⟨s.2.bytes.set pos buffer.bytes[pos]⟩)

/-- The bounds of the changes and the copied buffer. -/
def OLEDDisplay.scan (oled : OLEDDisplay g) : Box × Frame g :=
  (cells g).foldl (compareByte oled.buffer) (Box.start 255, oled.bufferBack)

/-- The bytes `buffer[minBoundX + y * width]` and after, as many as the window is wide. -/
def Frame.slice (b : Frame g) (start size : Nat) : List UInt8 :=
  (b.bytes.toList.drop start).take size

/-- `OLEDDisplay_display`, with the transfers that it makes. -/
def OLEDDisplay.display (oled : OLEDDisplay g) : OLEDDisplay g × List Transfer :=
  let scanned := oled.scan
  let bounds := scanned.1
  let next := { oled with bufferBack := scanned.2 }
  if bounds.minY = 255 then (next, [])
  else
    (next,
      [.command columnAddr, .command (byteOf (g.xOffset + bounds.minX)),
        .command (byteOf (g.xOffset + bounds.maxX)), .command pageAddr,
        .command (byteOf bounds.minY), .command (byteOf bounds.maxY)] ++
      (List.range' bounds.minY (bounds.maxY + 1 - bounds.minY)).map fun y =>
        .payload (oled.buffer.slice (bounds.minX + y * g.width) (bounds.maxX - bounds.minX + 1)))

/-- `OLEDDisplay_resetDisplay`. -/
def OLEDDisplay.resetDisplay (oled : OLEDDisplay g) : OLEDDisplay g × List Transfer :=
  { oled.clear with bufferBack := ⟨Vector.replicate _ 1⟩ }.display

/-- Every byte of the screen is visited. -/
theorem mem_cells (cell : Fin g.width × Fin g.pages) : cell ∈ cells g := by
  simp [cells]

/-- No byte of the screen is visited twice. -/
theorem nodup_cells (g : Geometry) : (cells g).Nodup := by
  refine List.nodup_flatMap.mpr ⟨fun y _ => ?_, ?_⟩
  · exact (List.nodup_finRange _).map fun x x' h => (Prod.ext_iff.mp h).1
  · refine (List.nodup_finRange _).imp fun hne => ?_
    simp [Function.onFun, List.disjoint_left, hne.symm]

/-- The copy of a byte changes that byte of `buffer_back` only. -/
theorem compare_byte_copied (buffer : Frame g) (s : Box × Frame g)
    (cell : Fin g.width × Fin g.pages) (x : Fin g.width) (page : Fin g.pages) :
    (compareByte buffer s cell).2.byte x page =
      if (x, page) = cell then buffer.byte x page else s.2.byte x page := by
  obtain ⟨x', page'⟩ := cell
  simp only [compareByte, Frame.byte, Fin.getElem_fin, Vector.getElem_set, Geometry.position_inj,
    Prod.mk.injEq, eq_comm (a := x), eq_comm (a := page)]
  by_cases h : x' = x ∧ page' = page
  · rw [if_pos h, if_pos h, h.1, h.2]
  · rw [if_neg h, if_neg h]

/-- The bytes that were changed since the last display. -/
def OLEDDisplay.changed (oled : OLEDDisplay g) : List (Nat × Nat) :=
  ((cells g).filter fun cell =>
    oled.buffer.byte cell.1 cell.2 ≠ oled.bufferBack.byte cell.1 cell.2).map fun cell =>
      (cell.1, cell.2)

/-- The loops extend the bounds by the bytes that differ and copy the bytes that they visit. -/
theorem foldl_compare_byte (buffer : Frame g) {visited : List (Fin g.width × Fin g.pages)}
    (hnodup : visited.Nodup) (box : Box) (back : Frame g) :
    (visited.foldl (compareByte buffer) (box, back)).1 =
        ((visited.filter fun cell => buffer.byte cell.1 cell.2 ≠ back.byte cell.1 cell.2).map
          fun cell => ((cell.1, cell.2) : Nat × Nat)).foldl Box.extend box ∧
      ∀ x page, (visited.foldl (compareByte buffer) (box, back)).2.byte x page =
        if (x, page) ∈ visited then buffer.byte x page else back.byte x page := by
  induction visited generalizing box back with
  | nil => exact ⟨rfl, fun x page => (if_neg List.not_mem_nil).symm⟩
  | cons cell visited ih =>
      obtain ⟨hnew, hnodup⟩ := List.nodup_cons.mp hnodup
      have hcopied := compare_byte_copied buffer (box, back) cell
      obtain ⟨hbounds, hback⟩ := ih hnodup (compareByte buffer (box, back) cell).1
        (compareByte buffer (box, back) cell).2
      have hlater : (visited.filter fun later => buffer.byte later.1 later.2 ≠
            (compareByte buffer (box, back) cell).2.byte later.1 later.2) =
          visited.filter fun later =>
            buffer.byte later.1 later.2 ≠ back.byte later.1 later.2 := by
        refine List.filter_congr fun later hlater => ?_
        have hne : (later.1, later.2) ≠ cell := fun h => hnew (h ▸ hlater)
        rw [hcopied, if_neg hne]
      rw [List.foldl_cons, ← Prod.mk.eta (p := compareByte buffer (box, back) cell)]
      refine ⟨?_, fun x page => ?_⟩
      · rw [hbounds, hlater, List.filter_cons]
        by_cases hdiff : buffer.byte cell.1 cell.2 ≠ back.byte cell.1 cell.2
        · have hextend : (compareByte buffer (box, back) cell).1 = box.extend (cell.1, cell.2) :=
            if_pos hdiff
          rw [if_pos (by simpa using hdiff), hextend]
          rfl
        · have hkeep : (compareByte buffer (box, back) cell).1 = box := if_neg hdiff
          rw [if_neg (by simpa using hdiff), hkeep]
      · rw [hback, hcopied]
        by_cases hlater : (x, page) ∈ visited
        · rw [if_pos hlater, if_pos (List.mem_cons_of_mem _ hlater)]
        · rw [if_neg hlater]
          simp [hlater]

/-- The scan bounds the changes and copies the buffer. -/
theorem OLEDDisplay.scan_eq (oled : OLEDDisplay g) :
    oled.scan = (oled.changed.foldl Box.extend (Box.start 255), oled.buffer) := by
  obtain ⟨hbounds, hback⟩ :=
    foldl_compare_byte oled.buffer (nodup_cells g) (Box.start 255) oled.bufferBack
  refine Prod.ext hbounds (Frame.ext_byte fun x page => ?_)
  exact (hback x page).trans (if_pos (mem_cells _))

/-- Nothing was changed exactly when the buffers agree. -/
theorem OLEDDisplay.changed_eq_nil_iff (oled : OLEDDisplay g) :
    oled.changed = [] ↔ oled.buffer = oled.bufferBack := by
  simp only [changed, List.map_eq_nil_iff, List.filter_eq_nil_iff, decide_eq_true_eq, not_not]
  constructor
  · exact fun h => Frame.ext_byte fun x page => h (x, page) (mem_cells _)
  · intro h cell _
    rw [h]

/-- A changed byte stands on the screen. -/
theorem OLEDDisplay.changed_bounds {oled : OLEDDisplay g} {cell : Nat × Nat}
    (h : cell ∈ oled.changed) : cell.1 < g.width ∧ cell.2 < g.pages := by
  obtain ⟨cell, -, rfl⟩ := List.mem_map.mp h
  exact ⟨cell.1.isLt, cell.2.isLt⟩

/-! ## What the display sends -/

/-- The byte of a buffer at a column and a page of the controller. -/
def Frame.onPanel (b : Frame g) (column page : Nat) : UInt8 :=
  if h : column - g.xOffset < g.width ∧ page < g.pages then
    b.byte ⟨column - g.xOffset, h.1⟩ ⟨page, h.2⟩
  else 0

/-- A window is addressed and filled row by row. -/
def windowTransfers (window : Window) (content : Nat → Nat → UInt8) : List Transfer :=
  [.command columnAddr, .command (byteOf window.left), .command (byteOf window.right),
    .command pageAddr, .command (byteOf window.top), .command (byteOf window.bottom)] ++
  (rows window.left window.right window.top window.bottom content).map .payload

/-- The window of the controller in which a box of the screen lies. -/
def Geometry.window (g : Geometry) (box : Box) : Window where
  left := g.xOffset + box.minX
  right := g.xOffset + box.maxX
  top := box.minY
  bottom := box.maxY

/-- A slice of a page is the row of the controller that shows it. -/
theorem Frame.slice_eq_row (b : Frame g) {first last page : Nat} (hfirst : first ≤ last)
    (hlast : last < g.width) (hpage : page < g.pages) :
    b.slice (first + page * g.width) (last - first + 1) =
      row (g.xOffset + first) (g.xOffset + last) fun column => b.onPanel column page := by
  have hsize := g.display_buffer_size_eq
  have hend : (page + 1) * g.width ≤ g.pages * g.width := Nat.mul_le_mul_right _ hpage
  rw [Nat.succ_mul, Nat.mul_comm g.pages] at hend
  refine List.ext_getElem ?_ fun i hi hi' => ?_
  · simp only [slice, row, List.length_take, List.length_drop, Vector.length_toList,
      List.length_map, List.length_range']
    omega
  · have hcount : i < last - first + 1 := by
      simp only [slice, List.length_take] at hi
      omega
    have hcolumn : g.xOffset + first + 1 * i - g.xOffset = first + i := by omega
    have hat : first + page * g.width + i = first + i + page * g.width := by omega
    have hin : first + i < g.width ∧ page < g.pages := ⟨by omega, hpage⟩
    simp only [slice, row, List.getElem_take, List.getElem_drop, Vector.getElem_toList,
      List.getElem_map, List.getElem_range', onPanel, hcolumn, dif_pos hin, byte,
      Geometry.position, Fin.getElem_fin, hat]

/-- If the buffers agree the display sends nothing, otherwise it fills the least window that
contains the changes. In either case it copies the buffer. -/
theorem OLEDDisplay.display_eq (oled : OLEDDisplay g) :
    oled.display.1 = { oled with bufferBack := oled.buffer } ∧
      (oled.buffer = oled.bufferBack ∧ oled.display.2 = [] ∨
        ∃ box : Box, box.Encloses oled.changed ∧
          oled.display.2 = windowTransfers (g.window box) oled.buffer.onPanel) := by
  have hpages := g.pages_bounds.2
  have hwidth := g.width_bounds.2
  simp only [display, scan_eq]
  by_cases hchanged : oled.changed = []
  · rw [hchanged]
    exact ⟨rfl, .inl ⟨oled.changed_eq_nil_iff.mp hchanged, rfl⟩⟩
  · have hbounds : ∀ cell ∈ oled.changed, cell.1 ≤ 255 ∧ cell.2 ≤ 255 := by
      intro cell hcell
      have hin := changed_bounds hcell
      omega
    have hbox := Box.extend_encloses hchanged hbounds
    generalize oled.changed.foldl Box.extend (Box.start 255) = box at hbox ⊢
    obtain ⟨hx, hy⟩ := hbox.ordered
    obtain ⟨right, hright, hmaxX⟩ := hbox.maxX
    obtain ⟨lowest, hlowest, hmaxY⟩ := hbox.maxY
    have hright := (changed_bounds hright).1
    have hlowest := (changed_bounds hlowest).2
    rw [if_neg (by omega)]
    refine ⟨rfl, .inr ⟨box, hbox, ?_⟩⟩
    show _ ++ _ = windowTransfers (g.window box) oled.buffer.onPanel
    rw [windowTransfers, rows, List.map_map]
    refine congrArg _ (List.map_congr_left fun y hy => congrArg Transfer.payload ?_)
    obtain ⟨hy, hy'⟩ := List.mem_range'_1.mp hy
    exact oled.buffer.slice_eq_row hx (by omega) (by omega)

/-- What one refresh sends is the least that a window can be: nothing exactly when the buffers
agree, and otherwise the one window that contains the changes and lies inside every other that
does. A second refresh sends nothing. -/
theorem display_least_window (oled : OLEDDisplay g) :
    oled.display.1 = { oled with bufferBack := oled.buffer } ∧
      (oled.display.2 = [] ↔ oled.buffer = oled.bufferBack) ∧
      (oled.buffer ≠ oled.bufferBack → ∃ box : Box,
        (∀ cell ∈ oled.changed, box.Contains cell) ∧
          (∀ other : Box, (∀ cell ∈ oled.changed, other.Contains cell) → box.Within other) ∧
          oled.display.2 = windowTransfers (g.window box) oled.buffer.onPanel) ∧
      oled.display.1.display.2 = [] := by
  obtain ⟨hcopied, hsent⟩ := oled.display_eq
  refine ⟨hcopied, ⟨fun hnothing => ?_, fun hsame => ?_⟩, fun hne => ?_, ?_⟩
  · rcases hsent with ⟨hsame, -⟩ | ⟨box, -, hwindow⟩
    · exact hsame
    · rw [hnothing] at hwindow
      exact absurd hwindow (by simp [windowTransfers])
  · rcases hsent with ⟨-, hnothing⟩ | ⟨box, hbox, -⟩
    · exact hnothing
    · obtain ⟨cell, hcell, -⟩ := hbox.minX
      rw [oled.changed_eq_nil_iff.mpr hsame] at hcell
      exact absurd hcell List.not_mem_nil
  · rcases hsent with ⟨hsame, -⟩ | ⟨box, hbox, hwindow⟩
    · exact absurd hsame hne
    · exact ⟨box, hbox.contains, fun other hother => hbox.within hother, hwindow⟩
  · rw [hcopied]
    obtain ⟨-, ⟨-, hnothing⟩ | ⟨box, hbox, -⟩⟩ :=
      OLEDDisplay.display_eq { oled with bufferBack := oled.buffer }
    · exact hnothing
    · obtain ⟨cell, hcell, -⟩ := hbox.minX
      rw [(OLEDDisplay.changed_eq_nil_iff _).mpr rfl] at hcell
      exact absurd hcell List.not_mem_nil

/-! ## The panel -/

/-- The memory after a window has been filled. -/
def filled (ram : Nat → Nat → UInt8) (window : Window) (content : Nat → Nat → UInt8)
    (column page : Nat) : UInt8 :=
  if (window.left ≤ column ∧ column ≤ window.right) ∧ window.top ≤ page ∧ page ≤ window.bottom then
    content column page
  else ram column page

/-- A window inside the 128 columns and eight pages of a controller. -/
def windowFits (window : Window) : Prop :=
  (window.left ≤ window.right ∧ window.right < 128) ∧
    window.top ≤ window.bottom ∧ window.bottom < 8

/-- What the driver relies on of the device behind the bus: while it is ready, that is, in
horizontal addressing mode and between two instructions, a window that is addressed and filled is
stored, and the device is ready again. -/
structure Controller where
  State : Type
  ram : State → Nat → Nat → UInt8
  receive : State → Transfer → State
  Ready : State → Prop
  fill : ∀ (s : State) (window : Window) (content : Nat → Nat → UInt8),
    Ready s → windowFits window →
      Ready ((windowTransfers window content).foldl receive s) ∧
        ram ((windowTransfers window content).foldl receive s) =
          filled (ram s) window content

namespace Controller

variable (k : Controller)

/-- The state of the device after some transfers. -/
def deliver (s : k.State) (transfers : List Transfer) : k.State := transfers.foldl k.receive s

/-- Transfers are delivered one part after the other. -/
theorem deliver_append (s : k.State) (first rest : List Transfer) :
    k.deliver s (first ++ rest) = k.deliver (k.deliver s first) rest := List.foldl_append

/-- The device shows a buffer in the columns and pages of the display. -/
def Shows (s : k.State) (frame : Frame g) : Prop :=
  ∀ (x : Fin g.width) (page : Fin g.pages), k.ram s (g.xOffset + x) page = frame.byte x page

/-- The column and the page are not on the display. -/
def offScreen (g : Geometry) (column page : Nat) : Prop :=
  column < g.xOffset ∨ g.xOffset + g.width ≤ column ∨ g.pages ≤ page

/-- What happens to the device in a window that contains all changes: it is ready again, shows
the buffer, and keeps what is not on the display. -/
theorem fill_shows {s : k.State} {oled : OLEDDisplay g} {box : Box} (hready : k.Ready s)
    (hbox : box.Encloses oled.changed)
    (hshows : ∀ (x : Fin g.width) (page : Fin g.pages), ((x : Nat), (page : Nat)) ∉ oled.changed →
      k.ram s (g.xOffset + x) page = oled.buffer.byte x page) :
    k.Ready (k.deliver s (windowTransfers (g.window box) oled.buffer.onPanel)) ∧
      k.Shows (k.deliver s (windowTransfers (g.window box) oled.buffer.onPanel)) oled.buffer ∧
      ∀ column page, offScreen g column page →
        k.ram (k.deliver s (windowTransfers (g.window box) oled.buffer.onPanel)) column page =
          k.ram s column page := by
  have hcolumns := g.x_offset_bounds
  have hpages := g.pages_bounds.2
  obtain ⟨hx, hy⟩ := hbox.ordered
  obtain ⟨right, hright, hmaxX⟩ := hbox.maxX
  obtain ⟨lowest, hlowest, hmaxY⟩ := hbox.maxY
  have hright := (OLEDDisplay.changed_bounds hright).1
  have hlowest := (OLEDDisplay.changed_bounds hlowest).2
  have hfits : windowFits (g.window box) := by
    simp only [windowFits, Geometry.window]
    omega
  obtain ⟨hready', hram⟩ := k.fill s (g.window box) oled.buffer.onPanel hready hfits
  refine ⟨hready', fun x page => ?_, fun column page hoff => ?_⟩
  · show k.ram (List.foldl _ _ _) _ _ = _
    rw [hram, filled]
    by_cases hin : ((g.window box).left ≤ g.xOffset + x ∧ g.xOffset + x ≤ (g.window box).right) ∧
        (g.window box).top ≤ page ∧ page ≤ (g.window box).bottom
    · have hcolumn : g.xOffset + x - g.xOffset = x := Nat.add_sub_cancel_left ..
      rw [if_pos hin, Frame.onPanel, dif_pos ⟨by omega, page.isLt⟩]
      simp only [hcolumn]
    · rw [if_neg hin]
      refine hshows x page fun hmem => hin ?_
      have hcontains := hbox.contains _ hmem
      simp only [Box.Contains, Geometry.window] at hcontains ⊢
      omega
  · show k.ram (List.foldl _ _ _) _ _ = _
    rw [hram, filled, if_neg]
    simp only [offScreen] at hoff
    simp only [Geometry.window]
    omega

/-- A partial update is as good as a full one: if the device shows `buffer_back`, then after
`OLEDDisplay_display` it shows the whole buffer, and `buffer_back` is the buffer again. Nothing
beside the display is written. -/
theorem display_shows {s : k.State} {oled : OLEDDisplay g} (hready : k.Ready s)
    (hshows : k.Shows s oled.bufferBack) :
    k.Ready (k.deliver s oled.display.2) ∧ k.Shows (k.deliver s oled.display.2) oled.buffer ∧
      oled.display.1 = { oled with bufferBack := oled.buffer } ∧
      ∀ column page, offScreen g column page →
        k.ram (k.deliver s oled.display.2) column page = k.ram s column page := by
  obtain ⟨hcopied, ⟨hsame, hnothing⟩ | ⟨box, hbox, hsent⟩⟩ := oled.display_eq
  · rw [hnothing, hsame]
    exact ⟨hready, hshows, hcopied.trans (by rw [hsame]), fun column page _ => rfl⟩
  · rw [hsent]
    obtain ⟨hready', hshows', hrest⟩ :=
      k.fill_shows hready hbox fun (x : Fin g.width) page hkept => by
        by_contra hdiff
        refine hkept (List.mem_map.mpr ⟨(x, page), List.mem_filter.mpr ⟨mem_cells _, ?_⟩, rfl⟩)
        rw [hshows x page] at hdiff
        simpa using Ne.symm hdiff
    exact ⟨hready', hshows', hcopied, hrest⟩

/-- `OLEDDisplay_resetDisplay` repairs a device that shows anything at all: it is then ready and
shows the empty buffer. -/
theorem reset_shows {s : k.State} (oled : OLEDDisplay g) (hready : k.Ready s) :
    k.Ready (k.deliver s oled.resetDisplay.2) ∧
      k.Shows (k.deliver s oled.resetDisplay.2) oled.clear.buffer ∧
      oled.resetDisplay.1 = { oled.clear with bufferBack := oled.clear.buffer } := by
  obtain ⟨hcopied, ⟨hsame, -⟩ | ⟨box, hbox, hsent⟩⟩ :=
    OLEDDisplay.display_eq { oled.clear with bufferBack := ⟨Vector.replicate _ 1⟩ }
  · have hbyte := congrArg
      (fun b : Frame g => b.byte ⟨0, g.width_bounds.1⟩ ⟨0, g.pages_bounds.1⟩) hsame
    simp [OLEDDisplay.clear, Frame.byte] at hbyte
  · have hall : ∀ (x : Fin g.width) (page : Fin g.pages), ((x : Nat), (page : Nat)) ∈
        ({ oled.clear with bufferBack := ⟨Vector.replicate _ 1⟩ } : OLEDDisplay g).changed := by
      intro x page
      refine List.mem_map.mpr ⟨(x, page), List.mem_filter.mpr ⟨mem_cells _, ?_⟩, rfl⟩
      simp [OLEDDisplay.clear, Frame.byte]
    obtain ⟨hready', hshows', -⟩ :=
      k.fill_shows hready hbox fun x page hkept => absurd (hall x page) hkept
    rw [OLEDDisplay.resetDisplay, hsent]
    exact ⟨hready', hshows', hcopied⟩

/-! ## Sessions -/

/-- The program draws, displays or resets. Drawing may change the display in any way but for
`buffer_back`. A step emits the buffer if it was displayed. -/
inductive SessionStep : OLEDDisplay g × k.State → List (Frame g) → OLEDDisplay g × k.State → Prop
  | draw (oled drawn : OLEDDisplay g) (s) (h : drawn.bufferBack = oled.bufferBack) :
      SessionStep (oled, s) [] (drawn, s)
  | display (oled : OLEDDisplay g) (s) :
      SessionStep (oled, s) [oled.buffer] (oled.display.1, k.deliver s oled.display.2)
  | reset (oled : OLEDDisplay g) (s) :
      SessionStep (oled, s) [oled.clear.buffer]
        (oled.resetDisplay.1, k.deliver s oled.resetDisplay.2)

/-- Drawing a buffer and displaying it is a run. -/
theorem draw_display (oled : OLEDDisplay g) (frame : Frame g) (s : k.State) :
    Steps k.SessionStep (oled, s) [frame]
      (({ oled with buffer := frame } : OLEDDisplay g).display.1,
        k.deliver s ({ oled with buffer := frame } : OLEDDisplay g).display.2) :=
  (Steps.single (SessionStep.draw oled { oled with buffer := frame } s rfl)).snoc
    (SessionStep.display _ s)

/-- The device is ready and shows `buffer_back`, which is the buffer that was displayed last. -/
def InStep (state : OLEDDisplay g × k.State) (displayed : List (Frame g)) : Prop :=
  k.Ready state.2 ∧ k.Shows state.2 state.1.bufferBack ∧
    ∀ frame ∈ displayed.getLast?, frame = state.1.bufferBack

/-- A display is in step with the device after a step of the program. -/
theorem InStep.step {state next : OLEDDisplay g × k.State} {displayed emitted : List (Frame g)}
    (h : k.InStep state displayed) (hstep : k.SessionStep state emitted next) :
    k.InStep next (displayed ++ emitted) := by
  obtain ⟨hready, hshows, hlast⟩ := h
  cases hstep with
  | draw oled drawn s hback =>
      refine ⟨hready, ?_, ?_⟩
      · rw [hback]
        exact hshows
      · rw [hback]
        simpa using hlast
  | display oled s =>
      obtain ⟨hready', hshows', hcopied, -⟩ := k.display_shows hready hshows
      exact ⟨hready', by rw [hcopied]; exact hshows', by simp [hcopied]⟩
  | reset oled s =>
      obtain ⟨hready', hshows', hcopied⟩ := k.reset_shows oled hready
      exact ⟨hready', by rw [hcopied]; exact hshows', by simp [hcopied]⟩

/-- Over every run that starts with a reset, whatever the device showed before, the device shows
exactly the buffer that was displayed last: never a mixture of two buffers, and nothing of what
has only been drawn. -/
theorem session_shows {oled last : OLEDDisplay g} {s final : k.State} {displayed : List (Frame g)}
    (hready : k.Ready s)
    (hrun : Steps k.SessionStep (oled.resetDisplay.1, k.deliver s oled.resetDisplay.2) displayed
      (last, final)) :
    k.Ready final ∧ k.Shows final ((oled.clear.buffer :: displayed).getLast (by simp)) := by
  obtain ⟨hready', hshows', hcopied⟩ := k.reset_shows oled hready
  have hinv : k.InStep (last, final) (oled.clear.buffer :: displayed) :=
    hrun.invariant (fun state displayed => k.InStep state (oled.clear.buffer :: displayed))
      ⟨hready', by rw [hcopied]; exact hshows', by simp [hcopied]⟩
      fun displayed state emitted next _ hin hstep => hin.step k hstep
  obtain ⟨hfinal, hshows, hlast⟩ := hinv
  refine ⟨hfinal, ?_⟩
  rw [hlast _ (List.getLast?_eq_some_getLast _)]
  exact hshows

end Controller

end SaiyuanClock
