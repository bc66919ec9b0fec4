import SaiyuanClock.Refresh

/-!
# The SSD1306 panel

The controller that the firmware drives: commands arrive byte by byte, `COLUMNADDR`, `PAGEADDR`
and `MEMORYMODE` set up its addressing, and payload bytes go to its memory. In horizontal
addressing mode it is a `Controller`, and the commands of `OLEDDisplay_sendInitCommands` bring it
there, so after `OLEDDisplay_init` the panel follows the display over every run.
-/

namespace SaiyuanClock

open LabelledSteps WindowedMemory

/-- The part of an SSD1306 that the firmware relies on: its memory, whether it addresses it
horizontally, whether it is lit, and the bytes of an instruction that is not complete. -/
structure Panel where
  memory : WindowedMemory.State UInt8
  horizontal : Bool
  lit : Bool
  pending : List UInt8

namespace Panel

/-- The number of arguments of an opcode. -/
def arguments (opcode : UInt8) : Nat :=
  if opcode = 0x21 ∨ opcode = 0x22 then 2
  else if opcode ∈ [0x20, 0x81, 0x8D, 0xA8, 0xD3, 0xD5, 0xD9, 0xDA, 0xDB] then 1
  else 0

/-- A complete instruction. The opcodes that neither move the pointer nor switch the panel leave
what is modelled here alone. -/
def execute (panel : Panel) : List UInt8 → Panel
  | [opcode] =>
      if opcode = 0xAE then { panel with lit := false }
      else if opcode = 0xAF then { panel with lit := true }
      else panel
  | [opcode, mode] =>
      if opcode = 0x20 then { panel with horizontal := mode = 0 } else panel
  | [opcode, first, last] =>
      if opcode = 0x21 then
        { panel with memory :=
            { panel.memory with
              window := { panel.memory.window with left := first.toNat, right := last.toNat }
              column := first.toNat } }
      else if opcode = 0x22 then
        { panel with memory :=
            { panel.memory with
              window := { panel.memory.window with top := first.toNat, bottom := last.toNat }
              page := first.toNat } }
      else panel
  | _ => panel

/-- A byte of data: outside horizontal addressing mode the pointer stays in its page. -/
def store (panel : Panel) (byte : UInt8) : Panel :=
  let pushed := panel.memory.push byte
  { panel with
    memory := if panel.horizontal then pushed else { pushed with page := panel.memory.page } }

/-- A transfer arrives. A command byte completes an instruction or is kept. -/
def receive (panel : Panel) : Transfer → Panel
  | .command byte =>
      let pending := panel.pending ++ [byte]
      if pending.length = arguments (pending.headD byte) + 1 then
        { panel with pending := [] }.execute pending
      else { panel with pending := pending }
  | .payload bytes => bytes.foldl store panel

/-- The panel is in horizontal addressing mode, lit, and between two instructions. -/
def Ready (panel : Panel) : Prop :=
  panel.horizontal = true ∧ panel.lit = true ∧ panel.pending = []

/-- In horizontal addressing mode data goes to the memory behind the window. -/
theorem foldl_store (panel : Panel) (h : panel.horizontal = true) (bytes : List UInt8) :
    bytes.foldl store panel = { panel with memory := bytes.foldl State.push panel.memory } := by
  induction bytes generalizing panel with
  | nil => rfl
  | cons byte bytes ih =>
      have hstore : panel.store byte = { panel with memory := panel.memory.push byte } := by
        simp [store, h]
      rw [List.foldl_cons, hstore, ih { panel with memory := panel.memory.push byte } h]
      rfl

/-- Rows of data go to the memory behind the window. -/
theorem foldl_receive_rows (panel : Panel) (h : panel.horizontal = true)
    (rows : List (List UInt8)) :
    (rows.map Transfer.payload).foldl receive panel =
      { panel with
        memory := rows.foldl (fun s bytes => bytes.foldl State.push s) panel.memory } := by
  induction rows generalizing panel with
  | nil => rfl
  | cons bytes rows ih =>
      show List.foldl receive (bytes.foldl store panel) _ = _
      rw [foldl_store panel h,
        ih { panel with memory := bytes.foldl State.push panel.memory } h]
      rfl

/-! ## Instructions -/

/-- An opcode with its arguments. -/
def complete : List UInt8 → Prop
  | [] => False
  | opcode :: args => args.length = arguments opcode

/-- Completeness of an instruction is decidable. -/
instance : ∀ bytes, Decidable (complete bytes)
  | [] => inferInstanceAs (Decidable False)
  | opcode :: args => inferInstanceAs (Decidable (args.length = arguments opcode))

/-- The bytes as commands. -/
def commands (bytes : List UInt8) : List Transfer := bytes.map .command

/-- The last arguments of an instruction execute it. -/
theorem receive_arguments (panel : Panel) {opcode : UInt8} (before : List UInt8) {rest : List UInt8}
    (hpending : panel.pending = opcode :: before) (hrest : rest ≠ [])
    (hlength : (before ++ rest).length = arguments opcode) :
    (commands rest).foldl receive panel =
      { panel with pending := [] }.execute (opcode :: before ++ rest) := by
  induction rest generalizing panel before with
  | nil => exact absurd rfl hrest
  | cons byte rest ih =>
      have hnext : (panel.pending ++ [byte]).headD byte = opcode := by simp [hpending]
      show List.foldl receive (panel.receive (.command byte)) (commands rest) = _
      cases rest with
      | nil =>
          have hlast : (panel.pending ++ [byte]).length = arguments opcode + 1 := by
            simp only [hpending, ← hlength]
            simp
          rw [receive, hnext, if_pos hlast, hpending]
          rfl
      | cons later rest =>
          have hmore : (panel.pending ++ [byte]).length ≠ arguments opcode + 1 := by
            simp only [hpending, ← hlength]
            simp
          rw [receive, hnext, if_neg hmore,
            ih { panel with pending := panel.pending ++ [byte] } (before ++ [byte])
              (by simp [hpending]) (by simp) (by simpa using hlength)]
          simp

/-- A complete instruction that arrives between two instructions is executed. -/
theorem receive_instruction (panel : Panel) {bytes : List UInt8} (hpending : panel.pending = [])
    (h : complete bytes) : (commands bytes).foldl receive panel = panel.execute bytes := by
  have hidle : { panel with pending := [] } = panel := by rw [← hpending]
  cases bytes with
  | nil => exact absurd h id
  | cons opcode args =>
      have hhead : (panel.pending ++ [opcode]).headD opcode = opcode := by simp [hpending]
      show List.foldl receive (panel.receive (.command opcode)) (commands args) = _
      cases args with
      | nil =>
          have hargs : 0 = arguments opcode := h
          have hnone : (panel.pending ++ [opcode]).length = arguments opcode + 1 := by
            simp [hpending, ← hargs]
          rw [receive, hhead, if_pos hnone, hpending, hidle]
          rfl
      | cons arg args =>
          have hargs : (arg :: args).length = arguments opcode := h
          have hsome : (panel.pending ++ [opcode]).length ≠ arguments opcode + 1 := by
            simp [hpending, ← hargs]
          rw [receive, hhead, if_neg hsome,
            receive_arguments { panel with pending := panel.pending ++ [opcode] } []
              (by rw [hpending]; rfl) (by simp) hargs]
          exact congrArg (execute · _) hidle

/-- An instruction leaves nothing pending. -/
theorem execute_pending (panel : Panel) (bytes : List UInt8) :
    (panel.execute bytes).pending = panel.pending := by
  unfold execute
  repeat' split
  all_goals rfl

/-- Complete instructions that arrive between two instructions are executed in turn. -/
theorem receive_instructions (panel : Panel) (instructions : List (List UInt8))
    (hpending : panel.pending = []) (h : ∀ bytes ∈ instructions, complete bytes) :
    (commands instructions.flatten).foldl receive panel = instructions.foldl execute panel := by
  induction instructions generalizing panel with
  | nil => rfl
  | cons bytes instructions ih =>
      obtain ⟨hfirst, hrest⟩ := List.forall_mem_cons.mp h
      rw [List.flatten_cons, commands, List.map_append, List.foldl_append, ← commands,
        receive_instruction panel hpending hfirst, List.foldl_cons]
      exact ih (panel.execute bytes) (by rw [execute_pending, hpending]) hrest

/-- The commands of a window set up the window and put the pointer in its corner. -/
theorem receive_window {panel : Panel} (h : panel.Ready) {window : Window}
    (hfits : windowFits window) (content : Nat → Nat → UInt8) :
    (windowTransfers window content).foldl receive panel =
      ((rows window.left window.right window.top window.bottom content).map
        Transfer.payload).foldl receive
        { panel with memory := ⟨panel.memory.ram, window, window.left, window.top⟩ } := by
  obtain ⟨⟨hx, hright⟩, hy, hbottom⟩ := hfits
  have hbyte : ∀ n : Nat, n < 128 → (byteOf n).toNat = n := by
    intro n hn
    simp only [byteOf, UInt8.toNat_ofNat']
    omega
  have hinstructions := receive_instructions panel
    [[0x21, byteOf window.left, byteOf window.right],
      [0x22, byteOf window.top, byteOf window.bottom]] h.2.2 (by simp [complete, arguments])
  have hbytes : windowTransfers window content =
      commands [[0x21, byteOf window.left, byteOf window.right],
        [0x22, byteOf window.top, byteOf window.bottom]].flatten ++
      (rows window.left window.right window.top window.bottom content).map .payload := rfl
  rw [hbytes, List.foldl_append, hinstructions, List.foldl_cons, List.foldl_cons, List.foldl_nil]
  rw [execute, if_pos rfl, execute, if_neg (by decide), if_pos rfl, hbyte _ (by omega),
    hbyte _ hright, hbyte _ (by omega), hbyte _ (by omega)]

/-- The SSD1306 is a device that the driver can rely on. -/
@[reducible] def controller : Controller where
  State := Panel
  ram panel := panel.memory.ram
  receive := receive
  Ready := Ready
  fill panel window content h hfits := by
    have hrows := push_rows content
      ⟨panel.memory.ram, window, window.left, window.top⟩ rfl hfits.1.1 hfits.2.1
    simp only at hrows
    rw [receive_window h hfits, foldl_receive_rows
      { panel with memory := ⟨panel.memory.ram, window, window.left, window.top⟩ } h.1, hrows]
    exact ⟨h, rfl⟩

end Panel

/-! ## The start of the display -/

/-- The instructions of `OLEDDisplay_sendInitCommands`. -/
def initInstructions (g : Geometry) : List (List UInt8) :=
  [[0xAE], -- DISPLAYOFF
    [0xD5, 0xF0], -- SETDISPLAYCLOCKDIV
    [0xA8, byteOf (g.height - 1)], -- SETMULTIPLEX
    [0xD3, 0x00], -- SETDISPLAYOFFSET
    if g = .geometry64x32 then [0x00] else [0x40], -- SETSTARTLINE
    [0x8D, 0x14], -- CHARGEPUMP
    [0x20, 0x00], -- MEMORYMODE
    [0xA0], -- SEGREMAP
    [0xC0], -- COMSCANINC
    [0xDA, if g = .geometry128x32 then 0x02 else 0x12], -- SETCOMPINS
    [0x81, if g = .geometry128x32 then 0x8F else 0xCF], -- SETCONTRAST
    [0xD9, 0xF1], -- SETPRECHARGE
    [0xDB, 0x40], -- SETVCOMDETECT
    [0xA4], -- DISPLAYALLON_RESUME
    [0xA6], -- NORMALDISPLAY
    [0x2E], -- stop scroll
    [0xAF], -- DISPLAYON
    [0x21, 0x00, 0x7F], -- COLUMNADDR
    [0x22, 0x00, 0x07]] -- PAGEADDR

/-- `OLEDDisplay_sendInitCommands` sends its bytes one by one. -/
def sendInitCommands (g : Geometry) : List Transfer := Panel.commands (initInstructions g).flatten

variable {g : Geometry}

/-- The instructions of the start are complete: no argument is missing or left over. -/
theorem init_instructions_complete (g : Geometry) :
    ∀ bytes ∈ initInstructions g, Panel.complete bytes := by
  cases g <;> decide

/-- After the start commands the panel is ready, and its memory is what it was. -/
theorem init_ready (g : Geometry) {panel : Panel} (h : panel.pending = []) :
    ((sendInitCommands g).foldl Panel.receive panel).Ready ∧
      ((sendInitCommands g).foldl Panel.receive panel).memory.ram = panel.memory.ram := by
  rw [sendInitCommands, Panel.receive_instructions panel _ h (init_instructions_complete g)]
  cases g <;> exact ⟨⟨rfl, rfl, h⟩, rfl⟩

/-- The display that `OLEDDisplay_alloc` and `OLEDDisplay_allocateBuffer` make, with whatever
stands in the memory of the buffers. -/
def OLEDDisplay.alloc (arialMTPlain10 : List UInt8) (buffer bufferBack : Frame g) :
    OLEDDisplay g where
  buffer := buffer
  bufferBack := bufferBack
  textAlignment := .left
  color := .white
  fontData := arialMTPlain10

/-- From `OLEDDisplay_init` on, whatever stood in the memory of the device and of the buffers, the
device shows exactly the buffer that was displayed last: the partial updates never leave a mixture
of two buffers, and nothing of what has only been drawn. -/
theorem init_session_shows {k : Controller} {oled last : OLEDDisplay g} {s final : k.State}
    {displayed : List (Frame g)} (hready : k.Ready (k.deliver s (sendInitCommands g)))
    (hrun : Steps k.SessionStep
      (oled.resetDisplay.1, k.deliver s (sendInitCommands g ++ oled.resetDisplay.2)) displayed
      (last, final)) :
    k.Shows final ((oled.clear.buffer :: displayed).getLast (by simp)) := by
  rw [Controller.deliver_append] at hrun
  exact (k.session_shows hready hrun).2

/-- A panel that is switched off. -/
def Panel.off : Panel where
  memory := ⟨fun _ _ => 0, ⟨0, 127, 0, 7⟩, 0, 0⟩
  horizontal := false
  lit := false
  pending := []

/-- The start commands make a panel that is switched off ready. -/
theorem Panel.off_ready (g : Geometry) :
    Panel.controller.Ready (Panel.controller.deliver Panel.off (sendInitCommands g)) :=
  (init_ready g rfl).1

/-- A panel that was off shows a white buffer that is drawn and displayed. -/
theorem init_session_shows_white :
    ∃ final : Panel, Panel.controller.Shows final
      (⟨Vector.replicate _ 255⟩ : Frame .geometry128x64) := by
  exact ⟨_, init_session_shows (Panel.off_ready _) (Panel.controller.draw_display
    (OLEDDisplay.alloc [] ⟨Vector.replicate _ 0⟩ ⟨Vector.replicate _ 0⟩).resetDisplay.1
    ⟨Vector.replicate _ 255⟩ _)⟩

end SaiyuanClock
