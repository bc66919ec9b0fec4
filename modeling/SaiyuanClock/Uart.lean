import SaiyuanClock.Alarms
import SaiyuanClock.Library.Decimal
import SaiyuanClock.Library.Lines

/-!
# The UART texts

The messages that `echo_task` writes to the UART, the line rule `clear_string` of its receive
section, and `command_handler` with the string functions that build the data-sync frame.

The data-sync branch passes the characters `'N'` and `'E'` to `strncat` where a pointer is
expected. What lies at these addresses is not part of the program, so the functions below take
the memory there as a parameter: `memory address` is the byte that a load from that address
gives, or `none` if the load faults.
-/

namespace SaiyuanClock

open LineFraming

/-- The bytes of a string literal without its terminating NUL. -/
def ascii (literal : String) : List UInt8 := literal.toList.map fun c => UInt8.ofNat c.toNat

/-- The character `'\n'`. -/
def newline : UInt8 := 10

/-- The C string that a character buffer holds. -/
def cString (buffer : List UInt8) : List UInt8 := buffer.takeWhile (· ≠ 0)

/-- A C string ends at its first NUL, whatever follows in the buffer. -/
theorem c_string_terminated (text rest : List UInt8) :
    cString (text ++ 0 :: rest) = cString text := by
  induction text with
  | nil => rfl
  | cons byte text ih =>
      by_cases hbyte : byte = 0
      · simp [cString, hbyte]
      · simpa [cString, hbyte] using ih

/-- A C string contains no NUL. -/
theorem nul_not_mem_c_string (buffer : List UInt8) : 0 ∉ cString buffer :=
  terminator_not_mem_line_of buffer

/-- Bytes without a NUL are their own C string. -/
theorem c_string_eq_self {text : List UInt8} (h : 0 ∉ text) : cString text = text := by
  rw [cString, List.takeWhile_eq_self_iff]
  intro byte hmem
  have hbyte : byte ≠ 0 := fun hzero => h (hzero ▸ hmem)
  simp [hbyte]

/-! ## Messages -/

/-- The commands of the command slot. -/
inductive Command where
  | beep
  | alarm
  | lightOn
  | lightOff
  | dataSync
  deriving DecidableEq, Repr

/-- The value of `command_last_index` for a command. -/
def Command.code : Command → Nat
  | .beep => 1
  | .alarm => 2
  | .lightOn => 3
  | .lightOff => 4
  | .dataSync => 5

/-- The commands in the order in which `echo_task` compares `command_last_index` with them. -/
def Command.all : List Command := [.beep, .alarm, .lightOn, .lightOff, .dataSync]

/-- What one pass of the send section of `echo_task` writes. A data-sync message is the content
of `uart_data_tx`. -/
inductive Message where
  | beep
  | alarm
  | lightOn
  | lightOff
  | dataSync (uartDataTx : List UInt8)
  | testCommand
  deriving DecidableEq, Repr

/-- The message that transmits a command. -/
def Command.message (uartDataTx : List UInt8) : Command → Message
  | .beep => .beep
  | .alarm => .alarm
  | .lightOn => .lightOn
  | .lightOff => .lightOff
  | .dataSync => .dataSync uartDataTx

/-- The command that a message transmits; the heartbeat transmits none. -/
def Message.command : Message → Option Command
  | .beep => some .beep
  | .alarm => some .alarm
  | .lightOn => some .lightOn
  | .lightOff => some .lightOff
  | .dataSync _ => some .dataSync
  | .testCommand => none

/-- The text of a message, without its newline. -/
def Message.text : Message → List UInt8
  | .beep => ascii "beep"
  | .alarm => ascii "alarm"
  | .lightOn => ascii "lighton"
  | .lightOff => ascii "lightoff"
  | .dataSync uartDataTx => cString uartDataTx
  | .testCommand => ascii "test_command"

/-- The bytes that `uart_write_bytes` is given for a message. The byte count of the first four
is the `sizeof` of the literal, which includes its terminating NUL; that of the data-sync frame
and of the heartbeat is its `strlen`. -/
def Message.bytes : Message → List UInt8
  | .beep => ascii "beep\n" ++ [0]
  | .alarm => ascii "alarm\n" ++ [0]
  | .lightOn => ascii "lighton\n" ++ [0]
  | .lightOff => ascii "lightoff\n" ++ [0]
  | .dataSync uartDataTx => cString uartDataTx
  | .testCommand => ascii "test_command\n"

/-! ## Receiving a line -/

/-- `BUF_SIZE`. -/
def bufSize : Nat := 1024

/-- The loop of `clear_string`. The lists are what follows the pointers `origin + i` and
`dest + i` in their buffers, and `left` is `len - i` as long as that is positive. The result is
the new content of the buffer from `dest + i` on; `none` is an access past the end of a
buffer. -/
def clearStringLoop : (origin : List UInt8) → (left : Nat) → (dest : List UInt8) →
    Option (List UInt8)
  | [], _, _ => none
  | _ :: _, _, [] => none
  | _ :: _, 0, _ :: dest => some (0 :: dest)
  | byte :: origin, left + 1, _ :: dest =>
      if byte ≠ newline then (clearStringLoop origin left dest).map (byte :: ·)
      else some (0 :: dest)

/-- `clear_string`. -/
def clearString (origin dest : List UInt8) (len : Int) : Option (List UInt8) :=
  clearStringLoop origin len.toNat dest

/-- The loop copies the bytes before the first newline among the `left` bytes that it may read
and terminates them, as long as they end before the buffer does. -/
theorem clear_string_loop_spec {origin dest : List UInt8} {left : Nat}
    (hsize : dest.length = origin.length)
    (hend : (lineOf newline (origin.take left)).length < origin.length) :
    clearStringLoop origin left dest =
      some (lineOf newline (origin.take left) ++
        0 :: dest.drop ((lineOf newline (origin.take left)).length + 1)) := by
  induction origin generalizing left dest with
  | nil => simp at hend
  | cons byte origin ih =>
      obtain ⟨first, dest, rfl⟩ := List.exists_cons_of_length_eq_add_one hsize
      cases left with
      | zero => simp [clearStringLoop, lineOf]
      | succ left =>
          by_cases hbyte : byte = newline
          · simp [clearStringLoop, lineOf, hbyte]
          · have hline : lineOf newline ((byte :: origin).take (left + 1)) =
                byte :: lineOf newline (origin.take left) := by
              simp [lineOf, hbyte]
            rw [hline] at hend ⊢
            have hrest := @ih dest left (Nat.succ.inj hsize) (Nat.succ_lt_succ_iff.mp hend)
            simp [clearStringLoop, hbyte, hrest]

/-- `clear_string` leaves the size of its destination as it is. -/
theorem clear_string_loop_length {origin dest result : List UInt8} {left : Nat}
    (h : clearStringLoop origin left dest = some result) : result.length = dest.length := by
  induction origin generalizing left dest result with
  | nil => simp [clearStringLoop] at h
  | cons byte origin ih =>
      cases dest with
      | nil => cases left <;> simp [clearStringLoop] at h
      | cons first dest =>
          cases left with
          | zero =>
              obtain rfl : 0 :: dest = result := by simpa [clearStringLoop] using h
              rfl
          | succ left =>
              simp only [clearStringLoop] at h
              split at h
              · obtain ⟨rest, hrest, rfl⟩ := Option.map_eq_some_iff.mp h
                simp [ih hrest]
              · obtain rfl := Option.some.inj h
                rfl

/-- A buffer of `BUF_SIZE` bytes. -/
structure Buffer where
  bytes : List UInt8
  size : bytes.length = bufSize

/-- A buffer of zeros. -/
def Buffer.zero : Buffer := ⟨List.replicate bufSize 0, List.length_replicate⟩

/-- A buffer after `uart_read_bytes` has stored the given bytes at its start. -/
def Buffer.fill (data : Buffer) (received : List UInt8) : Buffer where
  bytes := (received ++ data.bytes.drop received.length).take bufSize
  size := by
    have := data.size
    simp only [List.length_take, List.length_append, List.length_drop]
    omega

/-- `clear_string` between two buffers of `BUF_SIZE` bytes. -/
def Buffer.clearString (origin dest : Buffer) (len : Int) : Option Buffer :=
  match h : SaiyuanClock.clearString origin.bytes dest.bytes len with
  | none => none
  | some bytes => some ⟨bytes, (clear_string_loop_length h).trans dest.size⟩

/-- A buffer starts with a text and a NUL after it. -/
def Buffer.Holds (dest : Buffer) (text : List UInt8) : Prop :=
  ∃ rest, dest.bytes = text ++ 0 :: rest

/-- Without a newline the loop runs to the end of its buffer if it may read that far. -/
theorem clear_string_loop_overrun {origin : List UInt8} (hline : newline ∉ origin)
    (dest : List UInt8) {left : Nat} (hleft : origin.length ≤ left) :
    clearStringLoop origin left dest = none := by
  induction origin generalizing left dest with
  | nil => rfl
  | cons byte origin ih =>
      obtain ⟨hbyte, hrest⟩ := List.ne_and_not_mem_of_not_mem_cons hline
      cases left with
      | zero => simp at hleft
      | succ left =>
          have hshort : origin.length ≤ left := by simpa using hleft
          cases dest with
          | nil => rfl
          | cons first dest => simp [clearStringLoop, Ne.symm hbyte, ih hrest dest hshort]

/-- `clear_string` stays in its buffers and leaves the line with a NUL after it, as long as the
line ends before the buffer does. -/
theorem Buffer.clear_string_of_length {origin : Buffer} (dest : Buffer) {len : Int}
    (h : (lineOf newline (origin.bytes.take len.toNat)).length < bufSize) :
    ∃ result, origin.clearString dest len = some result ∧
      result.Holds (lineOf newline (origin.bytes.take len.toNat)) := by
  have hspec := clear_string_loop_spec (dest.size.trans origin.size.symm)
    (Nat.lt_of_lt_of_eq h origin.size.symm)
  unfold Buffer.clearString
  split
  · next hnone =>
    rw [SaiyuanClock.clearString, hspec] at hnone
    simp at hnone
  · next bytes hbytes =>
    rw [SaiyuanClock.clearString, hspec] at hbytes
    obtain rfl := Option.some.inj hbytes
    exact ⟨_, rfl, _, rfl⟩

/-- `clear_string` leaves its buffers when the whole buffer is handed to it without a newline. -/
theorem Buffer.clear_string_overrun {origin : Buffer} (hline : newline ∉ origin.bytes)
    (dest : Buffer) {len : Int} (hlen : bufSize ≤ len) : origin.clearString dest len = none := by
  have hleft : origin.bytes.length ≤ len.toNat := by
    rw [origin.size]
    omega
  have hnone := clear_string_loop_overrun hline dest.bytes hleft
  unfold Buffer.clearString
  split
  · rfl
  · next bytes hbytes =>
    rw [SaiyuanClock.clearString, hnone] at hbytes
    simp at hbytes

/-- What `clear_string` is meant to do with `len` bytes in `origin`: it accesses no byte outside
the two buffers, and for `len ≥ 0` it leaves the bytes before the first newline among the `len`
bytes in `dest`, with a NUL after them. -/
def Buffer.LineExtracted (origin dest : Buffer) (len : Int) : Prop :=
  ∃ result, origin.clearString dest len = some result ∧
    (0 ≤ len → result.Holds (lineOf newline (origin.bytes.take len.toNat)))

/-- For every length up to `BUF_SIZE`, and so for all that `uart_read_bytes` can return,
`clear_string` extracts the line exactly if the read was not full or the buffer has a newline. -/
theorem clear_string_line_extracted_iff (origin dest : Buffer) {len : Int}
    (hlen : len ≤ bufSize) :
    origin.LineExtracted dest len ↔ len < bufSize ∨ newline ∈ origin.bytes := by
  constructor
  · intro h
    obtain ⟨result, hrun, -⟩ := h
    by_contra hneither
    obtain ⟨hfull, hline⟩ := not_or.mp hneither
    rw [Buffer.clear_string_overrun hline dest (Int.not_lt.mp hfull)] at hrun
    cases hrun
  · intro h
    have hshort : (lineOf newline (origin.bytes.take len.toNat)).length < bufSize := by
      have hle := line_of_length_le newline (origin.bytes.take len.toNat)
      have htake := List.length_take_le len.toNat origin.bytes
      by_cases hfull : len < bufSize
      · have hpos : 0 < bufSize := Nat.succ_pos 1023
        omega
      · have hmem : newline ∈ origin.bytes := h.resolve_left hfull
        have hall : origin.bytes.take len.toNat = origin.bytes :=
          List.take_of_length_le (by rw [origin.size]; omega)
        rw [hall, ← origin.size]
        exact line_of_length_lt hmem
    obtain ⟨result, hrun, hholds⟩ := Buffer.clear_string_of_length dest hshort
    exact ⟨result, hrun, fun _ => hholds⟩

/-- A read of one line is extracted. -/
theorem clear_string_line_extracted_alarm :
    (Buffer.zero.fill (ascii "alarm\n")).LineExtracted Buffer.zero 6 :=
  (clear_string_line_extracted_iff _ _ (by simp [bufSize])).mpr (.inl (by simp [bufSize]))

/-- A full read of letters makes `clear_string` go on behind its buffers. -/
theorem clear_string_full_read_overrun :
    ¬ Buffer.LineExtracted ⟨List.replicate bufSize 97, List.length_replicate⟩ Buffer.zero
      bufSize := by
  intro h
  obtain ⟨result, hrun, -⟩ := h
  rw [Buffer.clear_string_overrun (by simp [newline]) Buffer.zero (Int.le_refl _)] at hrun
  cases hrun

/-! ## Handling a command -/

/-- What a `char *` argument may be: a pointer to a string, or an integer that was converted to
a pointer. -/
inductive CharPointer where
  | string (text : List UInt8)
  | integer (address : Nat)

/-- The string of at most `limit` bytes at an address, `none` if a load faults. -/
def loadString (memory : Nat → Option UInt8) (address : Nat) :
    (limit : Nat) → Option (List UInt8)
  | 0 => some []
  | limit + 1 =>
      match memory address with
      | none => none
      | some byte =>
          if byte = 0 then some []
          else (loadString memory (address + 1) limit).map (byte :: ·)

/-- The first `limit` bytes of the string behind a pointer. -/
def CharPointer.load (memory : Nat → Option UInt8) (limit : Nat) :
    CharPointer → Option (List UInt8)
  | .string text => some (text.take limit)
  | .integer address => loadString memory address limit

/-- The size of `uart_data_tx` and of the buffer in which `command_handler` builds the frame. -/
def frameSize : Nat := 256

/-- `strncat` onto the string in a buffer of 256 bytes; `none` is a faulting load or a write past
the end of the buffer. -/
def strncat (memory : Nat → Option UInt8) (dest : List UInt8) (src : CharPointer)
    (limit : Nat) : Option (List UInt8) := do
  let appended ← src.load memory limit
  if (dest ++ appended).length < frameSize then some (dest ++ appended) else none

/-- `itoa` in base ten, whose argument is converted to `int`. -/
def itoa (value : Int) : List UInt8 := DecimalText.signedText (toInt32 value)

/-- One iteration of the data-sync loop of `command_handler`: append alarm `i` of `alarmCount`,
with the given timestamp, to the frame. -/
def transferAlarm (memory : Nat → Option UInt8) (alarmCount i : Nat) (alarmTimestamp : Int)
    (uartDataTxBuffer : List UInt8) : Option (List UInt8) :=
  -- the characters stand where `strncat` takes a pointer
  if i = alarmCount - 1 then do
    let buffer ← strncat memory uartDataTxBuffer (.integer 'N'.toNat) 1
    let buffer ← strncat memory buffer (.string (itoa alarmTimestamp)) 16
    strncat memory buffer (.integer 'E'.toNat) 1
  else do
    let buffer ← strncat memory uartDataTxBuffer (.integer 'N'.toNat) 1
    strncat memory buffer (.string (itoa alarmTimestamp)) 16

/-- The data-sync loop of `command_handler` from alarm `i` on. -/
def transferAlarms (memory : Nat → Option UInt8) (alarmCount : Nat) :
    List Alarm → (i : Nat) → (uartDataTxBuffer : List UInt8) → Option (List UInt8)
  | [], _, buffer => some buffer
  | alarm :: alarms, i, buffer => do
      let buffer ← transferAlarm memory alarmCount i alarm.alarmTimestamp buffer
      transferAlarms memory alarmCount alarms (i + 1) buffer

/-- `command_handler` run without interruption; `none` is a fault. The other two branches only
write to the log. -/
def commandHandler (memory : Nat → Option UInt8) (command : List UInt8) (vars : StaticVars) :
    Option StaticVars :=
  if command = ascii "test_command" then some vars
  else if command = ascii "datasync_start" then do
    let frame ← transferAlarms memory vars.alarmCount vars.stored 0 []
    some { vars with isCommand := true, commandLastIndex := Command.dataSync.code,
                     uartDataTx := frame }
  else some vars

end SaiyuanClock
