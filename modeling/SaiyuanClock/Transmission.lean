import SaiyuanClock.Uart

/-!
# The outbound stream

`echo_task` writes its messages one after the other, and the peer has nothing but the newlines to
tell them apart. `decodes_iff` says which sequences of messages can be read back with the
firmware's own line rule. The four commands are written with the `sizeof` of their literal, so
that a NUL follows the newline, and a data-sync frame ends without a newline.
-/

namespace SaiyuanClock

open LineFraming

/-- The bytes of a sequence of messages on the UART. -/
def transmitted (messages : List Message) : List UInt8 := messages.flatMap Message.bytes

/-- The text that `clear_string` makes of a piece of the stream, in buffers that it fits in. -/
def decoded (piece : List UInt8) : Option (List UInt8) :=
  (clearString (piece ++ [0]) (List.replicate (piece.length + 1) 0) piece.length).map cString

/-- Cut after every newline, the stream of the messages has one piece per message, in order: the
line rule makes the message's text of it, and it contains no NUL. -/
def Decodes (messages : List Message) : Prop :=
  (cutAfter newline (transmitted messages)).map decoded =
      messages.map (fun message => some message.text) ∧
    ∀ piece ∈ cutAfter newline (transmitted messages), 0 ∉ piece

/-- Every message but the last is the heartbeat, and the last is the heartbeat or a nonempty
data-sync frame without a newline. -/
def HeartbeatsThenFrame : List Message → Prop
  | [] => True
  | [message] =>
      message = .testCommand ∨
        message.command = some .dataSync ∧ message.text ≠ [] ∧ newline ∉ message.text
  | message :: messages => message = .testCommand ∧ HeartbeatsThenFrame messages

/-- The line rule makes the C string before the first newline of a piece. -/
theorem decoded_eq (piece : List UInt8) :
    decoded piece = some (cString (lineOf newline piece)) := by
  have htake : (piece ++ [0]).take piece.length = piece := by simp
  have hlength : (lineOf newline piece).length ≤ piece.length := line_of_length_le newline piece
  have hspec : clearString (piece ++ [0]) (List.replicate (piece.length + 1) 0) piece.length =
      some (lineOf newline piece ++ 0 :: (List.replicate (piece.length + 1) 0).drop
        ((lineOf newline piece).length + 1)) := by
    rw [clearString, Int.toNat_natCast, clear_string_loop_spec (by simp) (by simp [htake]; omega),
      htake]
  rw [decoded, hspec, Option.map_some, c_string_terminated]

/-- What the line rule makes of a piece contains no newline. -/
theorem newline_not_mem_decoded {piece text : List UInt8} (h : decoded piece = some text) :
    newline ∉ text := by
  rw [decoded_eq] at h
  obtain rfl := Option.some.inj h
  intro hmem
  exact terminator_not_mem_line_of piece ((List.takeWhile_prefix _).subset hmem)

/-- A message whose text reads back is a heartbeat or a data-sync frame if the stream contains no
NUL. -/
theorem nul_mem_bytes {message : Message} (h : 0 ∉ message.bytes) :
    message = .testCommand ∨ message.command = some .dataSync := by
  cases message
  case testCommand => exact .inl rfl
  case dataSync => exact .inr rfl
  all_goals exact absurd (List.mem_append_right _ (List.mem_singleton_self _)) h

/-- The bytes of a data-sync message are its text. -/
theorem bytes_of_data_sync {message : Message} (h : message.command = some .dataSync) :
    message.bytes = message.text := by
  cases message <;> simp_all [Message.command, Message.bytes, Message.text]

/-- The text of a data-sync message contains no NUL. -/
theorem nul_not_mem_data_sync {message : Message} (h : message.command = some .dataSync) :
    0 ∉ message.text := by
  cases message
  case dataSync => exact nul_not_mem_c_string _
  all_goals simp [Message.command] at h

/-- The heartbeat is one line. -/
theorem heartbeat_bytes : Message.testCommand.bytes = Message.testCommand.text ++ [newline] := by
  decide

/-- Messages that read back are heartbeats and data-sync frames without a newline. -/
theorem Decodes.messages {messages : List Message} (h : Decodes messages) :
    ∀ message ∈ messages, newline ∉ message.text ∧
      (message = .testCommand ∨ message.command = some .dataSync) := by
  obtain ⟨htexts, hnul⟩ := h
  intro message hmem
  constructor
  · have htext : some message.text ∈ messages.map fun message => some message.text :=
      List.mem_map.mpr ⟨message, hmem, rfl⟩
    rw [← htexts] at htext
    obtain ⟨piece, -, hpiece⟩ := List.mem_map.mp htext
    exact newline_not_mem_decoded hpiece
  · refine nul_mem_bytes fun hzero => ?_
    have hstream : 0 ∈ transmitted messages := List.mem_flatMap.mpr ⟨message, hmem, hzero⟩
    rw [← flatten_cut_after (transmitted messages)] at hstream
    obtain ⟨piece, hpiece, hzero⟩ := List.mem_flatten.mp hstream
    exact hnul piece hpiece hzero

@[simp] theorem transmitted_cons (message : Message) (messages : List Message) :
    transmitted (message :: messages) = message.bytes ++ transmitted messages :=
  List.flatMap_cons

/-- The heartbeat is cut off the front of the stream. -/
theorem cut_heartbeat (messages : List Message) :
    cutAfter newline (transmitted (.testCommand :: messages)) =
      Message.testCommand.bytes :: cutAfter newline (transmitted messages) := by
  rw [transmitted_cons, heartbeat_bytes, List.append_assoc, List.singleton_append,
    cut_after_line _ (by decide)]

/-- A frame without a newline adds no piece to a stream that follows it. -/
theorem cut_frame_length {frame stream : List UInt8} (hframe : newline ∉ frame)
    (hstream : stream ≠ []) :
    (cutAfter newline (frame ++ stream)).length = (cutAfter newline stream).length := by
  obtain ⟨piece, pieces, hcut, hwhole⟩ := cut_after_append hframe hstream
  rw [hcut, hwhole, List.length_cons, List.length_cons]

/-- A frame without a newline is at most one piece. -/
theorem cut_frame_le {frame : List UInt8} (hframe : newline ∉ frame) :
    (cutAfter newline frame).length ≤ 1 := by
  by_cases hempty : frame = []
  · simp [hempty, cutAfter]
  · simp [cut_after_unterminated hempty hframe]

/-- Heartbeats and frames without a newline have at most one piece each. -/
theorem pieces_le {messages : List Message}
    (h : ∀ message ∈ messages, newline ∉ message.text ∧
      (message = .testCommand ∨ message.command = some .dataSync)) :
    (cutAfter newline (transmitted messages)).length ≤ messages.length := by
  induction messages with
  | nil => simp [transmitted, cutAfter]
  | cons message messages ih =>
      obtain ⟨hnewline, hkind⟩ := h message (by simp)
      have hrest := ih fun other hmem => h other (by simp [hmem])
      rw [List.length_cons]
      rcases hkind with rfl | hframe
      · rw [cut_heartbeat, List.length_cons]
        omega
      · rw [transmitted_cons, bytes_of_data_sync hframe]
        by_cases hempty : transmitted messages = []
        · have hone := cut_frame_le hnewline
          rw [hempty, List.append_nil]
          omega
        · rw [cut_frame_length hnewline hempty]
          omega

/-- A heartbeat at the front reads back. -/
theorem decodes_heartbeat (messages : List Message) :
    Decodes (.testCommand :: messages) ↔ Decodes messages := by
  have hreceived : decoded Message.testCommand.bytes = some Message.testCommand.text := by decide
  have hnul : 0 ∉ Message.testCommand.bytes := by decide
  simp only [Decodes, cut_heartbeat, List.map_cons, List.cons.injEq, hreceived, true_and,
    List.forall_mem_cons, hnul, not_false_eq_true]

/-- A frame alone reads back exactly when it is nonempty and contains no newline. -/
theorem decodes_frame {message : Message} (h : message.command = some .dataSync) :
    Decodes [message] ↔ message.text ≠ [] ∧ newline ∉ message.text := by
  have hstream : transmitted [message] = message.text := by
    simp [transmitted, bytes_of_data_sync h]
  constructor
  · intro hdecodes
    refine ⟨fun hempty => ?_, (hdecodes.messages message (by simp)).1⟩
    have htexts := hdecodes.1
    rw [hstream, hempty] at htexts
    simp [cutAfter] at htexts
  · rintro ⟨hne, hnewline⟩
    have hnul := nul_not_mem_data_sync h
    have hline : lineOf newline message.text = message.text := by
      rw [lineOf, List.takeWhile_eq_self_iff]
      intro byte hmem
      have hbyte : byte ≠ newline := fun heq => hnewline (heq ▸ hmem)
      simp [hbyte]
    rw [Decodes, hstream, cut_after_unterminated hne hnewline]
    simp [decoded_eq, hline, c_string_eq_self hnul, hnul]

/-- A frame in front of another message does not read back: nothing ends it. -/
theorem not_decodes_frame_cons {message next : Message} {messages : List Message}
    (h : message.command = some .dataSync) : ¬ Decodes (message :: next :: messages) := by
  intro hdecodes
  have hkinds := hdecodes.messages
  have hnewline := (hkinds message (by simp)).1
  have hcount := congrArg List.length hdecodes.1
  rw [List.length_map, List.length_map, transmitted_cons, bytes_of_data_sync h,
    List.length_cons] at hcount
  have hrest := pieces_le fun other hmem => hkinds other (List.mem_cons_of_mem _ hmem)
  by_cases hempty : transmitted (next :: messages) = []
  · have hone := cut_frame_le hnewline
    rw [hempty, List.append_nil] at hcount
    rw [List.length_cons] at hcount
    omega
  · rw [cut_frame_length hnewline hempty] at hcount
    omega

/-- The outbound stream can be read back exactly when it consists of heartbeats, and possibly of a
nonempty data-sync frame without a newline as its last message. -/
theorem decodes_iff (messages : List Message) :
    Decodes messages ↔ HeartbeatsThenFrame messages := by
  induction messages with
  | nil => simp [Decodes, transmitted, cutAfter, HeartbeatsThenFrame]
  | cons message messages ih =>
      by_cases hbeat : message = .testCommand
      · subst hbeat
        rw [decodes_heartbeat, ih]
        cases messages <;> simp [HeartbeatsThenFrame]
      · by_cases hframe : message.command = some .dataSync
        · cases messages with
          | nil => simp [decodes_frame hframe, HeartbeatsThenFrame, hbeat, hframe]
          | cons next messages =>
              simp [HeartbeatsThenFrame, hbeat, not_decodes_frame_cons hframe]
        · -- a command: its NUL is in the stream
          have hnot : ¬ Decodes (message :: messages) := fun hdecodes =>
            ((hdecodes.messages message (by simp)).2).elim hbeat hframe
          cases messages <;> simp [HeartbeatsThenFrame, hbeat, hframe, hnot]

/-- A beep alone is cut into two pieces: its line, and the NUL that is sent behind it. -/
theorem beep_does_not_decode : ¬ Decodes [.beep] := by
  rintro ⟨htexts, -⟩
  exact absurd (congrArg List.length htexts) (by decide)

end SaiyuanClock
