import SaiyuanClock.TcpClient

/-!
# Replies of the time server

The time server answers with a Unix timestamp in decimal. `tcp_client` reads the reply of each
`recv` with `atoi` and takes every value but zero for a timestamp. The main theorem,
`reply_sets_clock_iff`, says for which replies that is right.
-/

namespace SaiyuanClock

open DecimalText

/-- A reply is the decimal representation of a positive 64-bit number, with nothing behind it but
blanks. -/
def Spells (received : List UInt8) (timestamp : Int) : Prop :=
  0 < timestamp ∧ timestamp < 2 ^ 63 ∧
    ∃ blanks, (∀ byte ∈ blanks, isSpace byte = true) ∧
      received = text timestamp.toNat ++ blanks

/-- The digits at the head of a reply, behind its blanks and its sign. -/
def leadingDigits (received : List UInt8) : List UInt8 :=
  (splitSign ((cString received).dropWhile isSpace)).2.takeWhile fun byte => decide (IsDigit byte)

/-- `tcp_client` from the `recv` of a reply to its next call of `send`. If it calls
`settimeofday`, the call returns `err`. -/
def handleReply (client : TcpClient) (received : List UInt8) (err : Int) :
    Option (TcpClient × List TcpEvent) := do
  let (client, events) ← tcpStep (.recv (some received)) client
  match client.pc with
  | .settimeofday _ _ =>
      let (client, answered) ← tcpStep (.settimeofday err) client
      some (client, events ++ answered)
  | _ => some (client, events)

/-- What a reply is meant to do: `settimeofday` is called exactly with the timestamp that the
reply spells, and a reply that spells none leaves the clock as it is and the program running. -/
def SetsClock (client : TcpClient) (received : List UInt8) (err : Int) : Prop :=
  ∃ after trace, handleReply client received err = some (after, trace) ∧
    (∀ seconds, TcpEvent.settimeofday seconds ∈ trace ↔ Spells received seconds) ∧
    ((∀ timestamp, ¬ Spells received timestamp) →
      after.clock = client.clock ∧ after.pc ≠ .exited)

/-! ## Reading a reply -/

/-- The leading digits are digits. -/
theorem is_digit_of_mem_leading_digits {received : List UInt8} {byte : UInt8}
    (h : byte ∈ leadingDigits received) : IsDigit byte := by
  simpa using List.mem_takeWhile_imp h

/-- The value that the code reads is that of the leading digits with the sign in front of them,
brought into the range of an `int`. -/
theorem current_timestamp_eq (received : List UInt8) :
    currentTimestamp received =
      clampInt32 ((splitSign ((cString received).dropWhile isSpace)).1 *
        value (leadingDigits received)) := by
  rw [currentTimestamp, c_string_terminated]
  rfl

/-- The value that the code reads is zero exactly if the leading digits are all zeros. -/
theorem current_timestamp_eq_zero_iff (received : List UInt8) :
    currentTimestamp received = 0 ↔ ∀ byte ∈ leadingDigits received, byte = 48 := by
  rw [← value_eq_zero_iff fun byte => is_digit_of_mem_leading_digits, current_timestamp_eq]
  have hsign : ∀ text, (splitSign text).1 = 1 ∨ (splitSign text).1 = -1 := by
    intro text
    unfold splitSign
    split <;> simp
  rcases hsign ((cString received).dropWhile isSpace) with hsign | hsign
  · rw [hsign, clampInt32]
    omega
  · rw [hsign, clampInt32]
    omega

/-- The value that the code reads is at most the largest `int`. -/
theorem current_timestamp_le (received : List UInt8) :
    currentTimestamp received ≤ 2 ^ 31 - 1 := by
  rw [current_timestamp_eq, clampInt32]
  omega

/-- A reply that spells a timestamp contains no NUL. -/
theorem Spells.c_string {received : List UInt8} {timestamp : Int}
    (h : Spells received timestamp) : cString received = received := by
  obtain ⟨-, -, blanks, hblanks, rfl⟩ := h
  refine c_string_eq_self ?_
  intro hmem
  rcases List.mem_append.mp hmem with hmem | hmem
  · exact absurd (is_digit_of_mem_text hmem) (by decide)
  · exact absurd (hblanks 0 hmem) (by decide)

/-- The sign and the leading digits of a reply that spells a timestamp. -/
theorem Spells.reading {received : List UInt8} {timestamp : Int}
    (h : Spells received timestamp) :
    (splitSign ((cString received).dropWhile isSpace)).1 = 1 ∧
      leadingDigits received = text timestamp.toNat := by
  have hstring := h.c_string
  obtain ⟨hpos, -, blanks, hblanks, rfl⟩ := h
  obtain ⟨byte, rest, htext, -⟩ := head_text_pos (n := timestamp.toNat) (by omega)
  have hdigit : IsDigit byte := is_digit_of_mem_text (htext ▸ List.mem_cons_self)
  have hbody : splitSign ((text timestamp.toNat ++ blanks).dropWhile isSpace) =
      (1, text timestamp.toNat ++ blanks) := by
    rw [htext, List.cons_append, List.dropWhile_cons_of_neg (by simp [is_space_digit hdigit]),
      split_sign_digit _ hdigit]
  have hstop : blanks.takeWhile (fun byte => decide (IsDigit byte)) = [] := by
    cases blanks with
    | nil => rfl
    | cons blank blanks =>
        have hblank : ¬ IsDigit blank := by
          intro hdigit
          have hspace := hblanks blank List.mem_cons_self
          rw [is_space_digit hdigit] at hspace
          cases hspace
        simp [hblank]
  have hdigits : ∀ byte ∈ text timestamp.toNat, decide (IsDigit byte) = true := by
    intro byte hmem
    simpa using is_digit_of_mem_text hmem
  rw [leadingDigits, hstring, hbody]
  refine ⟨rfl, ?_⟩
  rw [List.takeWhile_append_of_pos hdigits, hstop, List.append_nil]

/-- A reply spells at most one timestamp. -/
theorem Spells.unique {received : List UInt8} {timestamp other : Int}
    (h : Spells received timestamp) (hother : Spells received other) : timestamp = other := by
  have htext : text timestamp.toNat = text other.toNat :=
    h.reading.2.symm.trans hother.reading.2
  have hvalue : timestamp.toNat = other.toNat := by
    simpa using congrArg value htext
  have hpos : 0 < timestamp := h.1
  omega

/-- A timestamp is read as it is spelled, up to the largest `int`. -/
theorem Spells.current_timestamp {received : List UInt8} {timestamp : Int}
    (h : Spells received timestamp) :
    currentTimestamp received = min (2 ^ 31 - 1) timestamp := by
  have hpos : 0 < timestamp := h.1
  rw [current_timestamp_eq, h.reading.1, h.reading.2, value_text, clampInt32]
  omega

/-! ## Handling a reply -/

/-- A reply that is read as zero goes back to `send`. -/
theorem handle_reply_zero {client : TcpClient} {sock : Int} (hpc : client.pc = .recv sock)
    {received : List UInt8} (hsize : received.length < rxBufferSize)
    (hzero : currentTimestamp received = 0) (err : Int) :
    handleReply client received err =
      some (client.goto (.send sock), [.recv sock (some received)]) := by
  simp [handleReply, tcpStep, hpc, hsize, hzero, TcpClient.goto]

/-- Any other reply makes the program set the clock to what it is read as. -/
theorem handle_reply_set {client : TcpClient} {sock : Int} (hpc : client.pc = .recv sock)
    {received : List UInt8} (hsize : received.length < rxBufferSize)
    (hzero : currentTimestamp received ≠ 0) (err : Int) :
    ∃ after, handleReply client received err = some (after,
      .recv sock (some received) :: .settimeofday (currentTimestamp received) ::
        if err < 0 then [.exited] else []) := by
  by_cases herr : err < 0
  · simp [handleReply, tcpStep, hpc, hsize, hzero, herr, TcpClient.goto]
  · simp [handleReply, tcpStep, hpc, hsize, hzero, herr, TcpClient.goto]

/-- A reply that does what it is meant to do spells what it is read as, if that is not zero. -/
theorem SetsClock.spells {client : TcpClient} {sock err : Int} {received : List UInt8}
    (h : SetsClock client received err) (hpc : client.pc = .recv sock)
    (hsize : received.length < rxBufferSize) (hzero : currentTimestamp received ≠ 0) :
    Spells received (currentTimestamp received) := by
  obtain ⟨after, trace, hrun, hcalls, -⟩ := h
  obtain ⟨_, hset⟩ := handle_reply_set hpc hsize hzero err
  obtain ⟨-, rfl⟩ := Prod.mk.inj (Option.some.inj (hset.symm.trans hrun))
  exact (hcalls (currentTimestamp received)).mp (by simp)

/-- A reply does what it is meant to do exactly if it spells a timestamp below `2 ^ 31`, or if
what `atoi` reads of it is no digit but zeros. -/
theorem reply_sets_clock_iff {client : TcpClient} {sock : Int} (hpc : client.pc = .recv sock)
    {received : List UInt8} (hsize : received.length < rxBufferSize) (err : Int) :
    SetsClock client received err ↔
      (∃ timestamp < 2 ^ 31, Spells received timestamp) ∨
        ∀ byte ∈ leadingDigits received, byte = 48 := by
  rw [← current_timestamp_eq_zero_iff]
  constructor
  · intro h
    by_cases hzero : currentTimestamp received = 0
    · exact .inr hzero
    · have hle := current_timestamp_le received
      exact .inl ⟨currentTimestamp received, by omega, h.spells hpc hsize hzero⟩
  · intro h
    by_cases hzero : currentTimestamp received = 0
    · have hnone : ∀ timestamp, ¬ Spells received timestamp := by
        intro timestamp hspells
        have hpos : 0 < timestamp := hspells.1
        rw [hspells.current_timestamp] at hzero
        omega
      refine ⟨_, _, handle_reply_zero hpc hsize hzero err, ?_, ?_⟩
      · simp [hnone]
      · intro _
        exact ⟨rfl, by simp [TcpClient.goto]⟩
    · obtain ⟨timestamp, hlt, hspells⟩ := h.resolve_right hzero
      obtain ⟨after, hset⟩ := handle_reply_set hpc hsize hzero err
      refine ⟨after, _, hset, ?_, fun hnone => absurd hspells (hnone timestamp)⟩
      intro seconds
      have hread : currentTimestamp received = timestamp := by
        rw [hspells.current_timestamp]
        omega
      have hcall : TcpEvent.settimeofday seconds ∈ TcpEvent.recv sock (some received) ::
          .settimeofday (currentTimestamp received) :: (if err < 0 then [.exited] else []) ↔
          seconds = timestamp := by
        split <;> simp [hread]
      rw [hcall]
      constructor
      · intro hseconds
        exact hseconds ▸ hspells
      · intro hother
        exact hother.unique hspells

/-- A timestamp with a newline sets the clock. -/
theorem reply_sets_clock_forty_two :
    SetsClock ⟨1, 0, .recv 3⟩ (ascii "42\n") 0 :=
  (reply_sets_clock_iff rfl (by decide) 0).mpr
    (.inl ⟨42, by omega, by omega, by omega, [10], by simp [isSpace], by decide⟩)

/-- Letters behind a number are ignored, and a timestamp that does not fit in an `int` is not the
one that the clock is set to. -/
theorem reply_sets_clock_wrongly :
    ¬ SetsClock ⟨1, 0, .recv 3⟩ (ascii "12abc") 0 ∧
      ¬ SetsClock ⟨1, 0, .recv 3⟩ (ascii "2147483648") 0 := by
  constructor
  · intro h
    have hread : currentTimestamp (ascii "12abc") ≠ 0 := by decide
    obtain ⟨-, -, blanks, hblanks, hbytes⟩ := h.spells rfl (by decide) hread
    have hletter : (99 : UInt8) ∈ ascii "12abc" := by decide
    rw [hbytes] at hletter
    rcases List.mem_append.mp hletter with hmem | hmem
    · exact absurd (is_digit_of_mem_text hmem) (by decide)
    · exact absurd (hblanks 99 hmem) (by decide)
  · intro h
    have hspells := h.spells rfl (by decide) (by decide)
    have hvalue := congrArg value hspells.reading.2
    rw [value_text] at hvalue
    exact absurd hvalue (by decide)

end SaiyuanClock
