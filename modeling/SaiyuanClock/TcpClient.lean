import SaiyuanClock.Library.Steps
import SaiyuanClock.Uart

/-!
# The time client

`tcp_client` runs before the tasks are created. It connects to the time server, sends a greeting,
and takes the reply of every `recv` for a timestamp. Its system calls are the steps of the machine
`tcpStep`; what they return is the action. The server's address and port are configuration and
left out. `clock` is what the clock was last set to.
-/

namespace SaiyuanClock

open LabelledSteps

/-- `isspace` of the C library. -/
def isSpace (byte : UInt8) : Bool := byte = 32 || (9 ≤ byte && byte ≤ 13)

/-- The sign in front of a number, and what follows it. -/
def splitSign : List UInt8 → Int × List UInt8
  | 45 :: rest => (-1, rest)
  | 43 :: rest => (1, rest)
  | rest => (1, rest)

/-- A value brought into the range of a 32-bit `long`. -/
def clampInt32 (value : Int) : Int := max (-2 ^ 31) (min (2 ^ 31 - 1) value)

/-- `atoi` of the C library: blanks, an optional sign, and as many digits as there are. It is
`strtol` with a 32-bit `long`, which saturates. -/
def atoi (text : List UInt8) : Int :=
  let (sign, rest) := splitSign (text.dropWhile isSpace)
  let digits := rest.takeWhile fun byte => decide (DecimalText.IsDigit byte)
  clampInt32 (sign * DecimalText.value digits)

/-- The size of `rx_buffer`. -/
def rxBufferSize : Nat := 128

/-- `current_timestamp` after `recv` has returned the given bytes: `rx_buffer` is terminated
behind them and read as a string. -/
def currentTimestamp (received : List UInt8) : Int := atoi (cString (received ++ [0]))

/-- The system call that `tcp_client` is at, with the variables that are live there. -/
inductive TcpPc where
  | socket
  | connect (sock : Int)
  | send (sock : Int)
  | recv (sock : Int)
  | settimeofday (sock currentTimestamp : Int)
  | returned
  | exited
  deriving DecidableEq, Repr

/-- What a system call returns: a descriptor or an error, for `recv` the bytes, `none` for an
error. -/
inductive TcpResult where
  | socket (sock : Int)
  | connect (err : Int)
  | send (err : Int)
  | recv (received : Option (List UInt8))
  | settimeofday (err : Int)
  deriving DecidableEq, Repr

/-- The system calls with their arguments; a socket that `socket` created; the end. -/
inductive TcpEvent where
  | created (sock : Int)
  | connect (sock : Int)
  | send (sock : Int)
  | recv (sock : Int) (received : Option (List UInt8))
  | settimeofday (seconds : Int)
  | shutdown (sock : Int)
  | close (sock : Int)
  | returned
  | exited
  deriving DecidableEq, Repr

/-- The state of `tcp_client`. -/
structure TcpClient where
  checkTimes : Nat
  clock : Int
  pc : TcpPc
  deriving DecidableEq, Repr

namespace TcpClient

/-- The next system call. -/
def goto (client : TcpClient) (pc : TcpPc) : TcpClient := { client with pc := pc }

/-- The head of the outer loop. -/
def nextCheck (client : TcpClient) : TcpClient × List TcpEvent :=
  let checkTimes := client.checkTimes + 1
  if checkTimes ≥ 5 then ({ client with checkTimes := checkTimes, pc := .returned }, [.returned])
  else ({ client with checkTimes := checkTimes, pc := .socket }, [])

/-- The end of the outer loop's body, after the inner loop. -/
def restart (client : TcpClient) (sock : Int) : TcpClient × List TcpEvent :=
  (client.nextCheck.1,
    (if sock ≠ -1 then [.shutdown sock, .close sock] else []) ++ client.nextCheck.2)

end TcpClient

/-- One system call of `tcp_client`. `recv` gives no more bytes than `rx_buffer` has room for in
front of the terminating NUL. -/
def tcpStep (result : TcpResult) (client : TcpClient) : Option (TcpClient × List TcpEvent) :=
  match client.pc, result with
  | .socket, .socket sock =>
      if sock < 0 then some (client.goto .returned, [.returned])
      else some (client.goto (.connect sock), [.created sock])
  | .connect sock, .connect err =>
      if err ≠ 0 then some (client.goto .returned, [.connect sock, .returned])
      else some (client.goto (.send sock), [.connect sock])
  | .send sock, .send err =>
      if err < 0 then some ((client.restart sock).1, .send sock :: (client.restart sock).2)
      else some (client.goto (.recv sock), [.send sock])
  | .recv sock, .recv none =>
      some ((client.restart sock).1, .recv sock none :: (client.restart sock).2)
  | .recv sock, .recv (some received) =>
      -- `recv` leaves a byte of the buffer for the terminator
      if received.length < rxBufferSize then
        some
          (client.goto
            -- `continue` also skips the delay
            (if currentTimestamp received = 0 then .send sock
            else .settimeofday sock (currentTimestamp received)),
            [.recv sock (some received)])
      else none
  | .settimeofday sock seconds, .settimeofday err =>
      -- the inner loop is not left when the clock is set
      if err < 0 then some (client.goto .exited, [.settimeofday seconds, .exited])
      else some ({ client with clock := seconds, pc := .send sock }, [.settimeofday seconds])
  | _, _ => none

/-- The system calls of `tcp_client` by what they return: each leads to a state and emits events. -/
inductive TcpStep (client : TcpClient) : TcpResult → TcpClient → List TcpEvent → Prop where
  | noSocket {sock : Int} (hpc : client.pc = .socket) (hsock : sock < 0) :
      TcpStep client (.socket sock) (client.goto .returned) [.returned]
  | created {sock : Int} (hpc : client.pc = .socket) (hsock : 0 ≤ sock) :
      TcpStep client (.socket sock) (client.goto (.connect sock)) [.created sock]
  | refused {sock err : Int} (hpc : client.pc = .connect sock) (herr : err ≠ 0) :
      TcpStep client (.connect err) (client.goto .returned) [.connect sock, .returned]
  | connected {sock : Int} (hpc : client.pc = .connect sock) :
      TcpStep client (.connect 0) (client.goto (.send sock)) [.connect sock]
  | sendFailed {sock err : Int} (hpc : client.pc = .send sock) (herr : err < 0) :
      TcpStep client (.send err) (client.restart sock).1 (.send sock :: (client.restart sock).2)
  | sent {sock err : Int} (hpc : client.pc = .send sock) (herr : 0 ≤ err) :
      TcpStep client (.send err) (client.goto (.recv sock)) [.send sock]
  | recvFailed {sock : Int} (hpc : client.pc = .recv sock) :
      TcpStep client (.recv none) (client.restart sock).1
        (.recv sock none :: (client.restart sock).2)
  | ignored {sock : Int} {received : List UInt8} (hpc : client.pc = .recv sock)
      (hzero : currentTimestamp received = 0) :
      TcpStep client (.recv (some received)) (client.goto (.send sock))
        [.recv sock (some received)]
  | taken {sock : Int} {received : List UInt8} (hpc : client.pc = .recv sock)
      (hzero : currentTimestamp received ≠ 0) :
      TcpStep client (.recv (some received))
        (client.goto (.settimeofday sock (currentTimestamp received))) [.recv sock (some received)]
  | exited {sock seconds err : Int} (hpc : client.pc = .settimeofday sock seconds)
      (herr : err < 0) :
      TcpStep client (.settimeofday err) (client.goto .exited) [.settimeofday seconds, .exited]
  | clockSet {sock seconds err : Int} (hpc : client.pc = .settimeofday sock seconds)
      (herr : 0 ≤ err) :
      TcpStep client (.settimeofday err) { client with clock := seconds, pc := .send sock }
        [.settimeofday seconds]

/-- A system call does one of these. -/
theorem tcp_step_cases {result : TcpResult} {client next : TcpClient} {emitted : List TcpEvent}
    (hstep : tcpStep result client = some (next, emitted)) :
    TcpStep client result next emitted := by
  cases hpc : client.pc <;> cases result <;> simp only [tcpStep, hpc, reduceCtorEq] at hstep
  case socket.socket sock =>
    split at hstep <;> obtain ⟨rfl, rfl⟩ := Prod.mk.inj (Option.some.inj hstep)
    · next hsock => exact .noSocket hpc hsock
    · next hsock => exact .created hpc (Int.not_lt.mp hsock)
  case connect.connect sock err =>
    split at hstep <;> obtain ⟨rfl, rfl⟩ := Prod.mk.inj (Option.some.inj hstep)
    · next herr => exact .refused hpc herr
    · next herr =>
      obtain rfl := not_not.mp herr
      exact .connected hpc
  case send.send sock err =>
    split at hstep <;> obtain ⟨rfl, rfl⟩ := Prod.mk.inj (Option.some.inj hstep)
    · next herr => exact .sendFailed hpc herr
    · next herr => exact .sent hpc (Int.not_lt.mp herr)
  case recv.recv sock reply =>
    cases reply with
    | none =>
        obtain ⟨rfl, rfl⟩ := Prod.mk.inj (Option.some.inj hstep)
        exact .recvFailed hpc
    | some received =>
        simp only at hstep
        split at hstep
        · obtain ⟨rfl, rfl⟩ := Prod.mk.inj (Option.some.inj hstep)
          split
          · next hzero => exact .ignored hpc hzero
          · next hzero => exact .taken hpc hzero
        · cases hstep
  case settimeofday.settimeofday sock seconds err =>
    split at hstep <;> obtain ⟨rfl, rfl⟩ := Prod.mk.inj (Option.some.inj hstep)
    · next herr => exact .exited hpc herr
    · next herr => exact .clockSet hpc (Int.not_lt.mp herr)

/-- `tcp_client` when it has been called and has entered its loop. -/
def TcpClient.start (clock : Int) : TcpClient :=
  (TcpClient.nextCheck { checkTimes := 0, clock := clock, pc := .socket }).1

/-- `settimeofday` succeeds. -/
def clockCanBeSet (_ : TcpClient) : TcpResult → Prop
  | .settimeofday err => 0 ≤ err
  | _ => True

/-- Whether the clock can be set is decidable. -/
instance (client : TcpClient) : ∀ result, Decidable (clockCanBeSet client result)
  | .settimeofday err => inferInstanceAs (Decidable (0 ≤ err))
  | .socket _ | .connect _ | .send _ | .recv _ => inferInstanceAs (Decidable True)

/-- A digit is no blank. -/
theorem is_space_digit {byte : UInt8} (h : DecimalText.IsDigit byte) : isSpace byte = false := by
  obtain ⟨hlow, -⟩ := h
  have hblank : byte ≠ 32 := by
    rintro rfl
    simp at hlow
  have hcontrol : ¬ byte ≤ 13 := by
    rw [UInt8.le_iff_toNat_le]
    show ¬ byte.toNat ≤ 13
    omega
  simp [isSpace, hblank, hcontrol]

/-- A digit is no sign. -/
theorem split_sign_digit {byte : UInt8} (rest : List UInt8) (h : DecimalText.IsDigit byte) :
    splitSign (byte :: rest) = (1, byte :: rest) := by
  obtain ⟨hlow, -⟩ := h
  have hminus : byte ≠ 45 := by
    rintro rfl
    simp at hlow
  have hplus : byte ≠ 43 := by
    rintro rfl
    simp at hlow
  unfold splitSign
  split <;> simp_all

/-- Digits are read as the number they spell, up to the largest `int`. -/
theorem atoi_digits {digits : List UInt8} (h : ∀ byte ∈ digits, DecimalText.IsDigit byte)
    (hlt : DecimalText.value digits < 2 ^ 31) : atoi digits = DecimalText.value digits := by
  have hdigits : digits.takeWhile (fun byte => decide (DecimalText.IsDigit byte)) = digits := by
    rw [List.takeWhile_eq_self_iff]
    intro byte hmem
    simpa using h byte hmem
  have hbody : splitSign (digits.dropWhile isSpace) = (1, digits) := by
    cases digits with
    | nil => rfl
    | cons byte rest =>
        have hbyte := h byte (by simp)
        rw [List.dropWhile_cons_of_neg (by simp [is_space_digit hbyte]),
          split_sign_digit rest hbyte]
  rw [atoi, hbody]
  simp only [hdigits, clampInt32]
  omega

/-- A reply of digits alone is read as the number they spell. -/
theorem current_timestamp_digits {received : List UInt8}
    (h : ∀ byte ∈ received, DecimalText.IsDigit byte)
    (hlt : DecimalText.value received < 2 ^ 31) :
    currentTimestamp received = DecimalText.value received := by
  have hnul : 0 ∉ received := fun hmem => absurd (h 0 hmem) (by decide)
  rw [currentTimestamp, c_string_terminated, c_string_eq_self hnul, atoi_digits h hlt]

end SaiyuanClock
