import SaiyuanClock.Frames

/-!
# The inbound stream

`echo_task` handles what one call of `uart_read_bytes` returns as one line, and discards with
`uart_flush` what has arrived since. `handled_lines_of_run` says that a peer that fits its lines to
these reads is understood: every line is handled once, in order, with its text.
-/

namespace SaiyuanClock

open LabelledSteps LineFraming

/-- The bytes that arrived in a trace. -/
def arrivedBytes (trace : List Event) : List UInt8 :=
  trace.flatMap fun
    | .arrived bytes => bytes
    | _ => []

/-- The lines with which `command_handler` was called in a trace. -/
def handledLines (trace : List Event) : List (List UInt8) :=
  trace.filterMap fun
    | .handled line => some line
    | _ => none

/-- The events of the receive section and of the peer. -/
def Event.inbound : Event → Bool
  | .arrived _ | .handled _ => true
  | _ => false

/-- The count of bytes that `echo_task` has read and not yet handled. -/
def EchoPc.len : EchoPc → Nat
  | .testFlag len | .sendSection len _ | .dataSyncDelay len | .handle len => len
  | _ => 0

/-- The line that `echo_task` has read and not yet handled. -/
def System.pendingLine (s : System) : List (List UInt8) :=
  if s.echo.len = 0 then [] else [lineOf newline (s.data.bytes.take s.echo.len)]

/-- At this program point of `echo_task`, with the given bytes in the driver's buffer: a read
returns nothing or exactly one line with its newline, and a flush discards nothing. -/
def EchoPc.fitsLines (available : Nat) (rx : List UInt8) : EchoPc → Prop
  | .readBytes =>
      rx.take (min available bufSize) = [] ∨ IsLine newline (rx.take (min available bufSize))
  | .flush => rx = []
  | _ => True

/-- Every read returns nothing or exactly one line with its newline, and nothing has arrived when
the receive buffer is flushed. -/
def oneLinePerRead (s : System) : Action → Prop
  | .echo available => s.echo.fitsLines available s.rx
  | _ => True

/-- Whether a read returns one line is decidable. -/
instance (available : Nat) (rx : List UInt8) : ∀ pc : EchoPc,
    Decidable (pc.fitsLines available rx)
  | .readBytes => inferInstanceAs (Decidable (_ ∨ _))
  | .flush => inferInstanceAs (Decidable (_ = _))
  | .testFlag _ | .sendSection _ _ | .dataSyncDelay _ | .handle _ | .transfer _ _ _
  | .replyFlag _ | .replyIndex _ | .replyCopy _ | .delay => inferInstanceAs (Decidable True)

/-- Whether a step reads one line at most is decidable. -/
instance (s : System) : ∀ action, Decidable (oneLinePerRead s action)
  | .echo available => inferInstanceAs (Decidable (s.echo.fitsLines available s.rx))
  | .main _ | .alarm _ | .arrive _ | .tick _ => inferInstanceAs (Decidable True)

@[simp] theorem arrived_bytes_append (first rest : List Event) :
    arrivedBytes (first ++ rest) = arrivedBytes first ++ arrivedBytes rest :=
  List.flatMap_append

@[simp] theorem handled_lines_append (first rest : List Event) :
    handledLines (first ++ rest) = handledLines first ++ handledLines rest :=
  List.filterMap_append

/-- What holds under `oneLinePerRead`: a read that has not been handled is one line, and the lines
handled, that line, and the bytes in the receive buffer make up everything that arrived. -/
structure Framed (s : System) (trace : List Event) : Prop where
  handled : ∀ line ∈ handledLines trace, newline ∉ line
  pending : s.echo.len ≠ 0 →
    ∃ line, newline ∉ line ∧ s.data.bytes.take s.echo.len = line ++ [newline]
  stream : arrivedBytes trace = joinLines newline (handledLines trace ++ s.pendingLine) ++ s.rx

/-- Steps that neither read nor handle keep the framing. -/
theorem Framed.silent {s next : System} {trace emitted : List Event} (h : Framed s trace)
    (hlen : next.echo.len = s.echo.len) (hdata : next.data = s.data) (hrx : next.rx = s.rx)
    (hemitted : ∀ event ∈ emitted, event.inbound = false) : Framed next (trace ++ emitted) := by
  have harrived : arrivedBytes emitted = [] := by
    rw [arrivedBytes, List.flatMap_eq_nil_iff]
    intro event hmem
    have hout := hemitted event hmem
    cases event <;> simp_all [Event.inbound]
  have hhandled : handledLines emitted = [] := by
    rw [handledLines, List.filterMap_eq_nil_iff]
    intro event hmem
    have hout := hemitted event hmem
    cases event <;> simp_all [Event.inbound]
  have hline : next.pendingLine = s.pendingLine := by
    rw [System.pendingLine, System.pendingLine, hlen, hdata]
  refine ⟨?_, ?_, ?_⟩
  · rw [handled_lines_append, hhandled, List.append_nil]
    exact h.handled
  · rw [hlen, hdata]
    exact h.pending
  · rw [arrived_bytes_append, handled_lines_append, harrived, hhandled, hline, hrx, List.append_nil,
      List.append_nil]
    exact h.stream

/-- The main task and `alarm_task` emit no event of the receive section. -/
theorem not_inbound {event : Event} (h : event.fromMain = true ∨ event.fromAlarm = true) :
    event.inbound = false := by
  cases event
  case arrived | handled => simp [Event.fromMain, Event.fromAlarm] at h
  all_goals rfl

/-- The bytes that `uart_read_bytes` stored are at the start of the buffer. -/
theorem fill_take (data : Buffer) {bytes : List UInt8} (h : bytes.length ≤ bufSize) :
    (data.fill bytes).bytes.take bytes.length = bytes := by
  simp [Buffer.fill, List.take_take, Nat.min_eq_left h]

/-- `clear_string` on a buffer that starts with a line leaves the line as a C string. -/
theorem clear_string_of_line {data : Buffer} (dataDest : Buffer) {len : Nat} {line : List UInt8}
    (hline : newline ∉ line) (hnul : 0 ∉ line) (h : data.bytes.take len = line ++ [newline]) :
    ∃ dest, data.clearString dataDest len = some dest ∧ cString dest.bytes = line := by
  have hlength : line.length + 1 ≤ bufSize := by
    have hle := List.length_take_le' len data.bytes
    rw [h, data.size] at hle
    simpa using hle
  have hcut : lineOf newline (data.bytes.take len) = line := by rw [h, line_of_line hline]
  have hshort : (lineOf newline (data.bytes.take (len : Int).toNat)).length < bufSize := by
    rw [Int.toNat_natCast, hcut]
    omega
  obtain ⟨dest, hdest, rest, hbytes⟩ := Buffer.clear_string_of_length dataDest hshort
  rw [Int.toNat_natCast, hcut] at hbytes
  exact ⟨dest, hdest, by rw [hbytes, c_string_terminated, c_string_eq_self hnul]⟩

/-- A read of one line, or of nothing, keeps the framing. -/
theorem Framed.read {available : Nat} {s : System} {trace : List Event} (h : Framed s trace)
    (memory : Nat → Option UInt8) (hpc : s.echo = .readBytes)
    (hallowed : oneLinePerRead s (.echo available)) :
    Framed (echoStep memory available s).1 (trace ++ (echoStep memory available s).2) := by
  simp only [oneLinePerRead, hpc, EchoPc.fitsLines] at hallowed
  simp only [echoStep, hpc]
  generalize hbytes : s.rx.take (min available bufSize) = bytes at hallowed
  have hbound : bytes.length ≤ bufSize := by
    rw [← hbytes, List.length_take]
    omega
  have hrx : s.rx = bytes ++ s.rx.drop bytes.length :=
    (List.prefix_iff_eq_append.mp (hbytes ▸ List.take_prefix _ _)).symm
  have hstream : arrivedBytes trace = joinLines newline (handledLines trace) ++ s.rx := by
    have hnone : s.pendingLine = [] := by rw [System.pendingLine, hpc]; rfl
    simpa [hnone] using h.stream
  have harrived : arrivedBytes (trace ++ [.readBytes bytes]) = arrivedBytes trace := by
    rw [arrived_bytes_append]
    exact List.append_nil _
  have hhandled : handledLines (trace ++ [.readBytes bytes]) = handledLines trace := by
    rw [handled_lines_append]
    exact List.append_nil _
  have hfill := fill_take s.data hbound
  refine ⟨hhandled ▸ h.handled, ?_, ?_⟩
  · intro hlen
    rcases hallowed with rfl | hwhole
    · exact absurd rfl hlen
    · obtain ⟨line, hline, rfl⟩ := hwhole.exists_line
      exact ⟨line, hline, hfill⟩
  · rw [harrived, hhandled, hstream]
    simp only [System.pendingLine, EchoPc.len, hfill]
    rcases hallowed with rfl | hwhole
    · simp
    · obtain ⟨line, hline, rfl⟩ := hwhole.exists_line
      have hne : (line ++ [newline]).length ≠ 0 := by simp
      rw [if_neg hne, line_of_line hline, join_lines_append]
      conv_lhs => rw [hrx]
      simp

/-- Handling the line that was read keeps the framing, if what arrived are lines without NUL. -/
theorem Framed.handle {len : Nat} {s : System} {trace : List Event} {lines : List (List UInt8)}
    (h : Framed s trace) (memory : Nat → Option UInt8) (available : Nat)
    (hlines : ∀ line ∈ lines, newline ∉ line ∧ 0 ∉ line)
    (harrived : arrivedBytes trace <+: joinLines newline lines) (hpc : s.echo = .handle len)
    (hlen : len ≠ 0) :
    Framed (echoStep memory available s).1 (trace ++ (echoStep memory available s).2) := by
  obtain ⟨line, hline, htake⟩ := h.pending (by rw [hpc]; exact hlen)
  have hpending : s.pendingLine = [line] := by
    rw [System.pendingLine, if_neg (by rw [hpc]; exact hlen), htake, line_of_line hline]
  have hstream := h.stream
  rw [hpending] at hstream
  have hfree : ∀ other ∈ handledLines trace ++ [line], newline ∉ other :=
    List.forall_mem_append.mpr ⟨h.handled, by simpa using hline⟩
  rw [hstream] at harrived
  have hknown : handledLines trace ++ [line] <+: lines :=
    join_lines_prefix hfree (fun other hmem => (hlines other hmem).1)
      ((List.prefix_append _ _).trans harrived)
  have hnul : 0 ∉ line := (hlines line (hknown.subset (by simp))).2
  rw [hpc, EchoPc.len] at htake
  obtain ⟨dest, hdest, htext⟩ := clear_string_of_line s.dataDest hline hnul htake
  have hhandled : handledLines (trace ++ [.handled line]) = handledLines trace ++ [line] := by
    rw [handled_lines_append]
    rfl
  simp only [echoStep, hpc, if_neg hlen, hdest, htext]
  generalize hecho : (if line = ascii "test_command" then EchoPc.flush
    else if line = ascii "datasync_start" then .transfer 0 s.vars.alarmCount [] else .flush) = pc
  have hdone : pc.len = 0 := by
    rw [← hecho]
    split
    · rfl
    · split <;> rfl
  refine ⟨?_, fun hlen => absurd hdone hlen, ?_⟩
  · rw [hhandled]
    exact hfree
  · rw [arrived_bytes_append, hhandled, hstream, System.pendingLine, if_pos hdone, List.append_nil]
    exact List.append_nil _

/-- A step of `echo_task` under `oneLinePerRead` keeps the framing, if what arrived are lines that
the firmware can hold. -/
theorem Framed.echo_step {memory : Nat → Option UInt8} {available : Nat} {s : System}
    {trace : List Event} {lines : List (List UInt8)} (h : Framed s trace)
    (hlines : ∀ line ∈ lines, newline ∉ line ∧ 0 ∉ line)
    (harrived : arrivedBytes trace <+: joinLines newline lines)
    (hallowed : oneLinePerRead s (.echo available)) :
    Framed (echoStep memory available s).1 (trace ++ (echoStep memory available s).2) := by
  cases hpc : s.echo <;> simp only [echoStep, hpc]
  case readBytes =>
    have hread := h.read memory hpc hallowed
    simpa only [echoStep, hpc] using hread
  case testFlag len =>
    split <;> exact h.silent (by rw [hpc]; rfl) rfl rfl (by simp [Event.inbound])
  case sendSection len comparisons =>
    cases comparisons with
    | nil => exact h.silent (by rw [hpc]; rfl) rfl rfl (by simp [Event.inbound])
    | cons command comparisons =>
        simp only
        split
        · refine h.silent ?_ rfl rfl (by simp [Event.inbound])
          rw [hpc]
          show EchoPc.len (if _ then _ else _) = _
          split <;> rfl
        · exact h.silent (by rw [hpc]; rfl) rfl rfl (by simp)
  case handle len =>
    by_cases hlen : len = 0
    · rw [if_pos hlen]
      exact h.silent (by rw [hpc, hlen]; rfl) rfl rfl (by simp)
    · have hhandle := h.handle memory available hlines harrived hpc hlen
      simpa only [echoStep, hpc] using hhandle
  case transfer =>
    split
    · split
      · exact h.silent rfl rfl rfl (by simp [Event.inbound])
      · split
        · exact h.silent rfl rfl rfl (by simp [Event.inbound])
        · exact h.silent (by rw [hpc]; rfl) rfl rfl (by simp [Event.inbound])
    · exact h.silent (by rw [hpc]; rfl) rfl rfl (by simp)
  case flush =>
    simp only [oneLinePerRead, hpc, EchoPc.fitsLines] at hallowed
    exact h.silent (by rw [hpc]; rfl) rfl hallowed.symm (by simp [Event.inbound])
  all_goals exact h.silent (by rw [hpc]; rfl) rfl rfl (by simp [Event.inbound])

/-- A run under `oneLinePerRead` in which only such lines arrive keeps the framing. -/
theorem framed_run {memory : Nat → Option UInt8} {clock : Int} {data dataDest : Buffer}
    {trace : List Event} {s : System} {lines : List (List UInt8)}
    (hlines : ∀ line ∈ lines, newline ∉ line ∧ 0 ∉ line)
    (hrun : Run memory oneLinePerRead (boot clock data dataDest) trace s)
    (harrived : arrivedBytes trace <+: joinLines newline lines) : Framed s trace := by
  induction hrun with
  | refl => exact ⟨by simp [handledLines], fun hlen => absurd rfl hlen, rfl⟩
  | @snoc state next events emitted _ hstep ih =>
      rw [arrived_bytes_append] at harrived
      have hbefore := (List.prefix_append _ _).trans harrived
      have hframed := ih hbefore
      obtain ⟨action, hallowed, -, rfl, rfl⟩ := step_of_iff.mp hstep
      cases action with
      | main keyScan =>
          have hframe := main_step_frame keyScan state
          exact hframed.silent (congrArg EchoPc.len hframe.echo) hframe.data hframe.rx
            fun event hmem => not_inbound (.inl (main_step_from keyScan state event hmem))
      | echo available => exact hframed.echo_step hlines hbefore hallowed
      | alarm keyScan =>
          have hframe := alarm_step_frame keyScan state
          exact hframed.silent (congrArg EchoPc.len hframe.echo) hframe.data hframe.rx
            fun event hmem => not_inbound (.inr (alarm_step_from keyScan state event hmem))
      | arrive bytes =>
          have hhandled : handledLines (events ++ [.arrived bytes]) = handledLines events := by
            rw [handled_lines_append]
            exact List.append_nil _
          refine ⟨hhandled ▸ hframed.handled, hframed.pending, ?_⟩
          show arrivedBytes (events ++ [.arrived bytes]) =
            joinLines newline (handledLines (events ++ [.arrived bytes]) ++ state.pendingLine) ++
              (state.rx ++ bytes)
          rw [arrived_bytes_append, hhandled, hframed.stream, List.append_assoc]
          simp [arrivedBytes]
      | tick now => exact hframed.silent rfl rfl rfl (by simp [act])

/-- If every read returns one whole line or nothing and nothing is discarded, the lines that
arrive are handled once each, in order, with their text; one may have been read and not yet
handled. -/
theorem handled_lines_of_run {memory : Nat → Option UInt8} {clock : Int} {data dataDest : Buffer}
    {trace : List Event} {s : System} {lines : List (List UInt8)}
    (hlines : ∀ line ∈ lines, newline ∉ line ∧ 0 ∉ line)
    (hrun : Run memory oneLinePerRead (boot clock data dataDest) trace s)
    (harrived : arrivedBytes trace <+: joinLines newline lines) :
    handledLines trace ++ s.pendingLine <+: lines ∧
      (arrivedBytes trace = joinLines newline lines → s.rx = [] →
        handledLines trace ++ s.pendingLine = lines) := by
  have hframed := framed_run hlines hrun harrived
  have hfree : ∀ line ∈ handledLines trace ++ s.pendingLine, newline ∉ line := by
    refine List.forall_mem_append.mpr ⟨hframed.handled, ?_⟩
    rw [System.pendingLine]
    split
    · simp
    · simpa using terminator_not_mem_line_of _
  have hfreeLines : ∀ line ∈ lines, newline ∉ line := fun line hmem => (hlines line hmem).1
  rw [hframed.stream] at harrived ⊢
  constructor
  · exact join_lines_prefix hfree hfreeLines ((List.prefix_append _ _).trans harrived)
  · intro hall hempty
    rw [hempty, List.append_nil] at hall
    exact join_lines_injective hfree hfreeLines hall

/-- Two lines that arrive in two rounds of `echo_task`. -/
theorem handled_lines_of_run_two_rounds :
    ∃ trace s, Run (fun _ => none) oneLinePerRead (boot 1000 .zero .zero) trace s ∧
      arrivedBytes trace = joinLines newline [ascii "a", ascii "b"] ∧ s.rx = [] ∧
      handledLines trace ++ s.pendingLine = [ascii "a", ascii "b"] := by
  obtain ⟨trace, s, hrun, hobserved⟩ := execute_observe
    (fun result : System × List Event => (result.1.rx, arrivedBytes result.2))
    (show (execute (step fun _ => none) oneLinePerRead
      (.arrive (ascii "a\n") :: List.replicate 5 (.echo 2) ++
        .arrive (ascii "b\n") :: List.replicate 3 (.echo 2)) (boot 1000 .zero .zero)).map
        (fun result => (result.1.rx, arrivedBytes result.2)) =
      some ([], ascii "a\nb\n") by decide)
  obtain ⟨hrx, harrived⟩ := Prod.mk.inj hobserved
  have hstream : arrivedBytes trace = joinLines newline [ascii "a", ascii "b"] := harrived
  exact ⟨trace, s, hrun, hstream, hrx,
    (handled_lines_of_run (by decide) hrun (hstream ▸ List.prefix_rfl)).2 hstream hrx⟩

/-- Two lines that arrive together: one read takes both, and only the first is handled. -/
theorem second_line_not_handled :
    ∃ trace s, Run (fun _ => none) anyOrder (boot 1000 .zero .zero) trace s ∧
      arrivedBytes trace = joinLines newline [ascii "a", ascii "b"] ∧ s.rx = [] ∧
      s.pendingLine = [] ∧ handledLines trace ≠ [ascii "a", ascii "b"] := by
  obtain ⟨trace, s, hrun, hobserved⟩ := execute_observe
    (fun result : System × List Event => (result.1.rx, result.1.echo, arrivedBytes result.2,
      handledLines result.2))
    (show (execute (step fun _ => none) anyOrder
      (.arrive (ascii "a\nb\n") :: List.replicate 4 (.echo 4)) (boot 1000 .zero .zero)).map
        (fun result => (result.1.rx, result.1.echo, arrivedBytes result.2,
          handledLines result.2)) =
      some ([], .delay, ascii "a\nb\n", [ascii "a"]) by decide)
  simp only [Prod.mk.injEq] at hobserved
  obtain ⟨hrx, hecho, harrived, hhandled⟩ := hobserved
  refine ⟨trace, s, hrun, harrived, hrx, ?_, ?_⟩
  · rw [System.pendingLine, hecho]
    rfl
  · rw [hhandled]
    decide

end SaiyuanClock
