import SaiyuanClock.TcpClient

/-!
# Time synchronisation and segmentation

`tcp_client` sets the clock to the number in every reply of `recv` that does not read as zero
(`clock_follows_of_run`). A timestamp that arrives in several pieces therefore sets the clock to its
first digits first, and `time_sync_iff` says that it must arrive in one.
-/

namespace SaiyuanClock

open LabelledSteps DecimalText

/-- What the calls of `recv` in a trace returned. -/
def replies (trace : List TcpEvent) : List (List UInt8) :=
  trace.filterMap fun
    | .recv _ bytes => bytes
    | _ => none

/-- What the calls of `settimeofday` in a trace were given. -/
def settings (trace : List TcpEvent) : List Int :=
  trace.filterMap fun
    | .settimeofday seconds => some seconds
    | _ => none

/-- The timestamp that `settimeofday` is about to be given. -/
def TcpPc.pending : TcpPc → List Int
  | .settimeofday _ seconds => [seconds]
  | _ => []

@[simp] theorem replies_append (first rest : List TcpEvent) :
    replies (first ++ rest) = replies first ++ replies rest :=
  List.filterMap_append

@[simp] theorem settings_append (first rest : List TcpEvent) :
    settings (first ++ rest) = settings first ++ settings rest :=
  List.filterMap_append

/-- What the replies so far have done to the clock: every one that does not read as zero was given
to `settimeofday`, or is about to be, and the clock shows the last that was. -/
structure ClockFollows (clock : Int) (trace : List TcpEvent) (client : TcpClient) : Prop where
  calls : settings trace ++ client.pc.pending =
    ((replies trace).map currentTimestamp).filter (· ≠ 0)
  clock : client.clock = (settings trace).getLastD clock

/-- A system call other than `recv` and `settimeofday` does not concern the clock. -/
theorem ClockFollows.silent {clock : Int} {trace emitted : List TcpEvent}
    {client next : TcpClient} (h : ClockFollows clock trace client)
    (hclock : next.clock = client.clock) (hpending : next.pc.pending = client.pc.pending)
    (hreplies : replies emitted = []) (hsettings : settings emitted = []) :
    ClockFollows clock (trace ++ emitted) next := by
  refine ⟨?_, ?_⟩
  · rw [settings_append, replies_append, hsettings, hreplies, hpending, List.append_nil,
      List.append_nil]
    exact h.calls
  · rw [settings_append, hsettings, List.append_nil, hclock]
    exact h.clock

/-- Closing a connection and opening the next does not concern the clock. -/
theorem ClockFollows.restart {clock sock : Int} {trace : List TcpEvent} {client : TcpClient}
    {call : TcpEvent} (h : ClockFollows clock trace client) (hpending : client.pc.pending = [])
    (hreplies : replies [call] = []) (hsettings : settings [call] = []) :
    ClockFollows clock (trace ++ call :: (client.restart sock).2) (client.restart sock).1 := by
  rw [List.append_cons]
  have hcall : ClockFollows clock (trace ++ [call]) client := h.silent rfl rfl hreplies hsettings
  unfold TcpClient.restart TcpClient.nextCheck
  refine hcall.silent ?_ ?_ ?_ ?_
  · simp only
    split <;> rfl
  · simp only
    rw [hpending]
    split <;> rfl
  all_goals
    simp only
    split <;> split <;> rfl

/-- A system call keeps the clock following the replies, unless the clock cannot be set. -/
theorem ClockFollows.step {clock : Int} {trace emitted : List TcpEvent} {client next : TcpClient}
    {result : TcpResult} (h : ClockFollows clock trace client)
    (hresult : clockCanBeSet client result) (hstep : tcpStep result client = some (next, emitted)) :
    ClockFollows clock (trace ++ emitted) next := by
  have hcalls := h.calls
  cases tcp_step_cases hstep with
  | noSocket hpc | created hpc | refused hpc | connected hpc | sent hpc =>
      exact h.silent rfl (by rw [hpc]; rfl) rfl rfl
  | sendFailed hpc | recvFailed hpc => exact h.restart (by rw [hpc]; rfl) rfl rfl
  | @ignored sock received hpc hzero | @taken sock received hpc hzero =>
      have hnone : settings [.recv sock (some received)] = [] := rfl
      have hone : replies [.recv sock (some received)] = [received] := rfl
      refine ⟨?_, ?_⟩
      · rw [hpc] at hcalls
        rw [settings_append, replies_append, hnone, hone, List.map_append, List.filter_append,
          ← hcalls]
        simp [hzero, TcpClient.goto, TcpPc.pending]
      · rw [settings_append, hnone, List.append_nil]
        exact h.clock
  | exited hpc herr => exact absurd herr (Int.not_lt.mpr hresult)
  | clockSet hpc herr =>
      refine ⟨?_, by simp [settings]⟩
      rw [hpc] at hcalls
      simpa [settings, replies, TcpPc.pending] using hcalls

/-- In a run in which the clock can be set, it follows the replies. -/
theorem clock_follows_of_run {start finish : TcpClient} {trace : List TcpEvent}
    (hrun : Steps (StepOf tcpStep clockCanBeSet) start trace finish)
    (hstart : start.pc.pending = []) :
    ClockFollows start.clock trace finish := by
  refine hrun.invariant (fun client events => ClockFollows start.clock events client)
    ⟨by simp [settings, replies, hstart], rfl⟩ ?_
  intro events client emitted next _ hfollows ⟨result, hresult, hstep⟩
  exact hfollows.step hresult hstep

/-- The client is synchronised to a timestamp: the clock shows it, and was set to nothing else. -/
structure SyncedTo (timestamp : Int) (trace : List TcpEvent) (client : TcpClient) : Prop where
  clock : client.clock = timestamp
  calls : ∀ seconds ∈ settings trace, seconds = timestamp

/-- The digits of a timestamp that arrive first spell a smaller number, unless they are all. -/
theorem current_timestamp_lt {timestamp : Nat} (hpos : 0 < timestamp) (hlt : timestamp < 2 ^ 31)
    {first rest : List UInt8} (hfirst : first ≠ []) (hrest : rest ≠ [])
    (htext : first ++ rest = text timestamp) :
    0 < currentTimestamp first ∧ currentTimestamp first < timestamp := by
  have hdigits : ∀ byte ∈ first, IsDigit byte := fun byte hmem =>
    is_digit_of_mem_text (htext ▸ List.mem_append_left rest hmem)
  have hvalue : 0 < value first := by
    obtain ⟨byte, tail, rfl⟩ := List.exists_cons_of_ne_nil hfirst
    obtain ⟨head, others, hhead, hnonzero⟩ := head_text_pos hpos
    obtain ⟨rfl, -⟩ : byte = head ∧ tail ++ rest = others := by
      simpa [hhead] using htext
    exact value_pos hnonzero
  have hless : value first < timestamp := by
    have hprefix := value_prefix_lt hvalue hrest
    rwa [htext, value_text] at hprefix
  rw [current_timestamp_digits hdigits (by omega)]
  omega

/-- A timestamp whose digits arrive in nonempty pieces synchronises the client exactly when they
arrive in one piece. -/
theorem time_sync_iff {timestamp : Nat} (hpos : 0 < timestamp) (hlt : timestamp < 2 ^ 31)
    {chunks : List (List UInt8)} (hchunks : ∀ chunk ∈ chunks, chunk ≠ [])
    (htext : chunks.flatten = text timestamp) {start finish : TcpClient} {trace : List TcpEvent}
    (hrun : Steps (StepOf tcpStep clockCanBeSet) start trace finish)
    (hreplies : replies trace = chunks)
    (hstart : start.pc.pending = []) (hfinish : finish.pc.pending = []) :
    SyncedTo timestamp trace finish ↔ chunks.length = 1 := by
  obtain ⟨hcalls, hclock⟩ := clock_follows_of_run hrun hstart
  rw [hfinish, List.append_nil, hreplies] at hcalls
  constructor
  · rintro ⟨-, honly⟩
    cases chunks with
    | nil =>
        obtain ⟨byte, rest, hcons, -⟩ := head_text_pos hpos
        simp [hcons] at htext
    | cons first rest =>
        by_contra hmore
        have hrest : rest.flatten ≠ [] := by
          cases rest with
          | nil => simp at hmore
          | cons second rest => simp [hchunks second (by simp)]
        obtain ⟨hnonzero, hless⟩ :=
          current_timestamp_lt hpos hlt (hchunks first (by simp)) hrest htext
        have hmem : currentTimestamp first ∈ settings trace := by
          rw [hcalls]
          simp [Int.ne_of_gt hnonzero]
        have := honly _ hmem
        omega
  · intro hone
    obtain ⟨chunk, rfl⟩ := List.length_eq_one_iff.mp hone
    have hchunk : chunk = text timestamp := by simpa using htext
    have hparsed : currentTimestamp chunk = timestamp := by
      rw [hchunk, current_timestamp_digits (fun byte => is_digit_of_mem_text) (by simpa using hlt),
        value_text]
    have hset : settings trace = [(timestamp : Int)] := by
      rw [hcalls]
      simp [hparsed]
      omega
    refine ⟨?_, ?_⟩
    · rw [hclock, hset]
      rfl
    · simp [hset]

/-- The timestamp 12 in one piece. -/
theorem time_sync_iff_one_piece :
    ∃ trace finish, Steps (StepOf tcpStep clockCanBeSet) (.start 0) trace finish ∧
      replies trace = [text 12] ∧
      (SyncedTo (12 : Nat) trace finish ↔ [text 12].length = 1) := by
  have hrun := execute_steps
    (show execute tcpStep clockCanBeSet
      [.socket 3, .connect 0, .send 18, .recv (some (text 12)), .settimeofday 0] (.start 0) =
      some ({ checkTimes := 1, clock := 12, pc := .send 3 },
        [.created 3, .connect 3, .send 3, .recv 3 (some (text 12)), .settimeofday 12]) by decide)
  exact ⟨_, _, hrun, rfl,
    time_sync_iff (by decide) (by decide) (by decide) (by decide) hrun rfl rfl rfl⟩

/-- The timestamp 12 in two pieces: the clock is set to 1 and then to 2. -/
theorem two_pieces_not_synced :
    ∃ trace finish, Steps (StepOf tcpStep clockCanBeSet) (.start 0) trace finish ∧
      replies trace = [ascii "1", ascii "2"] ∧ (replies trace).flatten = text 12 ∧
      finish.pc = .send 3 ∧ ¬ SyncedTo 12 trace finish := by
  have hrun := execute_steps
    (show execute tcpStep clockCanBeSet
      [.socket 3, .connect 0, .send 18, .recv (some (ascii "1")), .settimeofday 0, .send 18,
        .recv (some (ascii "2")), .settimeofday 0] (.start 0) =
      some ({ checkTimes := 1, clock := 2, pc := .send 3 },
        [.created 3, .connect 3, .send 3, .recv 3 (some (ascii "1")), .settimeofday 1, .send 3,
          .recv 3 (some (ascii "2")), .settimeofday 2]) by decide)
  refine ⟨_, _, hrun, rfl, by decide, rfl, ?_⟩
  rintro ⟨hclock, -⟩
  exact absurd hclock (by decide)

end SaiyuanClock
