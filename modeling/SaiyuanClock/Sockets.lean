import SaiyuanClock.Library.Handles
import SaiyuanClock.StartUp

/-!
# The sockets of the time client

Every round of `tcp_client` creates a socket. A round that ends because `send` or `recv` fails shuts
the socket down and closes it; one that ends because `connect` fails leaves the loop without doing
so. The main theorem, `sockets_closed_iff`, says which returns of `tcp_client` leave no socket open.
-/

namespace SaiyuanClock

open HandleTracking LabelledSteps

/-- What a system call does to a socket. -/
def TcpEvent.socketOp : TcpEvent → Option (Op Int)
  | .created sock => some (.acquire sock)
  | .connect sock | .send sock | .recv sock _ | .shutdown sock => some (.use sock)
  | .close sock => some (.release sock)
  | .settimeofday _ | .returned | .exited => none

/-- The event is the creation of a socket. -/
def TcpEvent.isCreated : TcpEvent → Bool
  | .created _ => true
  | _ => false

/-- `tcp_client` has closed every socket that it created exactly once, it has applied no operation
to a closed socket, and it has created at most four. -/
structure SocketsClosed (trace : List TcpEvent) : Prop where
  disciplined : Disciplined (trace.filterMap TcpEvent.socketOp)
  few : trace.countP TcpEvent.isCreated ≤ 4

/-- The connection was refused. -/
def TcpResult.unconnected : TcpResult → Bool
  | .connect err => err ≠ 0
  | _ => false

/-- Any result is admitted. -/
def anyResult (_ : TcpClient) (_ : TcpResult) : Prop := True

/-- Admitting any result is decidable. -/
instance (client : TcpClient) (result : TcpResult) : Decidable (anyResult client result) :=
  inferInstanceAs (Decidable True)

/-- The socket in the variable `sock`, where it is live. -/
def TcpPc.sockets : TcpPc → Finset Int
  | .connect sock | .send sock | .recv sock | .settimeofday sock _ => {sock}
  | .socket | .returned | .exited => ∅

/-- The number of sockets that `tcp_client` may still create. -/
def TcpClient.budget (client : TcpClient) : Nat :=
  match client.pc with
  | .socket => 5 - client.checkTimes
  | .connect _ | .send _ | .recv _ | .settimeofday _ _ => 4 - client.checkTimes
  | .returned | .exited => 0

/-- What holds between the system calls: a live `sock` is a descriptor, and a socket is only created
in one of the four rounds. -/
structure Holding (client : TcpClient) : Prop where
  descriptor : ∀ sock ∈ client.pc.sockets, 0 ≤ sock
  round : client.pc = .socket → client.checkTimes < 5

/-- It holds when `tcp_client` has returned. -/
theorem holding_returned {client : TcpClient} (hpc : client.pc = .returned) : Holding client := by
  refine ⟨?_, ?_⟩
  · rw [hpc]
    simp [TcpPc.sockets]
  · rw [hpc]
    intro hsocket
    cases hsocket

/-- What the end of a round does to a socket. -/
theorem restart_sockets (client : TcpClient) {sock : Int} (hsock : 0 ≤ sock) :
    Holding (client.restart sock).1 ∧
      (client.restart sock).2.countP TcpEvent.isCreated = 0 ∧
      (client.restart sock).1.budget ≤ 4 - client.checkTimes ∧
      track ((client.restart sock).2.filterMap TcpEvent.socketOp) {sock} =
        some (client.restart sock).1.pc.sockets := by
  have hvalid : sock ≠ -1 := by omega
  have hclose : track [Op.use sock, .release sock] {sock} = some ∅ := by
    simp [track, Op.apply]
  unfold TcpClient.restart TcpClient.nextCheck
  rw [if_pos hvalid]
  simp only
  split
  · exact ⟨holding_returned rfl, rfl, Nat.zero_le _, hclose⟩
  · next hround =>
    refine ⟨⟨by simp [TcpPc.sockets], fun _ => Nat.lt_of_not_le hround⟩, rfl, ?_, hclose⟩
    show 5 - (client.checkTimes + 1) ≤ 4 - client.checkTimes
    omega

/-- What a system call does to the sockets, unless it ends the program. A refused connection makes
`tcp_client` return and leaves its socket open; otherwise the open socket is the one in `sock`. -/
structure SocketStep (result : TcpResult) (client next : TcpClient) (emitted : List TcpEvent) :
    Prop where
  holding : Holding next
  budget : emitted.countP TcpEvent.isCreated + next.budget ≤ client.budget
  tracked : track (emitted.filterMap TcpEvent.socketOp) client.pc.sockets =
    some (if result.unconnected then client.pc.sockets else next.pc.sockets)
  refused : result.unconnected = true → next.pc = .returned ∧ client.pc.sockets ≠ ∅

/-- As long as a socket is live, the rounds that are left may create one each. -/
theorem budget_of_sockets {client : TcpClient} {sock : Int} (h : client.pc.sockets = {sock}) :
    client.budget = 4 - client.checkTimes := by
  unfold TcpClient.budget
  cases hpc : client.pc <;> simp only [hpc, TcpPc.sockets] at h ⊢
  case socket | returned | exited => exact absurd h.symm (Finset.singleton_ne_empty sock)

/-- The end of a round is such a step after a call on the round's socket. -/
theorem SocketStep.restart {result : TcpResult} {client : TcpClient} {sock : Int}
    {event : TcpEvent} (hclient : Holding client) (hsock : client.pc.sockets = {sock})
    (hresult : result.unconnected = false) (hcreated : event.isCreated = false)
    (hevent : event.socketOp = some (.use sock)) :
    SocketStep result client (client.restart sock).1 (event :: (client.restart sock).2) := by
  have hvalid : 0 ≤ sock := hclient.descriptor sock (by simp [hsock])
  obtain ⟨hholding, hnone, hrounds, htrack⟩ := restart_sockets client hvalid
  refine ⟨hholding, ?_, ?_, by simp [hresult]⟩
  · rw [List.countP_cons_of_neg (by simp [hcreated]), hnone, budget_of_sockets hsock, Nat.zero_add]
    exact hrounds
  · rw [hsock, List.filterMap_cons_some hevent, hresult]
    simpa [track, Op.apply] using htrack

/-- A call after which the same socket is live is such a step. -/
theorem SocketStep.stay {result : TcpResult} {client next : TcpClient} {sock : Int}
    {event : TcpEvent} (hclient : Holding client) (hsock : client.pc.sockets = {sock})
    (hnext : next.pc.sockets = {sock}) (hrounds : next.checkTimes = client.checkTimes)
    (hresult : result.unconnected = false) (hcreated : event.isCreated = false)
    (hevent : event.socketOp = some (.use sock) ∨ event.socketOp = none) :
    SocketStep result client next [event] := by
  refine ⟨⟨?_, ?_⟩, ?_, ?_, by simp [hresult]⟩
  · rw [hnext, ← hsock]
    exact hclient.descriptor
  · intro hpc
    rw [hpc] at hnext
    exact absurd hnext.symm (Finset.singleton_ne_empty sock)
  · rw [List.countP_cons_of_neg (by simp [hcreated]), budget_of_sockets hnext,
      budget_of_sockets hsock, hrounds]
    simp
  · rw [hsock, hnext, hresult]
    rcases hevent with hevent | hevent
    · rw [List.filterMap_cons_some hevent]
      simp [track, Op.apply]
    · rw [List.filterMap_cons_none hevent]
      rfl

/-- Every system call is such a step, unless it ends the program. -/
theorem tcp_step_sockets {result : TcpResult} {client next : TcpClient} {emitted : List TcpEvent}
    (hclient : Holding client) (hstep : tcpStep result client = some (next, emitted))
    (hrunning : next.pc ≠ .exited) : SocketStep result client next emitted := by
  cases tcp_step_cases hstep with
  | noSocket hpc hsock =>
      refine ⟨holding_returned rfl, Nat.zero_le _, ?_, fun h => by cases h⟩
      rw [hpc]
      rfl
  | created hpc hsock =>
      have hround := hclient.round hpc
      refine ⟨⟨by simpa [TcpClient.goto, TcpPc.sockets] using hsock, by simp [TcpClient.goto]⟩,
        ?_, ?_, fun h => by cases h⟩
      · show 1 + (4 - client.checkTimes) ≤ client.budget
        rw [TcpClient.budget, hpc]
        show 1 + (4 - client.checkTimes) ≤ 5 - client.checkTimes
        omega
      · rw [hpc]
        rfl
  | @refused sock err hpc herr =>
      have hresult : (TcpResult.connect err).unconnected = true := by
        simpa [TcpResult.unconnected] using herr
      refine ⟨holding_returned rfl, Nat.zero_le _, ?_, fun _ => ⟨rfl, ?_⟩⟩
      · rw [if_pos hresult, hpc]
        show track [.use sock] {sock} = some {sock}
        simp [track, Op.apply]
      · rw [hpc]
        exact Finset.singleton_ne_empty sock
  | connected hpc | sent hpc | ignored hpc | taken hpc =>
      exact .stay hclient (by rw [hpc]; rfl) rfl rfl rfl rfl (.inl rfl)
  | sendFailed hpc | recvFailed hpc => exact .restart hclient (by rw [hpc]; rfl) rfl rfl rfl
  | exited hpc => exact absurd rfl hrunning
  | clockSet hpc => exact .stay hclient (by rw [hpc]; rfl) rfl rfl rfl rfl (.inr rfl)

/-- A run of `tcp_client` until it returns: the operations on the sockets can be followed, they
leave one open exactly if a connection was refused, and no more sockets are created than the
rounds allow. -/
theorem tracked_of_execute {results : List TcpResult} {client finish : TcpClient}
    {trace : List TcpEvent} (hclient : Holding client)
    (hrun : execute tcpStep anyResult results client = some (finish, trace))
    (hreturned : finish.pc = .returned) :
    trace.countP TcpEvent.isCreated ≤ client.budget ∧
      ∃ left, track (trace.filterMap TcpEvent.socketOp) client.pc.sockets = some left ∧
        (left = ∅ ↔ ∀ result ∈ results, result.unconnected = false) := by
  induction results generalizing client trace with
  | nil =>
      obtain ⟨rfl, rfl⟩ := Prod.mk.inj (Option.some.inj hrun)
      exact ⟨Nat.zero_le _, ∅, by rw [hreturned]; rfl, by simp⟩
  | cons result results ih =>
      obtain ⟨-, next, emitted, rest, hnext, hrest, rfl⟩ := execute_cons hrun
      have hrunning : next.pc ≠ .exited := by
        intro hexited
        obtain ⟨-, rfl, -⟩ := execute_stuck (tcp_step_ended (.inr hexited)) hrest
        rw [hreturned] at hexited
        cases hexited
      have hstep := tcp_step_sockets hclient hnext hrunning
      obtain ⟨hfew, left, htrack, hleft⟩ := ih hstep.holding hrest
      have hbudget := hstep.budget
      refine ⟨by rw [List.countP_append]; omega, ?_⟩
      rw [List.filterMap_append, track_append, hstep.tracked]
      by_cases hresult : result.unconnected = true
      · obtain ⟨hnext, hopen⟩ := hstep.refused hresult
        obtain ⟨-, -, rfl⟩ := execute_stuck (tcp_step_ended (.inl hnext)) hrest
        refine ⟨client.pc.sockets, by rw [if_pos hresult]; rfl, ?_⟩
        simp [hopen, hresult]
      · refine ⟨left, by rw [if_neg hresult]; exact htrack, ?_⟩
        simp [hleft, hresult]

/-- `tcp_client` starts without a socket. -/
theorem holding_start (clock : Int) : Holding (.start clock) := by
  refine ⟨?_, ?_⟩
  · simp [TcpClient.start, TcpClient.nextCheck, TcpPc.sockets]
  · intro _
    show 1 < 5
    omega

/-- `tcp_client` has closed its sockets when it returns exactly if no connection was refused. -/
theorem sockets_closed_iff {clock : Int} {results : List TcpResult} {client : TcpClient}
    {trace : List TcpEvent}
    (hrun : execute tcpStep anyResult results (.start clock) = some (client, trace))
    (hreturned : client.pc = .returned) :
    SocketsClosed trace ↔ ∀ err, TcpResult.connect err ∈ results → err = 0 := by
  obtain ⟨hfew, left, htrack, hleft⟩ := tracked_of_execute (holding_start clock) hrun hreturned
  have hdisciplined := (disciplined_iff htrack).trans hleft
  constructor
  · intro h err hmem
    have hresult := hdisciplined.mp h.disciplined (.connect err) hmem
    simpa [TcpResult.unconnected] using hresult
  · intro h
    refine ⟨hdisciplined.mpr ?_, hfew⟩
    intro result hmem
    cases result with
    | connect err =>
        obtain rfl := h err hmem
        rfl
    | socket | send | recv | settimeofday => rfl

/-- Two rounds, of which the second cannot create a socket. -/
theorem sockets_closed_iff_two_rounds :
    SocketsClosed [.created 54, .connect 54, .send 54, .shutdown 54, .close 54, .returned] := by
  have hrun : execute tcpStep anyResult [.socket 54, .connect 0, .send (-1), .socket (-1)]
      (.start 0) = some (⟨2, 0, .returned⟩,
        [.created 54, .connect 54, .send 54, .shutdown 54, .close 54, .returned]) := rfl
  exact (sockets_closed_iff hrun rfl).mpr (by simp)

/-- When the connection is refused, `tcp_client` returns with its socket open. -/
theorem refused_socket_leaks :
    ∃ client trace, execute tcpStep anyResult [.socket 54, .connect (-1)] (.start 0) =
      some (client, trace) ∧ client.pc = .returned ∧ ¬ SocketsClosed trace := by
  refine ⟨_, _, rfl, rfl, ?_⟩
  intro h
  have hreleased := h.disciplined.released 54
  cases hreleased

end SaiyuanClock
