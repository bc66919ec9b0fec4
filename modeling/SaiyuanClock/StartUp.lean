import Mathlib.Data.Nat.Count
import SaiyuanClock.TcpClient

/-!
# Reaching the start-up

`app_main` starts the tasks when `tcp_client` has returned. The outer loop of `tcp_client` counts
its rounds in `check_times` and gives up after the fourth; the inner loop has no such bound and
leaves only when `send` or `recv` fails. `tcp_client_returns_iff` says for which results of the
system calls the start-up is reached.
-/

namespace SaiyuanClock

open LabelledSteps

/-- A result that makes `tcp_client` give up: no socket, or no connection. -/
def TcpResult.refused : TcpResult → Bool
  | .socket sock => sock < 0
  | .connect err => err ≠ 0
  | _ => false

/-- A result that ends the inner loop: `send` or `recv` failed. -/
def TcpResult.failed : TcpResult → Bool
  | .send err => err < 0
  | .recv received => received = none
  | _ => false

/-- `tcp_client` makes no further system call. -/
def TcpClient.Ended (client : TcpClient) : Prop := client.pc = .returned ∨ client.pc = .exited

/-- When it has ended, no result is awaited. -/
theorem tcp_step_ended {client : TcpClient} (h : client.Ended) (result : TcpResult) :
    tcpStep result client = none := by
  rcases h with hpc | hpc
  · simp [tcpStep, hpc]
  · simp [tcpStep, hpc]

/-- `tcp_client` after `n` results: none of them made it give up, and every failure so far has
begun a new round, of which there are at most four. -/
structure Trying (results : Nat → TcpResult) (n : Nat) (client : TcpClient) : Prop where
  accepted : ∀ k < n, (results k).refused = false
  rounds : client.checkTimes = 1 + Nat.count (fun k => (results k).failed = true) n
  bound : client.checkTimes < 5

/-- The end of a round: `tcp_client` returns after the fourth, and otherwise begins another. -/
theorem restart_rounds (client : TcpClient) (sock : Int) :
    (client.restart sock).1.pc = .returned ∧ 4 ≤ client.checkTimes ∨
      ¬ (client.restart sock).1.Ended ∧
        (client.restart sock).1.checkTimes = client.checkTimes + 1 ∧ client.checkTimes < 4 := by
  unfold TcpClient.restart TcpClient.nextCheck TcpClient.Ended
  simp only
  split
  · exact .inl ⟨rfl, by omega⟩
  · exact .inr ⟨by simp, rfl, by omega⟩

/-- What a system call does to the rounds: `tcp_client` returns when it gives up or when the fourth
round fails, and otherwise only a failure begins a new round. -/
theorem tcp_step_rounds {result : TcpResult} {client next : TcpClient} {emitted : List TcpEvent}
    (hresult : clockCanBeSet client result) (hstep : tcpStep result client = some (next, emitted)) :
    next.pc = .returned ∧ (result.refused = true ∨ result.failed = true ∧ 4 ≤ client.checkTimes) ∨
      ¬ next.Ended ∧ result.refused = false ∧
        (result.failed = false ∧ next.checkTimes = client.checkTimes ∨
          result.failed = true ∧ next.checkTimes = client.checkTimes + 1 ∧
            client.checkTimes < 4) := by
  cases tcp_step_cases hstep with
  | noSocket hpc hsock => exact .inl ⟨rfl, .inl (by simpa [TcpResult.refused] using hsock)⟩
  | created hpc hsock =>
      refine .inr ⟨by simp [TcpClient.Ended, TcpClient.goto], ?_, .inl ⟨rfl, rfl⟩⟩
      simpa [TcpResult.refused] using hsock
  | refused hpc herr => exact .inl ⟨rfl, .inl (by simpa [TcpResult.refused] using herr)⟩
  | connected hpc | ignored hpc hzero | taken hpc hzero =>
      exact .inr ⟨by simp [TcpClient.Ended, TcpClient.goto], rfl, .inl ⟨rfl, rfl⟩⟩
  | @sendFailed sock err hpc herr =>
      have hsend : (TcpResult.send err).failed = true := by simpa [TcpResult.failed] using herr
      exact (restart_rounds client sock).imp (fun h => ⟨h.1, .inr ⟨hsend, h.2⟩⟩)
        fun h => ⟨h.1, rfl, .inr ⟨hsend, h.2⟩⟩
  | sent hpc herr =>
      refine .inr ⟨by simp [TcpClient.Ended, TcpClient.goto], rfl, .inl ⟨?_, rfl⟩⟩
      simpa [TcpResult.failed] using herr
  | @recvFailed sock hpc =>
      exact (restart_rounds client sock).imp (fun h => ⟨h.1, .inr ⟨rfl, h.2⟩⟩)
        fun h => ⟨h.1, rfl, .inr ⟨rfl, h.2⟩⟩
  | exited hpc herr => exact absurd herr (Int.not_lt.mpr hresult)
  | clockSet hpc herr => exact .inr ⟨by simp [TcpClient.Ended], rfl, .inl ⟨rfl, rfl⟩⟩

section

variable {clock : Int} {results : Nat → TcpResult} {clients : Nat → TcpClient}

/-- As long as `tcp_client` has not ended, it is trying. -/
theorem trying_of_endless (hstart : clients 0 = .start clock)
    (hclients : Endless tcpStep TcpClient.Ended results clients)
    (hset : ∀ n, ¬ (clients n).Ended → clockCanBeSet (clients n) (results n)) (n : Nat)
    (hrunning : ¬ (clients n).Ended) : Trying results n (clients n) := by
  refine hclients.invariant (Trying results) ?_ ?_ n hrunning
  · rw [hstart]
    refine ⟨by simp, by simp [TcpClient.start, TcpClient.nextCheck], ?_⟩
    show 1 < 5
    omega
  · intro n emitted hbefore htrying hstep hafter
    rcases tcp_step_rounds (hset n hbefore) hstep with ⟨hreturned, -⟩ | ⟨-, haccepted, hrounds⟩
    · exact absurd (.inl hreturned) hafter
    · refine ⟨fun k hk => ?_, ?_, ?_⟩
      · rcases Nat.lt_succ_iff_lt_or_eq.mp hk with hlt | rfl
        · exact htrying.accepted k hlt
        · exact haccepted
      · rw [Nat.count_succ]
        rcases hrounds with ⟨hok, hsame⟩ | ⟨hfailed, hnext, -⟩
        · rw [if_neg (by simp [hok]), hsame, htrying.rounds, Nat.add_zero]
        · rw [if_pos hfailed, hnext, htrying.rounds, Nat.add_assoc]
      · rcases hrounds with ⟨-, hsame⟩ | ⟨-, hnext, hless⟩
        · exact hsame ▸ htrying.bound
        · omega

/-- With a clock that can be set, `tcp_client` ends only by returning. -/
theorem returned_of_ended (hstart : clients 0 = .start clock)
    (hclients : Endless tcpStep TcpClient.Ended results clients)
    (hset : ∀ n, ¬ (clients n).Ended → clockCanBeSet (clients n) (results n)) (n : Nat)
    (hended : (clients n).Ended) :
    ∃ k, (clients (k + 1)).pc = .returned ∧ ((results k).refused = true ∨
      4 ≤ Nat.count (fun k => (results k).failed = true) (k + 1)) := by
  induction n with
  | zero =>
      rw [hstart] at hended
      simp [TcpClient.Ended, TcpClient.start, TcpClient.nextCheck] at hended
  | succ n ih =>
      by_cases hbefore : (clients n).Ended
      · exact ih hbefore
      · obtain ⟨emitted, hstep⟩ := hclients.step n hbefore
        have htrying := trying_of_endless hstart hclients hset n hbefore
        rcases tcp_step_rounds (hset n hbefore) hstep with ⟨hreturned, hcause⟩ | ⟨hafter, -⟩
        · refine ⟨n, hreturned, hcause.imp_right ?_⟩
          intro hlast
          obtain ⟨hfailed, hrounds⟩ := hlast
          have := htrying.rounds
          rw [Nat.count_succ, if_pos hfailed]
          omega
        · exact absurd hended hafter

/-- `tcp_client` returns exactly when there is a result that makes it give up, or there are four
failures of `send` and `recv`; no reply makes it return. -/
theorem tcp_client_returns_iff (hstart : clients 0 = .start clock)
    (hclients : Endless tcpStep TcpClient.Ended results clients)
    (hset : ∀ n, ¬ (clients n).Ended → clockCanBeSet (clients n) (results n)) :
    (∃ n, (clients n).pc = .returned) ↔ (∃ n, (results n).refused = true) ∨
      ∃ n, 4 ≤ Nat.count (fun k => (results k).failed = true) n := by
  constructor
  · intro hends
    obtain ⟨n, hreturned⟩ := hends
    obtain ⟨k, -, hcause⟩ := returned_of_ended hstart hclients hset n (.inl hreturned)
    exact hcause.imp (fun hrefused => ⟨k, hrefused⟩) fun hfailures => ⟨k + 1, hfailures⟩
  · intro hcause
    by_contra hnever
    have htrying : ∀ n, Trying results n (clients n) := by
      intro n
      refine trying_of_endless hstart hclients hset n fun hended => ?_
      obtain ⟨k, hreturned, -⟩ := returned_of_ended hstart hclients hset n hended
      exact hnever ⟨k + 1, hreturned⟩
    rcases hcause with ⟨n, hrefused⟩ | ⟨n, hfailures⟩
    · have haccepted := (htrying (n + 1)).accepted n (Nat.lt_succ_self n)
      simp [hrefused] at haccepted
    · have hrounds := (htrying n).rounds
      have hbound := (htrying n).bound
      omega

end

/-- The results when the clock is set, the connection breaks, and no further socket is given. -/
def brokenResults : Nat → TcpResult
  | 0 => .socket 3
  | 1 => .connect 0
  | 2 => .send 18
  | 3 => .recv (some (ascii "12"))
  | 4 => .settimeofday 0
  | 5 => .send (-1)
  | _ => .socket (-1)

/-- The states of `tcp_client` under `brokenResults`. -/
def brokenClients : Nat → TcpClient
  | 0 => ⟨1, 0, .socket⟩
  | 1 => ⟨1, 0, .connect 3⟩
  | 2 => ⟨1, 0, .send 3⟩
  | 3 => ⟨1, 0, .recv 3⟩
  | 4 => ⟨1, 0, .settimeofday 3 12⟩
  | 5 => ⟨1, 12, .send 3⟩
  | 6 => ⟨2, 12, .socket⟩
  | _ => ⟨2, 12, .returned⟩

/-- The clock is set, the connection breaks, and there is no socket for the second round: the
start-up is reached. -/
theorem tcp_client_returns_iff_broken :
    brokenClients 0 = .start 0 ∧
      Endless tcpStep TcpClient.Ended brokenResults brokenClients ∧
      (∀ n, ¬ (brokenClients n).Ended → clockCanBeSet (brokenClients n) (brokenResults n)) ∧
      ((∃ n, (brokenClients n).pc = .returned) ↔ (∃ n, (brokenResults n).refused = true) ∨
        ∃ n, 4 ≤ Nat.count (fun k => (brokenResults k).failed = true) n) := by
  have hclients : Endless tcpStep TcpClient.Ended brokenResults brokenClients := by
    refine ⟨fun n hrunning => ?_, fun n hended => ?_⟩
    · match n with
      | 0 | 1 | 2 | 3 | 4 | 5 | 6 => exact ⟨_, rfl⟩
      | n + 7 => exact absurd (.inl rfl) hrunning
    · match n with
      | 0 | 1 | 2 | 3 | 4 | 5 | 6 => simp [brokenClients, TcpClient.Ended] at hended
      | n + 7 => rfl
  have hset : ∀ n, ¬ (brokenClients n).Ended →
      clockCanBeSet (brokenClients n) (brokenResults n) := by
    intro n _
    match n with
    | 0 | 1 | 2 | 3 | 4 | 5 => simp [brokenResults, clockCanBeSet]
    | n + 6 => simp [brokenResults, clockCanBeSet]
  exact ⟨rfl, hclients, hset, tcp_client_returns_iff rfl hclients hset⟩

/-- The results when a reply sets the clock and then the server closes the connection, so that
every further `recv` returns no bytes. -/
def closedResults : Nat → TcpResult
  | 0 => .socket 3
  | 1 => .connect 0
  | 2 => .send 18
  | 3 => .recv (some (ascii "12"))
  | 4 => .settimeofday 0
  | n + 5 => if n % 2 = 0 then .send 18 else .recv (some [])

/-- The states of `tcp_client` under `closedResults`. -/
def closedClients : Nat → TcpClient
  | 0 => ⟨1, 0, .socket⟩
  | 1 => ⟨1, 0, .connect 3⟩
  | 2 => ⟨1, 0, .send 3⟩
  | 3 => ⟨1, 0, .recv 3⟩
  | 4 => ⟨1, 0, .settimeofday 3 12⟩
  | n + 5 => ⟨1, 12, if n % 2 = 0 then .send 3 else .recv 3⟩

/-- Under `closedResults` the client never ends. -/
theorem closed_clients_running (n : Nat) : ¬ (closedClients n).Ended := by
  match n with
  | 0 | 1 | 2 | 3 | 4 => simp [closedClients, TcpClient.Ended]
  | n + 5 =>
      simp only [closedClients, TcpClient.Ended]
      split <;> simp

/-- Under `closedResults` the client sends and receives in turn. -/
theorem closed_clients_step (n : Nat) :
    ∃ emitted, tcpStep (closedResults n) (closedClients n) =
      some (closedClients (n + 1), emitted) := by
  match n with
  | 0 | 1 | 2 | 3 | 4 => exact ⟨_, rfl⟩
  | n + 5 =>
      have hcurrent : currentTimestamp [] = 0 := by decide
      rcases Nat.mod_two_eq_zero_or_one n with heven | hodd
      · have hnext : (n + 1) % 2 = 1 := by omega
        simp [closedResults, closedClients, tcpStep, TcpClient.goto, heven, hnext]
      · have hnext : (n + 1) % 2 = 0 := by omega
        simp [closedResults, closedClients, tcpStep, TcpClient.goto, hodd, hnext, hcurrent,
          rxBufferSize]

/-- A reply sets the clock to 12, and then the server closes the connection: `tcp_client` goes on
sending and receiving for ever. -/
theorem synced_client_never_returns :
    closedClients 0 = .start 0 ∧
      Endless tcpStep TcpClient.Ended closedResults closedClients ∧
      (∀ n, clockCanBeSet (closedClients n) (closedResults n)) ∧
      (∃ n received, closedResults n = .recv (some received) ∧ currentTimestamp received = 12) ∧
      (∃ n, ∀ m ≥ n, ∀ received, closedResults m = .recv received → received = some []) ∧
      ∀ n, (closedClients n).pc ≠ .returned := by
  refine ⟨rfl, ⟨fun n _ => closed_clients_step n, fun n hended => ?_⟩, fun n => ?_,
    ⟨3, ascii "12", rfl, by decide⟩, ⟨4, fun m hm received hreply => ?_⟩,
    fun n hreturned => closed_clients_running n (.inl hreturned)⟩
  · exact absurd hended (closed_clients_running n)
  · match n with
    | 0 | 1 | 2 | 3 | 4 => simp [closedResults, clockCanBeSet]
    | n + 5 =>
        simp only [closedResults]
        split <;> trivial
  · match m with
    | 0 | 1 | 2 | 3 => omega
    | 4 => simp [closedResults] at hreply
    | m + 5 =>
        simp only [closedResults] at hreply
        split at hreply
        · simp at hreply
        · exact (TcpResult.recv.inj hreply).symm

end SaiyuanClock
