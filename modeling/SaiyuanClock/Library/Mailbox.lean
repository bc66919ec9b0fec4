import SaiyuanClock.Library.Steps

/-!
# A mailbox made of a value and a flag

Two tasks share a value and a flag that says the value is new. The producer posts by writing
both, and some of its posts raise the flag a first time before they write the value. The
consumer tests the flag, compares the value with a list of codes, sends the code that matches,
and resets the flag; after some codes it sleeps before the reset. Between two rounds it may
post itself.

Every access to the value or the flag is one step. `inOrder`, `lastPostWins` and `noLoss` are
laws on the events of a run. The mailbox obeys `inOrder` in every run in which nothing is sent
between two writes of a post (`attentive_in_order`), and `lastPostWins` in every run in which
posts and rounds exclude each other (`exclusive_last_post_wins`). A value that nobody posts any
more is sent at most once again (`sends_le_outstanding`).
-/

namespace Mailbox

open LabelledSteps

variable {α : Type*}

/-- What happens to the value: it is posted, it is sent, or the flag is reset. -/
inductive SlotEvent (α : Type*) where
  | post (value : α)
  | send (value : α)
  | reset
  deriving DecidableEq, Repr

/-- The values posted, in order. -/
def posts (events : List (SlotEvent α)) : List α :=
  events.filterMap fun
    | .post value => some value
    | _ => none

/-- The values sent, in order. -/
def sends (events : List (SlotEvent α)) : List α :=
  events.filterMap fun
    | .send value => some value
    | _ => none

section Laws

variable [DecidableEq α]

/-- The last post that has not been sent, after one more event. -/
def SlotEvent.pending (event : SlotEvent α) (pending : Option α) : Option α :=
  match event with
  | .post value => some value
  | .send value => if pending = some value then none else pending
  | .reset => pending

/-- The last post that has not been sent after a list of events. -/
def pendingAfter (pending : Option α) (events : List (SlotEvent α)) : Option α :=
  events.foldl (fun pending event => event.pending pending) pending

/-- A law says which events may happen while a given post is pending. -/
abbrev Law (α : Type*) := Option α → SlotEvent α → Prop

/-- Every event of the list is one that the law admits where it happens. -/
def Obeys (law : Law α) : Option α → List (SlotEvent α) → Prop
  | _, [] => True
  | pending, event :: events => law pending event ∧ Obeys law (event.pending pending) events

/-- Whether a list of events obeys a decidable law can be computed. -/
instance (law : Law α) [∀ pending event, Decidable (law pending event)] :
    ∀ pending events, Decidable (Obeys law pending events)
  | _, [] => inferInstanceAs (Decidable True)
  | pending, event :: events =>
      have := instDecidableObeys law (event.pending pending) events
      inferInstanceAs (Decidable (law pending event ∧ Obeys law (event.pending pending) events))

/-- Only the pending post is sent, so nothing is sent twice or out of order. -/
def inOrder : Law α
  | pending, .send value => pending = some value
  | _, _ => True

/-- Only the pending post is sent, and no reset drops it; a later post may replace it. -/
def lastPostWins : Law α
  | pending, .send value => pending = some value
  | pending, .reset => pending = none
  | _, .post _ => True

/-- Neither a reset nor a later post drops the pending post. -/
def noLoss : Law α
  | _, .send _ => True
  | pending, .reset => pending = none
  | pending, .post _ => pending = none

/-- The law `noLoss` is decidable event by event. -/
instance : ∀ (pending : Option α) (event : SlotEvent α), Decidable (noLoss pending event)
  | _, .send _ => inferInstanceAs (Decidable True)
  | pending, .reset => inferInstanceAs (Decidable (pending = none))
  | pending, .post _ => inferInstanceAs (Decidable (pending = none))

@[simp] theorem pending_after_nil (pending : Option α) :
    pendingAfter pending ([] : List (SlotEvent α)) = pending := rfl

@[simp] theorem pending_after_append (pending : Option α) (first rest : List (SlotEvent α)) :
    pendingAfter pending (first ++ rest) = pendingAfter (pendingAfter pending first) rest := by
  simp [pendingAfter]

@[simp] theorem pending_after_post (pending : Option α) (value : α) :
    pendingAfter pending [.post value] = some value := rfl

@[simp] theorem pending_after_reset (pending : Option α) :
    pendingAfter pending [.reset] = pending := rfl

/-- Sending the pending post leaves nothing pending. -/
theorem pending_after_send {pending : Option α} {value : α} (h : pending = some value) :
    pendingAfter pending [.send value] = none := by
  simp [pendingAfter, SlotEvent.pending, h]

/-- A law is obeyed by a list exactly when it is obeyed by both of its parts. -/
theorem obeys_append {law : Law α} {pending : Option α} {first rest : List (SlotEvent α)} :
    Obeys law pending (first ++ rest) ↔
      Obeys law pending first ∧ Obeys law (pendingAfter pending first) rest := by
  induction first generalizing pending with
  | nil => simp [Obeys]
  | cons event events ih => simp [Obeys, ih, pendingAfter, and_assoc]

/-- Obeying a law for one event. -/
theorem obeys_single {law : Law α} {pending : Option α} {event : SlotEvent α} :
    Obeys law pending [event] ↔ law pending event := by
  simp [Obeys]

/-- A law is obeyed in every run of a relation that keeps an invariant on the state and the pending
post, and whose steps obey the law where the invariant holds. -/
theorem obeys_of_invariant {law : Law α} {S : Type*}
    {step : S → List (SlotEvent α) → S → Prop} {start finish : S} {events : List (SlotEvent α)}
    (inv : S → Option α → Prop) (hstart : inv start none)
    (hstep : ∀ s pending emitted next, inv s pending → step s emitted next →
      inv next (pendingAfter pending emitted) ∧ Obeys law pending emitted)
    (h : Steps step start events finish) : Obeys law none events := by
  have hinv : inv finish (pendingAfter none events) ∧ Obeys law none events := by
    refine h.invariant (fun s events => inv s (pendingAfter none events) ∧ Obeys law none events)
      ⟨hstart, trivial⟩ ?_
    intro events s emitted next _ ⟨hs, hlaw⟩ hnext
    rw [pending_after_append, obeys_append]
    obtain ⟨hinv, hemitted⟩ := hstep s _ emitted next hs hnext
    exact ⟨hinv, hlaw, hemitted⟩
  exact hinv.2

/-- When only pending posts are sent, the values sent are a subsequence of those posted. -/
theorem sends_sublist_posts {pending : Option α} {events : List (SlotEvent α)}
    (h : Obeys inOrder pending events) :
    (sends events).Sublist (pending.toList ++ posts events) := by
  induction events generalizing pending with
  | nil => simp [sends]
  | cons event events ih =>
      obtain ⟨hevent, hrest⟩ := h
      have hsub := ih hrest
      cases event with
      | post value => exact hsub.trans (List.sublist_append_right _ _)
      | send value =>
          have hpending : pending = some value := hevent
          simp only [SlotEvent.pending, hpending, if_true, Option.toList_none,
            List.nil_append] at hsub
          simpa [hpending, sends, posts] using hsub.cons_cons value
      | reset => exact hsub

end Laws

/-- How far the producer is in its post: not in one, the flag raised but no value written, or
the value written and the flag still to be raised. -/
inductive Producer where
  | idle
  | raised
  | written
  deriving DecidableEq, Repr

/-- Where the consumer is: outside a round, comparing the value with the remaining codes (with
none left it is about to reset the flag), asleep before the reset, or in a post of its own with
the flag raised. -/
inductive Consumer (α : Type*) where
  | outside
  | testing (rest : List α)
  | asleep
  | posting
  deriving DecidableEq, Repr

/-- The shared value and flag, and where the two tasks are. -/
structure State (α : Type*) where
  value : α
  flag : Bool
  producer : Producer
  consumer : Consumer α

/-- Nothing has been posted yet. -/
def State.initial (value : α) : State α := ⟨value, false, .idle, .outside⟩

section Protocol

variable (codes : List α) (sleeps : α → Bool)

/-- The producer's accesses. -/
inductive ProducerStep : State α → List (SlotEvent α) → State α → Prop where
  | write (s value) (hcode : value ∈ codes) (hat : s.producer = .idle) :
      ProducerStep s [.post value] { s with value := value, producer := .written }
  | raiseFirst (s) (hat : s.producer = .idle) :
      ProducerStep s [] { s with flag := true, producer := .raised }
  | writeRaised (s value) (hcode : value ∈ codes) (hat : s.producer = .raised) :
      ProducerStep s [.post value] { s with value := value, producer := .written }
  | raise (s) (hat : s.producer = .written) :
      ProducerStep s [] { s with flag := true, producer := .idle }

/-- The consumer's accesses. -/
inductive ConsumerStep : State α → List (SlotEvent α) → State α → Prop where
  | begin (s) (hat : s.consumer = .outside) (hflag : s.flag = true) :
      ConsumerStep s [] { s with consumer := .testing codes }
  | miss (s code rest) (hat : s.consumer = .testing (code :: rest)) (hne : s.value ≠ code) :
      ConsumerStep s [] { s with consumer := .testing rest }
  | hit (s code rest) (hat : s.consumer = .testing (code :: rest)) (heq : s.value = code) :
      ConsumerStep s [.send code]
        { s with consumer := if sleeps code then .asleep else .testing [] }
  | wake (s) (hat : s.consumer = .asleep) :
      ConsumerStep s [] { s with consumer := .testing [] }
  | clear (s) (hat : s.consumer = .testing []) :
      ConsumerStep s [.reset] { s with flag := false, consumer := .outside }
  | beginPost (s) (hat : s.consumer = .outside) :
      ConsumerStep s [] { s with flag := true, consumer := .posting }
  | endPost (s value) (hcode : value ∈ codes) (hat : s.consumer = .posting) :
      ConsumerStep s [.post value] { s with value := value, consumer := .outside }

/-- Any interleaving of the two tasks in which the consumer sends only while the producer is not
in the middle of a post. -/
def AttentiveStep (s : State α) (events : List (SlotEvent α)) (next : State α) : Prop :=
  ProducerStep codes s events next ∨
    ConsumerStep codes sleeps s events next ∧ (sends events ≠ [] → s.producer = .idle)

/-- The two tasks exclude each other: the producer moves only while the consumer is outside its
round, and the consumer moves only while the producer is not in the middle of a post. -/
def ExclusiveStep (s : State α) (events : List (SlotEvent α)) (next : State α) : Prop :=
  ProducerStep codes s events next ∧ s.consumer = .outside ∨
    ConsumerStep codes sleeps s events next ∧ s.producer = .idle

/-- Any interleaving of the two tasks in which nobody posts `value`, and the producer raises the
flag only for a value that it has written. -/
def QuietStep (value : α) (s : State α) (events : List (SlotEvent α)) (next : State α) : Prop :=
  (ProducerStep codes s events next ∨ ConsumerStep codes sleeps s events next) ∧
    .post value ∉ events ∧ next.producer ≠ .raised

end Protocol

variable [DecidableEq α] {codes : List α} {sleeps : α → Bool}

/-- The invariant of attentive runs. A post whose value is written is pending, and outside the
middle of a post a raised flag or a round in progress means that something is pending. -/
structure AttentiveInv (s : State α) (pending : Option α) : Prop where
  value : ∀ value, pending = some value → value = s.value
  written : s.producer = .written → pending ≠ none
  raised : s.producer = .idle → s.consumer = .outside → s.flag = true → pending ≠ none
  testing : s.producer = .idle → ∀ code rest, s.consumer = .testing (code :: rest) →
    pending ≠ none

/-- A producer step keeps the invariant of attentive runs. -/
theorem AttentiveInv.producer {s next : State α} {events : List (SlotEvent α)}
    {pending : Option α} (h : AttentiveInv s pending) (hstep : ProducerStep codes s events next) :
    AttentiveInv next (pendingAfter pending events) := by
  cases hstep with
  | write value _ _ | writeRaised value _ _ => constructor <;> simp
  | raiseFirst => exact ⟨h.value, by simp, by simp, by simp⟩
  | raise hat =>
      have hpending := h.written hat
      exact ⟨h.value, fun _ => hpending, fun _ _ _ => hpending, fun _ _ _ _ => hpending⟩

/-- A consumer step keeps the invariant of attentive runs and sends only the pending post. -/
theorem AttentiveInv.consumer {s next : State α} {events : List (SlotEvent α)}
    {pending : Option α} (h : AttentiveInv s pending)
    (hstep : ConsumerStep codes sleeps s events next)
    (hidle : sends events ≠ [] → s.producer = .idle) :
    AttentiveInv next (pendingAfter pending events) ∧ Obeys inOrder pending events := by
  cases hstep with
  | begin hat hflag =>
      exact ⟨⟨h.value, h.written, by simp, fun hprod _ _ _ => h.raised hprod hat hflag⟩,
        trivial⟩
  | miss code rest hat _ =>
      exact ⟨⟨h.value, h.written, by simp, fun hprod _ _ _ => h.testing hprod _ _ hat⟩,
        trivial⟩
  | hit code rest hat heq =>
      have hprod := hidle (by simp [sends])
      obtain ⟨value, hvalue⟩ := Option.ne_none_iff_exists'.mp (h.testing hprod _ _ hat)
      have hpending : pending = some code := by rw [hvalue, h.value value hvalue, heq]
      rw [pending_after_send hpending]
      refine ⟨⟨by simp, by simp [hprod], ?_, ?_⟩, obeys_single.mpr hpending⟩ <;>
        cases sleeps code <;> simp
  | wake => exact ⟨⟨h.value, h.written, by simp, by simp⟩, trivial⟩
  | clear => exact ⟨⟨h.value, h.written, by simp, by simp⟩, obeys_single.mpr trivial⟩
  | beginPost => exact ⟨⟨h.value, h.written, by simp, by simp⟩, trivial⟩
  | endPost value => exact ⟨by constructor <;> simp, obeys_single.mpr trivial⟩

/-- As long as nothing is sent in the middle of a post, only pending posts are sent. -/
theorem attentive_in_order {value : α} {events : List (SlotEvent α)} {s : State α}
    (h : Steps (AttentiveStep codes sleeps) (.initial value) events s) :
    Obeys inOrder none events := by
  refine obeys_of_invariant AttentiveInv ?_ ?_ h
  · constructor <;> simp [State.initial]
  · intro s pending emitted next hinv hstep
    rcases hstep with hprod | ⟨hcons, hidle⟩
    · refine ⟨hinv.producer hprod, ?_⟩
      cases hprod <;> simp [Obeys, inOrder]
    · exact hinv.consumer hcons hidle

/-- The invariant of exclusive runs: outside a round the flag tells whether a post is pending,
and a round in progress still has the code of the pending post before it until it is sent. -/
def ExclusiveInv (codes : List α) (s : State α) (pending : Option α) : Prop :=
  (∀ value, pending = some value → value = s.value ∧ value ∈ codes) ∧
    match s.producer, s.consumer with
    | .idle, .outside => s.flag = true ↔ pending ≠ none
    | .idle, .testing rest => pending ≠ none ↔ s.value ∈ rest
    | .idle, .asleep => pending = none
    | .idle, .posting => s.flag = true
    | .raised, .outside => True
    | .written, .outside => pending ≠ none
    | _, _ => False

/-- A producer step outside the consumer's rounds keeps the invariant of exclusive runs. -/
theorem ExclusiveInv.producer {s next : State α} {events : List (SlotEvent α)}
    {pending : Option α} (h : ExclusiveInv codes s pending)
    (hstep : ProducerStep codes s events next) (hout : s.consumer = .outside) :
    ExclusiveInv codes next (pendingAfter pending events) := by
  cases hstep with
  | write value hcode hat | writeRaised value hcode hat =>
      simpa [ExclusiveInv, hout] using hcode
  | raiseFirst hat => exact ⟨h.1, by simp [hout]⟩
  | raise hat =>
      have hpending := h.2
      simp only [hat, hout] at hpending
      exact ⟨h.1, by simpa [hout] using hpending⟩

/-- A consumer step outside the producer's posts keeps the invariant of exclusive runs and
obeys the law. The round cannot run out of codes before it sends, because the pending post is
one of them. -/
theorem ExclusiveInv.consumer {s next : State α} {events : List (SlotEvent α)}
    {pending : Option α} (h : ExclusiveInv codes s pending)
    (hstep : ConsumerStep codes sleeps s events next) (hidle : s.producer = .idle) :
    ExclusiveInv codes next (pendingAfter pending events) ∧ Obeys lastPostWins pending events := by
  obtain ⟨hvalue, hphase⟩ := h
  cases hstep with
  | begin hat hflag =>
      simp only [hidle, hat, hflag, true_iff] at hphase
      obtain ⟨value, hsome⟩ := Option.ne_none_iff_exists'.mp hphase
      have hmem : s.value ∈ codes := (hvalue value hsome).1 ▸ (hvalue value hsome).2
      exact ⟨⟨hvalue, by simp [hidle, hphase, hmem]⟩, trivial⟩
  | miss code rest hat hne =>
      simp only [hidle, hat, List.mem_cons, hne, false_or] at hphase
      exact ⟨⟨hvalue, by simp only [hidle]; exact hphase⟩, trivial⟩
  | hit code rest hat heq =>
      simp only [hidle, hat, heq, List.mem_cons, true_or, iff_true] at hphase
      obtain ⟨value, hsome⟩ := Option.ne_none_iff_exists'.mp hphase
      have hpending : pending = some code := by rw [hsome, (hvalue value hsome).1, heq]
      rw [pending_after_send hpending]
      refine ⟨⟨by simp, ?_⟩, obeys_single.mpr hpending⟩
      cases sleeps code <;> simp [hidle]
  | wake hat =>
      simp only [hidle, hat] at hphase
      exact ⟨⟨hvalue, by simp [hidle, hphase]⟩, trivial⟩
  | clear hat =>
      have hpending : pending = none := by simpa [hidle, hat] using hphase
      exact ⟨⟨hvalue, by simp [hidle, hpending]⟩, obeys_single.mpr hpending⟩
  | beginPost => exact ⟨⟨hvalue, by simp [hidle]⟩, trivial⟩
  | endPost value hcode hat =>
      simp only [hidle, hat] at hphase
      exact ⟨⟨by simpa using hcode, by simp [hidle, hphase]⟩, obeys_single.mpr trivial⟩

/-- When posts and rounds exclude each other, every send transmits the last post, and no reset
drops one. -/
theorem exclusive_last_post_wins {value : α} {events : List (SlotEvent α)} {s : State α}
    (h : Steps (ExclusiveStep codes sleeps) (.initial value) events s) :
    Obeys lastPostWins none events := by
  refine obeys_of_invariant (ExclusiveInv codes) ?_ ?_ h
  · exact ⟨by simp, by simp [State.initial]⟩
  · intro s pending emitted next hinv hstep
    rcases hstep with ⟨hprod, hout⟩ | ⟨hcons, hidle⟩
    · refine ⟨hinv.producer hprod hout, ?_⟩
      cases hprod <;> simp [Obeys, lastPostWins]
    · exact hinv.consumer hcons hidle

/-- The value is in the mailbox and still to be sent: the flag invites a new round, or the round in
progress has not compared it yet. -/
def State.Outstanding (value : α) (s : State α) : Prop :=
  s.value = value ∧
    match s.consumer with
    | .outside => s.flag = true
    | .testing rest => value ∈ rest
    | .asleep | .posting => False

/-- Whether a value is still to be sent is decidable. -/
instance (value : α) (s : State α) : Decidable (s.Outstanding value) :=
  match h : s.consumer with
  | .outside => decidable_of_iff (s.value = value ∧ s.flag = true) (by simp [State.Outstanding, h])
  | .testing rest =>
      decidable_of_iff (s.value = value ∧ value ∈ rest) (by simp [State.Outstanding, h])
  | .asleep | .posting => isFalse (by simp [State.Outstanding, h])

/-- A step of a quiet interleaving keeps the producer from raising the flag for `value`, and sends
`value` only if it was still to be sent and no longer is. -/
theorem QuietStep.step {value : α} {s next : State α} {events : List (SlotEvent α)}
    (hstep : QuietStep codes sleeps value s events next)
    (hproducer : s.producer = .idle ∨ s.producer = .written ∧ s.value ≠ value) :
    (next.producer = .idle ∨ next.producer = .written ∧ next.value ≠ value) ∧
      events.count (.send value) + (if next.Outstanding value then 1 else 0) ≤
        if s.Outstanding value then 1 else 0 := by
  obtain ⟨hprod | hcons, hposts, hraised⟩ := hstep
  · cases hprod with
    | write posted _ _ | writeRaised posted _ _ =>
        have hne : posted ≠ value := by simpa [eq_comm] using hposts
        exact ⟨.inr ⟨rfl, hne⟩, by simp [State.Outstanding, hne]⟩
    | raiseFirst => exact absurd rfl hraised
    | raise hat =>
        have hne : s.value ≠ value := by simpa [hat] using hproducer
        exact ⟨.inl rfl, by simp [State.Outstanding, hne]⟩
  · cases hcons with
    | begin hat hflag =>
        refine ⟨hproducer, ?_⟩
        by_cases hvalue : s.value = value
        · simp only [State.Outstanding, hvalue, hat, hflag, List.count_nil]
          split <;> simp
        · simp [State.Outstanding, hvalue]
    | miss code rest hat hne =>
        refine ⟨hproducer, ?_⟩
        by_cases hvalue : s.value = value
        · have hcode : value ≠ code := hvalue ▸ hne
          simp [State.Outstanding, hvalue, hat, hcode]
        · simp [State.Outstanding, hvalue]
    | hit code rest hat heq =>
        refine ⟨hproducer, ?_⟩
        by_cases hvalue : s.value = value
        · obtain rfl : code = value := heq.symm.trans hvalue
          cases sleeps code <;> simp [State.Outstanding, hvalue, hat]
        · have hcode : code ≠ value := heq ▸ hvalue
          simp [State.Outstanding, hvalue, hcode]
    | wake hat => exact ⟨hproducer, by simp [State.Outstanding, hat]⟩
    | clear hat => exact ⟨hproducer, by simp [State.Outstanding, hat]⟩
    | beginPost => exact ⟨hproducer, by simp [State.Outstanding]⟩
    | endPost posted _ hat =>
        have hne : posted ≠ value := by simpa [eq_comm] using hposts
        refine ⟨hproducer.imp_right fun hwas => ⟨hwas.1, hne⟩, ?_⟩
        simp [State.Outstanding, hat, hne]

/-- In a quiet interleaving a value is sent at most once, and only if it was still to be sent. -/
theorem sends_le_outstanding {value : α} {s next : State α} {events : List (SlotEvent α)}
    (hidle : s.producer = .idle) (h : Steps (QuietStep codes sleeps value) s events next) :
    events.count (.send value) ≤ if s.Outstanding value then 1 else 0 := by
  have hinv := h.invariant (fun state emitted =>
    (state.producer = .idle ∨ state.producer = .written ∧ state.value ≠ value) ∧
      emitted.count (.send value) + (if state.Outstanding value then 1 else 0) ≤
        if s.Outstanding value then 1 else 0) ⟨.inl hidle, by simp⟩ ?_
  · exact Nat.le_trans (Nat.le_add_right _ _) hinv.2
  · intro trace state emitted following _ ⟨hproducer, hcount⟩ hstep
    obtain ⟨hnext, hsent⟩ := hstep.step hproducer
    refine ⟨hnext, ?_⟩
    rw [List.count_append]
    omega

end Mailbox
