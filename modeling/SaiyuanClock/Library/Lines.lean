import Mathlib.Data.List.Basic
import Mathlib.Data.List.Infix
import Mathlib.Data.List.TakeWhile

/-!
# Lines in a stream

A stream is cut into pieces after every terminator: `cutAfter` gives the pieces, of which only
the last may lack its terminator, and `joinLines` writes lines with their terminators. For lines
that do not contain the terminator a stream determines its lines (`join_lines_injective`), also
line by line from the front (`join_lines_prefix`), and the line rule `lineOf` gives a line back
(`line_of_line`).
-/

namespace LineFraming

variable {α : Type*} {terminator : α}

/-- Cut a stream after every terminator. -/
def cutAfter [DecidableEq α] (terminator : α) : List α → List (List α)
  | [] => []
  | a :: stream =>
      if a = terminator then [a] :: cutAfter terminator stream
      else match cutAfter terminator stream with
        | [] => [[a]]
        | piece :: pieces => (a :: piece) :: pieces

/-- The part of a piece before its first terminator. -/
def lineOf [DecidableEq α] (terminator : α) (piece : List α) : List α :=
  piece.takeWhile (· ≠ terminator)

/-- A piece that is one whole line: it ends with its only terminator. -/
def IsLine (terminator : α) (piece : List α) : Prop :=
  piece.getLast? = some terminator ∧ terminator ∉ piece.dropLast

/-- Being a whole line is decidable. -/
instance [DecidableEq α] (terminator : α) (piece : List α) : Decidable (IsLine terminator piece) :=
  inferInstanceAs (Decidable (_ ∧ _))

/-- A whole line is a line followed by the terminator. -/
theorem IsLine.exists_line {piece : List α} (h : IsLine terminator piece) :
    ∃ line, terminator ∉ line ∧ piece = line ++ [terminator] := by
  obtain ⟨hlast, hfree⟩ := h
  exact ⟨piece.dropLast, hfree, (List.dropLast_append_getLast? terminator hlast).symm⟩

/-- The stream that carries the given lines, each followed by a terminator. -/
def joinLines (terminator : α) (lines : List (List α)) : List α :=
  lines.flatMap (· ++ [terminator])

@[simp] theorem join_lines_nil : joinLines terminator ([] : List (List α)) = [] := rfl

@[simp] theorem join_lines_cons (line : List α) (lines : List (List α)) :
    joinLines terminator (line :: lines) = line ++ terminator :: joinLines terminator lines := by
  simp [joinLines]

@[simp] theorem join_lines_append (first rest : List (List α)) :
    joinLines terminator (first ++ rest) =
      joinLines terminator first ++ joinLines terminator rest := by
  simp [joinLines]

variable [DecidableEq α]

/-- Only the empty stream is cut into no pieces. -/
@[simp] theorem cut_after_eq_nil {stream : List α} :
    cutAfter terminator stream = [] ↔ stream = [] := by
  cases stream with
  | nil => simp [cutAfter]
  | cons a stream =>
      rw [cutAfter]
      split
      · simp
      · split <;> simp

/-- The pieces make up the stream. -/
@[simp] theorem flatten_cut_after (stream : List α) :
    (cutAfter terminator stream).flatten = stream := by
  induction stream with
  | nil => rfl
  | cons a stream ih =>
      rw [cutAfter]
      split
      · simp [ih]
      · split
        · next hcut => simp [cut_after_eq_nil.mp hcut]
        · next piece pieces hcut =>
          rw [hcut] at ih
          simpa using ih

/-- A line is cut off the front of the stream together with its terminator. -/
theorem cut_after_line {line : List α} (stream : List α) (hline : terminator ∉ line) :
    cutAfter terminator (line ++ terminator :: stream) =
      (line ++ [terminator]) :: cutAfter terminator stream := by
  induction line with
  | nil => simp [cutAfter]
  | cons a line ih =>
      obtain ⟨hne, hrest⟩ := List.ne_and_not_mem_of_not_mem_cons hline
      simp [cutAfter, Ne.symm hne, ih hrest]

/-- Bytes without a terminator in front of a nonempty stream belong to its first piece. -/
theorem cut_after_append {start stream : List α} (hstart : terminator ∉ start)
    (hstream : stream ≠ []) :
    ∃ piece pieces, cutAfter terminator stream = piece :: pieces ∧
      cutAfter terminator (start ++ stream) = (start ++ piece) :: pieces := by
  obtain ⟨piece, pieces, hcut⟩ :=
    List.exists_cons_of_ne_nil (mt cut_after_eq_nil.mp hstream : cutAfter terminator stream ≠ [])
  refine ⟨piece, pieces, hcut, ?_⟩
  induction start with
  | nil => simpa using hcut
  | cons a start ih =>
      obtain ⟨hne, hrest⟩ := List.ne_and_not_mem_of_not_mem_cons hstart
      simp [cutAfter, Ne.symm hne, ih hrest]

/-- A nonempty stream without a terminator is one piece. -/
theorem cut_after_unterminated {stream : List α} (hne : stream ≠ [])
    (hstream : terminator ∉ stream) : cutAfter terminator stream = [stream] := by
  induction stream with
  | nil => exact absurd rfl hne
  | cons a stream ih =>
      obtain ⟨ha, hrest⟩ := List.ne_and_not_mem_of_not_mem_cons hstream
      rcases eq_or_ne stream [] with rfl | hstream
      · simp [cutAfter, Ne.symm ha]
      · simp [cutAfter, Ne.symm ha, ih hstream hrest]

/-- The line of a piece does not contain the terminator. -/
theorem terminator_not_mem_line_of (piece : List α) : terminator ∉ lineOf terminator piece := by
  intro h
  simpa using List.mem_takeWhile_imp h

/-- The line of a piece is no longer than the piece. -/
theorem line_of_length_le (terminator : α) (piece : List α) :
    (lineOf terminator piece).length ≤ piece.length :=
  (List.takeWhile_prefix _).length_le

/-- The line of a piece that contains the terminator is shorter than the piece. -/
theorem line_of_length_lt {piece : List α} (h : terminator ∈ piece) :
    (lineOf terminator piece).length < piece.length := by
  refine lt_of_le_of_ne (line_of_length_le terminator piece) ?_
  intro hlength
  have hline : lineOf terminator piece = piece :=
    (List.takeWhile_prefix _).eq_of_length hlength
  exact terminator_not_mem_line_of piece (hline.symm ▸ h)

/-- The line rule recovers a line from its piece. -/
theorem line_of_line {line : List α} (hline : terminator ∉ line) :
    lineOf terminator (line ++ [terminator]) = line := by
  rw [lineOf, List.takeWhile_append_of_pos]
  · simp
  · intro a ha
    have hne : a ≠ terminator := fun h => hline (h ▸ ha)
    simp [hne]

omit [DecidableEq α] in
/-- Two lines that head the same stream are equal, and so is what follows them. -/
theorem line_unique {line other stream rest : List α} (hline : terminator ∉ line)
    (hother : terminator ∉ other)
    (h : line ++ terminator :: stream = other ++ terminator :: rest) :
    line = other ∧ stream = rest := by
  induction line generalizing other with
  | nil =>
      cases other with
      | nil => simpa using h
      | cons b other => simp [List.cons.inj h] at hother
  | cons a line ih =>
      obtain ⟨ha, hrest⟩ := List.ne_and_not_mem_of_not_mem_cons hline
      cases other with
      | nil => exact absurd (List.cons.inj h).1.symm ha
      | cons b other =>
          obtain ⟨hb, hotherRest⟩ := List.ne_and_not_mem_of_not_mem_cons hother
          obtain ⟨rfl, htail⟩ := List.cons.inj h
          obtain ⟨rfl, rfl⟩ := ih hrest hotherRest htail
          exact ⟨rfl, rfl⟩

omit [DecidableEq α] in
/-- If the stream of some lines is a prefix of the stream of others, then the lines themselves
are a prefix of the others. -/
theorem join_lines_prefix {lines others : List (List α)}
    (hlines : ∀ line ∈ lines, terminator ∉ line) (hothers : ∀ line ∈ others, terminator ∉ line)
    (h : joinLines terminator lines <+: joinLines terminator others) : lines <+: others := by
  induction lines generalizing others with
  | nil => exact List.nil_prefix
  | cons line lines ih =>
      obtain ⟨suffix, hsuffix⟩ := h
      cases others with
      | nil => simp at hsuffix
      | cons other others =>
          simp only [join_lines_cons, List.append_assoc, List.cons_append] at hsuffix
          obtain ⟨rfl, hrest⟩ :=
            line_unique (hlines line (by simp)) (hothers other (by simp)) hsuffix
          have htail := ih (fun line hmem => hlines line (by simp [hmem]))
            (fun line hmem => hothers line (by simp [hmem])) ⟨suffix, hrest⟩
          exact List.cons_prefix_cons.mpr ⟨rfl, htail⟩

omit [DecidableEq α] in
/-- A stream of lines determines the lines. -/
theorem join_lines_injective {lines others : List (List α)}
    (hlines : ∀ line ∈ lines, terminator ∉ line) (hothers : ∀ line ∈ others, terminator ∉ line)
    (h : joinLines terminator lines = joinLines terminator others) : lines = others := by
  have hforth := join_lines_prefix hlines hothers (h ▸ List.prefix_refl _)
  have hback := join_lines_prefix hothers hlines (h ▸ List.prefix_refl _)
  exact hforth.eq_of_length_le hback.length_le

end LineFraming
