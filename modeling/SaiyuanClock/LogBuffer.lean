import SaiyuanClock.Lettering

/-!
# The log buffer

`OLEDDisplay_write` appends bytes to a buffer of a bounded number of lines and of bytes and drops
the first line, or everything, when the buffer is full. The bytes are UTF-8 and go through
`DefaultFontTableLookup`, which keeps the byte before in a static variable.
-/

namespace SaiyuanClock

/-! ## UTF-8 -/

/-- `DefaultFontTableLookup`: the index in the font table for a byte, and the new `LASTCHAR`. -/
def defaultFontTableLookup (lastChar ch : UInt8) : UInt8 × UInt8 :=
  if ch.toNat < 128 then (ch, 0)
  else
    (if lastChar = 0xC2 then ch
      else if lastChar = 0xC3 then ch ||| 0xC0
      else if lastChar = 0x82 ∧ ch = 0xAC then 0x80
      else 0, ch)

/-- The indices for a text; an index that is zero is dropped. -/
def lookupText (lastChar : UInt8) : List UInt8 → List UInt8
  | [] => []
  | ch :: text =>
      let found := defaultFontTableLookup lastChar ch
      (if found.1 = 0 then [] else [found.1]) ++ lookupText found.2 text

/-- The indices under which the font has a character: its code in Latin-1, or the place of the euro
sign for a character in whose encoding `0x82` and `0xAC` follow each other. -/
def fontIndex (c : Char) : List UInt8 :=
  if c.toNat = 0 then []
  else if c.toNat < 256 then [UInt8.ofNat c.toNat]
  else if c.toNat % 4096 = 0xAC ∨ 0x10000 ≤ c.toNat ∧ c.toNat / 64 % 4096 = 0xAC then [0x80]
  else []

/-- The number of a byte. -/
theorem to_nat_of_nat {n : Nat} (h : n < 256) : (UInt8.ofNat n).toNat = n :=
  UInt8.toNat_ofNat_of_lt' h

/-- A byte below 128 stands for itself. -/
theorem lookup_ascii (lastChar : UInt8) {ch : UInt8} (h : ch.toNat < 128) :
    defaultFontTableLookup lastChar ch = (ch, 0) := if_pos h

/-- A byte from 128 on has no index, unless the byte before is one of three. -/
theorem lookup_nothing {lastChar ch : UInt8} (h : 128 ≤ ch.toNat) (htwo : lastChar.toNat ≠ 0xC2)
    (hthree : lastChar.toNat ≠ 0xC3) (heuro : ¬ (lastChar.toNat = 0x82 ∧ ch.toNat = 0xAC)) :
    defaultFontTableLookup lastChar ch = (0, ch) := by
  rw [defaultFontTableLookup, if_neg (Nat.not_lt.mpr h), if_neg fun heq => htwo (by rw [heq]; rfl),
    if_neg fun heq => hthree (by rw [heq]; rfl),
    if_neg fun heq => heuro ⟨by rw [heq.1]; rfl, by rw [heq.2]; rfl⟩]

/-- `LASTCHAR` as it is between two characters: neither of the bytes that begin a character of
Latin-1. -/
def Between (lastChar : UInt8) : Prop := lastChar.toNat ≠ 0xC2 ∧ lastChar.toNat ≠ 0xC3

/-- The first byte of a character of several bytes has no index after a character. -/
theorem lookup_lead {lastChar : UInt8} (hlast : Between lastChar) {n : Nat}
    (h : 0xC0 ≤ n ∧ n < 256) :
    defaultFontTableLookup lastChar (UInt8.ofNat n) = (0, UInt8.ofNat n) := by
  have hvalue : (UInt8.ofNat n).toNat = n := to_nat_of_nat h.2
  exact lookup_nothing (by omega) hlast.1 hlast.2 (by omega)

/-- A byte in the middle of a character has no index, but for `0xAC` after `0x82`. -/
theorem lookup_middle {m n : Nat} (hm : m < 256 ∧ m ≠ 0xC2 ∧ m ≠ 0xC3) (hn : 128 ≤ n ∧ n < 256) :
    defaultFontTableLookup (UInt8.ofNat m) (UInt8.ofNat n) =
      (if m = 0x82 ∧ n = 0xAC then 0x80 else 0, UInt8.ofNat n) := by
  have hbefore : (UInt8.ofNat m).toNat = m := to_nat_of_nat hm.1
  have hvalue : (UInt8.ofNat n).toNat = n := to_nat_of_nat hn.2
  by_cases heuro : m = 0x82 ∧ n = 0xAC
  · obtain ⟨rfl, rfl⟩ := heuro
    rfl
  · rw [if_neg heuro]
    exact lookup_nothing (by omega) (by omega) (by omega) (by omega)

/-- The second byte of a character from U+00C0 to U+00FF. -/
theorem lookup_latin {n : Nat} (h : n < 64) :
    defaultFontTableLookup 0xC3 (UInt8.ofNat (n + 128)) =
      (UInt8.ofNat (n + 192), UInt8.ofNat (n + 128)) := by
  revert n
  decide +kernel

/-- The bytes of a character of several bytes are translated one by one. -/
theorem lookup_text_cons (lastChar ch : UInt8) (text : List UInt8) :
    lookupText lastChar (ch :: text) =
      (if (defaultFontTableLookup lastChar ch).1 = 0 then []
        else [(defaultFontTableLookup lastChar ch).1]) ++
      lookupText (defaultFontTableLookup lastChar ch).2 text := rfl

/-- A character of one byte. -/
theorem lookup_text_one (lastChar : UInt8) {v : Nat} (h : v ≤ 0x7F) (text : List UInt8) :
    lookupText lastChar (UInt8.ofNat v :: text) =
      (if v = 0 then [] else [UInt8.ofNat v]) ++ lookupText 0 text := by
  have hvalue : (UInt8.ofNat v).toNat = v := to_nat_of_nat (by omega)
  have hzero : UInt8.ofNat v = 0 ↔ v = 0 := by
    rw [← UInt8.toNat_inj, hvalue]
    rfl
  rw [lookup_text_cons, lookup_ascii lastChar (by omega)]
  simp only [hzero]

/-- The bytes of a character after the first. -/
theorem lookup_text_middle {m n : Nat} (hm : m < 256 ∧ m ≠ 0xC2 ∧ m ≠ 0xC3)
    (hn : 128 ≤ n ∧ n < 256) (text : List UInt8) :
    lookupText (UInt8.ofNat m) (UInt8.ofNat n :: text) =
      (if m = 0x82 ∧ n = 0xAC then [0x80] else []) ++ lookupText (UInt8.ofNat n) text := by
  rw [lookup_text_cons, lookup_middle hm hn]
  split <;> simp

/-- The first byte of a character of several bytes. -/
theorem lookup_text_lead {lastChar : UInt8} (hlast : Between lastChar) {n : Nat}
    (h : 0xC0 ≤ n ∧ n < 256) (text : List UInt8) :
    lookupText lastChar (UInt8.ofNat n :: text) = lookupText (UInt8.ofNat n) text := by
  rw [lookup_text_cons, lookup_lead hlast h]
  simp

/-- A character of two bytes. -/
theorem lookup_text_two {v : Nat} (h : 0x80 ≤ v ∧ v ≤ 0x7FF) (text : List UInt8) :
    lookupText (UInt8.ofNat (v / 64 % 32 + 192)) (UInt8.ofNat (v % 64 + 128) :: text) =
      (if v < 256 then [UInt8.ofNat v] else []) ++
        lookupText (UInt8.ofNat (v % 64 + 128)) text := by
  by_cases hsmall : v < 192
  · have hlead : v / 64 % 32 + 192 = 0xC2 := by omega
    have hbyte : v % 64 + 128 = v := by omega
    have hvalue : (UInt8.ofNat v).toNat = v := to_nat_of_nat (by omega)
    have hindex : defaultFontTableLookup (UInt8.ofNat 0xC2) (UInt8.ofNat v) =
        (UInt8.ofNat v, UInt8.ofNat v) := by
      rw [defaultFontTableLookup, if_neg (by omega)]
      rfl
    have hne : UInt8.ofNat v ≠ 0 := fun heq => by
      rw [heq] at hvalue
      exact absurd hvalue (by simp; omega)
    rw [hlead, hbyte, lookup_text_cons, hindex, if_neg hne, if_pos (by omega)]
  by_cases hlatin : v < 256
  · have hlead : v / 64 % 32 + 192 = 0xC3 := by omega
    have hbyte : v % 64 + 192 = v := by omega
    have hvalue : (UInt8.ofNat v).toNat = v := to_nat_of_nat (by omega)
    have hne : UInt8.ofNat v ≠ 0 := fun heq => by
      rw [heq] at hvalue
      exact absurd hvalue (by simp; omega)
    have hindex := lookup_latin (Nat.mod_lt v (by decide : 0 < 64))
    rw [hbyte] at hindex
    rw [hlead, lookup_text_cons, show UInt8.ofNat 0xC3 = 0xC3 from rfl, hindex, if_neg hne,
      if_pos hlatin]
  · rw [lookup_text_middle ⟨by omega, by omega, by omega⟩ ⟨by omega, by omega⟩, if_neg (by omega),
      if_neg hlatin]

/-- After a character the bytes of another one are translated to its index. -/
theorem lookup_text_char {lastChar : UInt8} (hlast : Between lastChar) (c : Char)
    (text : List UInt8) :
    ∃ next : UInt8, Between next ∧
      lookupText lastChar (String.utf8EncodeChar c ++ text) =
        fontIndex c ++ lookupText next text := by
  have hvalid : c.val.toNat < 0x110000 := by
    have hvalid := c.valid
    simp only [UInt32.isValidChar, Nat.isValidChar] at hvalid
    omega
  have hbyte : ∀ n < 64, Between (UInt8.ofNat (n + 128)) := by
    intro n hn
    rw [Between, to_nat_of_nat (by omega)]
    omega
  have hcode : c.toNat = c.val.toNat := rfl
  simp only [String.utf8EncodeChar, fontIndex, hcode]
  generalize c.val.toNat = v at hvalid
  by_cases hone : v ≤ 0x7F
  · rw [if_pos hone]
    refine ⟨0, ⟨by decide, by decide⟩, (lookup_text_one lastChar hone text).trans ?_⟩
    rw [if_pos (show v < 256 by omega)]
  rw [if_neg hone, if_neg (show v ≠ 0 by omega)]
  by_cases htwo : v ≤ 0x7FF
  · rw [if_pos htwo]
    refine ⟨UInt8.ofNat (v % 64 + 128), hbyte _ (Nat.mod_lt v (by decide)), ?_⟩
    simp only [List.cons_append, List.nil_append]
    rw [lookup_text_lead hlast ⟨by omega, by omega⟩, lookup_text_two ⟨by omega, htwo⟩]
    split
    · rfl
    · rw [if_neg (by omega)]
  rw [if_neg htwo, if_neg (show ¬ v < 256 by omega)]
  by_cases hthree : v ≤ 0xFFFF
  · rw [if_pos hthree]
    refine ⟨UInt8.ofNat (v % 64 + 128), hbyte _ (Nat.mod_lt v (by decide)), ?_⟩
    simp only [List.cons_append, List.nil_append]
    rw [lookup_text_lead hlast ⟨by omega, by omega⟩,
      lookup_text_middle ⟨by omega, by omega, by omega⟩ ⟨by omega, by omega⟩,
      lookup_text_middle ⟨by omega, by omega, by omega⟩ ⟨by omega, by omega⟩, if_neg (by omega),
      List.nil_append]
    congr 1
    by_cases heuro : v % 4096 = 0xAC
    · rw [if_pos (by omega), if_pos (.inl heuro)]
    · rw [if_neg (by omega), if_neg (by omega)]
  · rw [if_neg hthree]
    refine ⟨UInt8.ofNat (v % 64 + 128), hbyte _ (Nat.mod_lt v (by decide)), ?_⟩
    simp only [List.cons_append, List.nil_append]
    rw [lookup_text_lead hlast ⟨by omega, by omega⟩,
      lookup_text_middle ⟨by omega, by omega, by omega⟩ ⟨by omega, by omega⟩,
      lookup_text_middle ⟨by omega, by omega, by omega⟩ ⟨by omega, by omega⟩,
      lookup_text_middle ⟨by omega, by omega, by omega⟩ ⟨by omega, by omega⟩, if_neg (by omega),
      List.nil_append, ← List.append_assoc]
    congr 1
    by_cases hearly : v / 64 % 4096 = 0xAC
    · rw [if_pos (by omega), if_neg (by omega), if_pos (.inr ⟨by omega, hearly⟩)]
      rfl
    · rw [if_neg (by omega), List.nil_append]
      by_cases heuro : v % 4096 = 0xAC
      · rw [if_pos (by omega), if_pos (.inl heuro)]
      · rw [if_neg (by omega), if_neg (by omega)]

/-- A text in UTF-8 is translated character by character: Latin-1 to its codes, and of all other
characters only those to the euro sign that look like it. -/
theorem lookup_text_utf8 {lastChar : UInt8} (hlast : Between lastChar) (text : List Char) :
    lookupText lastChar (text.flatMap String.utf8EncodeChar) = text.flatMap fontIndex := by
  induction text generalizing lastChar with
  | nil => rfl
  | cons c text ih =>
      obtain ⟨next, hnext, hchar⟩ := lookup_text_char hlast c (text.flatMap String.utf8EncodeChar)
      rw [List.flatMap_cons, List.flatMap_cons, hchar, ih hnext]

/-! ## Writing -/

/-- What `logBuffer` points to. -/
inductive Block where
  | null
  | allocated
  | freed
  deriving DecidableEq, Repr

/-- The fields of `OLEDDisplay_t` for the log buffer, and `LASTCHAR`. The text is what stands in
`logBuffer` before `logBufferFilled`. -/
structure LogBuffer where
  logBuffer : Block
  text : List UInt8
  logBufferLine : Nat
  logBufferMaxLines : Nat
  logBufferSize : Nat
  lastChar : UInt8
  deriving DecidableEq, Repr

namespace LogBuffer

/-- The log buffer after `OLEDDisplay_allocateBuffer`. -/
def start : LogBuffer where
  logBuffer := .null
  text := []
  logBufferLine := 0
  logBufferMaxLines := 0
  logBufferSize := 0
  lastChar := 0

/-- `OLEDDisplay_setLogBuffer`, given whether `malloc` succeeds: the log buffer after it, and
`none` if it frees a block twice or the product is too large for an `int`. -/
def setLogBuffer (lines chars : Nat) (succeeds : Bool) (b : LogBuffer) : Option LogBuffer :=
  if b.logBuffer = .freed ∨ 2 ^ 31 ≤ lines * chars then none
  else
    let size := lines * chars % 65536
    if 0 < size then
      some
        { b with
          logBuffer := if succeeds then .allocated else .null
          text := []
          logBufferLine := 0
          logBufferMaxLines := lines
          logBufferSize := size }
    else some { b with logBuffer := if b.logBuffer = .allocated then .freed else .null }

/-- The position after the first line break, zero if there is none. -/
def firstLineEnd (text : List UInt8) : Nat :=
  match text.findIdx? (· = newline) with
  | some i => i + 1
  | none => 0

/-- `OLEDDisplay_write` for at most `fuel` calls of itself; `none` also if it uses `logBuffer` where
it does not point to a block. -/
def write : Nat → UInt8 → LogBuffer → Option LogBuffer
  | 0, _, _ => none
  | fuel + 1, c, b =>
      if b.logBufferSize = 0 then some b
      -- a carriage return
      else if c = 13 then some b
      else
        let found := defaultFontTableLookup b.lastChar c
        let b := { b with lastChar := found.2 }
        -- the font has no such character, or it is not complete
        if found.1 = 0 then some b
        else if b.text.length < b.logBufferSize ∧ b.logBufferLine < b.logBufferMaxLines then
          if b.logBuffer = .allocated then
            some
              { b with
                text := b.text ++ [found.1]
                logBufferLine :=
                  if found.1 = newline then b.logBufferLine + 1 else b.logBufferLine }
          else none
        -- the search for the end of the first line reads the block
        else if b.text ≠ [] ∧ b.logBuffer ≠ .allocated then none
        else
          -- the index goes through the font table once more
          write fuel found.1
            { b with
              text :=
                if 0 < firstLineEnd b.text then b.text.drop (firstLineEnd b.text)
                else if b.text.length < b.logBufferSize then b.text
                else []
              logBufferLine :=
                if b.logBufferLine < b.logBufferMaxLines then b.logBufferLine
                else b.logBufferLine - 1 }

/-- `OLEDDisplay_writeString`; no call of `OLEDDisplay_write` is deeper than two. -/
def writeString (str : List UInt8) (b : LogBuffer) : Option LogBuffer :=
  str.foldlM (fun (b : LogBuffer) c => b.write 2 c) b

/-- What holds of a log buffer that is in use: its block is there, the counters have the values of
`uint16_t` and the text fits, and the lines in it are at most those counted. -/
structure Sound (b : LogBuffer) : Prop where
  allocated : b.logBuffer = .allocated
  size : 0 < b.logBufferSize ∧ b.logBufferSize < 65536
  fits : b.text.length ≤ b.logBufferSize
  counted : b.text.count newline ≤ b.logBufferLine
  lines : b.logBufferLine ≤ b.logBufferMaxLines
  room : 0 < b.logBufferMaxLines

/-- A text with a line break has one line less after the first. -/
theorem first_line_end_cases (text : List UInt8) :
    firstLineEnd text = 0 ∧ newline ∉ text ∨
      0 < firstLineEnd text ∧ (text.drop (firstLineEnd text)).count newline + 1 =
        text.count newline := by
  unfold firstLineEnd
  cases hfind : text.findIdx? (· = newline) with
  | none =>
      refine .inl ⟨rfl, fun hmem => ?_⟩
      simpa using List.findIdx?_eq_none_iff.mp hfind newline hmem
  | some i =>
      obtain ⟨hi, hat, hbefore⟩ := List.findIdx?_eq_some_iff_getElem.mp hfind
      have hfirst : (text.take i).count newline = 0 := by
        refine List.count_eq_zero_of_not_mem fun hmem => ?_
        obtain ⟨j, hj, hget⟩ := List.mem_iff_getElem.mp hmem
        rw [List.length_take] at hj
        rw [List.getElem_take] at hget
        exact hbefore j (by omega) (decide_eq_true hget)
      refine .inr ⟨Nat.succ_pos i, ?_⟩
      calc
        (text.drop (i + 1)).count newline + 1 = (text[i] :: text.drop (i + 1)).count newline := by
          rw [of_decide_eq_true hat, List.count_cons_self]
        _ = (text.take i ++ text.drop i).count newline := by
          rw [List.count_append, hfirst, Nat.zero_add, List.getElem_cons_drop]
        _ = text.count newline := by rw [List.take_append_drop]

/-- The log buffer after the first line was dropped, or everything if there is no line break and no
room. -/
def dropFirstLine (b : LogBuffer) : LogBuffer :=
  { b with
    text :=
      if 0 < firstLineEnd b.text then b.text.drop (firstLineEnd b.text)
      else if b.text.length < b.logBufferSize then b.text
      else []
    logBufferLine :=
      if b.logBufferLine < b.logBufferMaxLines then b.logBufferLine else b.logBufferLine - 1 }

/-- There is room for a byte. -/
def Room (b : LogBuffer) : Prop :=
  b.text.length < b.logBufferSize ∧ b.logBufferLine < b.logBufferMaxLines

instance (b : LogBuffer) : Decidable b.Room := inferInstanceAs (Decidable (_ ∧ _))

/-- The log buffer after a byte was stored. -/
def store (b : LogBuffer) (index : UInt8) : LogBuffer :=
  { b with
    text := b.text ++ [index]
    logBufferLine := if index = newline then b.logBufferLine + 1 else b.logBufferLine }

/-- Dropping the first line makes room for a byte and keeps the end of the text. -/
theorem Sound.drop_first_line {b : LogBuffer} (h : b.Sound) :
    b.dropFirstLine.Sound ∧ b.dropFirstLine.text <:+ b.text ∧ b.dropFirstLine.Room := by
  have hcounted := h.counted
  have hlines := h.lines
  have hfits := h.fits
  have hroom := h.room
  have hsize := h.size
  have hline : b.dropFirstLine.logBufferLine < b.logBufferMaxLines := by
    simp only [dropFirstLine]
    split <;> omega
  have hsuffix : b.dropFirstLine.text <:+ b.text := by
    simp only [dropFirstLine]
    split
    · exact List.drop_suffix _ _
    · split
      · exact List.suffix_rfl
      · exact List.nil_suffix
  have hshort : b.dropFirstLine.text.length < b.logBufferSize := by
    simp only [dropFirstLine]
    split
    · rw [List.length_drop]
      omega
    · split
      · assumption
      · exact hsize.1
  have hcount : b.dropFirstLine.text.count newline ≤ b.dropFirstLine.logBufferLine := by
    simp only [dropFirstLine]
    rcases first_line_end_cases b.text with ⟨hnone, hnever⟩ | ⟨hsome, hcount⟩
    · rw [hnone, if_neg (Nat.lt_irrefl 0)]
      have hzero := List.count_eq_zero_of_not_mem hnever
      split
      · rw [hzero]
        exact Nat.zero_le _
      · exact Nat.zero_le _
    · rw [if_pos hsome]
      split <;> omega
  exact ⟨⟨h.allocated, hsize, hshort.le, hcount, hline.le, hroom⟩, hsuffix, hshort, hline⟩

/-- What a call of `OLEDDisplay_write` does where there is room for the byte. -/
theorem write_room {b : LogBuffer} (h : b.Sound) (fuel : Nat) {c : UInt8} (hc : c ≠ 13)
    (hfound : (defaultFontTableLookup b.lastChar c).1 ≠ 0) (hroom : b.Room) :
    b.write (fuel + 1) c = some
      { b.store (defaultFontTableLookup b.lastChar c).1 with
        lastChar := (defaultFontTableLookup b.lastChar c).2 } := by
  simp [write, store, h.size.1.ne', hc, hfound, hroom.1, hroom.2, h.allocated]

/-- A byte that has no index is dropped. -/
theorem write_nothing {b : LogBuffer} (h : b.Sound) (fuel : Nat) {c : UInt8} (hc : c ≠ 13)
    (hfound : (defaultFontTableLookup b.lastChar c).1 = 0) :
    b.write (fuel + 1) c = some { b with lastChar := (defaultFontTableLookup b.lastChar c).2 } := by
  simp [write, h.size.1.ne', hc, hfound]

/-- What a call of `OLEDDisplay_write` does where there is no room for the byte. -/
theorem write_full {b : LogBuffer} (h : b.Sound) (fuel : Nat) {c : UInt8} (hc : c ≠ 13)
    (hfound : (defaultFontTableLookup b.lastChar c).1 ≠ 0)
    (hfull : ¬ b.Room) :
    b.write (fuel + 1) c =
      { b.dropFirstLine with lastChar := (defaultFontTableLookup b.lastChar c).2 }.write fuel
        (defaultFontTableLookup b.lastChar c).1 := by
  unfold Room at hfull
  rw [write, if_neg h.size.1.ne', if_neg hc]
  simp only
  rw [if_neg hfound, if_neg hfull, if_neg (fun hlost => hlost.2 h.allocated)]
  rfl

/-- A log buffer in use stays so with another `LASTCHAR`. -/
theorem Sound.with_last_char {b : LogBuffer} (h : b.Sound) (lastChar : UInt8) :
    Sound { b with lastChar := lastChar } :=
  ⟨h.allocated, h.size, h.fits, h.counted, h.lines, h.room⟩

/-- A log buffer in use with room for a byte stays so with the byte. -/
theorem Sound.store {b : LogBuffer} (h : b.Sound) (hroom : b.Room) (index : UInt8) :
    (b.store index).Sound := by
  have hcounted := h.counted
  obtain ⟨hlength, hline⟩ := hroom
  refine ⟨h.allocated, h.size, ?_, ?_, ?_, h.room⟩ <;> simp only [LogBuffer.store]
  · rw [List.length_append, List.length_singleton]
    exact hlength
  · simp only [List.count_append, List.count_singleton, beq_iff_eq]
    split <;> omega
  · split <;> omega

/-- What a call of `OLEDDisplay_write` leaves: a log buffer in use of the same size, with the end of
the text before and at most one byte more. -/
structure Wrote (b next : LogBuffer) : Prop where
  sound : next.Sound
  size : next.logBufferSize = b.logBufferSize
  text : next.text <:+ b.text ∨ ∃ kept index, kept <:+ b.text ∧ next.text = kept ++ [index]

/-- A call of `OLEDDisplay_write` where there is room. -/
theorem write_where_room {b : LogBuffer} (h : b.Sound) (fuel : Nat) (c : UInt8) (hroom : b.Room) :
    ∃ next, b.write (fuel + 1) c = some next ∧ Wrote b next := by
  by_cases hc : c = 13
  · exact ⟨b, by simp [write, hc], h, rfl, .inl List.suffix_rfl⟩
  by_cases hfound : (defaultFontTableLookup b.lastChar c).1 = 0
  · exact ⟨_, write_nothing h fuel hc hfound, h.with_last_char _, rfl, .inl List.suffix_rfl⟩
  · exact ⟨_, write_room h fuel hc hfound hroom, (h.store hroom _).with_last_char _, rfl,
      .inr ⟨b.text, _, List.suffix_rfl, rfl⟩⟩

/-- `OLEDDisplay_write` calls itself at most once, never writes outside the buffer and keeps what
holds of it, whatever the byte is. -/
theorem write_wrote {b : LogBuffer} (h : b.Sound) (c : UInt8) :
    ∃ next, b.write 2 c = some next ∧ Wrote b next := by
  by_cases hroom : b.Room
  · exact write_where_room h 1 c hroom
  by_cases hc : c = 13
  · exact ⟨b, by simp [write, hc], h, rfl, .inl List.suffix_rfl⟩
  by_cases hfound : (defaultFontTableLookup b.lastChar c).1 = 0
  · exact ⟨_, write_nothing h 1 hc hfound, h.with_last_char _, rfl, .inl List.suffix_rfl⟩
  obtain ⟨hsound, hsuffix, hshort⟩ := h.drop_first_line
  obtain ⟨next, hnext, hwrote⟩ := write_where_room (hsound.with_last_char
    (defaultFontTableLookup b.lastChar c).2) 0 (defaultFontTableLookup b.lastChar c).1 hshort
  refine ⟨next, (write_full h 1 hc hfound hroom).trans hnext, hwrote.sound, hwrote.size, ?_⟩
  rcases hwrote.text with hkept | ⟨kept, index, hkept, htext⟩
  · exact .inl (hkept.trans hsuffix)
  · exact .inr ⟨kept, index, hkept.trans hsuffix, htext⟩

/-- The log buffer after a byte below 128 was stored, the first line dropped if it was full. -/
def push (b : LogBuffer) (index : UInt8) : LogBuffer :=
  if b.Room then b.store index else b.dropFirstLine.store index

/-- A byte below 128, but for zero and the carriage return, is stored, full or not. -/
theorem write_ascii {b : LogBuffer} (h : b.Sound) {c : UInt8} (hascii : c.toNat < 128)
    (hzero : c ≠ 0) (hreturn : c ≠ 13) :
    b.write 2 c = some { b.push c with lastChar := 0 } := by
  have hfound : ∀ lastChar, (defaultFontTableLookup lastChar c).1 ≠ 0 := fun lastChar => by
    rwa [lookup_ascii lastChar hascii]
  by_cases hroom : b.Room
  · rw [write_room h 1 hreturn (hfound _) hroom, push, if_pos hroom]
    simp only [lookup_ascii _ hascii]
  · obtain ⟨hsound, -, hshort⟩ := h.drop_first_line
    rw [write_full h 1 hreturn (hfound _) hroom, push, if_neg hroom]
    simp only [lookup_ascii _ hascii]
    rw [write_room (hsound.with_last_char 0) 0 hreturn (hfound _) hshort]
    simp only [lookup_ascii _ hascii]
    rfl

/-- Storing keeps a log buffer in use. -/
theorem Sound.push {b : LogBuffer} (h : b.Sound) (index : UInt8) : (b.push index).Sound := by
  unfold LogBuffer.push
  split
  · exact h.store ‹_› index
  · exact h.drop_first_line.1.store h.drop_first_line.2.2 index

/-- A byte is stored behind the end of the text. -/
theorem Sound.push_text {b : LogBuffer} (h : b.Sound) (index : UInt8) :
    ∃ kept, kept <:+ b.text ∧ (b.push index).text = kept ++ [index] := by
  unfold LogBuffer.push
  split
  · exact ⟨b.text, List.suffix_rfl, rfl⟩
  · exact ⟨_, h.drop_first_line.2.1, rfl⟩

/-! ## Characters -/

/-- What a character does to the log buffer. A character outside ASCII that needs room is lost: its
index goes through the table a second time, which has nothing for it. -/
def putChar (b : LogBuffer) (c : Char) : LogBuffer :=
  if c = '\r' then b
  else
    match fontIndex c with
    | [] => b
    | index :: _ =>
        if index.toNat < 128 then b.push index
        else if b.Room then b.store index
        else b.dropFirstLine

/-- A string is written byte by byte. -/
theorem write_string_cons (c : UInt8) (str : List UInt8) (b : LogBuffer) :
    b.writeString (c :: str) = (b.write 2 c).bind (writeString str) :=
  List.foldlM_cons

/-- A string is written part by part. -/
theorem write_string_append (str rest : List UInt8) (b : LogBuffer) :
    b.writeString (str ++ rest) = (b.writeString str).bind (writeString rest) :=
  List.foldlM_append

/-- A byte from 128 on is the new `LASTCHAR`. -/
theorem lookup_high (lastChar : UInt8) {c : UInt8} (h : 128 ≤ c.toNat) :
    (defaultFontTableLookup lastChar c).2 = c := by
  rw [defaultFontTableLookup, if_neg (Nat.not_lt.mpr h)]

/-- Bytes from 128 on without an index change `LASTCHAR` only. -/
theorem write_string_silent {b : LogBuffer} (h : b.Sound) {str : List UInt8}
    (hhigh : ∀ c ∈ str, 128 ≤ c.toNat) (hsilent : lookupText b.lastChar str = []) :
    b.writeString str = some { b with lastChar := str.getLastD b.lastChar } := by
  induction str generalizing b with
  | nil => rfl
  | cons c str ih =>
      rw [List.forall_mem_cons] at hhigh
      rw [lookup_text_cons, List.append_eq_nil_iff, lookup_high _ hhigh.1] at hsilent
      have hfound : (defaultFontTableLookup b.lastChar c).1 = 0 := by
        by_contra hfound
        rw [if_neg hfound] at hsilent
        exact List.cons_ne_nil _ _ hsilent.1
      have hreturn : c ≠ 13 := fun heq => absurd (heq ▸ hhigh.1) (by decide)
      rw [write_string_cons, write_nothing h 1 hreturn hfound, Option.bind_some,
        lookup_high _ hhigh.1, ih (h.with_last_char c) hhigh.2 hsilent.2, List.getLastD_cons]

/-- The bytes of one index: some without an index, the one that completes it, and some more
without. -/
theorem lookup_text_split {lastChar index : UInt8} {str : List UInt8}
    (hhigh : ∀ c ∈ str, 128 ≤ c.toNat) (h : lookupText lastChar str = [index]) :
    ∃ before c after, str = before ++ c :: after ∧ lookupText lastChar before = [] ∧
      (defaultFontTableLookup (before.getLastD lastChar) c).1 = index ∧
      lookupText c after = [] := by
  induction str generalizing lastChar with
  | nil => exact absurd h.symm (List.cons_ne_nil _ _)
  | cons c str ih =>
      rw [List.forall_mem_cons] at hhigh
      rw [lookup_text_cons, lookup_high _ hhigh.1] at h
      by_cases hfound : (defaultFontTableLookup lastChar c).1 = 0
      · rw [if_pos hfound, List.nil_append] at h
        obtain ⟨before, d, after, rfl, hbefore, hindex, hafter⟩ := ih hhigh.2 h
        refine ⟨c :: before, d, after, rfl, ?_, ?_, hafter⟩
        · rw [lookup_text_cons, if_pos hfound, lookup_high _ hhigh.1, hbefore, List.append_nil]
        · rwa [List.getLastD_cons]
      · rw [if_neg hfound, List.singleton_append, List.cons.injEq] at h
        exact ⟨[], c, str, rfl, rfl, h.1, h.2⟩

/-- An index from 128 on has no index of its own after the byte that completed it. -/
theorem lookup_again {lastChar c : UInt8} (hc : 128 ≤ c.toNat ∧ Between c)
    (hindex : 128 ≤ (defaultFontTableLookup lastChar c).1.toNat) :
    defaultFontTableLookup c (defaultFontTableLookup lastChar c).1 =
      (0, (defaultFontTableLookup lastChar c).1) := by
  refine lookup_nothing hindex hc.2.1 hc.2.2 ?_
  rintro ⟨hlast, heuro⟩
  obtain rfl : c = 0x82 := UInt8.toNat_inj.mp hlast
  revert heuro
  rw [defaultFontTableLookup, if_neg (by decide)]
  split
  · decide
  split
  · decide
  · rw [if_neg fun heq => absurd heq.2 (by decide)]
    decide

/-- A byte that completes an index from 128 on is stored as the index where there is room, and
drops the first line where there is none. -/
theorem write_high {b : LogBuffer} (h : b.Sound) {c : UInt8} (hc : 128 ≤ c.toNat ∧ Between c)
    {index : UInt8} (hfound : (defaultFontTableLookup b.lastChar c).1 = index)
    (hindex : 128 ≤ index.toNat) :
    b.write 2 c = some
      (if b.Room then { b.store index with lastChar := c }
      else { b.dropFirstLine with lastChar := index }) := by
  subst hfound
  have hreturn : c ≠ 13 := fun heq => absurd (heq ▸ hc.1) (by decide)
  have hzero : (defaultFontTableLookup b.lastChar c).1 ≠ 0 := fun heq =>
    absurd (heq ▸ hindex) (by decide)
  have hreturn' : (defaultFontTableLookup b.lastChar c).1 ≠ 13 := fun heq =>
    absurd (heq ▸ hindex) (by decide)
  by_cases hroom : b.Room
  · rw [write_room h 1 hreturn hzero hroom, if_pos hroom, lookup_high _ hc.1]
  · have hagain := lookup_again hc hindex
    rw [write_full h 1 hreturn hzero hroom, if_neg hroom, lookup_high _ hc.1,
      write_nothing (h.drop_first_line.1.with_last_char c) 0 hreturn' (congrArg Prod.fst hagain)]
    simp only [hagain]

/-- The encoding of a character of ASCII. -/
theorem utf8_encode_ascii {c : Char} (h : c.toNat < 128) :
    String.utf8EncodeChar c = [UInt8.ofNat c.toNat] := by
  simp only [String.utf8EncodeChar]
  exact if_pos (Nat.le_of_lt_succ h)

/-- Only the byte of the carriage return is 13. -/
theorem byte_ne_return {c : Char} (h : c.toNat < 128) (hreturn : c ≠ '\r') :
    UInt8.ofNat c.toNat ≠ 13 := fun heq => by
  have hvalue : (UInt8.ofNat c.toNat).toNat = c.toNat := to_nat_of_nat (by omega)
  have hcode : c.toNat = 13 := hvalue.symm.trans (congrArg UInt8.toNat heq)
  exact hreturn (Char.toNat_inj.mp hcode)

/-- The encoding of a character of several bytes: a byte that begins it and bytes in the
middle. -/
theorem utf8_encode_several {c : Char} (h : 128 ≤ c.toNat) :
    ∃ lead rest, String.utf8EncodeChar c = lead :: rest ∧ 0xC0 ≤ lead.toNat ∧ rest ≠ [] ∧
      (c.toNat < 256 → rest.length = 1) ∧
      ∀ d ∈ rest, 128 ≤ d.toNat ∧ d.toNat < 0xC0 := by
  have hcode : c.toNat = c.val.toNat := rfl
  rw [hcode] at h ⊢
  simp only [String.utf8EncodeChar]
  have hlead : ∀ n, 0xC0 ≤ n ∧ n < 256 → 0xC0 ≤ (UInt8.ofNat n).toNat := fun n hn => by
    rw [to_nat_of_nat hn.2]
    exact hn.1
  have hmiddle : ∀ n < 64, 128 ≤ (UInt8.ofNat (n + 128)).toNat ∧
      (UInt8.ofNat (n + 128)).toNat < 0xC0 := fun n hn => by
    rw [to_nat_of_nat (by omega)]
    omega
  have hmod : ∀ n, n % 64 < 64 := fun n => Nat.mod_lt n (by decide)
  generalize c.val.toNat = v at h
  rw [if_neg (by omega)]
  split
  · refine ⟨_, _, rfl, hlead _ (by omega), List.cons_ne_nil _ _, fun _ => rfl, ?_⟩
    exact List.forall_mem_singleton.mpr (hmiddle _ (hmod v))
  split
  · refine ⟨_, _, rfl, hlead _ (by omega), List.cons_ne_nil _ _, fun hlt => by omega, ?_⟩
    exact List.forall_mem_cons.mpr
      ⟨hmiddle _ (hmod _), List.forall_mem_singleton.mpr (hmiddle _ (hmod v))⟩
  · refine ⟨_, _, rfl, hlead _ (by omega), List.cons_ne_nil _ _, fun hlt => by omega, ?_⟩
    exact List.forall_mem_cons.mpr ⟨hmiddle _ (hmod _), List.forall_mem_cons.mpr
      ⟨hmiddle _ (hmod _), List.forall_mem_singleton.mpr (hmiddle _ (hmod v))⟩⟩

/-- A character of several bytes has no index, or its code in Latin-1, or the place of the euro
sign. -/
theorem font_index_several {c : Char} (h : 128 ≤ c.toNat) :
    fontIndex c = [] ∨ ∃ index, fontIndex c = [index] ∧ 128 ≤ index.toNat ∧
      (c.toNat < 256 ∧ index.toNat = c.toNat ∨ index = 0x80) := by
  unfold fontIndex
  rw [if_neg (by omega)]
  split
  · have hvalue : (UInt8.ofNat c.toNat).toNat = c.toNat := to_nat_of_nat ‹_›
    exact .inr ⟨_, rfl, hvalue.symm ▸ h, .inl ⟨‹_›, hvalue⟩⟩
  split
  · exact .inr ⟨_, rfl, by decide, .inr rfl⟩
  · exact .inl rfl

/-- A byte of ASCII is written as its character. -/
theorem write_string_ascii {b : LogBuffer} (h : b.Sound) (hlast : Between b.lastChar) {c : Char}
    (hc : c.toNat < 128) :
    ∃ lastChar, Between lastChar ∧
      b.writeString (String.utf8EncodeChar c) = some { b.putChar c with lastChar := lastChar } := by
  have hvalue : (UInt8.ofNat c.toNat).toNat = c.toNat := to_nat_of_nat (by omega)
  have hwrite : b.writeString [UInt8.ofNat c.toNat] = b.write 2 (UInt8.ofNat c.toNat) := by
    rw [write_string_cons]
    exact Option.bind_fun_some _
  have hbetween : Between 0 := ⟨by decide, by decide⟩
  rw [utf8_encode_ascii hc, hwrite]
  by_cases hreturn : c = '\r'
  · subst hreturn
    refine ⟨b.lastChar, hlast, ?_⟩
    simp [write, putChar]
  have hreturn' := byte_ne_return hc hreturn
  rw [putChar, if_neg hreturn, fontIndex]
  by_cases hzero : c.toNat = 0
  · rw [if_pos hzero, hzero]
    exact ⟨0, hbetween, write_nothing h 1 (by decide) rfl⟩
  · have hzero' : UInt8.ofNat c.toNat ≠ 0 := fun heq => hzero (hvalue.symm.trans (heq ▸ rfl))
    rw [if_neg hzero, if_pos (by omega)]
    simp only [hvalue, if_pos hc]
    exact ⟨0, hbetween, write_ascii h (by omega) hzero' hreturn'⟩

/-- Bytes that complete nothing complete nothing after the index of the euro sign either. -/
theorem lookup_text_after_euro {lastChar : UInt8} {str : List UInt8}
    (hhigh : ∀ c ∈ str, 128 ≤ c.toNat) (h : lookupText lastChar str = []) :
    lookupText 0x80 str = [] := by
  cases str with
  | nil => rfl
  | cons c str =>
      rw [List.forall_mem_cons] at hhigh
      rw [lookup_text_cons, List.append_eq_nil_iff, lookup_high _ hhigh.1] at h
      rw [lookup_text_cons,
        lookup_nothing hhigh.1 (by decide) (by decide) (fun heq => absurd heq.1 (by decide)), h.2]
      rfl

/-- Every character but two of Latin-1 is written as a whole: the byte that its loss leaves behind
would make up an index with the next one. -/
theorem write_string_char {b : LogBuffer} (h : b.Sound) (hlast : Between b.lastChar) {c : Char}
    (hc : c ≠ 'Â' ∧ c ≠ 'Ã') :
    ∃ lastChar, Between lastChar ∧
      b.writeString (String.utf8EncodeChar c) = some { b.putChar c with lastChar := lastChar } := by
  by_cases hascii : c.toNat < 128
  · exact write_string_ascii h hlast hascii
  have hseveral : 128 ≤ c.toNat := Nat.not_lt.mp hascii
  have hreturn : c ≠ '\r' := fun heq => hascii (heq ▸ by decide)
  have htext := lookup_text_utf8 hlast [c]
  simp only [List.flatMap_cons, List.flatMap_nil, List.append_nil] at htext
  obtain ⟨lead, rest, hencode, hlead, hrest, hlength, hmiddle⟩ := utf8_encode_several hseveral
  rw [hencode] at htext ⊢
  have hhigh : ∀ d ∈ lead :: rest, 128 ≤ d.toNat :=
    List.forall_mem_cons.mpr ⟨by omega, fun d hd => (hmiddle d hd).1⟩
  have hbetween : ∀ d ∈ rest, Between d := fun d hd => by
    have hrange := hmiddle d hd
    exact ⟨by omega, by omega⟩
  rw [putChar, if_neg hreturn]
  rcases font_index_several hseveral with hnone | ⟨index, hsome, hindex, hkind⟩
  · rw [hnone] at htext ⊢
    refine ⟨(lead :: rest).getLastD b.lastChar, ?_, write_string_silent h hhigh htext⟩
    rw [List.getLastD_cons]
    rw [List.getLastD_eq_getLast?, List.getLast?_eq_some_getLast hrest]
    exact hbetween _ (List.getLast_mem hrest)
  · rw [hsome] at htext ⊢
    obtain ⟨before, d, after, hsplit, hbefore, hfound, hafter⟩ := lookup_text_split hhigh htext
    cases before with
    | nil =>
        obtain ⟨rfl, rfl⟩ := List.cons.inj hsplit
        have hnothing := lookup_nothing (hhigh lead (by simp)) hlast.1 hlast.2
          (fun heuro => by omega)
        rw [List.getLastD_nil, hnothing] at hfound
        rw [← hfound] at hindex
        exact absurd hindex (Nat.not_succ_le_zero 127)
    | cons first before =>
        rw [List.cons_append, List.cons.injEq] at hsplit
        obtain ⟨rfl, rfl⟩ := hsplit
        have hd : 128 ≤ d.toNat ∧ Between d :=
          ⟨(hmiddle d (by simp)).1, hbetween d (by simp)⟩
        have hafterHigh : ∀ e ∈ after, 128 ≤ e.toNat := fun e he => (hmiddle e (by simp [he])).1
        have hend : ∀ last, Between last → Between (after.getLastD last) := fun last hbase => by
          rcases List.mem_cons.mp List.getLastD_mem_cons with heq | hmem
          · exact heq ▸ hbase
          · exact hbetween _ (List.mem_append_right _ (List.mem_cons_of_mem d hmem))
        have hsound := h.with_last_char ((lead :: before).getLastD b.lastChar)
        have hwrite : write 2 d { b with lastChar := (lead :: before).getLastD b.lastChar } = some
            (if b.Room then { b.store index with lastChar := d }
            else { b.dropFirstLine with lastChar := index }) :=
          write_high hsound hd hfound hindex
        rw [← List.cons_append, write_string_append, write_string_silent h (fun e he => hhigh e
          (List.cons_append ▸ List.mem_append_left _ he)) hbefore,
          Option.bind_some, write_string_cons, hwrite, Option.bind_some]
        simp only [if_neg (Nat.not_lt.mpr hindex)]
        by_cases hroom : b.Room
        · rw [if_pos hroom, if_pos hroom]
          exact ⟨_, hend d hd.2, write_string_silent
            ((hsound.store hroom index).with_last_char d) hafterHigh hafter⟩
        · rw [if_neg hroom, if_neg hroom]
          have hsilent : lookupText index after = [] := by
            rcases hkind with ⟨hlatin, -⟩ | rfl
            · have hone := hlength hlatin
              rw [List.length_append, List.length_cons] at hone
              rw [List.eq_nil_of_length_eq_zero (by omega : after.length = 0)]
              rfl
            · exact lookup_text_after_euro hafterHigh hafter
          have hindexBetween : Between index := by
            rcases hkind with ⟨-, hvalue⟩ | rfl
            · rw [Between, hvalue]
              exact ⟨fun heq => hc.1 (Char.toNat_inj.mp heq),
                fun heq => hc.2 (Char.toNat_inj.mp heq)⟩
            · exact ⟨by decide, by decide⟩
          exact ⟨_, hend index hindexBetween, write_string_silent
            (hsound.drop_first_line.1.with_last_char index) hafterHigh hsilent⟩

/-- Characters do not depend on `LASTCHAR`. -/
theorem put_char_with_last_char (b : LogBuffer) (lastChar : UInt8) (c : Char) :
    putChar { b with lastChar := lastChar } c = { b.putChar c with lastChar := lastChar } := by
  simp only [putChar, push]
  split
  · rfl
  split
  · rfl
  split
  · by_cases hroom : b.Room
    · rw [if_pos hroom, if_pos (show Room { b with lastChar := lastChar } from hroom)]
      rfl
    · rw [if_neg hroom, if_neg (show ¬ Room { b with lastChar := lastChar } from hroom)]
      rfl
  · by_cases hroom : b.Room
    · rw [if_pos hroom, if_pos (show Room { b with lastChar := lastChar } from hroom)]
      rfl
    · rw [if_neg hroom, if_neg (show ¬ Room { b with lastChar := lastChar } from hroom)]
      rfl

/-- Nor does a text. -/
theorem put_chars_with_last_char (b : LogBuffer) (lastChar : UInt8) (text : List Char) :
    text.foldl putChar { b with lastChar := lastChar } =
      { text.foldl putChar b with lastChar := lastChar } := by
  induction text generalizing b with
  | nil => rfl
  | cons c text ih => rw [List.foldl_cons, put_char_with_last_char, ih, List.foldl_cons]

/-- `OLEDDisplay_write` keeps a log buffer in use through a whole string, whatever the string is. -/
theorem write_string_sound {b : LogBuffer} (h : b.Sound) (str : List UInt8) :
    ∃ next, b.writeString str = some next ∧ next.Sound := by
  induction str generalizing b with
  | nil => exact ⟨b, rfl, h⟩
  | cons c str ih =>
      obtain ⟨next, hnext, hwrote⟩ := write_wrote h c
      rw [write_string_cons, hnext]
      exact ih hwrote.sound

/-- A log buffer of one line and three bytes that is full. -/
def fullLog : LogBuffer where
  logBuffer := .allocated
  text := ascii "abc"
  logBufferLine := 0
  logBufferMaxLines := 1
  logBufferSize := 3
  lastChar := 0

/-- Where there is room for all of a string it is stored behind the text. -/
theorem write_string_room {b : LogBuffer} (h : b.Sound) (str : List UInt8)
    (hsize : b.text.length + (lookupText b.lastChar (str.filter (· ≠ 13))).length ≤
      b.logBufferSize)
    (hlines : b.logBufferLine + (lookupText b.lastChar (str.filter (· ≠ 13))).count newline <
      b.logBufferMaxLines) :
    ∃ next, b.writeString str = some next ∧
      next.text = b.text ++ lookupText b.lastChar (str.filter (· ≠ 13)) := by
  induction str generalizing b with
  | nil => exact ⟨b, rfl, (List.append_nil _).symm⟩
  | cons c str ih =>
      rw [write_string_cons]
      by_cases hreturn : c = 13
      · rw [List.filter_cons_of_neg (by simp [hreturn])] at hsize hlines ⊢
        have hskip : b.write 2 c = some b := by simp [write, hreturn]
        rw [hskip]
        exact ih h hsize hlines
      rw [List.filter_cons_of_pos (by simp [hreturn]), lookup_text_cons] at hsize hlines ⊢
      by_cases hfound : (defaultFontTableLookup b.lastChar c).1 = 0
      · rw [if_pos hfound, List.nil_append] at hsize hlines ⊢
        rw [write_nothing h 1 hreturn hfound]
        exact ih (h.with_last_char _) hsize hlines
      · rw [if_neg hfound, List.singleton_append] at hsize hlines ⊢
        rw [List.length_cons] at hsize
        rw [List.count_cons] at hlines
        have hroom : b.Room := ⟨by omega, by omega⟩
        rw [write_room h 1 hreturn hfound hroom]
        have hsound := (h.store hroom (defaultFontTableLookup b.lastChar c).1).with_last_char
          (defaultFontTableLookup b.lastChar c).2
        obtain ⟨next, hnext, htext⟩ := ih hsound
          (by simp only [store, List.length_append, List.length_singleton]; omega)
          (by
            simp only [beq_iff_eq] at hlines
            simp only [store]
            split at hlines
            · rw [if_pos ‹_›]
              omega
            · rw [if_neg ‹_›]
              omega)
        exact ⟨next, hnext, by rw [htext, store, List.append_assoc, List.singleton_append]⟩

/-- Only the carriage return has its byte in its encoding. -/
theorem utf8_filter_return (text : List Char) :
    (text.flatMap String.utf8EncodeChar).filter (· ≠ 13) =
      (text.filter (· ≠ '\r')).flatMap String.utf8EncodeChar := by
  induction text with
  | nil => rfl
  | cons c text ih =>
      rw [List.flatMap_cons, List.filter_append, ih]
      by_cases hreturn : c = '\r'
      · subst hreturn
        rw [List.filter_cons_of_neg (by simp)]
        rfl
      · rw [List.filter_cons_of_pos (by simp [hreturn]), List.flatMap_cons]
        congr 1
        rw [List.filter_eq_self]
        by_cases hascii : c.toNat < 128
        · rw [utf8_encode_ascii hascii]
          exact List.forall_mem_singleton.mpr (decide_eq_true (byte_ne_return hascii hreturn))
        · obtain ⟨lead, rest, hencode, hlead, -, -, hmiddle⟩ :=
            utf8_encode_several (Nat.not_lt.mp hascii)
          rw [hencode]
          refine List.forall_mem_cons.mpr ⟨?_, fun d hd => ?_⟩
          · exact decide_eq_true fun heq => absurd (heq ▸ hlead) (by decide)
          · exact decide_eq_true fun heq => absurd (heq ▸ (hmiddle d hd).1) (by decide)

/-- An empty log buffer of two lines and eight bytes. -/
def emptyLog : LogBuffer where
  logBuffer := .allocated
  text := []
  logBufferLine := 0
  logBufferMaxLines := 2
  logBufferSize := 8
  lastChar := 0

/-- A call for the log buffer. -/
inductive Call where
  | setLogBuffer (lines chars : Nat)
  | writeString (str : List UInt8)
  deriving DecidableEq, Repr

/-- What a call does where every `malloc` succeeds. -/
def Call.run (b : LogBuffer) : Call → Option LogBuffer
  | .setLogBuffer lines chars => b.setLogBuffer lines chars true
  | .writeString str => b.writeString str

/-- A call that does not leave `logBuffer` pointing to a block that was freed: the product of the
lines and the characters is an `int` that is not zero as a `uint16_t`. -/
def Call.safe : Call → Prop
  | .setLogBuffer lines chars => lines * chars < 2 ^ 31 ∧ 0 < lines * chars % 65536
  | .writeString _ => True

/-- What was written since the last `OLEDDisplay_setLogBuffer`, without carriage returns. -/
def written (history : List UInt8) : Call → List UInt8
  | .setLogBuffer _ _ => []
  | .writeString str => history ++ str.filter (· ≠ 13)

/-- A byte that is its own index. -/
def plain (c : UInt8) : Prop := c.toNat < 128 ∧ c ≠ 0

/-- A call writes plain bytes only. -/
def Call.plain : Call → Prop
  | .setLogBuffer _ _ => True
  | .writeString str => ∀ c ∈ str, LogBuffer.plain c

/-- The text is the end of what was written, the byte that was written last included. -/
def Ends (b : LogBuffer) (history : List UInt8) : Prop :=
  b.text <:+ history ∧ (history ≠ [] → b.text ≠ [])

/-- The end of a text with one byte more. -/
theorem Ends.snoc {b next : LogBuffer} {history kept : List UInt8} {c : UInt8}
    (h : b.Ends history) (hkept : kept <:+ b.text) (htext : next.text = kept ++ [c]) :
    next.Ends (history ++ [c]) := by
  rw [Ends, htext]
  refine ⟨?_, fun _ => by simp⟩
  obtain ⟨dropped, hdropped⟩ := hkept.trans h.1
  exact ⟨dropped, by rw [← hdropped, List.append_assoc]⟩

/-- `OLEDDisplay_writeString` with a plain string keeps the end of what was written. -/
theorem write_string_ends {b next : LogBuffer} (h : b.Sound) {str history : List UInt8}
    (hplain : ∀ c ∈ str, plain c) (hends : b.Ends history)
    (hnext : b.writeString str = some next) : next.Ends (history ++ str.filter (· ≠ 13)) := by
  induction str generalizing b history with
  | nil =>
      obtain rfl := Option.some.inj hnext
      simpa using hends
  | cons c str ih =>
      rw [List.forall_mem_cons] at hplain
      rw [writeString, List.foldlM_cons] at hnext
      by_cases hreturn : c = 13
      · have hskip : b.write 2 c = some b := by simp [write, hreturn]
        rw [hskip] at hnext
        rw [List.filter_cons_of_neg (by simp [hreturn])]
        exact ih h hplain.2 hends hnext
      · obtain ⟨kept, hkept, htext⟩ := h.push_text c
        rw [write_ascii h hplain.1.1 hplain.1.2 hreturn] at hnext
        rw [List.filter_cons_of_pos (by simp [hreturn])]
        have hfinal :=
          ih ((h.push c).with_last_char 0) hplain.2 (hends.snoc hkept htext) hnext
        rwa [List.append_assoc] at hfinal

/-- Before the first `OLEDDisplay_setLogBuffer` nothing is stored. -/
theorem write_string_unused {b : LogBuffer} (h : b.logBufferSize = 0) (str : List UInt8) :
    b.writeString str = some b := by
  induction str with
  | nil => rfl
  | cons c str ih =>
      rw [writeString, List.foldlM_cons, write, if_pos h]
      exact ih

/-- What holds after some calls: nothing was allocated yet and nothing is stored, or the log buffer
is in use, and if only plain bytes were written it holds the end of them. -/
structure Kept (calls : List Call) (b : LogBuffer) : Prop where
  usable : b = start ∨ b.Sound
  ends : (∀ call ∈ calls, call.plain) → b ≠ start → b.Ends (calls.foldl written [])

/-- `OLEDDisplay_setLogBuffer` starts an empty log buffer. -/
theorem set_log_buffer_sound {b : LogBuffer} (h : b = start ∨ b.Sound) {lines chars : Nat}
    (hsafe : (Call.setLogBuffer lines chars).safe) :
    ∃ next, b.setLogBuffer lines chars true = some next ∧ next.Sound ∧ next.text = [] := by
  have hfreed : b.logBuffer ≠ .freed := by
    rcases h with rfl | h
    · decide
    · rw [h.allocated]
      decide
  obtain ⟨hint, hsize⟩ := hsafe
  have hroom : 0 < lines := by
    rcases Nat.eq_zero_or_pos lines with rfl | hpos
    · rw [Nat.zero_mul] at hsize
      exact absurd hsize (by decide)
    · exact hpos
  refine ⟨_, (if_neg (not_or_intro hfreed (Nat.not_le.mpr hint))).trans (if_pos hsize), ?_, rfl⟩
  exact ⟨rfl, ⟨hsize, Nat.mod_lt _ (by decide)⟩, Nat.zero_le _, Nat.zero_le _, Nat.zero_le _, hroom⟩

/-- A call keeps what holds. -/
theorem Kept.run {calls : List Call} {b : LogBuffer} (h : Kept calls b) {call : Call}
    (hsafe : call.safe) : ∃ next, call.run b = some next ∧ Kept (calls ++ [call]) next := by
  cases call with
  | setLogBuffer lines chars =>
      obtain ⟨next, hnext, hsound, hempty⟩ := set_log_buffer_sound h.usable hsafe
      refine ⟨next, hnext, .inr hsound, fun _ _ => ?_⟩
      rw [List.foldl_append, Ends, hempty]
      exact ⟨List.nil_suffix, fun hne => absurd rfl hne⟩
  | writeString str =>
      rcases h.usable with rfl | hused
      · exact ⟨start, write_string_unused rfl str, .inl rfl, fun _ hne => absurd rfl hne⟩
      · obtain ⟨next, hnext, hsound⟩ := write_string_sound hused str
        refine ⟨next, hnext, .inr hsound, fun hplain _ => ?_⟩
        have hne : b ≠ start := by
          rintro rfl
          exact absurd hused.allocated (by decide)
        rw [List.foldl_append]
        refine write_string_ends hused (hplain (.writeString str) (by simp)) (h.ends ?_ hne) hnext
        exact fun call hcall => hplain call (List.mem_append_left _ hcall)

/-- Three lines for a buffer of two lines and eight bytes. -/
def threeLines : List Call :=
  [.setLogBuffer 2 4, .writeString (ascii "one\r\n"), .writeString (ascii "two\n"),
    .writeString (ascii "three")]

end LogBuffer

end SaiyuanClock
