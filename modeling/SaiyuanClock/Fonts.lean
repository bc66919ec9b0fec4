import SaiyuanClock.Lettering

/-!
# The fonts of the clock

`OLEDDisplayFonts.c` holds three fonts. The header and the jump table of each are given here as
they stand there, and the bytes of the glyphs are left open: whatever the glyphs look like, the
three fonts are well formed.
-/

namespace SaiyuanClock

/-- A font without its glyphs: the four bytes of the header, every entry of the jump table as one
number of four bytes with the first byte first, and how many bytes of glyphs follow. -/
structure FontTable where
  width : UInt8
  height : UInt8
  firstChar : UInt8
  numberOfChars : UInt8
  jumpTable : List Nat
  dataSize : Nat

namespace FontTable

/-- The bytes of an entry of the jump table. -/
def entryBytes (entry : Nat) : List UInt8 :=
  [byteOf (entry / 2 ^ 24), byteOf (entry / 2 ^ 16), byteOf (entry / 2 ^ 8), byteOf entry]

/-- The bytes of a font with the given glyphs. -/
def bytes (table : FontTable) (glyphs : List UInt8) : List UInt8 :=
  [table.width, table.height, table.firstChar, table.numberOfChars] ++
    (table.jumpTable.flatMap entryBytes ++ glyphs)

/-- What `OLEDDisplay_drawStringInternal` makes of an entry of the jump table. -/
def entry (entry : Nat) : Entry where
  address :=
    if entry / 2 ^ 24 % 256 = 255 ∧ entry / 2 ^ 16 % 256 = 255 then none
    else some (entry / 2 ^ 24 % 256 * 256 + entry / 2 ^ 16 % 256)
  size := entry / 2 ^ 8 % 256
  width := entry % 256

/-- The glyph of an entry fills no more than its columns and ends within the bytes of the glyphs. -/
def EntryFits (table : FontTable) (entry : Entry) : Prop :=
  ∀ address ∈ entry.address,
    entry.size ≤ entry.width * rasterHeight table.height.toNat ∧
      address + imageSize entry.width table.height.toNat entry.size ≤ table.dataSize

/-- The jump table has as many entries as the header says, one for every character from the first
one on, and all glyphs fit. -/
structure Consistent (table : FontTable) : Prop where
  height_pos : 0 < table.height.toNat
  length_eq : table.jumpTable.length = table.numberOfChars.toNat
  length_ge : 256 - table.firstChar.toNat ≤ table.numberOfChars.toNat
  size_le : 4 + table.numberOfChars.toNat * 4 + table.dataSize < 65536
  entries : ∀ row ∈ table.jumpTable, table.EntryFits (entry row)

/-- Whether a glyph fits is decidable. -/
instance (table : FontTable) (entry : Entry) : Decidable (table.EntryFits entry) :=
  inferInstanceAs (Decidable (∀ address ∈ entry.address, _))

/-- Whether a table is consistent is decidable. -/
instance (table : FontTable) : Decidable table.Consistent :=
  decidable_of_iff
    (0 < table.height.toNat ∧ table.jumpTable.length = table.numberOfChars.toNat ∧
      256 - table.firstChar.toNat ≤ table.numberOfChars.toNat ∧
      4 + table.numberOfChars.toNat * 4 + table.dataSize < 65536 ∧
      ∀ row ∈ table.jumpTable, table.EntryFits (entry row))
    ⟨fun ⟨hheight, hlength, hchars, hsize, hentries⟩ => ⟨hheight, hlength, hchars, hsize, hentries⟩,
      fun h => ⟨h.height_pos, h.length_eq, h.length_ge, h.size_le, h.entries⟩⟩

/-- In a table of records of four bytes each, a byte is found by its record. -/
theorem get_entry_bytes (entries : List Nat) (rest : List UInt8) {i k : Nat}
    (hi : i < entries.length) (hk : k < 4) :
    (entries.flatMap entryBytes ++ rest)[i * 4 + k]? = (entryBytes entries[i])[k]? := by
  induction entries generalizing i with
  | nil => exact absurd hi (Nat.not_lt_zero i)
  | cons first entries ih =>
      rw [List.flatMap_cons, List.append_assoc]
      cases i with
      | zero =>
          have hlt : 0 * 4 + k < (entryBytes first).length := by simpa [entryBytes] using hk
          rw [List.getElem?_append_left hlt, Nat.zero_mul, Nat.zero_add]
          rfl
      | succ i =>
          have hle : (entryBytes first).length ≤ (i + 1) * 4 + k := by
            simp only [entryBytes, List.length_cons, List.length_nil]
            omega
          have hrest : (i + 1) * 4 + k - (entryBytes first).length = i * 4 + k := by
            simp only [entryBytes, List.length_cons, List.length_nil]
            omega
          rw [List.getElem?_append_right hle, hrest]
          exact ih (Nat.lt_of_succ_lt_succ hi)

variable (table : FontTable) (glyphs : List UInt8)

/-- The bytes of a font are its header, its jump table and its glyphs. -/
theorem length_bytes :
    (table.bytes glyphs).length = 4 + table.jumpTable.length * 4 + glyphs.length := by
  simp [bytes, entryBytes, List.length_flatMap]
  omega

/-- A byte of the jump table is read from its entry. -/
theorem read_byte_bytes {i k : Nat} (hi : i < table.jumpTable.length) (hk : k < 4) :
    readByte (table.bytes glyphs) (4 + i * 4 + k) =
      (entryBytes table.jumpTable[i])[k]?.map UInt8.toNat := by
  have hindex : (4 + (i : Int) * 4 + k).toNat = i * 4 + k + 4 := by omega
  rw [readByte, if_pos (by omega), hindex, ← get_entry_bytes table.jumpTable glyphs hi hk]
  rfl

/-- The entry that is read for a character is the one of the jump table. -/
theorem read_entry_bytes {i : Nat} (hi : i < table.jumpTable.length) :
    readEntry (table.bytes glyphs) i = some (entry table.jumpTable[i]) := by
  have hread0 := table.read_byte_bytes glyphs hi (k := 0) (by decide)
  have hread1 := table.read_byte_bytes glyphs hi (k := 1) (by decide)
  have hread2 := table.read_byte_bytes glyphs hi (k := 2) (by decide)
  have hread3 := table.read_byte_bytes glyphs hi (k := 3) (by decide)
  simp only [Nat.cast_zero, Int.add_zero, Nat.cast_one,
    Nat.cast_ofNat] at hread0 hread1 hread2 hread3
  simp [readEntry, hread0, hread1, hread2, hread3, entryBytes, entry, byteOf]

/-- With a consistent table, glyphs of any look make a well-formed font. -/
theorem Consistent.fits (h : table.Consistent) (hglyphs : glyphs.length = table.dataSize) :
    FontFits (table.bytes glyphs) := by
  have hlength := table.length_bytes glyphs
  have hstart : glyphStart (table.bytes glyphs) = 4 + table.jumpTable.length * 4 :=
    congrArg (4 + · * 4) h.length_eq.symm
  have hfirst : SaiyuanClock.firstChar (table.bytes glyphs) = table.firstChar.toNat := rfl
  have hheight : fontHeight (table.bytes glyphs) = table.height.toNat := rfl
  have hchars := h.length_eq
  have hge := h.length_ge
  have hsize := h.size_le
  refine ⟨h.height_pos, by omega, by omega, fun charCode hcode found hfound address haddress => ?_⟩
  have hi : charCode < table.jumpTable.length := by omega
  rw [table.read_entry_bytes glyphs hi] at hfound
  obtain rfl := Option.some.inj hfound
  obtain ⟨hbytes, hend⟩ := h.entries _ (List.getElem_mem hi) address haddress
  have hwidth : (entry table.jumpTable[charCode]).width < 256 := Nat.mod_lt _ (by decide)
  have hlt := UInt8.toNat_lt table.height
  rw [hstart, hheight]
  refine ⟨by omega, ⟨by omega, by omega⟩, ⟨?_, by omega⟩, ?_, by omega⟩
  · exact Int.natCast_pos.mpr h.height_pos
  · rw [← Int.natCast_mul]
    exact Int.ofNat_le.mpr hbytes

/-- The font with the given glyphs. -/
def font (h : table.Consistent) (hglyphs : glyphs.length = table.dataSize) : Font :=
  ⟨table.bytes glyphs, h.fits table glyphs hglyphs⟩

end FontTable

/-! ## `OLEDDisplayFonts.c` -/

/-- The header and the jump table of `ArialMT_Plain_10`. -/
def arialMTPlain10 : FontTable where
  width := 0x0A
  height := 0x0D
  firstChar := 0x20
  numberOfChars := 0xE0
  jumpTable :=
    [0xFFFF0003, 0x00000403, 0x00040504, 0x00090906, 0x00120A06, 0x001C1009, 0x002C0E07, 0x003A0102,
     0x003B0603, 0x00410603, 0x00470504, 0x004C0906, 0x00550403, 0x00590303, 0x005C0403, 0x00600503,
     0x00650A06, 0x006F0806, 0x00770A06, 0x00810A06, 0x008B0B06, 0x00960A06, 0x00A00A06, 0x00AA0906,
     0x00B30A06, 0x00BD0A06, 0x00C70403, 0x00CB0403, 0x00CF0A06, 0x00D90906, 0x00E20906, 0x00EB0B06,
     0x00F6140A, 0x010A0E07, 0x01180C07, 0x01240C07, 0x01300B07, 0x013B0C07, 0x01470906, 0x01500D08,
     0x015D0C07, 0x01690403, 0x016D0805, 0x01750E07, 0x01830C06, 0x018F1008, 0x019F0C07, 0x01AB0E08,
     0x01B90B07, 0x01C40E08, 0x01D20C07, 0x01DE0C07, 0x01EA0B06, 0x01F50C07, 0x02010D07, 0x020E1109,
     0x021F0E07, 0x022D0D07, 0x023A0C06, 0x02460603, 0x024C0603, 0x02520403, 0x02560905, 0x025F0C06,
     0x026B0303, 0x026E0A06, 0x02780A06, 0x02820A05, 0x028C0A06, 0x02960A06, 0x02A00503, 0x02A50A06,
     0x02AF0A06, 0x02B90402, 0x02BD0402, 0x02C10805, 0x02C90402, 0x02CD1008, 0x02DD0A06, 0x02E70A06,
     0x02F10A06, 0x02FB0A06, 0x03050503, 0x030A0805, 0x03120603, 0x03180A06, 0x03220905, 0x032B0E07,
     0x03390A05, 0x03430905, 0x034C0A05, 0x03560603, 0x035C0403, 0x03600503, 0x03650906, 0xFFFF0000,
     0xFFFF000A, 0xFFFF000A, 0xFFFF000A, 0xFFFF000A, 0xFFFF000A, 0xFFFF000A, 0xFFFF000A, 0xFFFF000A,
     0xFFFF000A, 0xFFFF000A, 0xFFFF000A, 0xFFFF000A, 0xFFFF000A, 0xFFFF000A, 0xFFFF000A, 0xFFFF000A,
     0xFFFF000A, 0xFFFF000A, 0xFFFF000A, 0xFFFF000A, 0xFFFF000A, 0xFFFF000A, 0xFFFF000A, 0xFFFF000A,
     0xFFFF000A, 0xFFFF000A, 0xFFFF000A, 0xFFFF000A, 0xFFFF000A, 0xFFFF000A, 0xFFFF000A, 0xFFFF000A,
     0xFFFF0003, 0x036E0403, 0x03720A06, 0x037C0C06, 0x03880A06, 0x03920A06, 0x039C0403, 0x03A00A06,
     0x03AA0503, 0x03AF0D07, 0x03BC0704, 0x03C30A06, 0x03CD0906, 0x03D60303, 0x03D90D07, 0x03E60B06,
     0x03F10704, 0x03F80A05, 0x04020503, 0x04070503, 0x040C0503, 0x04110A06, 0x041B0905, 0x04240303,
     0x04270603, 0x042D0503, 0x04320704, 0x04390A06, 0x04431008, 0x04531008, 0x04631008, 0x04730A06,
     0x047D0E07, 0x048B0E07, 0x04990E07, 0x04A70E07, 0x04B50E07, 0x04C30E07, 0x04D1120A, 0x04E30C07,
     0x04EF0C07, 0x04FB0C07, 0x05070C07, 0x05130C07, 0x051F0503, 0x05240403, 0x05280403, 0x052C0503,
     0x05310B07, 0x053C0C07, 0x05480E08, 0x05560E08, 0x05640E08, 0x05720E08, 0x05800E08, 0x058E0A06,
     0x05980D08, 0x05A50C07, 0x05B10C07, 0x05BD0C07, 0x05C90C07, 0x05D50D07, 0x05E20B07, 0x05ED0C06,
     0x05F90A06, 0x06030A06, 0x060D0A06, 0x06170A06, 0x06210A06, 0x062B0A06, 0x06351009, 0x06450A05,
     0x064F0A06, 0x06590A06, 0x06630A06, 0x066D0A06, 0x06770503, 0x067C0403, 0x06800503, 0x06850503,
     0x068A0A06, 0x06940A06, 0x069E0A06, 0x06A80A06, 0x06B20A06, 0x06BC0A06, 0x06C60A06, 0x06D00905,
     0x06D90A06, 0x06E30A06, 0x06ED0A06, 0x06F70A06, 0x07010A06, 0x070B0905, 0x07140A06, 0x071E0905]
  dataSize := 1831

/-- The header and the jump table of `ArialMT_Plain_16`. -/
def arialMTPlain16 : FontTable where
  width := 0x10
  height := 0x13
  firstChar := 0x20
  numberOfChars := 0xE0
  jumpTable :=
    [0xFFFF0004, 0x00000804, 0x00080D06, 0x00151A09, 0x002F1709, 0x0046260E, 0x006C1D0B, 0x00890403,
     0x008D0C05, 0x00990B05, 0x00A40D06, 0x00B11709, 0x00C80904, 0x00D10B05, 0x00DC0804, 0x00E40A04,
     0x00EE1709, 0x01051109, 0x01161709, 0x012D1709, 0x01441709, 0x015B1709, 0x01721709, 0x01891609,
     0x019F1709, 0x01B61709, 0x01CD0504, 0x01D20604, 0x01D81709, 0x01EF1709, 0x02061709, 0x021D1609,
     0x02332F10, 0x02621D0B, 0x027F1D0B, 0x029C200C, 0x02BC200C, 0x02DC1D0B, 0x02F9190A, 0x0312200C,
     0x03321D0C, 0x034F0504, 0x03541408, 0x03681D0B, 0x03851709, 0x039C230D, 0x03BF1D0C, 0x03DC200C,
     0x03FC1C0B, 0x0418200C, 0x04381D0C, 0x04551D0B, 0x0472190A, 0x048B1D0C, 0x04A81C0B, 0x04C42B0F,
     0x04EF200B, 0x050F190B, 0x05281A0A, 0x05420C04, 0x054E0B04, 0x05590904, 0x05621408, 0x05761B09,
     0x05910705, 0x05981709, 0x05AF1709, 0x05C61408, 0x05DA1709, 0x05F11709, 0x06080A04, 0x06121709,
     0x06291409, 0x063D0504, 0x06420604, 0x06481708, 0x065F0504, 0x0664230D, 0x06871409, 0x069B1709,
     0x06B21709, 0x06C91809, 0x06E10D05, 0x06EE1408, 0x07020B04, 0x070D1409, 0x07211308, 0x07341F0C,
     0x07531408, 0x07671308, 0x077A1408, 0x078E0F05, 0x079D0604, 0x07A30E05, 0x07B11709, 0xFFFF0000,
     0xFFFF0010, 0xFFFF0010, 0xFFFF0010, 0xFFFF0010, 0xFFFF0010, 0xFFFF0010, 0xFFFF0010, 0xFFFF0010,
     0xFFFF0010, 0xFFFF0010, 0xFFFF0010, 0xFFFF0010, 0xFFFF0010, 0xFFFF0010, 0xFFFF0010, 0xFFFF0010,
     0xFFFF0010, 0xFFFF0010, 0xFFFF0010, 0xFFFF0010, 0xFFFF0010, 0xFFFF0010, 0xFFFF0010, 0xFFFF0010,
     0xFFFF0010, 0xFFFF0010, 0xFFFF0010, 0xFFFF0010, 0xFFFF0010, 0xFFFF0010, 0xFFFF0010, 0xFFFF0010,
     0xFFFF0004, 0x07C80905, 0x07D11709, 0x07E81709, 0x07FF1409, 0x08131A09, 0x082D0604, 0x08331709,
     0x084A0705, 0x0851230C, 0x08740E06, 0x08821409, 0x08961709, 0x08AD0B05, 0x08B8230C, 0x08DB1909,
     0x08F40D06, 0x09011709, 0x09180E05, 0x09260D05, 0x09330A05, 0x093D1709, 0x09541909, 0x096D0805,
     0x09750C05, 0x09810B05, 0x098C0D06, 0x09991709, 0x09B0260D, 0x09D6260D, 0x09FC260D, 0x0A221A0A,
     0x0A3C1D0B, 0x0A591D0B, 0x0A761D0B, 0x0A931D0B, 0x0AB01D0B, 0x0ACD1D0B, 0x0AEA2C10, 0x0B16200C,
     0x0B361D0B, 0x0B531D0B, 0x0B701D0B, 0x0B8D1D0B, 0x0BAA0504, 0x0BAF0704, 0x0BB60A04, 0x0BC00704,
     0x0BC7200C, 0x0BE71D0C, 0x0C04200C, 0x0C24200C, 0x0C44200C, 0x0C64200C, 0x0C84200C, 0x0CA41709,
     0x0CBB200C, 0x0CDB1D0C, 0x0CF81D0C, 0x0D151D0C, 0x0D321D0C, 0x0D4F190B, 0x0D681D0B, 0x0D85170A,
     0x0D9C1709, 0x0DB31709, 0x0DCA1709, 0x0DE11709, 0x0DF81709, 0x0E0F1709, 0x0E26290E, 0x0E4F1408,
     0x0E631709, 0x0E7A1709, 0x0E911709, 0x0EA81709, 0x0EBF0504, 0x0EC40704, 0x0ECB0A04, 0x0ED50704,
     0x0EDC1709, 0x0EF31409, 0x0F071709, 0x0F1E1709, 0x0F351709, 0x0F4C1709, 0x0F631709, 0x0F7A1709,
     0x0F91170A, 0x0FA81409, 0x0FBC1409, 0x0FD01409, 0x0FE41409, 0x0FF81308, 0x100B1709, 0x10221308]
  dataSize := 4149

/-- The header and the jump table of `ArialMT_Plain_24`. -/
def arialMTPlain24 : FontTable where
  width := 0x18
  height := 0x1C
  firstChar := 0x20
  numberOfChars := 0xE0
  jumpTable :=
    [0xFFFF0007, 0x00001307, 0x00131A09, 0x002D330D, 0x00602F0D, 0x008F4F15, 0x00DE3B10, 0x01190A05,
     0x01231C08, 0x013F1B08, 0x015A2109, 0x017B320E, 0x01AD1007, 0x01BD1B08, 0x01D80F07, 0x01E71907,
     0x02002F0D, 0x022F230D, 0x02522F0D, 0x02812F0D, 0x02B02F0D, 0x02DF2F0D, 0x030E2F0D, 0x033D2D0D,
     0x036A2F0D, 0x03992F0D, 0x03C80F07, 0x03D71007, 0x03E72F0E, 0x04162F0E, 0x04452E0E, 0x04732E0D,
     0x04A15B18, 0x04FC3B10, 0x05373B10, 0x05723F11, 0x05B13F11, 0x05F03B10, 0x062B350F, 0x06604313,
     0x06A33B11, 0x06DE0F07, 0x06ED270C, 0x07143F10, 0x07532F0D, 0x07824314, 0x07C53B11, 0x08004713,
     0x08473A10, 0x08814713, 0x08C83F11, 0x09073B10, 0x0942350F, 0x09773B11, 0x09B23910, 0x09EB5917,
     0x0A443B10, 0x0A7F3D10, 0x0ABC370F, 0x0AF31407, 0x0B071B07, 0x0B221807, 0x0B3A2A0B, 0x0B64340D,
     0x0B981108, 0x0BA92F0D, 0x0BD8330D, 0x0C0B2B0C, 0x0C362F0D, 0x0C652F0D, 0x0C941A07, 0x0CAE2F0D,
     0x0CDD2F0D, 0x0D0C0F05, 0x0D1B1005, 0x0D2B2F0C, 0x0D5A0F05, 0x0D694714, 0x0DB02F0D, 0x0DDF2F0D,
     0x0E0E330D, 0x0E41300D, 0x0E711E08, 0x0E8F2B0C, 0x0EBA1B07, 0x0ED52F0D, 0x0F042A0C, 0x0F2E4211,
     0x0F702B0C, 0x0F9B2A0C, 0x0FC52B0C, 0x0FF01C08, 0x100C1006, 0x101C1B08, 0x1037320E, 0xFFFF0000,
     0xFFFF0018, 0xFFFF0018, 0xFFFF0018, 0xFFFF0018, 0xFFFF0018, 0xFFFF0018, 0xFFFF0018, 0xFFFF0018,
     0xFFFF0018, 0xFFFF0018, 0xFFFF0018, 0xFFFF0018, 0xFFFF0018, 0xFFFF0018, 0xFFFF0018, 0xFFFF0018,
     0xFFFF0018, 0xFFFF0018, 0xFFFF0018, 0xFFFF0018, 0xFFFF0018, 0xFFFF0018, 0xFFFF0018, 0xFFFF0018,
     0xFFFF0018, 0xFFFF0018, 0xFFFF0018, 0xFFFF0018, 0xFFFF0018, 0xFFFF0018, 0xFFFF0018, 0xFFFF0018,
     0xFFFF0007, 0x10691408, 0x107D2B0D, 0x10A82F0D, 0x10D7330D, 0x110A310D, 0x113B1006, 0x114B2F0D,
     0x117A1908, 0x11934612, 0x11D91A09, 0x11F3270D, 0x121A2F0E, 0x12491B08, 0x12644612, 0x12AA310D,
     0x12DB1E0A, 0x12F9330D, 0x132C1A08, 0x13461A08, 0x13601908, 0x13792F0E, 0x13A8310D, 0x13D91208,
     0x13EB1808, 0x14031608, 0x14191E09, 0x14372E0D, 0x14654F14, 0x14B44B14, 0x14FF4B14, 0x154A330F,
     0x157D3B10, 0x15B83B10, 0x15F33B10, 0x162E3B10, 0x16693B10, 0x16A43B10, 0x16DF5B18, 0x173A3F11,
     0x17793B10, 0x17B43B10, 0x17EF3B10, 0x182A3B10, 0x18651107, 0x18761107, 0x18871507, 0x189C1507,
     0x18B13F11, 0x18F03B11, 0x192B4713, 0x19724713, 0x19B94713, 0x1A004713, 0x1A474713, 0x1A8E2B0E,
     0x1AB94713, 0x1B003B11, 0x1B3B3B11, 0x1B763B11, 0x1BB13B11, 0x1BEC3D10, 0x1C293A10, 0x1C63370F,
     0x1C9A2F0D, 0x1CC92F0D, 0x1CF82F0D, 0x1D272F0D, 0x1D562F0D, 0x1D852F0D, 0x1DB45315, 0x1E072B0C,
     0x1E322F0D, 0x1E612F0D, 0x1E902F0D, 0x1EBF2F0D, 0x1EEE1107, 0x1EFF1107, 0x1F101507, 0x1F251507,
     0x1F3A2F0D, 0x1F692F0D, 0x1F982F0D, 0x1FC72F0D, 0x1FF62F0D, 0x20252F0D, 0x20542F0D, 0x2083320D,
     0x20B5330F, 0x20E82F0D, 0x21172F0D, 0x21462F0D, 0x21752F0D, 0x21A42A0C, 0x21CE2F0D, 0x21FD2A0C]
  dataSize := 8743

/-- The table of `ArialMT_Plain_10` is consistent. -/
theorem arial_mt_plain_10_consistent : arialMTPlain10.Consistent := by
  decide +kernel

/-- The table of `ArialMT_Plain_16` is consistent. -/
theorem arial_mt_plain_16_consistent : arialMTPlain16.Consistent := by
  decide +kernel

/-- The table of `ArialMT_Plain_24` is consistent. -/
theorem arial_mt_plain_24_consistent : arialMTPlain24.Consistent := by
  decide +kernel

end SaiyuanClock
