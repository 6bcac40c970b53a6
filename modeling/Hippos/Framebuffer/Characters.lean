/-
  Hippos.Framebuffer.Characters — the characters table of a font.

  The table has an entry for every code point in order, glyph or gap, and gaps come in three sizes.
  The search of `ssfn_putc` reads the table and no further: it finds the glyph of a code point
  exactly when the entries before it cover as many code points.

  A table is a list of entries with their bytes, so that it is well formed by its type: the length
  of a gap fits its byte, and a glyph has the bytes its count of fragments says.  `Table.In` ties
  such a list to the bytes of a font.  One round of the search then reads one entry, and the search
  is an induction on the list.

  Main results:
    * `find_chr_step` — one round of the search reads one entry.
    * `find_chr_iff` — the search finds what the table says, from any place of the table on.
    * `chr_iff` — the glyph of a character is the one the table has for it.
-/
import Hippos.Framebuffer.Ssfn

namespace Hippos.Framebuffer

open Hippos.Lib

/-! ## §1. The table. -/

/-- A glyph: its type, the number of its fragments, and what follows: its four measures and the
    entries of its fragments, of five bytes or six. -/
structure GlyphEntry where
  type : Fin 128
  count : UInt8
  rest : List UInt8
  length : rest.length
    = 4 + count.toNat * if UInt8.ofNat type &&& 0x40 ≠ 0 then 6 else 5

/-- What stands for the next code points. -/
inductive Entry where
  /-- 65536 code points without glyphs. -/
  | page
  /-- Up to 16128 of them. -/
  | long (hi : Fin 63) (lo : UInt8)
  /-- Up to 64 of them. -/
  | short (n : Fin 64)
  | glyph (g : GlyphEntry)

namespace Entry

def bytes : Entry → List UInt8
  | page => [0xFF]
  | long hi lo => [UInt8.ofNat (0xC0 + hi), lo]
  | short n => [UInt8.ofNat (0x80 + n)]
  | glyph g => UInt8.ofNat g.type :: g.count :: g.rest

/-- How many code points the entry is about. -/
def span : Entry → ℕ
  | page => 65536
  | long hi lo => hi * 256 + lo.toNat + 1
  | short n => n + 1
  | glyph _ => 1

/-- Whether the entry is a glyph. -/
def is_glyph : Entry → Bool
  | glyph _ => true
  | _ => false

/-- Every entry is about a code point at least, which is why the search ends. -/
theorem span_pos (e : Entry) : 0 < e.span := by
  cases e <;> simp [span]

end Entry

/-- The entries of a characters table, in order. -/
abbrev Table := List Entry

namespace Table

def bytes (es : Table) : List UInt8 := es.flatMap Entry.bytes

def span (es : Table) : ℕ := (es.map Entry.span).sum

/-- `bytes` is in the font at `ptr`. -/
def In (f : Font) (ptr : ℕ) (es : Table) : Prop :=
  ∀ i (h : i < es.bytes.length), f.byte (ptr + i) = es.bytes[i]

/-- The glyph of `unicode` is at `ptr`, in a table at `offs` for the code points from `i` on: the
    entries before it are about the code points below `unicode`. -/
structure At (es : Table) (offs i unicode ptr : ℕ) : Prop where
  split : ∃ (before : Table) (g : GlyphEntry) (after : Table), es = before ++ .glyph g :: after
    ∧ i + before.span = unicode ∧ offs + before.bytes.length = ptr
  inside : unicode < 0x110000

end Table

/-! ## §2. Entries. -/

section Bytes

/-- A long gap is told apart from a page, and the upper part of its length read back. -/
theorem long_byte (hi : Fin 63) :
    UInt8.ofNat (0xC0 + hi) ≠ 0xFF ∧ UInt8.ofNat (0xC0 + hi) &&& 0xC0 = 0xC0
      ∧ (UInt8.ofNat (0xC0 + hi) &&& 0x3F).toNat = hi := by
  revert hi
  decide

/-- A short gap is told apart from the other two, and its length read back. -/
theorem short_byte (n : Fin 64) :
    UInt8.ofNat (0x80 + n) ≠ 0xFF ∧ UInt8.ofNat (0x80 + n) &&& 0xC0 ≠ 0xC0
      ∧ UInt8.ofNat (0x80 + n) &&& 0xC0 = 0x80 ∧ (UInt8.ofNat (0x80 + n) &&& 0x3F).toNat = n := by
  revert n
  decide

/-- The type of a glyph is taken for no gap. -/
theorem glyph_byte (b : Fin 128) :
    UInt8.ofNat b ≠ 0xFF ∧ UInt8.ofNat b &&& 0xC0 ≠ 0xC0 ∧ UInt8.ofNat b &&& 0xC0 ≠ 0x80 := by
  revert b
  decide

end Bytes

namespace Table

variable {f : Font} {ptr i : ℕ} {e : Entry} {es : Table}

/-- The entries lie one behind the other. -/
theorem bytes_cons (e : Entry) (es : Table) : bytes (e :: es) = e.bytes ++ bytes es := rfl

/-- And so do the code points they are about. -/
theorem span_cons (e : Entry) (es : Table) : span (e :: es) = e.span + span es := by
  rw [span, List.map_cons, List.sum_cons]
  rfl

/-- The glyph is the first entry, or one of the others. -/
theorem at_cons {offs unicode : ℕ} : At (e :: es) offs i unicode ptr
    ↔ (e.is_glyph ∧ i = unicode ∧ offs = ptr ∧ unicode < 0x110000)
      ∨ At es (offs + e.bytes.length) (i + e.span) unicode ptr := by
  constructor
  · rintro ⟨⟨before, g, after, hsplit, hspan, hoffs⟩, hinside⟩
    cases before with
    | nil =>
      obtain ⟨rfl, -⟩ := List.cons.inj hsplit
      exact Or.inl ⟨rfl, hspan, hoffs, hinside⟩
    | cons e' before =>
      obtain ⟨rfl, hrest⟩ := List.cons.inj hsplit
      rw [span_cons, ← Nat.add_assoc] at hspan
      rw [bytes_cons, List.length_append, ← Nat.add_assoc] at hoffs
      exact Or.inr ⟨⟨before, g, after, hrest, hspan, hoffs⟩, hinside⟩
  · rintro (⟨hglyph, hspan, hoffs, hinside⟩ | ⟨⟨before, g, after, hsplit, hspan, hoffs⟩, hinside⟩)
    · cases e with
      | page => exact nomatch hglyph
      | long hi lo => exact nomatch hglyph
      | short n => exact nomatch hglyph
      | glyph g => exact ⟨⟨[], g, es, rfl, hspan, hoffs⟩, hinside⟩
    · refine ⟨⟨e :: before, g, after, by rw [hsplit, List.cons_append], ?_, ?_⟩, hinside⟩
      · rw [span_cons, ← Nat.add_assoc]
        exact hspan
      · rw [bytes_cons, List.length_append, ← Nat.add_assoc]
        exact hoffs

/-- A table finds no code point before its first. -/
theorem At.le {offs unicode : ℕ} (h : At es offs i unicode ptr) : i ≤ unicode := by
  obtain ⟨before, g, after, -, hspan, -⟩ := h.split
  exact hspan ▸ Nat.le_add_right _ _

/-- The bytes of the first entry. -/
theorem In.head (h : In f ptr (e :: es)) :
    ∀ i (hi : i < e.bytes.length), f.byte (ptr + i) = e.bytes[i] := by
  intro i hi
  have hall := h i (by rw [bytes_cons, List.length_append]; omega)
  rw [hall]
  simp only [bytes_cons]
  exact List.getElem_append_left hi

/-- The bytes of the others. -/
theorem In.tail (h : In f ptr (e :: es)) : In f (ptr + e.bytes.length) es := by
  intro i hi
  have hall := h (e.bytes.length + i) (by rw [bytes_cons, List.length_append]; omega)
  rw [Nat.add_assoc, hall]
  simp only [bytes_cons]
  rw [List.getElem_append_right (Nat.le_add_right _ _)]
  simp only [Nat.add_sub_cancel_left]

end Table

/-! ## §3. The search. -/

section Search

variable {f : Font} {unicode : UInt32} {ptr i rounds : ℕ} {e : Entry} {es : Table}

/-- **One round reads one entry**: it stops at the glyph, or goes on behind the entry.  The cases
    are the kinds of entries, in the order in which the code tests for them. -/
theorem find_chr_step (h : Table.In f ptr (e :: es)) (hi : i < 0x110000) :
    f.find_chr unicode (rounds + 1) i ptr
      = if e.is_glyph ∧ i = unicode.toNat then some ptr
        else f.find_chr unicode rounds (i + e.span) (ptr + e.bytes.length) := by
  have hhead := h.head
  rw [Font.find_chr, if_pos hi]
  cases e with
  | page =>
    have h0 : f.byte ptr = 0xFF := hhead 0 Nat.one_pos
    rw [if_pos h0, if_neg (by simp [Entry.is_glyph])]
    rfl
  | long hi lo =>
    have h0 : f.byte ptr = UInt8.ofNat (0xC0 + hi) := hhead 0 (by simp [Entry.bytes])
    have h1 : f.byte (ptr + 1) = lo := hhead 1 (by simp [Entry.bytes])
    obtain ⟨hpage, hlong, hlength⟩ := long_byte hi
    rw [h0, h1, if_neg hpage, if_pos hlong, hlength, if_neg (by simp [Entry.is_glyph])]
    rfl
  | short n =>
    have h0 : f.byte ptr = UInt8.ofNat (0x80 + n) := hhead 0 Nat.one_pos
    obtain ⟨hpage, hlong, hshort, hlength⟩ := short_byte n
    rw [h0, if_neg hpage, if_neg hlong, if_pos hshort, hlength, if_neg (by simp [Entry.is_glyph])]
    rfl
  -- the bytes of a glyph are what the search skips: six, and its entries
  | glyph g =>
    have h0 : f.byte ptr = UInt8.ofNat g.type := hhead 0 (Nat.succ_pos _)
    have h1 : f.byte (ptr + 1) = g.count := hhead 1 (by simp [Entry.bytes])
    obtain ⟨hpage, hlong, hshort⟩ := glyph_byte g.type
    have hbytes : (Entry.glyph g).bytes.length = 6 + g.count.toNat * f.entry_size ptr := by
      unfold Entry.bytes Font.entry_size
      rw [List.length_cons, List.length_cons, g.length, h0]
      omega
    rw [h0, h1, if_neg hpage, if_neg hlong, if_neg hshort, hbytes, Nat.add_assoc ptr]
    by_cases hhere : i = unicode.toNat
    · rw [if_pos hhere, if_pos ⟨rfl, hhere⟩]
    · rw [if_neg hhere, if_neg fun h => hhere h.2]
      rfl

/-- Past the last code point nothing is found. -/
theorem find_chr_end (hi : 0x110000 ≤ i) : f.find_chr unicode rounds i ptr = none := by
  cases rounds with
  | zero => rfl
  | succ rounds => rw [Font.find_chr, if_neg (Nat.not_lt_of_le hi)]

/-- **The search finds what the table says**, if the table goes on to the last code point.  By
    induction on the entries; there are rounds enough, since each entry takes one round and at least
    one code point. -/
theorem find_chr_iff (es : Table) :
    ∀ {i offs rounds : ℕ}, Table.In f offs es → 0x110000 ≤ i + es.span →
      0x110000 ≤ i + rounds →
        (f.find_chr unicode rounds i offs = some ptr
          ↔ Table.At es offs i unicode.toNat ptr) := by
  induction es with
  | nil =>
    intro i offs rounds _ hspan _
    rw [find_chr_end (by simpa [Table.span] using hspan)]
    constructor
    · exact fun h => nomatch h
    · rintro ⟨⟨before, g, after, hsplit, -⟩, -⟩
      exact absurd hsplit (by simp)
  | cons e es ih =>
    intro i offs rounds hin hspan hrounds
    by_cases hi : i < 0x110000
    · obtain ⟨rounds, rfl⟩ := Nat.exists_eq_succ_of_ne_zero (by omega : rounds ≠ 0)
      have hpos := e.span_pos
      rw [Table.span_cons] at hspan
      rw [Nat.succ_eq_add_one, find_chr_step hin hi]
      by_cases hhere : e.is_glyph ∧ i = unicode.toNat
      · -- the glyph itself
        rw [if_pos hhere, Table.at_cons, Option.some.injEq]
        constructor
        · exact fun h => Or.inl ⟨hhere.1, hhere.2, h, by omega⟩
        · rintro (⟨-, -, h, -⟩ | hlater)
          · exact h
          · have hle := hlater.le
            omega
      -- behind this entry
      · rw [if_neg hhere, ih hin.tail (by omega) (by omega), Table.at_cons]
        constructor
        · exact Or.inr
        · rintro (⟨hglyph, hsame, -⟩ | hlater)
          · exact absurd ⟨hglyph, hsame⟩ hhere
          · exact hlater
    · rw [find_chr_end (Nat.le_of_not_lt hi)]
      constructor
      · exact fun h => nomatch h
      · intro h
        have hle := h.le
        have hinside := h.inside
        omega

/-- **The glyph of a character is the one the table has for it**: the search finds the entry that as
    many code points are before as the character counts, and nothing for a gap.  The table has to
    span the 0x110000 code points, as that of a complete font does; the code looks for no end of
    it. -/
theorem chr_iff (hin : Table.In f f.characters_offs es) (hspan : 0x110000 ≤ es.span) :
    f.chr unicode = some ptr ↔ Table.At es f.characters_offs 0 unicode.toNat ptr :=
  find_chr_iff es hin (by omega) (by omega)

end Search

/-! ## §4. A font with one letter. -/

/-- Two gaps, the letter `A`, and gaps up to the last code point. -/
def letter_table : Table :=
  [.short 63, .short 0, .glyph ⟨0, 1, [8, 16, 8, 0, 0, 4, 62, 0, 0], rfl⟩]
    ++ List.replicate 17 .page

/-- The header, the table and a bitmap of two rows. -/
def letter_bytes : List UInt8 :=
  [0x53, 0x46, 0x4E, 0x32, 66, 0, 0, 0, 3, 0, 8, 16, 12, 13, 0, 0, 32, 0, 0, 0, 0, 0, 0, 0, 0, 0, 0,
    0, 0, 0, 0, 0] ++ letter_table.bytes ++ [0x80, 1, 0x18, 0x24]

/-- The font, at `ssfn_src`. -/
def letter_font : Font where
  byte i := letter_bytes.getD i 0

/-- Its table is where its header says. -/
theorem letter_table_in : Table.In letter_font letter_font.characters_offs letter_table := by
  unfold Table.In
  decide

/-- Code point 0x41 is behind gaps of 64 and 1. -/
theorem chr_iff_letter : letter_font.chr 0x41 = some 34 :=
  (chr_iff letter_table_in (by decide)).mpr
    ⟨⟨[.short 63, .short 0], _, List.replicate 17 .page, rfl, rfl, rfl⟩, by decide⟩

end Hippos.Framebuffer
