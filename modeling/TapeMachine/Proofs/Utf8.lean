import Mathlib
import TapeMachine.Text.Utf8

/-!
# Encoded text is decoded as it was

Decoding goes through bytes one at a time. Here it is followed through the bytes of one character
(`foldl_feed_utf8EncodeChar`), which lead from between characters to between characters and add that
character to what was found. So the pieces of an encoded text are its characters (`pieces_encode`), and
decoding gives them back (`decode_encode`, `decodeLossy_encode`).

A byte below 128 stands only for the character with its number (`mem_utf8EncodeChar_iff`), so that such a
character can be looked for in the bytes.
-/

namespace TapeMachine.Text.Utf8

/-! ### First bytes -/

theorem lead?_two {v : Nat} (h : 0x80 ≤ v) (h' : v ≤ 0x7FF) :
    lead? (v / 64 + 0xC0) = some (.within 0 0x80 0xBF (v / 64) 1) := by
  rw [lead?, if_pos (by omega), Nat.add_sub_cancel]

/-- The first of three bytes admits the second: no shorter form is left out, and no surrogate. -/
theorem lead?_three {v : Nat} (h : 0x800 ≤ v) (h' : v ≤ 0xFFFF) (hs : v < 0xD800 ∨ 0xDFFF < v) :
    ∃ low high, lead? (v / 4096 + 0xE0) = some (.within 1 low high (v / 4096) 1) ∧
      low ≤ v / 64 % 64 + 0x80 ∧ v / 64 % 64 + 0x80 ≤ high := by
  rw [lead?, if_neg (by omega)]
  by_cases hfirst : v / 4096 = 0
  · rw [if_pos (by omega), hfirst]
    exact ⟨_, _, rfl, by omega, by omega⟩
  · rw [if_neg (by omega)]
    by_cases hsurrogates : v / 4096 = 0xD
    · rw [if_pos (by omega), hsurrogates]
      exact ⟨_, _, rfl, by omega, by omega⟩
    · rw [if_neg (by omega), if_pos (by omega), Nat.add_sub_cancel]
      exact ⟨_, _, rfl, by omega, by omega⟩

/-- The first of four bytes admits the second: no shorter form is left out, and nothing past the last
character. -/
theorem lead?_four {v : Nat} (h : 0x10000 ≤ v) (h' : v ≤ 0x10FFFF) :
    ∃ low high, lead? (v / 262144 + 0xF0) = some (.within 2 low high (v / 262144) 1) ∧
      low ≤ v / 4096 % 64 + 0x80 ∧ v / 4096 % 64 + 0x80 ≤ high := by
  rw [lead?, if_neg (by omega), if_neg (by omega), if_neg (by omega), if_neg (by omega)]
  by_cases hfirst : v / 262144 = 0
  · rw [if_pos (by omega), hfirst]
    exact ⟨_, _, rfl, by omega, by omega⟩
  · rw [if_neg (by omega)]
    by_cases hlast : v / 262144 = 4
    · rw [if_pos (by omega), hlast]
      exact ⟨_, _, rfl, by omega, by omega⟩
    · rw [if_neg (by omega), if_pos (by omega), Nat.add_sub_cancel]
      exact ⟨_, _, rfl, by omega, by omega⟩

/-! ### One byte -/

theorem toNat_ofNat_of_lt {n : Nat} (h : n < 256) : (UInt8.ofNat n).toNat = n := by
  rw [UInt8.toNat_ofNat', Nat.mod_eq_of_lt h]

/-- The first byte of a character of several bytes. -/
theorem feed_lead {found : List Piece} {b : Nat} {q : State} (hb : 0x80 ≤ b) (hlt : b < 256)
    (hq : lead? b = some q) : Scan.feed ⟨.between, found⟩ (UInt8.ofNat b) = ⟨q, found⟩ := by
  simp only [Scan.feed, Scan.start, toNat_ofNat_of_lt hlt, hq]
  rw [if_neg (by omega)]

/-- A byte that continues a character: another one has to follow. -/
theorem feed_continue {found : List Piece} {owed low high value taken x : Nat} (hx : x < 64)
    (hlow : low ≤ x + 0x80) (hhigh : x + 0x80 ≤ high) :
    Scan.feed ⟨.within (owed + 1) low high value taken, found⟩ (UInt8.ofNat (x + 0x80)) =
      ⟨.within owed 0x80 0xBF (value * 64 + x) (taken + 1), found⟩ := by
  simp only [Scan.feed, toNat_ofNat_of_lt (show x + 0x80 < 256 by omega), Nat.add_sub_cancel]
  rw [if_pos ⟨hlow, hhigh⟩]

/-- The last byte of a character. -/
theorem feed_last {found : List Piece} {low high value taken x : Nat} (hx : x < 64)
    (hlow : low ≤ x + 0x80) (hhigh : x + 0x80 ≤ high) :
    Scan.feed ⟨.within 0 low high value taken, found⟩ (UInt8.ofNat (x + 0x80)) =
      ⟨.between, .char (Char.ofNat (value * 64 + x)) :: found⟩ := by
  simp only [Scan.feed, toNat_ofNat_of_lt (show x + 0x80 < 256 by omega), Nat.add_sub_cancel]
  rw [if_pos ⟨hlow, hhigh⟩]

/-! ### One character -/

/-- **The bytes of a character** lead to the next, and the character has been found. -/
theorem foldl_feed_utf8EncodeChar (c : Char) (found : List Piece) :
    (String.utf8EncodeChar c).foldl Scan.feed ⟨.between, found⟩ = ⟨.between, .char c :: found⟩ := by
  have hvalid : c.val.toNat < 0xD800 ∨ 0xDFFF < c.val.toNat ∧ c.val.toNat < 0x110000 := c.valid
  have hchar : ∀ n, n = c.val.toNat → Char.ofNat n = c := by
    rintro n rfl
    exact Char.ofNat_toNat c
  unfold String.utf8EncodeChar
  dsimp only
  generalize c.val.toNat = v at hvalid hchar ⊢
  split_ifs with h1 h2 h3
  · simp only [List.foldl, Scan.feed, Scan.start, toNat_ofNat_of_lt (show v < 256 by omega)]
    rw [if_pos (by omega), hchar v rfl]
  · simp only [List.foldl]
    rw [Nat.mod_eq_of_lt (show v / 64 < 0x20 by omega),
      feed_lead (by omega) (by omega) (lead?_two (by omega) h2),
      feed_last (by omega) (by omega) (by omega), hchar _ (by omega)]
  · obtain ⟨low, high, hlead, hlow, hhigh⟩ := lead?_three (v := v) (by omega) h3 (by omega)
    simp only [List.foldl]
    rw [Nat.mod_eq_of_lt (show v / 4096 < 0x10 by omega), feed_lead (by omega) (by omega) hlead,
      feed_continue (by omega) hlow hhigh, feed_last (by omega) (by omega) (by omega),
      hchar _ (by omega)]
  · obtain ⟨low, high, hlead, hlow, hhigh⟩ := lead?_four (v := v) (by omega) (by omega)
    simp only [List.foldl]
    rw [Nat.mod_eq_of_lt (show v / 262144 < 0x08 by omega), feed_lead (by omega) (by omega) hlead,
      feed_continue (by omega) hlow hhigh, feed_continue (by omega) (by omega) (by omega),
      feed_last (by omega) (by omega) (by omega), hchar _ (by omega)]

/-! ### Texts -/

theorem foldl_feed_flatMap (cs : List Char) (found : List Piece) :
    (cs.flatMap String.utf8EncodeChar).foldl Scan.feed ⟨.between, found⟩ =
      ⟨.between, (cs.map .char).reverse ++ found⟩ := by
  induction cs generalizing found with
  | nil => rfl
  | cons c cs ih =>
    rw [List.flatMap_cons, List.foldl_append, foldl_feed_utf8EncodeChar, ih]
    simp

/-- The pieces of an encoded text are its characters. -/
theorem pieces_encode (s : String) : pieces (encode s) = s.toList.map .char := by
  rw [pieces, encode, foldl_feed_flatMap]
  simp [Scan.finish]

theorem firstBad_map_char (position : Nat) (cs : List Char) :
    firstBad position (cs.map .char) = none := by
  induction cs generalizing position with
  | nil => rfl
  | cons c cs ih => exact ih _

theorem map_shown_map_char (cs : List Char) : (cs.map Piece.char).map Piece.shown = cs := by
  rw [List.map_map]
  exact List.map_id cs

/-- **An encoded text is decoded as it was.** -/
theorem decode_encode (s : String) : decode (encode s) = .ok s.toList := by
  simp only [decode, pieces_encode, firstBad_map_char, map_shown_map_char]

/-- Nothing of an encoded text is replaced. -/
theorem decodeLossy_encode (s : String) : decodeLossy (encode s) = s := by
  rw [decodeLossy, pieces_encode, map_shown_map_char, String.ofList_toList]

theorem encode_append (s t : String) : encode (s ++ t) = encode s ++ encode t := by
  simp [encode]

theorem length_encode (s : String) : (encode s).length = s.utf8ByteSize := by
  have hlength : ∀ cs : List Char, (cs.flatMap String.utf8EncodeChar).length = String.utf8Len cs := by
    intro cs
    induction cs with
    | nil => rfl
    | cons c cs ih =>
      rw [List.flatMap_cons, List.length_append, ih, String.length_utf8EncodeChar, String.utf8Len_cons,
        Nat.add_comm]
  rw [encode, hlength, ← String.utf8ByteSize_ofList, String.ofList_toList]

/-! ### Bytes below 128 -/

theorem utf8EncodeChar_of_lt {c : Char} (h : c.toNat < 0x80) :
    String.utf8EncodeChar c = [UInt8.ofNat c.toNat] :=
  if_pos (Nat.le_of_lt_succ h)

/-- A byte below 128 is the only one of its character. -/
theorem eq_singleton_of_mem_utf8EncodeChar {c : Char} {b : UInt8} (h : b ∈ String.utf8EncodeChar c)
    (hb : b.toNat < 0x80) : String.utf8EncodeChar c = [b] ∧ c.toNat = b.toNat := by
  have hlarge : ∀ {x : Nat}, b = UInt8.ofNat x → 0x80 ≤ x → x < 256 → False := by
    rintro x rfl hlow hhigh
    rw [toNat_ofNat_of_lt hhigh] at hb
    omega
  unfold String.utf8EncodeChar at h ⊢
  dsimp only at h ⊢
  split_ifs at h ⊢ with h1 h2 h3
  · obtain rfl := List.mem_singleton.1 h
    exact ⟨rfl, (toNat_ofNat_of_lt (show c.val.toNat < 256 by omega)).symm⟩
  all_goals
    -- all bytes of the longer forms are from 128 on
    exfalso
    simp only [List.mem_cons, List.not_mem_nil, or_false] at h
  · rcases h with h | h <;> exact hlarge h (by omega) (by omega)
  · rcases h with h | h | h <;> exact hlarge h (by omega) (by omega)
  · rcases h with h | h | h | h <;> exact hlarge h (by omega) (by omega)

/-- A character below 128 is one byte, and no other character has that byte. -/
theorem mem_utf8EncodeChar_iff {c d : Char} (hd : d.toNat < 0x80) :
    UInt8.ofNat d.toNat ∈ String.utf8EncodeChar c ↔ c = d := by
  have hbyte : (UInt8.ofNat d.toNat).toNat = d.toNat := toNat_ofNat_of_lt (by omega)
  constructor
  · intro h
    have hsame := (eq_singleton_of_mem_utf8EncodeChar h (by rw [hbyte]; exact hd)).2
    rw [hbyte] at hsame
    rw [← Char.ofNat_toNat c, hsame, Char.ofNat_toNat]
  · rintro rfl
    rw [utf8EncodeChar_of_lt hd]
    exact List.mem_singleton_self _

theorem mem_encode_iff {s : String} {d : Char} (hd : d.toNat < 0x80) :
    UInt8.ofNat d.toNat ∈ encode s ↔ d ∈ s.toList := by
  rw [encode, List.mem_flatMap]
  constructor
  · rintro ⟨c, hc, hmem⟩
    rwa [← (mem_utf8EncodeChar_iff hd).1 hmem]
  · exact fun h => ⟨d, h, (mem_utf8EncodeChar_iff hd).2 rfl⟩

/-- An encoded text ends in the byte of a character below 128 if it ends in that character. -/
theorem getLast?_encode_iff {s : String} {d : Char} (hd : d.toNat < 0x80) :
    (encode s).getLast? = some (UInt8.ofNat d.toNat) ↔ s.toList.getLast? = some d := by
  rw [encode]
  induction s.toList using List.reverseRecOn with
  | nil => simp
  | append_singleton cs c _ =>
    have hlast : (String.utf8EncodeChar c).getLast? = some (UInt8.ofNat d.toNat) ↔ c = d := by
      constructor
      · intro h
        exact (mem_utf8EncodeChar_iff hd).1 (List.mem_of_getLast? h)
      · rintro rfl
        rw [utf8EncodeChar_of_lt hd]
        rfl
    cases hbytes : (String.utf8EncodeChar c).getLast? with
    | none => exact absurd (List.getLast?_eq_none_iff.1 hbytes) (by simp)
    | some b => simp [List.getLast?_append, hbytes, ← hlast]

end TapeMachine.Text.Utf8
