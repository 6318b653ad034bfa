import ExprCompiler.Text.Utf8

/-! Reading UTF-8 undoes writing it. Main statement: the text of the bytes of a text is that text,
so that no two texts have the same bytes.
-/

namespace ExprCompiler.Utf8

theorem lead?_one
    : ∀ code < 128, lead? (UInt8.ofNat code) = some { payload := code, owed := 0 } := by
  decide

theorem lead?_two
    : ∀ bits < 32, 2 ≤ bits
        → lead? (UInt8.ofNat (bits + 192)) = some { payload := bits, owed := 1 } := by
  decide

theorem lead?_three
    : ∀ bits < 16,
        lead? (UInt8.ofNat (bits + 224))
          = some {
              payload := bits
              owed := 2
              low := if bits = 0 then 0xA0 else 0x80
              high := if bits = 13 then 0x9F else 0xBF } := by
  decide

theorem lead?_four
    : ∀ bits < 5,
        lead? (UInt8.ofNat (bits + 240))
          = some {
              payload := bits
              owed := 3
              low := if bits = 0 then 0x90 else 0x80
              high := if bits = 4 then 0x8F else 0xBF } := by
  decide

/-- A later byte in the range that is asked for adds its six bits. -/
theorem continueChar_cons (code : Nat) {low high : UInt8} {bits : Nat} (small : bits < 64)
    (above : low.toNat ≤ bits + 128) (below : bits + 128 ≤ high.toNat) (owed : Nat)
    (rest : List UInt8)
    : continueChar code low high (owed + 1) (UInt8.ofNat (bits + 128) :: rest)
      = continueChar (code * 64 + bits) 0x80 0xBF owed rest := by
  have value : (UInt8.ofNat (bits + 128)).toNat = bits + 128 := by
    rw [UInt8.toNat_ofNat']
    omega
  have fits : low ≤ UInt8.ofNat (bits + 128) ∧ UInt8.ofNat (bits + 128) ≤ high := by
    rw [UInt8.le_iff_toNat_le, UInt8.le_iff_toNat_le, value]
    exact ⟨above, below⟩
  rw [continueChar, if_pos fits, value, Nat.add_sub_cancel]

/-- A byte after the second may be any later byte. -/
theorem continueChar_cons_any (code : Nat) {bits : Nat} (small : bits < 64) (owed : Nat)
    (rest : List UInt8)
    : continueChar code 0x80 0xBF (owed + 1) (UInt8.ofNat (bits + 128) :: rest)
      = continueChar (code * 64 + bits) 0x80 0xBF owed rest := by
  have above : (0x80 : UInt8).toNat = 128 := rfl
  have below : (0xBF : UInt8).toNat = 191 := rfl
  exact continueChar_cons code small (by omega) (by omega) owed rest

theorem pieces_of_lead? {byte : UInt8} {lead : Lead} {bytes rest : List UInt8} {char : Char}
    (announced : lead? byte = some lead)
    (continued : continueChar lead.payload lead.low lead.high lead.owed bytes
      = (some char.toNat, rest))
    : pieces (byte :: bytes) = some char :: pieces rest := by
  have whole : piece byte bytes = (some char, rest) := by
    simp [piece, announced, continued]
  rw [pieces, whole]

/-- The bytes of a character are one piece, whatever follows. By the number of bytes. -/
theorem pieces_encodeChar (char : Char) (rest : List UInt8)
    : pieces (String.utf8EncodeChar char ++ rest) = some char :: pieces rest := by
  have valid : char.toNat < 0xD800 ∨ 0xDFFF < char.toNat ∧ char.toNat < 0x110000 := char.valid
  have isCode : char.val.toNat = char.toNat := rfl
  unfold String.utf8EncodeChar
  simp only [isCode]
  generalize isCode : char.toNat = code at valid
  split
  · next one =>
      exact pieces_of_lead? (lead?_one code (by omega)) (by rw [isCode]; rfl)
  · split
    · next two =>
        simp only [List.cons_append, List.nil_append]
        refine pieces_of_lead? (lead?_two _ (by omega) (by omega)) ?_
        rw [continueChar_cons_any _ (by omega), continueChar, isCode]
        congr 2
        dsimp only
        omega
    · split
      · next three =>
          simp only [List.cons_append, List.nil_append]
          refine pieces_of_lead? (lead?_three _ (by omega)) ?_
          have above : (if code / 4096 % 16 = 0 then (0xA0 : UInt8) else 0x80).toNat
              ≤ code / 64 % 64 + 128 := by
            split <;> simp
            omega
          have below : code / 64 % 64 + 128
              ≤ (if code / 4096 % 16 = 13 then (0x9F : UInt8) else 0xBF).toNat := by
            split <;> simp <;> omega
          rw [continueChar_cons _ (by omega) above below, continueChar_cons_any _ (by omega),
            continueChar, isCode]
          congr 2
          dsimp only
          omega
      · next four =>
          simp only [List.cons_append, List.nil_append]
          refine pieces_of_lead? (lead?_four _ (by omega)) ?_
          have above : (if code / 262144 % 8 = 0 then (0x90 : UInt8) else 0x80).toNat
              ≤ code / 4096 % 64 + 128 := by
            split <;> simp
            omega
          have below : code / 4096 % 64 + 128
              ≤ (if code / 262144 % 8 = 4 then (0x8F : UInt8) else 0xBF).toNat := by
            split <;> simp <;> omega
          rw [continueChar_cons _ (by omega) above below, continueChar_cons_any _ (by omega),
            continueChar_cons_any _ (by omega), continueChar, isCode]
          congr 2
          dsimp only
          omega

/-- The bytes of a text have its characters as pieces, by induction on the characters. -/
theorem pieces_encode (text : String)
    : pieces (encode text) = text.toList.map some := by
  unfold encode
  induction text.toList with
  | nil => rw [List.flatMap_nil, pieces, List.map_nil]
  | cons char chars ih => rw [List.flatMap_cons, pieces_encodeChar, ih, List.map_cons]

theorem decodeLossy_encode (text : String) : decodeLossy (encode text) = text := by
  rw [decodeLossy, pieces_encode, List.map_map]
  simp [Function.comp_def]

theorem encode_injective {first second : String} (same : encode first = encode second)
    : first = second := by
  rw [← decodeLossy_encode first, same, decodeLossy_encode]

@[simp] theorem encode_append (first second : String)
    : encode (first ++ second) = encode first ++ encode second := by
  simp [encode]

theorem encodeChar_of_lt {char : Char} (ascii : char.toNat < 128)
    : String.utf8EncodeChar char = [UInt8.ofNat char.toNat] := by
  have isCode : char.val.toNat = char.toNat := rfl
  rw [String.utf8EncodeChar, isCode, if_pos (Nat.le_of_lt_succ ascii)]

/-- All bytes of a character beyond ASCII are beyond ASCII. -/
theorem le_of_mem_encodeChar {char : Char} (notAscii : 128 ≤ char.toNat) {byte : UInt8}
    (member : byte ∈ String.utf8EncodeChar char)
    : 0x80 ≤ byte := by
  have isCode : char.val.toNat = char.toNat := rfl
  have large {value : Nat} (above : 128 ≤ value) (below : value < 256)
      : 0x80 ≤ UInt8.ofNat value := by
    rw [UInt8.le_iff_toNat_le, UInt8.toNat_ofNat', Nat.mod_eq_of_lt below]
    exact above
  rw [String.utf8EncodeChar, isCode, if_neg (by omega)] at member
  split at member
  · simp only [List.mem_cons, List.not_mem_nil, or_false] at member
    rcases member with rfl | rfl <;> exact large (by omega) (by omega)
  · split at member
    · simp only [List.mem_cons, List.not_mem_nil, or_false] at member
      rcases member with rfl | rfl | rfl <;> exact large (by omega) (by omega)
    · simp only [List.mem_cons, List.not_mem_nil, or_false] at member
      rcases member with rfl | rfl | rfl | rfl <;> exact large (by omega) (by omega)

end ExprCompiler.Utf8
