import ExprCompiler.Proofs.Text.Utf8Roundtrip

/-! Cutting the bytes of a text. A byte below 0x80 is a whole character wherever it stands, so the
bytes on both of its sides are texts of their own. Main statement: copying the bytes of a text keeps
it one, and so does dropping, replacing or taking back at such a byte.
-/

namespace ExprCompiler.Utf8

/-- The character that is put for a piece which is none. -/
def replacement : Char := Char.ofNat 0xFFFD

theorem decode?_encode (text : String) : decode? (encode text) = some text := by
  have whole : (text.toList.map some).mapM id = some (text.toList.map id) := by
    rw [List.mapM_map]
    exact List.mapM_pure
  rw [decode?, pieces_encode, whole]
  simp

theorem encode_singleton (char : Char)
    : encode (String.singleton char) = String.utf8EncodeChar char := by
  simp [encode]

theorem encode_singleton_ofUInt8 {byte : UInt8} (ascii : byte < 0x80)
    : encode (String.singleton (Char.ofUInt8 byte)) = [byte] := by
  have small : (Char.ofUInt8 byte).toNat < 128 := ascii
  rw [encode_singleton, encodeChar_of_lt small]
  exact congrArg (fun byte => [byte]) (UInt8.ofNat_toNat)

/-- A byte below 0x80 among those of a character is all of them. -/
theorem encodeChar_eq_of_mem {char : Char} {byte : UInt8} (ascii : byte < 0x80)
    (member : byte ∈ String.utf8EncodeChar char)
    : char = Char.ofUInt8 byte ∧ String.utf8EncodeChar char = [byte] := by
  have small : char.toNat < 128 := by
    apply Nat.lt_of_not_le
    intro large
    exact absurd (le_of_mem_encodeChar large member) (UInt8.not_le.mpr ascii)
  have bytes := encodeChar_of_lt small
  rw [bytes] at member ⊢
  obtain rfl := List.mem_singleton.mp member
  refine ⟨Char.ext (UInt32.toNat_inj.mp ?_), rfl⟩
  exact (Nat.mod_eq_of_lt (Nat.lt_trans small (by decide))).symm

/-- A text can be cut on both sides of a byte below 0x80, by induction on its characters. -/
theorem exists_cut {text : String} {front back : List UInt8} {byte : UInt8} (ascii : byte < 0x80)
    (split : encode text = front ++ byte :: back)
    : ∃ first last,
        text = first ++ String.singleton (Char.ofUInt8 byte) ++ last
        ∧ encode first = front
        ∧ encode last = back := by
  obtain ⟨chars, rfl⟩ : ∃ chars, text = String.ofList chars := ⟨text.toList, by simp⟩
  induction chars generalizing front with
  | nil => simp [encode] at split
  | cons char chars ih =>
      have whole : String.ofList (char :: chars)
          = String.singleton char ++ String.ofList chars := by
        simp
      have cutLater (more : List UInt8) (isFront : front = String.utf8EncodeChar char ++ more)
          (later : encode (String.ofList chars) = more ++ byte :: back)
          : ∃ first last,
              String.ofList (char :: chars)
                = first ++ String.singleton (Char.ofUInt8 byte) ++ last
              ∧ encode first = front
              ∧ encode last = back := by
        obtain ⟨first, last, isText, encodesFirst, encodesLast⟩ := ih later
        refine ⟨String.singleton char ++ first, last, ?_, ?_, encodesLast⟩
        · rw [whole, isText]
          simp only [String.append_assoc]
        · rw [encode_append, encode_singleton, encodesFirst, isFront]
      rw [whole, encode_append, encode_singleton] at split
      rcases List.append_eq_append_iff.mp split with ⟨more, isFront, later⟩ | ⟨more, isChar, later⟩
      · exact cutLater more isFront later
      · cases more with
        | nil => exact cutLater [] (by rw [isChar, List.append_nil, List.append_nil]) later.symm
        | cons other more =>
            obtain ⟨rfl, rfl⟩ := List.cons.inj later
            obtain ⟨isByte, alone⟩ := encodeChar_eq_of_mem ascii (by rw [isChar]; simp)
            rw [alone] at isChar
            have length := congrArg List.length isChar
            simp only [List.length_append, List.length_cons, List.length_nil] at length
            obtain rfl : front = [] := List.length_eq_zero_iff.mp (by omega)
            obtain rfl : more = [] := List.length_eq_zero_iff.mp (by omega)
            refine ⟨"", String.ofList chars, ?_, rfl, rfl⟩
            rw [whole, isByte]
            simp

/-- Bytes up to one that is a character of its own. -/
def EndsAscii (bytes : List UInt8) : Prop :=
  ∃ front byte, bytes = front ++ [byte] ∧ byte < 0x80

theorem endsAscii_concat (read : List UInt8) {byte : UInt8} (ascii : byte < 0x80)
    : EndsAscii (read ++ [byte]) :=
  ⟨read, byte, rfl, ascii⟩

/-- Bytes from one below 0x80 to another one are a text within a text. -/
theorem exists_slice {source : String} {front middle back : List UInt8} {first : UInt8}
    (split : encode source = front ++ (first :: middle) ++ back) (ascii : first < 0x80)
    (ends : EndsAscii (first :: middle))
    : ∃ before slice later,
        source = before ++ slice ++ later
        ∧ encode before = front
        ∧ encode slice = first :: middle
        ∧ encode later = back := by
  obtain ⟨init, last, isSlice, isAscii⟩ := ends
  have atLast : encode source = (front ++ init) ++ last :: back := by
    rw [split, isSlice]
    simp only [List.append_assoc, List.singleton_append]
  obtain ⟨start, later, rfl, encodesStart, encodesLater⟩ := exists_cut isAscii atLast
  have atFirst : encode (start ++ String.singleton (Char.ofUInt8 last))
      = front ++ first :: middle := by
    rw [encode_append, encodesStart, encode_singleton_ofUInt8 isAscii, List.append_assoc, ← isSlice]
  obtain ⟨before, inner, isStart, encodesBefore, encodesInner⟩ := exists_cut ascii atFirst
  refine ⟨before, String.singleton (Char.ofUInt8 first) ++ inner, later, ?_, encodesBefore, ?_,
    encodesLater⟩
  · rw [isStart]
    simp only [String.append_assoc]
  · rw [encode_append, encode_singleton_ofUInt8 ascii, encodesInner]
    rfl

/-- What is `made` from the bytes `read` stays a text: whatever bytes follow, they are one with
`made` if they are one with `read`, and only a replacement character there can give one here.
-/
def KeepsText (read made : List UInt8) : Prop :=
  ∀ source rest,
    encode source = read ++ rest →
      ∃ text,
        encode text = made ++ rest
        ∧ (replacement ∈ text.toList → replacement ∈ source.toList)

namespace KeepsText

variable {read made front back : List UInt8} {byte : UInt8}

theorem nil : KeepsText [] [] :=
  fun source _ encodes => ⟨source, encodes, id⟩

/-- Any byte may be copied. -/
theorem copy (keeps : KeepsText read made) (byte : UInt8)
    : KeepsText (read ++ [byte]) (made ++ [byte]) := by
  intro source rest encodes
  rw [List.append_assoc] at encodes ⊢
  exact keeps source _ encodes

/-- At a byte below 0x80 both texts end. -/
theorem exists_ends (keeps : KeepsText read made) (ascii : byte < 0x80) {source : String}
    {rest : List UInt8} (encodes : encode source = read ++ [byte] ++ rest)
    : ∃ text last,
        encode text = made
        ∧ encode last = rest
        ∧ (replacement ∈ text.toList ∨ replacement ∈ last.toList →
            replacement ∈ source.toList) := by
  rw [List.append_assoc] at encodes
  obtain ⟨first, last, rfl, encodesFirst, encodesLast⟩ := exists_cut ascii encodes
  obtain ⟨text, encodesText, replaced⟩ := keeps first [] (by rw [encodesFirst, List.append_nil])
  rw [List.append_nil] at encodesText
  refine ⟨text, last, encodesText, encodesLast, ?_⟩
  simp only [String.toList_append, List.mem_append]
  rintro (inText | inLast)
  · exact .inl (.inl (replaced inText))
  · exact .inr inLast

/-- A byte below 0x80 may be replaced by any text without a replacement character. -/
theorem replace (keeps : KeepsText read made) (ascii : byte < 0x80) (value : String)
    (plain : replacement ∉ value.toList)
    : KeepsText (read ++ [byte]) (made ++ encode value) := by
  intro source rest encodes
  obtain ⟨text, last, encodesText, encodesLast, replaced⟩ := keeps.exists_ends ascii encodes
  refine ⟨text ++ value ++ last, by simp [encodesText, encodesLast], ?_⟩
  simp only [String.toList_append, List.mem_append]
  rintro ((inText | inValue) | inLast)
  · exact replaced (.inl inText)
  · exact absurd inValue plain
  · exact replaced (.inr inLast)

/-- A byte below 0x80 may be dropped. -/
theorem drop (keeps : KeepsText read made) (ascii : byte < 0x80)
    : KeepsText (read ++ [byte]) made := by
  have dropped := keeps.replace ascii "" (by simp)
  rwa [show encode "" = [] from rfl, List.append_nil] at dropped

/-- At a byte below 0x80, what was made may be taken back up to another one. -/
theorem retract {other : UInt8} (keeps : KeepsText read (front ++ other :: back))
    (isAscii : other < 0x80) (ascii : byte < 0x80)
    : KeepsText (read ++ [byte]) front := by
  intro source rest encodes
  obtain ⟨text, last, encodesText, encodesLast, replaced⟩ := keeps.exists_ends ascii encodes
  obtain ⟨first, second, rfl, encodesFirst, -⟩ := exists_cut isAscii encodesText
  refine ⟨first ++ last, by simp [encodesFirst, encodesLast], ?_⟩
  simp only [String.toList_append, List.mem_append] at replaced ⊢
  rintro (inFirst | inLast)
  · exact replaced (.inl (.inl (.inl inFirst)))
  · exact replaced (.inr inLast)

/-- What is made from a whole text is a text. -/
theorem exists_text (keeps : KeepsText read made) {source : String}
    (encodes : encode source = read)
    : ∃ text,
        encode text = made ∧ (replacement ∈ text.toList → replacement ∈ source.toList) := by
  have made := keeps source [] (by rw [encodes, List.append_nil])
  rwa [List.append_nil] at made

end KeepsText

end ExprCompiler.Utf8
