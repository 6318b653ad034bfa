import ExprCompiler.Proofs.Number.HexNumeral
import ExprCompiler.Target.Code

/-! Reading the text of a program back. Lines are split into words, a comment sign ends a line,
and every word is an operation or one of its operands. Main statement: the text of lines whose
variables have proper names reads as the operations of these lines.
-/

namespace ExprCompiler.Assembly

/-- What one line tells the machine. -/
inductive Operation where
  | header
  | defVar (var : Variable)
  | clearStack
  | push (symb : Symb)
  | pop (var : Variable)
  | arith (op : ArithOp)
  | less | greater | equal | not
  | intToFloat
  | concat (target : Variable) (left right : Symb)
  | createFrame | pushFrame | popFrame
  | label (name : String)
  | jump (name : String)
  | jumpIfNotEqual (name : String)
deriving DecidableEq, Repr

/-- A value with one pattern for all floats that are no numbers. -/
def Symb.canonical : Symb → Symb
  | .float value => .float value.canonical
  | symb => symb

/-- What a line means. -/
def Line.operation : Line → Operation
  | .header => .header
  | .defVar var => .defVar var
  | .clearStack => .clearStack
  | .push symb => .push symb.canonical
  | .pop var => .pop var
  | .add => .arith .add
  | .subtract => .arith .subtract
  | .multiply => .arith .multiply
  | .divide => .arith .divideFloats
  | .divideInts => .arith .divideInts
  | .less => .less
  | .greater => .greater
  | .equal => .equal
  | .not => .not
  | .intToFloat => .intToFloat
  | .concat target left right => .concat target (.variable left) (.variable right)
  | .createFrame => .createFrame
  | .pushFrame => .pushFrame
  | .popFrame => .popFrame
  | .label place => .label place.text
  | .jump place => .jump place.text
  | .jumpIfNotEqual place => .jumpIfNotEqual place.text

/-- Whether a character can be part of a word: it is not blank and starts no comment. -/
def isWordChar (char : Char) : Bool :=
  32 < char.toNat && char ≠ '#'

/-- Whether a character can be part of a name. -/
def isNameChar (char : Char) : Bool :=
  char.isAlphanum || ['_', '-', '$', '&', '%', '*', '!', '?'].contains char

/-- Whether some characters are a name, which does not start with a digit. -/
def isName (chars : List Char) : Bool :=
  chars.all isNameChar && chars.head?.any (!·.isDigit)

/-- Reads a variable. -/
def Variable.ofChars? (chars : List Char) : Option Variable :=
  match cut '@' chars with
  | (['G', 'F'], some name) => if isName name then some ⟨.globals, .ofList name⟩ else none
  | (['L', 'F'], some name) => if isName name then some ⟨.locals, .ofList name⟩ else none
  | _ => none

/-- Reads a label. -/
def label? (chars : List Char) : Option String :=
  if isName chars then some (.ofList chars) else none

/-- Reads the characters of a text constant: a backslash stands before a code of three digits. -/
def unescape? : List Char → Option (List Char)
  | [] => some []
  | '\\' :: hundreds :: tens :: ones :: rest => do
      let code ← numeral? 10 [hundreds, tens, ones]
      (unescape? rest).map (Char.ofNat code :: ·)
  | char :: rest => if char = '\\' then none else (unescape? rest).map (char :: ·)

/-- Reads an integer of 64 bits. -/
def int64? (chars : List Char) : Option Int64 := do
  let value ← signed? chars
  if Int64.minValue.toInt ≤ value ∧ value ≤ Int64.maxValue.toInt then some (.ofInt value)
  else none

/-- Reads a constant or a variable. -/
def Symb.ofChars? (chars : List Char) : Option Symb :=
  match cut '@' chars with
  | (['i', 'n', 't'], some value) => (int64? value).map .int
  | (['f', 'l', 'o', 'a', 't'], some value) =>
      (HexNumeral.ofChars? value).map fun numeral => .float numeral.double
  | (['s', 't', 'r', 'i', 'n', 'g'], some value) =>
      (unescape? value).map fun text => .string (.ofList text)
  | (['b', 'o', 'o', 'l'], some ['t', 'r', 'u', 'e']) => some (.bool true)
  | (['b', 'o', 'o', 'l'], some ['f', 'a', 'l', 's', 'e']) => some (.bool false)
  | (['n', 'i', 'l'], some ['n', 'i', 'l']) => some .nil
  | _ => (Variable.ofChars? chars).map .variable

/-- Reads an operation with its operands. -/
def Operation.ofWords? (operation : String) (operands : List (List Char)) : Option Operation :=
  match operation, operands with
  | ".IFJcode23", [] => some .header
  | "DEFVAR", [var] => (Variable.ofChars? var).map .defVar
  | "CLEARS", [] => some .clearStack
  | "PUSHS", [symb] => (Symb.ofChars? symb).map .push
  | "POPS", [var] => (Variable.ofChars? var).map .pop
  | "ADDS", [] => some (.arith .add)
  | "SUBS", [] => some (.arith .subtract)
  | "MULS", [] => some (.arith .multiply)
  | "DIVS", [] => some (.arith .divideFloats)
  | "IDIVS", [] => some (.arith .divideInts)
  | "LTS", [] => some .less
  | "GTS", [] => some .greater
  | "EQS", [] => some .equal
  | "NOTS", [] => some .not
  | "INT2FLOATS", [] => some .intToFloat
  | "CONCAT", [target, left, right] => do
      some (.concat (← Variable.ofChars? target) (← Symb.ofChars? left) (← Symb.ofChars? right))
  | "CREATEFRAME", [] => some .createFrame
  | "PUSHFRAME", [] => some .pushFrame
  | "POPFRAME", [] => some .popFrame
  | "LABEL", [name] => (label? name).map .label
  | "JUMP", [name] => (label? name).map .jump
  | "JUMPIFNEQS", [name] => (label? name).map .jumpIfNotEqual
  | _, _ => none

/-- The words of a line before its comment. -/
def wordsOf (line : List Char) : List (List Char) :=
  ((line.takeWhile (· ≠ '#')).splitOnP (·.toNat ≤ 32)).filter (!·.isEmpty)

/-- Reads a line; one without words says nothing. -/
def readLine? (line : List Char) : Option (List Operation) :=
  match wordsOf line with
  | [] => some []
  | operation :: operands => (Operation.ofWords? (.ofList operation) operands).map ([·])

/-- Reads a program line by line. -/
def read? (text : String) : Option (List Operation) :=
  ((text.toList.splitOn '\n').mapM readLine?).map List.flatten

-----------------------------------------------------------------------------------------
-- Variables and labels
-----------------------------------------------------------------------------------------

/-- A name that the scanner lets through: letters, digits and underscores, and no digit first. -/
def isIdentifier (name : String) : Bool :=
  name.toList.all (fun char => char.isAlphanum || char = '_')
    && name.toList.head?.any (!·.isDigit)

theorem isNameChar_of_isDigit {char : Char} (isDigit : char.isDigit = true)
    : isNameChar char = true := by
  simp [isNameChar, Char.isAlphanum, isDigit]

theorem isName_append {first second : List Char} (isFirst : isName first = true)
    (nameChars : second.all isNameChar = true)
    : isName (first ++ second) = true := by
  simp only [isName, Bool.and_eq_true] at isFirst ⊢
  cases first with
  | nil => simp at isFirst
  | cons char chars => exact ⟨by rw [List.all_append, isFirst.1, nameChars]; rfl, isFirst.2⟩

theorem all_isNameChar_repr (number : Nat) : (Nat.repr number).toList.all isNameChar = true := by
  rw [List.all_eq_true, Nat.toList_repr]
  intro char member
  exact isNameChar_of_isDigit (Nat.isDigit_of_mem_toDigits (by decide) (by decide) member)

/-- The name of a numbered variable. -/
theorem isName_numbered {name : String} (identifier : isIdentifier name = true) (number : Nat)
    : isName (name ++ "_" ++ Nat.repr number).toList = true := by
  simp only [isIdentifier, Bool.and_eq_true, List.all_eq_true, Bool.or_eq_true,
    decide_eq_true_eq] at identifier
  have isBase : isName name.toList = true := by
    simp only [isName, Bool.and_eq_true, List.all_eq_true]
    refine ⟨fun char member => ?_, identifier.2⟩
    rcases identifier.1 char member with alphanumeric | rfl
    · simp [isNameChar, alphanumeric]
    · decide
  rw [String.toList_append, String.toList_append]
  exact isName_append (isName_append isBase (by decide)) (all_isNameChar_repr number)

theorem isName_label (place : Label) : isName place.text.toList = true := by
  cases place <;>
    rw [Label.text, String.toList_append] <;>
    exact isName_append (by decide) (all_isNameChar_repr _)

theorem label?_text (place : Label) : label? place.text.toList = some place.text := by
  rw [label?, if_pos (isName_label place), String.ofList_toList]

theorem Variable.ofChars?_text {var : Variable} (named : isName var.name.toList = true)
    : Variable.ofChars? var.text.toList = some var := by
  obtain ⟨frame, name⟩ := var
  have chars : (Variable.mk frame name).text.toList = frame.text.toList ++ '@' :: name.toList := by
    rw [Variable.text, String.toList_append, String.toList_append, List.append_assoc]
    rfl
  have absent : '@' ∉ frame.text.toList := by cases frame <;> decide
  unfold Variable.ofChars?
  rw [chars, cut_append absent]
  cases frame <;> simp [Frame.text, named]

-----------------------------------------------------------------------------------------
-- Constants
-----------------------------------------------------------------------------------------

/-- The three digits of a code. -/
theorem exists_codeDigits {code : Nat} (short : code < 1000)
    : ∃ hundreds tens ones,
        List.replicate (3 - (Nat.toDigits 10 code).length) '0' ++ Nat.toDigits 10 code
          = [hundreds, tens, ones]
        ∧ numeral? 10 [hundreds, tens, ones] = some code := by
  have atMost : (Nat.toDigits 10 code).length ≤ 3 :=
    (Nat.length_toDigits_le_iff (by decide) (by decide)).mpr (by omega)
  set digits := List.replicate (3 - (Nat.toDigits 10 code).length) '0' ++ Nat.toDigits 10 code
    with isDigits
  have three : digits.length = 3 := by
    rw [isDigits, List.length_append, List.length_replicate]
    omega
  obtain ⟨hundreds, tens, ones, spelled⟩ := List.length_eq_three.mp three
  refine ⟨hundreds, tens, ones, spelled, ?_⟩
  have value : digitsAfter? 10 0 digits = some code := by
    rw [isDigits, digitsAfter?_append, digitsAfter?_zeros (by decide) (by decide), zero_mul]
    exact digitsAfter?_toDigits (by decide) (by decide) code
  rw [spelled] at value
  exact value

theorem unescape?_escapeChar (char : Char) (rest : List Char)
    : unescape? ((escapeChar char).toList ++ rest) = (unescape? rest).map (char :: ·) := by
  unfold escapeChar
  split
  · next special =>
      have short : char.toNat < 1000 := by
        rcases special with blank | rfl | rfl
        · omega
        · decide
        · decide
      obtain ⟨hundreds, tens, ones, spelled, value⟩ := exists_codeDigits short
      simp only [String.toList_ofList, List.cons_append, spelled, List.nil_append]
      rw [unescape?, value, Option.bind_eq_bind, Option.bind_some, Char.ofNat_toNat]
  · next plain =>
      have noBackslash : char ≠ '\\' := fun same => plain (.inr (.inr same))
      simp [unescape?, noBackslash]

/-- An escaped text reads back, by induction over its characters. -/
theorem unescape?_escapeText (text : String)
    : unescape? (escapeText text).toList = some text.toList := by
  rw [escapeText, String.toList_join, List.flatMap_map]
  induction text.toList with
  | nil => rfl
  | cons char chars ih => rw [List.flatMap_cons, unescape?_escapeChar, ih, Option.map_some]

theorem int64?_toString (value : Int64) : int64? (toString value.toInt).toList = some value := by
  have lower := value.le_toInt
  have upper := value.toInt_lt
  simp only [int64?, signed?_toString, Option.bind_eq_bind, Option.bind_some]
  rw [if_pos ⟨lower, by rw [Int64.toInt_maxValue]; omega⟩, Int64.ofInt_toInt]

/-- Whether a variable, if the value is one, has a proper name. -/
def Symb.isReadable : Symb → Bool
  | .variable var => isName var.name.toList
  | .int _ | .float _ | .string _ | .bool _ | .nil => true

/-- What stands before and after the sign that ends the type of a constant. -/
theorem cut_typed {type : String} (absent : '@' ∉ type.toList) (value : String)
    : cut '@' (type ++ "@" ++ value).toList = (type.toList, some value.toList) := by
  rw [String.toList_append, String.toList_append, List.append_assoc]
  exact cut_append absent value.toList

theorem Symb.ofChars?_text {symb : Symb} (readable : symb.isReadable = true)
    : Symb.ofChars? symb.text.toList = some symb.canonical := by
  unfold Symb.ofChars?
  match symb with
  | .int value =>
      have typed : (Symb.int value).text = "int" ++ "@" ++ toString value.toInt := rfl
      rw [typed, cut_typed (by decide)]
      exact congrArg (Option.map Symb.int) (int64?_toString value)
  | .float value =>
      have typed : (Symb.float value).text = "float" ++ "@" ++ value.hexText := rfl
      have read := congrArg (Option.map Symb.float) value.ofChars?_hexText
      rw [Option.map_map] at read
      rw [typed, cut_typed (by decide)]
      exact read
  | .string text =>
      have typed : (Symb.string text).text = "string" ++ "@" ++ escapeText text := rfl
      rw [typed, cut_typed (by decide)]
      change (unescape? (escapeText text).toList).map (fun text => Symb.string (.ofList text)) = _
      rw [unescape?_escapeText, Option.map_some, String.ofList_toList]
      rfl
  | .bool value => cases value <;> rfl
  | .nil => rfl
  | .variable var =>
      have read := congrArg (Option.map Symb.variable) (Variable.ofChars?_text readable)
      have typed : cut '@' (Symb.variable var).text.toList
          = (var.frame.text.toList, some var.name.toList) :=
        cut_typed (by cases var.frame <;> decide) var.name
      rw [typed]
      cases isFrame : var.frame with
      | globals => exact read
      | locals => exact read

-----------------------------------------------------------------------------------------
-- Words
-----------------------------------------------------------------------------------------

/-- Whether some characters make up a word. -/
def isWord (chars : List Char) : Bool :=
  !chars.isEmpty && chars.all isWordChar

theorem isWordChar_of_isNameChar {char : Char} (isName : isNameChar char = true)
    : isWordChar char = true := by
  rcases Bool.or_eq_true_iff.mp isName with alphanumeric | special
  · have code : 48 ≤ char.toNat := by
      rcases Bool.or_eq_true_iff.mp alphanumeric with isLetter | isDigit
      · rcases Bool.or_eq_true_iff.mp isLetter with isUpper | isLower
        · have fromA : 'A'.val ≤ char.val := (of_decide_eq_true isUpper).1
          exact Nat.le_trans (by decide) (UInt32.le_iff_toNat_le.mp fromA)
        · have fromA : 'a'.val ≤ char.val :=
            of_decide_eq_true (Bool.and_eq_true_iff.mp isLower).1
          exact Nat.le_trans (by decide) (UInt32.le_iff_toNat_le.mp fromA)
      · have fromZero : '0'.val ≤ char.val :=
          of_decide_eq_true (Bool.and_eq_true_iff.mp isDigit).1
        exact UInt32.le_iff_toNat_le.mp fromZero
    have noComment : char ≠ '#' := by
      rintro rfl
      exact absurd code (by decide)
    simp only [isWordChar, Bool.and_eq_true, decide_eq_true_eq]
    exact ⟨by omega, noComment⟩
  · simp only [List.contains_eq_mem, decide_eq_true_eq, List.mem_cons, List.not_mem_nil,
      or_false] at special
    rcases special with rfl | rfl | rfl | rfl | rfl | rfl | rfl | rfl <;> decide

theorem all_isWordChar_of_isName {chars : List Char} (name : isName chars = true)
    : chars.all isWordChar = true := by
  simp only [isName, Bool.and_eq_true, List.all_eq_true] at name ⊢
  exact fun char member => isWordChar_of_isNameChar (name.1 char member)

theorem all_isWordChar_digits {base : Nat} (small : base ≤ 16) {chars : List Char}
    (digits : ∀ char ∈ chars, (digit? base char).isSome = true)
    : chars.all isWordChar = true := by
  rw [List.all_eq_true]
  intro char member
  obtain ⟨digit, isDigit⟩ := Option.isSome_iff_exists.mp (digits char member)
  obtain ⟨below, rfl⟩ := digitChar_of_digit? isDigit
  have all : ∀ digit < 16, isWordChar (Nat.digitChar digit) = true := by decide
  exact all digit (Nat.lt_of_lt_of_le below small)

theorem all_isWordChar_repr (number : Nat) : (Nat.repr number).toList.all isWordChar = true := by
  rw [Nat.toList_repr]
  exact all_isWordChar_digits (by decide : 10 ≤ 16)
    (isSome_digit?_toDigits (by decide) (by decide) number)

theorem all_isWordChar_toString (value : Int)
    : (toString value).toList.all isWordChar = true := by
  cases value with
  | ofNat number => exact all_isWordChar_repr number
  | negSucc number =>
      change ("-" ++ Nat.repr (number + 1)).toList.all isWordChar = true
      rw [String.toList_append, List.all_append, all_isWordChar_repr]
      rfl

theorem all_isWordChar_fractionDigits {fraction : Nat} (bound : fraction < 2 ^ 52)
    : (Double.fractionDigits fraction).all isWordChar = true := by
  obtain ⟨zeros, -, value⟩ := Double.fractionDigits_zeros bound
  exact all_isWordChar_digits (by decide : 16 ≤ 16)
    fun char member => isSome_digit?_of_mem value (List.mem_append_left _ member)

theorem all_isWordChar_hexText (double : Double)
    : double.hexText.toList.all isWordChar = true := by
  have fraction := all_isWordChar_fractionDigits double.fractionField_lt
  have exponent : (Double.exponentText (double.scale + 52)).toList.all isWordChar = true := by
    unfold Double.exponentText
    split <;> rw [String.toList_append, List.all_append, all_isWordChar_repr] <;> rfl
  unfold Double.hexText
  split
  · decide
  dsimp only
  have sign : (if double.isNegative then "-" else "").toList.all isWordChar = true := by
    split <;> decide
  split
  · rw [String.toList_append, List.all_append, sign]
    decide
  split
  · rw [String.toList_append, List.all_append, sign]
    decide
  simp only [String.toList_append, List.all_append, sign, exponent, Bool.true_and, Bool.and_true]
  have lead : (if double.exponentField = 0 then "0" else "1").toList.all isWordChar = true := by
    split <;> decide
  have point : (if (Double.fractionDigits double.fractionField).isEmpty then ""
      else "." ++ String.ofList (Double.fractionDigits double.fractionField)).toList.all isWordChar
      = true := by
    split
    · rfl
    · simp only [String.toList_append, String.toList_ofList, List.all_append, fraction]
      decide
  rw [lead, point]
  decide

theorem all_isWordChar_escapeText (text : String)
    : (escapeText text).toList.all isWordChar = true := by
  rw [escapeText, String.toList_join, List.flatMap_map, List.all_flatMap, List.all_eq_true]
  intro char _
  unfold escapeChar
  split
  · next special =>
      have digits := all_isWordChar_digits (by decide : 10 ≤ 16)
        (isSome_digit?_toDigits (by decide) (by decide) char.toNat)
      have zeros : (List.replicate (3 - (Nat.toDigits 10 char.toNat).length) '0').all isWordChar
          = true := by
        rw [List.all_eq_true]
        intro zero member
        rw [List.eq_of_mem_replicate member]
        decide
      dsimp only
      rw [String.toList_ofList, List.cons_append, List.all_cons, List.all_append, zeros, digits]
      decide
  · next plain =>
      simp only [not_or, not_le] at plain
      simp [isWordChar, plain]

theorem isWord_append {first second : List Char} (isFirst : isWord first = true)
    (wordChars : second.all isWordChar = true)
    : isWord (first ++ second) = true := by
  simp only [isWord, Bool.and_eq_true, List.all_append] at isFirst ⊢
  exact ⟨by cases first <;> simp_all, isFirst.2, wordChars⟩

theorem Variable.isWord_text {var : Variable} (named : isName var.name.toList = true)
    : isWord var.text.toList = true := by
  rw [Variable.text, String.toList_append]
  exact isWord_append (by cases var.frame <;> decide) (all_isWordChar_of_isName named)

theorem Symb.isWord_text {symb : Symb} (readable : symb.isReadable = true)
    : isWord symb.text.toList = true := by
  match symb with
  | .int value =>
      rw [Symb.text, String.toList_append]
      exact isWord_append (by decide) (all_isWordChar_toString _)
  | .float value =>
      rw [Symb.text, String.toList_append]
      exact isWord_append (by decide) (all_isWordChar_hexText value)
  | .string text =>
      rw [Symb.text, String.toList_append]
      exact isWord_append (by decide) (all_isWordChar_escapeText text)
  | .bool value => cases value <;> decide
  | .nil => decide
  | .variable var => exact var.isWord_text readable

theorem Label.isWord_text (place : Label) : isWord place.text.toList = true := by
  have wordChars := all_isWordChar_of_isName (isName_label place)
  rw [isWord, wordChars, Bool.and_true]
  cases place <;> simp [Label.text]

-----------------------------------------------------------------------------------------
-- Lines
-----------------------------------------------------------------------------------------

/-- Whether all variables of a line have proper names. -/
def Line.isReadable : Line → Bool
  | .defVar var | .pop var => isName var.name.toList
  | .push symb => symb.isReadable
  | .concat target left right =>
      isName target.name.toList && isName left.name.toList && isName right.name.toList
  | _ => true

theorem Line.all_isWord_words {line : Line} (readable : line.isReadable = true)
    : line.words.all (fun word => isWord word.toList) = true := by
  match line with
  | .defVar var | .pop var =>
      rw [Line.words, List.all_cons, List.all_cons, var.isWord_text readable]
      decide
  | .push symb =>
      rw [Line.words, List.all_cons, List.all_cons, Symb.isWord_text readable]
      decide
  | .concat target left right =>
      simp only [Line.isReadable, Bool.and_eq_true] at readable
      simp only [Line.words, List.all_cons, Variable.isWord_text readable.1.1,
        Variable.isWord_text readable.1.2, Variable.isWord_text readable.2]
      decide
  | .label place | .jump place | .jumpIfNotEqual place =>
      rw [Line.words, List.all_cons, List.all_cons, place.isWord_text]
      decide
  | .header | .clearStack | .add | .subtract | .multiply | .divide | .divideInts | .less
  | .greater | .equal | .not | .intToFloat | .createFrame | .pushFrame | .popFrame => decide

theorem mem_intercalate_space {char : Char} {words : List (List Char)}
    (member : char ∈ [' '].intercalate words)
    : char = ' ' ∨ ∃ word ∈ words, char ∈ word := by
  induction words with
  | nil => cases member
  | cons word others ih =>
      cases others with
      | nil => exact .inr ⟨word, List.mem_cons_self, by simpa using member⟩
      | cons next later =>
          rw [List.intercalate_cons_cons] at member
          simp only [List.mem_append, List.mem_singleton] at member
          rcases member with (inWord | isSpace) | inOthers
          · exact .inr ⟨word, List.mem_cons_self, inWord⟩
          · exact .inl isSpace
          · rcases ih inOthers with isSpace | ⟨other, isOther, inOther⟩
            · exact .inl isSpace
            · exact .inr ⟨other, List.mem_cons_of_mem _ isOther, inOther⟩

/-- Without a comment, words with one space between them split at the spaces. By induction on the
words: the first space splits off the first of them.
-/
theorem splitOnP_intercalate {words : List (List Char)}
    (proper : ∀ word ∈ words, isWord word = true)
    : (([' '].intercalate words).splitOnP (·.toNat ≤ 32)).filter (!·.isEmpty) = words := by
  have single {word : List Char} (isAWord : isWord word = true)
      : word.splitOnP (·.toNat ≤ 32) = [word] ∧ (!word.isEmpty) = true := by
    simp only [isWord, Bool.and_eq_true, List.all_eq_true] at isAWord
    refine ⟨List.splitOnP_eq_singleton fun char member => ?_, isAWord.1⟩
    have wordChar := isAWord.2 char member
    simp only [isWordChar, Bool.and_eq_true, decide_eq_true_eq] at wordChar
    simp [wordChar.1]
  induction words with
  | nil => rfl
  | cons word others ih =>
      obtain ⟨alone, nonempty⟩ := single (proper word List.mem_cons_self)
      cases others with
      | nil =>
          rw [List.intercalate_singleton, alone, List.filter_cons, if_pos nonempty,
            List.filter_nil]
      | cons next later =>
          have following := ih fun other member => proper other (List.mem_cons_of_mem _ member)
          rw [List.intercalate_cons_cons, List.append_assoc, List.singleton_append,
            List.splitOnP_append_cons _ _ (by decide), alone, List.singleton_append,
            List.filter_cons, if_pos nonempty, following]

/-- Words with one space between them are the words of their line. -/
theorem wordsOf_intercalate {words : List (List Char)} (proper : ∀ word ∈ words, isWord word = true)
    : wordsOf ([' '].intercalate words) = words := by
  have noComment : ([' '].intercalate words).takeWhile (· ≠ '#') = [' '].intercalate words := by
    refine List.takeWhile_eq_self_iff.mpr fun char member => decide_eq_true ?_
    rcases mem_intercalate_space member with rfl | ⟨word, isAWord, inWord⟩
    · decide
    · have wordChars := (Bool.and_eq_true_iff.mp (proper word isAWord)).2
      have wordChar := List.all_eq_true.mp wordChars char inWord
      simp only [isWordChar, Bool.and_eq_true, decide_eq_true_eq] at wordChar
      exact wordChar.2
  rw [wordsOf, noComment]
  exact splitOnP_intercalate proper

/-- A line reads as its operation. -/
theorem readLine?_text {line : Line} (readable : line.isReadable = true)
    : readLine? line.text.toList = some [line.operation] := by
  have words : wordsOf line.text.toList = line.words.map String.toList := by
    rw [Line.text, String.toList_intercalate, show " ".toList = [' '] from rfl]
    refine wordsOf_intercalate ?_
    rw [List.forall_mem_map]
    exact List.all_eq_true.mp (line.all_isWord_words readable)
  rw [readLine?, words]
  -- the first word picks the case of `Operation.ofWords?`, which computes
  cases line with
  | defVar var =>
      change Option.map ([·]) ((Variable.ofChars? var.text.toList).map Operation.defVar) = _
      rw [Variable.ofChars?_text readable]
      rfl
  | pop var =>
      change Option.map ([·]) ((Variable.ofChars? var.text.toList).map Operation.pop) = _
      rw [Variable.ofChars?_text readable]
      rfl
  | push symb =>
      change Option.map ([·]) ((Symb.ofChars? symb.text.toList).map Operation.push) = _
      rw [Symb.ofChars?_text readable]
      rfl
  | concat target left right =>
      simp only [Line.isReadable, Bool.and_eq_true] at readable
      have isLeft : Symb.ofChars? left.text.toList = some (.variable left) :=
        @Symb.ofChars?_text (.variable left) readable.1.2
      have isRight : Symb.ofChars? right.text.toList = some (.variable right) :=
        @Symb.ofChars?_text (.variable right) readable.2
      change Option.map ([·]) ((Variable.ofChars? target.text.toList).bind fun target =>
        (Symb.ofChars? left.text.toList).bind fun left =>
          (Symb.ofChars? right.text.toList).bind fun right =>
            some (Operation.concat target left right)) = _
      rw [Variable.ofChars?_text readable.1.1, isLeft, isRight]
      rfl
  | label place =>
      change Option.map ([·]) ((label? place.text.toList).map Operation.label) = _
      rw [label?_text]
      rfl
  | jump place =>
      change Option.map ([·]) ((label? place.text.toList).map Operation.jump) = _
      rw [label?_text]
      rfl
  | jumpIfNotEqual place =>
      change Option.map ([·]) ((label? place.text.toList).map Operation.jumpIfNotEqual) = _
      rw [label?_text]
      rfl
  | header | clearStack | add | subtract | multiply | divide | divideInts | less
  | greater | equal | not | intToFloat | createFrame | pushFrame | popFrame => rfl

/-- A newline is not part of any word of a line. -/
theorem newline_not_mem_text {line : Line} (readable : line.isReadable = true)
    : '\n' ∉ line.text.toList := by
  rw [Line.text, String.toList_intercalate]
  intro member
  rcases mem_intercalate_space member with isSpace | ⟨word, isAWord, inWord⟩
  · exact absurd isSpace (by decide)
  · obtain ⟨source, isSource, rfl⟩ := List.mem_map.mp isAWord
    have proper := List.all_eq_true.mp (line.all_isWord_words readable) source isSource
    have wordChars := (Bool.and_eq_true_iff.mp proper).2
    exact absurd (List.all_eq_true.mp wordChars '\n' inWord) (by decide)

/-- The text of lines with proper names reads as their operations. By induction on the lines:
the newline after the first of them splits it off.
-/
theorem read?_render {lines : List Line} (readable : ∀ line ∈ lines, line.isReadable = true)
    : read? (render lines) = some (lines.map Line.operation) := by
  rw [read?, render, String.toList_join, List.flatMap_map]
  induction lines with
  | nil => rfl
  | cons line others ih =>
      have isLine := readable line List.mem_cons_self
      have following := ih fun other member => readable other (List.mem_cons_of_mem _ member)
      have whole : line.text.toList.splitOnP (· == '\n') = [line.text.toList] :=
        List.splitOnP_eq_singleton fun char member =>
          beq_false_of_ne fun isBreak => newline_not_mem_text isLine (isBreak ▸ member)
      obtain ⟨read, reads, joined⟩ := Option.map_eq_some_iff.mp following
      rw [List.splitOn] at reads
      rw [List.flatMap_cons, String.toList_append, List.append_assoc,
        show "\n".toList = ['\n'] from rfl, List.singleton_append, List.splitOn,
        List.splitOnP_append_cons _ _ (by decide), whole, List.singleton_append, List.mapM_cons,
        readLine?_text isLine, reads, List.map_cons, ← joined]
      rfl

end ExprCompiler.Assembly
