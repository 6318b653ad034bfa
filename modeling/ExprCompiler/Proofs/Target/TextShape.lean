import ExprCompiler.Proofs.Target.RenderedCode

/-! The shape of assembly text, as far as it shows in its lines and words. Main statements: the text
of some code splits into the lines of its instructions, whatever its constants are; its jumps lead
forward to labels of the same code; and its frames come and go in pairs.
-/

namespace ExprCompiler.Assembly

/-- The lines of a text, the empty one after its last newline included. -/
def textLines (text : String) : List String :=
  (text.toList.splitOn '\n').map String.ofList

/-- The words of a line, with one space between them. -/
def spacedWords (line : String) : List String :=
  (line.toList.splitOn ' ').map String.ofList

/-- The label that a line defines. -/
def definedLabel? (line : String) : Option String :=
  match spacedWords line with
  | ["LABEL", name] => some name
  | _ => none

/-- The label that a line jumps to. -/
def jumpTarget? (line : String) : Option String :=
  match spacedWords line with
  | ["JUMP", name] | ["JUMPIFNEQS", name] => some name
  | _ => none

/-- The labels that some lines define. -/
def definedLabels (lines : List String) : List String :=
  lines.filterMap definedLabel?

/-- Whether every jump among some lines leads to a label in the lines after it. -/
def jumpsForward : List String → Bool
  | [] => true
  | line :: later =>
      (jumpTarget? line).all (fun name => (definedLabels later).contains name)
        && jumpsForward later

/-- The lines that make, push or pop a frame. -/
def frameLines (lines : List String) : List String :=
  lines.filter fun line => ["CREATEFRAME", "PUSHFRAME", "POPFRAME"].contains line

/-- The label that a line of assembly defines. -/
def Line.label? : Line → Option String
  | .label place => some place.text
  | _ => none

/-- The label that a line of assembly jumps to. -/
def Line.target? : Line → Option String
  | .jump place | .jumpIfNotEqual place => some place.text
  | _ => none

/-- Whether a line of assembly makes, pushes or pops a frame. -/
def Line.isFrameLine : Line → Bool
  | .createFrame | .pushFrame | .popFrame => true
  | _ => false

variable {line : Line}

/-- The characters of the words of a line. -/
theorem isWordChar_of_mem_words (readable : line.isReadable = true) {word : String}
    (isWord : word ∈ line.words) {char : Char} (member : char ∈ word.toList)
    : isWordChar char = true := by
  have proper := List.all_eq_true.mp (line.all_isWord_words readable) word isWord
  exact List.all_eq_true.mp (Bool.and_eq_true_iff.mp proper).2 char member

/-- The words of a line can be read off its text. -/
theorem spacedWords_text (readable : line.isReadable = true)
    : spacedWords line.text = line.words := by
  have noSpace : ∀ word ∈ line.words.map String.toList, ' ' ∉ word := by
    rw [List.forall_mem_map]
    intro word isWord isSpace
    exact absurd (isWordChar_of_mem_words readable isWord isSpace) (by decide)
  have someWord : line.words.map String.toList ≠ [] := by cases line <;> simp [Line.words]
  rw [spacedWords, Line.text, String.toList_intercalate, show " ".toList = [' '] from rfl,
    List.splitOn_intercalate ' ' noSpace someWord, List.map_map]
  exact (List.map_congr_left fun word _ => String.ofList_toList).trans (List.map_id _)

/-- Lines with the same text have the same words. -/
theorem words_eq_of_text_eq {other : Line} (readable : line.isReadable = true)
    (otherReadable : other.isReadable = true) (same : line.text = other.text)
    : line.words = other.words := by
  rw [← spacedWords_text readable, ← spacedWords_text otherReadable, same]

theorem definedLabel?_text (readable : line.isReadable = true)
    : definedLabel? line.text = line.label? := by
  rw [definedLabel?, spacedWords_text readable]
  cases line <;> rfl

theorem jumpTarget?_text (readable : line.isReadable = true)
    : jumpTarget? line.text = line.target? := by
  rw [jumpTarget?, spacedWords_text readable]
  cases line <;> rfl

/-- Frame operations are the lines with their texts: a line without operands is its word. -/
theorem contains_text (readable : line.isReadable = true)
    : ["CREATEFRAME", "PUSHFRAME", "POPFRAME"].contains line.text = line.isFrameLine := by
  rw [Bool.eq_iff_iff, List.contains_iff_mem]
  constructor
  · intro member
    have words : line.words ∈ [["CREATEFRAME"], ["PUSHFRAME"], ["POPFRAME"]] := by
      simp only [List.mem_cons, List.not_mem_nil, or_false] at member ⊢
      rcases member with same | same | same
      · exact .inl (@words_eq_of_text_eq _ .createFrame readable rfl same)
      · exact .inr (.inl (@words_eq_of_text_eq _ .pushFrame readable rfl same))
      · exact .inr (.inr (@words_eq_of_text_eq _ .popFrame readable rfl same))
    cases line <;> simp_all [Line.words, Line.isFrameLine]
  · intro isFrame
    cases line <;> simp_all [Line.isFrameLine, Line.text, Line.words]

/-- A line has no comment. -/
theorem hash_not_mem_text (readable : line.isReadable = true) : '#' ∉ line.text.toList := by
  rw [Line.text, String.toList_intercalate]
  intro member
  rcases mem_intercalate_space member with isSpace | ⟨word, isWord, inWord⟩
  · exact absurd isSpace (by decide)
  · obtain ⟨source, isSource, rfl⟩ := List.mem_map.mp isWord
    exact absurd (isWordChar_of_mem_words readable isSource inWord) (by decide)

/-- A text splits into the lines that it was made of. By induction on the lines: the newline after
the first of them splits it off.
-/
theorem textLines_render {lines : List Line} (readable : ∀ line ∈ lines, line.isReadable = true)
    : textLines (render lines) = lines.map Line.text ++ [""] := by
  rw [textLines, render, String.toList_join, List.flatMap_map]
  induction lines with
  | nil => rfl
  | cons line others ih =>
      have isLine := readable line List.mem_cons_self
      have following := ih fun other member => readable other (List.mem_cons_of_mem _ member)
      have whole : line.text.toList.splitOnP (· == '\n') = [line.text.toList] :=
        List.splitOnP_eq_singleton fun char member =>
          beq_false_of_ne fun isBreak => newline_not_mem_text isLine (isBreak ▸ member)
      rw [List.splitOn] at following
      rw [List.flatMap_cons, String.toList_append, List.append_assoc,
        show "\n".toList = ['\n'] from rfl, List.singleton_append, List.splitOn,
        List.splitOnP_append_cons _ _ (by decide), whole, List.singleton_append, List.map_cons,
        following, String.ofList_toList]
      rfl

theorem definedLabels_map_text {lines : List Line}
    (readable : ∀ line ∈ lines, line.isReadable = true)
    : definedLabels (lines.map Line.text) = labelsOf (lines.map Line.operation) := by
  rw [definedLabels, labelsOf, List.filterMap_map, List.filterMap_map]
  refine List.filterMap_congr fun line member => ?_
  rw [Function.comp_apply, definedLabel?_text (readable line member)]
  cases line <;> rfl

/-- Whether every jump among some lines of assembly leads to a label in the lines after it. -/
def targetsFollow : List Line → Bool
  | [] => true
  | line :: later =>
      line.target?.all (fun name => (later.filterMap Line.label?).contains name)
        && targetsFollow later

theorem jumpsForward_map_text {lines : List Line}
    (readable : ∀ line ∈ lines, line.isReadable = true)
    : jumpsForward (lines.map Line.text) = targetsFollow lines := by
  induction lines with
  | nil => rfl
  | cons line later ih =>
      obtain ⟨isLine, areLater⟩ := List.forall_mem_cons.mp readable
      have labels : definedLabels (later.map Line.text) = later.filterMap Line.label? := by
        rw [definedLabels, List.filterMap_map]
        exact List.filterMap_congr fun other member => definedLabel?_text (areLater other member)
      rw [List.map_cons, jumpsForward, jumpTarget?_text isLine, labels, ih areLater, targetsFollow]

/-- Jumps that lead forward still do so in front of other lines that do. -/
theorem targetsFollow_append {first second : List Line} (isFirst : targetsFollow first = true)
    (isSecond : targetsFollow second = true)
    : targetsFollow (first ++ second) = true := by
  induction first with
  | nil => exact isSecond
  | cons line later ih =>
      simp only [targetsFollow, Bool.and_eq_true] at isFirst
      simp only [List.cons_append, targetsFollow, Bool.and_eq_true]
      refine ⟨?_, ih isFirst.2⟩
      cases target : line.target? with
      | none => rfl
      | some name =>
          have leads := isFirst.1
          simp only [target, Option.all_some, List.contains_iff_mem] at leads ⊢
          rw [List.filterMap_append]
          exact List.mem_append_left _ leads

theorem frameLines_map_text {lines : List Line}
    (readable : ∀ line ∈ lines, line.isReadable = true)
    : frameLines (lines.map Line.text) = (lines.filter Line.isFrameLine).map Line.text := by
  rw [frameLines, List.filter_map]
  congr 1
  exact List.filter_congr fun line member => contains_text (readable line member)

/-- No instruction clears the stack. -/
theorem clearStack_not_mem_linesOf (branch : UInt32) (code : List Instruction)
    : .clearStack ∉ Instruction.linesOf branch code := by
  induction code generalizing branch with
  | nil => simp [Instruction.linesOf]
  | cons instruction others ih =>
      rw [Instruction.linesOf, List.mem_append, not_or]
      refine ⟨?_, ih _⟩
      cases instruction with
      | arith op onInts => cases op <;> simp [Instruction.lines, ArithOp.line]
      | compare op => cases op <;> simp [Instruction.lines, CompareOp.lines]
      | coalesce => simp [Instruction.lines, coalesceLines, CompareOp.lines]
      | push _ | concat | intToFloatTop | intToFloatSecond => simp [Instruction.lines]

/-- The jumps of an instruction lead forward: only a nil check has any, and its two labels stand
after them.
-/
theorem targetsFollow_lines (branch : UInt32) (instruction : Instruction)
    : targetsFollow (instruction.lines branch) = true := by
  cases instruction with
  | arith op onInts => cases op <;> rfl
  | compare op => cases op <;> rfl
  | coalesce =>
      simp [Instruction.lines, coalesceLines, CompareOp.lines, targetsFollow, Line.target?,
        Line.label?]
  | push _ | concat | intToFloatTop | intToFloatSecond => rfl

theorem targetsFollow_linesOf (branch : UInt32) (code : List Instruction)
    : targetsFollow (Instruction.linesOf branch code) = true := by
  induction code generalizing branch with
  | nil => rfl
  | cons instruction others ih =>
      exact targetsFollow_append (targetsFollow_lines branch instruction) (ih _)

/-- Each nil check makes a frame, pushes it and pops it, one check after the other. -/
theorem filter_isFrameLine_linesOf (branch : UInt32) (code : List Instruction)
    : (Instruction.linesOf branch code).filter Line.isFrameLine
      = (List.replicate (code.count .coalesce) [.createFrame, .pushFrame, .popFrame]).flatten := by
  induction code generalizing branch with
  | nil => rfl
  | cons instruction others ih =>
      rw [Instruction.linesOf, List.filter_append, ih]
      cases instruction with
      | arith op onInts => cases op <;> rfl
      | compare op => cases op <;> rfl
      | coalesce =>
          rw [List.count_cons_self, List.replicate_succ, List.flatten_cons]
          rfl
      | push _ | concat | intToFloatTop | intToFloatSecond => rfl

end ExprCompiler.Assembly
