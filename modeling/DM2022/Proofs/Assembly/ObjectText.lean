import DM2022.Assembly.Object
import DM2022.Proofs.Assembly.Writing

/-!
# Object texts are read back

An object text is a heading of comments and then a row for each word. The reader takes
nothing from a comment, and the word of a row from its number.
-/
namespace DM2022.Assembly.Object

/-- The comments before the words. -/
def heading (words : List Word) : List (List Char) :=
  ["# Duck Machine object file".toList,
    '#' :: ' ' :: ((Text.naturalText words.length).toList ++ " words".toList)]

def row (word : Word) : List Char := (Text.integerText word.toInt).toList

variable {words : List Word}

theorem toList_text (words : List Word) :
    (text words).toList = (heading words ++ words.map row).flatMap (· ++ ['\n']) := by
  have hfirst : "# Duck Machine object file\n# ".toList =
      "# Duck Machine object file".toList ++ ['\n', '#', ' '] := rfl
  have hsecond : " words\n".toList = " words".toList ++ ['\n'] := rfl
  unfold text
  rw [String.toList_append, String.toList_append, String.toList_append, String.toList_join, hfirst,
    hsecond, heading, List.flatMap_append, List.flatMap_map, List.flatMap_map]
  simp [row]

theorem inline_heading : ∀ line ∈ heading words, Text.Inline line := by
  have hcount := Text.inline_of_visible (Text.visible_toDigits words.length)
  rw [heading, List.forall_mem_cons, List.forall_mem_singleton, Text.toList_naturalText]
  refine ⟨by simp [Text.Inline], Text.inline_cons.2 ⟨by decide, Text.inline_cons.2 ⟨by decide, ?_⟩⟩⟩
  exact Text.inline_append.2 ⟨hcount, by simp [Text.Inline]⟩

theorem lines_text (words : List Word) :
    Text.lines (text words).toList = heading words ++ words.map row := by
  rw [toList_text]
  apply Text.lines_flatMap
  refine List.forall_mem_append.2 ⟨inline_heading, fun line hline => ?_⟩
  obtain ⟨word, -, rfl⟩ := List.mem_map.1 hline
  exact Text.inline_of_visible (Text.visible_integerText word.toInt)

theorem readLine_comment (comment : List Char) : readLine ('#' :: comment) = .ok none := by
  have hcode : Text.trim (Text.dropComment ('#' :: comment)) = [] := rfl
  rw [readLine, hcode]
  rfl

theorem readLine_row (word : Word) : readLine (row word) = .ok (some word) := by
  have hvisible := Text.visible_integerText word.toInt
  have hcode : Text.trim (Text.dropComment (row word)) = row word := by
    rw [row, Text.dropComment_of_unmarked, Text.trim_of_visible hvisible]
    exact fun c hc => Text.isCommentMark_of_isVisible (hvisible c hc)
  have hne : row word ≠ [] := Text.integerText_ne_nil word.toInt
  have hinteger : Text.integer? (row word) = some word.toInt := by
    have hl := word.le_toInt
    have hu := word.toInt_lt
    exact Text.integer?_integerText (by omega) (by omega)
  simp only [readLine, hcode, hne, hinteger, eitherWord?_toInt, if_false]

theorem readLines_rows (line : Nat) (words : List Word) :
    readLines line (words.map row) = .ok words := by
  induction words generalizing line with
  | nil => rfl
  | cons word rest ih =>
    rw [List.map_cons, readLines, readLine_row]
    simp only [ih]
    rfl

/-- The text of an image is read as the image. -/
theorem read_text (words : List Word) : read (text words).toList = .ok words := by
  rw [read, lines_text, heading, List.cons_append, List.cons_append, List.nil_append, readLines,
    show "# Duck Machine object file".toList = '#' :: " Duck Machine object file".toList from rfl,
    readLine_comment]
  simp only [readLines, readLine_comment, readLines_rows]
  rfl

end DM2022.Assembly.Object
