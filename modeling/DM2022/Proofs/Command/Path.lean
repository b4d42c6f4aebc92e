import DM2022.Command.Path

/-!
# File names

The file name of a path is the last of its parts, and the extension of the path is that of
its file name, unless the path ends with a slash or its last part stands for a directory.
-/
namespace DM2022

namespace Text

variable {sep : Char} {last : List Char}

theorem consHead_append {c : Char} {pieces' : List (List Char)} (h : pieces' ≠ [])
    (others : List (List Char)) :
    consHead c (pieces' ++ others) = consHead c pieces' ++ others := by
  cases pieces' with
  | nil => exact absurd rfl h
  | cons piece rest => rfl

theorem pieces_append_last (text : List Char) (h : sep ∉ last) :
    pieces sep (text ++ sep :: last) = pieces sep text ++ [last] := by
  induction text with
  | nil => simp [pieces, pieces_of_notMem h]
  | cons c rest ih =>
    rw [List.cons_append, pieces, pieces, ih]
    split
    · rfl
    · exact consHead_append (pieces_ne_nil sep rest) _

/-- A text ends with what stands after its last separator, if it has one. -/
theorem exists_last (sep : Char) (text : List Char) : ∃ last, sep ∉ last ∧
    (text = last ∨ ∃ before, text = before ++ sep :: last) := by
  induction text with
  | nil => exact ⟨[], List.not_mem_nil, .inl rfl⟩
  | cons c rest ih =>
    obtain ⟨last, hlast, rfl | ⟨before, rfl⟩⟩ := ih
    · by_cases hc : c = sep
      · exact ⟨rest, hlast, .inr ⟨[], by rw [hc]; rfl⟩⟩
      · exact ⟨c :: rest, by simp [hlast, Ne.symm hc], .inl rfl⟩
    · exact ⟨last, hlast, .inr ⟨c :: before, rfl⟩⟩

theorem getLast?_pieces (sep : Char) (text : List Char) :
    (pieces sep text).getLast? = some (text.reverse.takeWhile (· != sep)).reverse := by
  obtain ⟨last, hlast, htext⟩ := exists_last sep text
  have hall : ∀ c ∈ last.reverse, (c != sep) = true := by
    intro c hc
    have hne : c ≠ sep := fun h => hlast (h ▸ List.mem_reverse.1 hc)
    simpa using hne
  rcases htext with rfl | ⟨before, rfl⟩
  · have htake : text.reverse.takeWhile (· != sep) = text.reverse := by
      rw [← List.append_nil text.reverse, List.takeWhile_append_of_pos hall, List.takeWhile_nil]
    rw [pieces_of_notMem hlast, htake, List.reverse_reverse]
    rfl
  · rw [pieces_append_last _ hlast, List.getLast?_concat, List.reverse_append, List.reverse_cons,
      List.append_assoc, List.takeWhile_append_of_pos hall]
    simp

end Text

namespace Command.Path

variable {path part : String}

theorem dropTail_eq_self {path : List Char} (hne : path.takeWhile (· != '/') ≠ [])
    (hdot : path.takeWhile (· != '/') ≠ ['.']) : dropTail path = path := by
  unfold dropTail
  split
  · simp at hne
  · simp at hdot
  · rfl

/-- The last part is what stands after the last slash. -/
theorem last_of_getLast?_parts (hslash : endsWithSlash path = false)
    (hlast : (parts path).getLast? = some part) :
    (path.toList.reverse.takeWhile (· != '/')).reverse = part.toList ∧ part.toList ≠ [] := by
  have hne : path.toList.reverse.takeWhile (· != '/') ≠ [] := by
    intro h
    cases hreverse : path.toList.reverse with
    | nil => simp [parts, List.reverse_eq_nil_iff.1 hreverse, Text.pieces] at hlast
    | cons c rest =>
      have hc : c = '/' := by simpa [hreverse, List.takeWhile_cons] using h
      rw [endsWithSlash, ← List.head?_reverse, hreverse, hc] at hslash
      simp at hslash
  obtain ⟨start, hpieces⟩ := List.getLast?_eq_some_iff.1 (Text.getLast?_pieces '/' path.toList)
  rw [parts, hpieces, List.filter_append, List.filter_cons_of_pos (by simpa using hne),
    List.filter_nil, List.map_append, List.map_singleton, List.getLast?_concat,
    Option.some_inj] at hlast
  rw [← hlast, String.toList_ofList]
  exact ⟨rfl, by simpa using hne⟩

theorem splitName_of_last (hslash : endsWithSlash path = false)
    (hlast : (parts path).getLast? = some part) (hdot : part ≠ ".") :
    (splitName path.toList).1 = part.toList := by
  obtain ⟨htake, hne⟩ := last_of_getLast?_parts hslash hlast
  have htail : dropTail path.toList.reverse = path.toList.reverse := by
    apply dropTail_eq_self
    · intro h
      rw [h] at htake
      exact hne htake.symm
    · intro h
      rw [h] at htake
      exact hdot (String.toList_inj.1 htake.symm)
  simp only [splitName, htail, htake]

theorem extension?_of_last (hslash : endsWithSlash path = false)
    (hlast : (parts path).getLast? = some part) (hdot : part ≠ ".") (hdots : part ≠ "..") :
    extension? path = (splitExtension part.toList).2.map String.ofList := by
  have hne := (last_of_getLast?_parts hslash hlast).2
  have hnoDots : isDots part.toList = false := by
    simp only [isDots, Bool.or_eq_false_iff, beq_eq_false_iff_ne]
    exact ⟨⟨hne, fun h => hdot (String.toList_inj.1 h)⟩, fun h => hdots (String.toList_inj.1 h)⟩
  rw [extension?, ← Prod.eta (splitName path.toList)]
  simp only
  rw [splitName_of_last hslash hlast hdot, hnoDots]
  rfl

end Command.Path
end DM2022
