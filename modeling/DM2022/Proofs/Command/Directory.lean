import DM2022.Command.Directory
import DM2022.Proofs.Assembly.Operands
import DM2022.Proofs.Command.Path

/-!
# Written files

A path leads to a file if it comes to a name in a directory and not to a directory. Writing
a text to such a path makes no directory and takes none away, so all paths lead where they
led before. The text is then read from the path, and all that stands elsewhere stays.
-/
namespace DM2022

open Assembly (bind_ok_iff)

/-- A function that gives what another one gives, also gives the results of its folds. -/
theorem foldlM_ok_of_forall {α β ε : Type} {f g : β → α → Except ε β}
    (h : ∀ b a b', f b a = .ok b' → g b a = .ok b') {l : List α} {b b' : β}
    (hfold : l.foldlM f b = .ok b') : l.foldlM g b = .ok b' := by
  induction l generalizing b with
  | nil => exact hfold
  | cons a rest ih =>
    rw [List.foldlM_cons, bind_ok_iff] at hfold ⊢
    obtain ⟨next, hnext, hrest⟩ := hfold
    exact ⟨next, h b a next hnext, ih hrest⟩

theorem prefix_dropLast {α : Type} {l l' : List α} (h : l <+: l') (hne : l ≠ l') :
    l <+: l'.dropLast := by
  have hlength : l.length ≠ l'.length := fun he => hne (h.eq_of_length he)
  have hle := h.length_le
  exact List.prefix_of_prefix_length_le h l'.dropLast_prefix (by rw [List.length_dropLast]; omega)

namespace Command.Directory

variable {d : Directory} {path other text found : String} {place : List String}

/-! ## Where paths lead -/

theorem isDirectory_iff {p : List String} :
    d.isDirectory p = true ↔ p = [] ∨ ∃ file ∈ d.files, p <+: file.path ∧ p ≠ file.path := by
  simp [isDirectory, List.isPrefixOf_iff_prefix]

theorem isDirectory_of_prefix {p q : List String} (h : d.isDirectory q = true) (hp : p <+: q) :
    d.isDirectory p = true := by
  rw [isDirectory_iff] at h ⊢
  rcases h with rfl | ⟨file, hfile, hq, hne⟩
  · exact .inl (List.prefix_nil.1 hp)
  · refine .inr ⟨file, hfile, hp.trans hq, ?_⟩
    rintro rfl
    exact hne (hq.eq_of_length_le hp.length_le)

theorem requireDirectory_ok_iff {p : Place} :
    d.requireDirectory p = .ok () ↔ d.entry? p = some .directory := by
  rw [requireDirectory]
  split <;> simp_all

theorem entry_inside (d : Directory) (place : List String) : d.entry? (.inside place) =
    if d.isDirectory place then some .directory else (d.find? place).map fun f => .file f.text :=
  rfl

theorem entry_eq_directory_iff :
    d.entry? (.inside place) = some .directory ↔ d.isDirectory place = true := by
  rw [entry_inside]
  split <;> simp_all

/-- The place is the name `name` within a directory. -/
structure Within (d : Directory) (place : List String) (name : String) : Prop where
  place_eq : place = place.dropLast ++ [name]
  parent : d.isDirectory place.dropLast = true
  notDot : name ≠ "."
  notDots : name ≠ ".."

/-- A part of a path leads to a directory, or to a name within one. -/
theorem enter_ok {p : Place} {part : String} (h : d.enter p part = .ok (.inside place)) :
    d.isDirectory place = true ∨ d.Within place part := by
  rw [enter, bind_ok_iff] at h
  obtain ⟨⟨⟩, hdirectory, h⟩ := h
  rw [requireDirectory_ok_iff] at hdirectory
  split at h
  · cases h
    exact .inl (entry_eq_directory_iff.1 hdirectory)
  next hdot =>
  cases p with
  | outside p =>
    split at h
    · cases h
    · split at h <;> cases h
  | inside p =>
    rw [entry_eq_directory_iff] at hdirectory
    split at h
    · refine .inl ?_
      cases p with
      | nil => cases h
      | cons name rest =>
        cases h
        exact isDirectory_of_prefix hdirectory (List.dropLast_prefix _)
    next hdots =>
    split at h
    · cases h
    · cases h
      refine .inr ⟨?_, ?_, hdot, hdots⟩
      · rw [List.dropLast_concat]
      · rw [List.dropLast_concat]
        exact hdirectory

theorem walk_ok_iff {parts : List String} {p : Place} : d.walk path parts = .ok p ↔
    Path.isTooLong path = false ∧
      parts.foldlM d.enter (if Path.isAbsolute path then .outside [] else .inside []) = .ok p := by
  rw [walk]
  split <;> simp_all

theorem walk_ok {parts : List String} (h : d.walk path parts = .ok (.inside place)) :
    d.isDirectory place = true ∨ ∃ name, parts.getLast? = some name ∧ d.Within place name := by
  obtain ⟨-, h⟩ := walk_ok_iff.1 h
  rcases List.eq_nil_or_concat parts with rfl | ⟨before, part, rfl⟩
  · split at h
    · cases h
    · cases h
      exact .inl rfl
  · rw [List.concat_eq_append, List.foldlM_append, bind_ok_iff] at h
    obtain ⟨p, -, h⟩ := h
    rw [List.foldlM_cons, bind_ok_iff] at h
    obtain ⟨_, hlast, h⟩ := h
    cases h
    refine (enter_ok hlast).imp_right fun hplace => ⟨part, ?_, hplace⟩
    rw [List.concat_eq_append, List.getLast?_concat]

/-- The path leads to a place below the working directory that is a file or could be one. -/
structure LeadsTo (d : Directory) (path : String) (place : List String) : Prop where
  walk_eq : d.walk path (Path.parts path) = .ok (.inside place)
  noSlash : Path.endsWithSlash path = false
  notDirectory : d.isDirectory place = false

namespace LeadsTo

theorem within (h : d.LeadsTo path place) :
    ∃ name, (Path.parts path).getLast? = some name ∧ d.Within place name :=
  (walk_ok h.walk_eq).resolve_left (Bool.eq_false_iff.1 h.notDirectory)

/-- Paths to the same place have the same extension. -/
theorem extension?_eq (h : d.LeadsTo path place) (hother : d.LeadsTo other place) :
    Path.extension? path = Path.extension? other := by
  obtain ⟨name, hlast, hname⟩ := h.within
  obtain ⟨name', hlast', hname'⟩ := hother.within
  have heq : name = name' := by
    have hplaces := hname.place_eq.symm.trans hname'.place_eq
    simpa using hplaces
  rw [Path.extension?_of_last h.noSlash hlast hname.notDot hname.notDots, heq,
    Path.extension?_of_last hother.noSlash hlast' hname'.notDot hname'.notDots]

end LeadsTo

theorem leadsTo_of_target (h : d.target path = .ok (.inside place)) : d.LeadsTo path place := by
  rw [target] at h
  obtain ⟨start, -, h⟩ := bind_ok_iff.1 h
  obtain ⟨⟨⟩, -, h⟩ := bind_ok_iff.1 h
  split at h
  · cases h
  next hslash =>
  obtain ⟨p, hwalk, h⟩ := bind_ok_iff.1 h
  split at h
  · cases h
  next hentry =>
  cases h
  rw [entry_eq_directory_iff] at hentry
  exact ⟨hwalk, Bool.eq_false_iff.2 hslash, Bool.eq_false_iff.2 hentry⟩

theorem leadsTo_of_read (h : d.read path = .ok found)
    (hwalk : d.walk path (Path.parts path) = .ok (.inside place)) : d.LeadsTo path place := by
  rw [read, hwalk, bind_ok_iff] at h
  obtain ⟨_, hplace, h⟩ := h
  cases hplace
  have hentry : d.entry? (.inside place) ≠ some .directory := by
    intro hentry
    rw [hentry] at h
    cases h
  refine ⟨hwalk, Bool.eq_false_iff.2 fun hslash => ?_,
    Bool.eq_false_iff.2 fun hdirectory => hentry (entry_eq_directory_iff.2 hdirectory)⟩
  rw [hslash] at h
  split at h <;> cases h

/-! ## Writing -/

theorem write_eq (h : d.target path = .ok (.inside place)) :
    d.write path text = ⟨⟨place, some text⟩ :: d.files.filter (·.path != place)⟩ := by
  rw [write, h]

theorem sink_eq (h : d.target path = .ok (.inside place)) : d.sink path = .ok .file := by
  rw [sink, h]
  simp only [bind, Except.bind, entry_inside]
  split
  · next hentry => split at hentry <;> simp_all
  · rfl

/-- The directories are those that there were. -/
theorem isDirectory_write (h : d.target path = .ok (.inside place)) (p : List String) :
    (d.write path text).isDirectory p = d.isDirectory p := by
  obtain ⟨name, -, hplace⟩ := (leadsTo_of_target h).within
  rw [write_eq h, Bool.eq_iff_iff]
  constructor
  · intro hp
    rw [isDirectory_iff] at hp
    rcases hp with rfl | ⟨file, hfile, hprefix, hne⟩
    · rfl
    rcases List.mem_cons.1 hfile with rfl | hfile
    · exact isDirectory_of_prefix hplace.parent (prefix_dropLast hprefix hne)
    · exact isDirectory_iff.2 (.inr ⟨file, (List.mem_filter.1 hfile).1, hprefix, hne⟩)
  · intro hp
    rw [isDirectory_iff] at hp ⊢
    rcases hp with rfl | ⟨file, hfile, hprefix, hne⟩
    · exact .inl rfl
    by_cases hfp : file.path = place
    · exact .inr ⟨_, List.mem_cons_self, hfp ▸ hprefix, hfp ▸ hne⟩
    · exact .inr ⟨file, List.mem_cons_of_mem _ (List.mem_filter.2 ⟨hfile, by simpa using hfp⟩),
        hprefix, hne⟩

theorem entry_write_self (h : d.target path = .ok (.inside place)) :
    entry? (d.write path text) (.inside place) = some (.file (some text)) := by
  rw [entry_inside, isDirectory_write h, (leadsTo_of_target h).notDirectory, write_eq h]
  simp [find?]

theorem entry_write_of_ne (h : d.target path = .ok (.inside place)) {p : Place}
    (hp : p ≠ .inside place) : entry? (d.write path text) p = d.entry? p := by
  cases p with
  | outside p => rfl
  | inside p =>
    have hne : p ≠ place := fun he => hp (he ▸ rfl)
    have hfind : (d.write path text).find? p = d.find? p := by
      rw [write_eq h, find?, find?, List.find?_cons_of_neg (by simpa using hne.symm),
        List.find?_filter]
      congr 1
      funext file
      by_cases hfile : file.path = p <;> simp [hfile, hne]
    rw [entry_inside, entry_inside, isDirectory_write h, hfind]

theorem enter_write {p p' : Place} {part : String} (h : d.target path = .ok (.inside place))
    (henter : d.enter p part = .ok p') : (d.write path text).enter p part = .ok p' := by
  rw [enter, bind_ok_iff] at henter ⊢
  obtain ⟨⟨⟩, hdirectory, henter⟩ := henter
  refine ⟨(), ?_, henter⟩
  rw [requireDirectory_ok_iff] at hdirectory ⊢
  rw [entry_write_of_ne h, hdirectory]
  rintro rfl
  rw [entry_eq_directory_iff, (leadsTo_of_target h).notDirectory] at hdirectory
  cases hdirectory

theorem walk_write {parts : List String} {p : Place} (h : d.target path = .ok (.inside place))
    (hwalk : d.walk other parts = .ok p) : (d.write path text).walk other parts = .ok p := by
  rw [walk_ok_iff] at hwalk ⊢
  exact ⟨hwalk.1, foldlM_ok_of_forall (fun _ _ _ => enter_write h) hwalk.2⟩

/-- The text that was written is read. -/
theorem read_write_self (h : d.target path = .ok (.inside place)) :
    (d.write path text).read path = .ok text := by
  have hpath := leadsTo_of_target h
  rw [read, walk_write h hpath.walk_eq]
  simp only [bind, Except.bind, entry_write_self h, hpath.noSlash]
  rfl

/-- What was read from a path that leads elsewhere is still read. -/
theorem read_write_of_ne (h : d.target path = .ok (.inside place))
    (hother : d.walk other (Path.parts other) ≠ .ok (.inside place))
    (hread : d.read other = .ok found) : (d.write path text).read other = .ok found := by
  rw [read] at hread ⊢
  obtain ⟨p, hwalk, hread⟩ := bind_ok_iff.1 hread
  have hp : p ≠ .inside place := fun hp => hother (hp ▸ hwalk)
  rw [walk_write h hwalk]
  simp only [bind, Except.bind, entry_write_of_ne h hp]
  exact hread

end Command.Directory
end DM2022
