import SchemaMigration.FileTree
import SchemaMigration.Proofs.Outcome

/-!
# What changes in a file tree

Making directories adds directories where nothing was, and changes nothing else. Writing a file
changes what is at one place, where no directory is. Both keep every directory, and only directories
matter for where a path leads, so a path leads where it led before.

A file that has been written in a directory is read at the path of its name in it.
-/

namespace SchemaMigration

namespace Text

/-- A mark between two texts keeps their pieces apart. -/
theorem pieces_append_mark (mark : Char) (s t : List Char) :
    pieces mark (s ++ mark :: t) = pieces mark s ++ pieces mark t := by
  induction s with
  | nil => simp [pieces]
  | cons c rest ih =>
      by_cases h : c = mark
      · simp [pieces, h, ih]
      · cases hrest : pieces mark rest with
        | nil => exact absurd hrest (pieces_ne_nil mark rest)
        | cons piece more => simp [pieces, h, ih, hrest]

/-- A text without the mark is one piece. -/
theorem pieces_of_not_mem {mark : Char} {s : List Char} (h : mark ∉ s) : pieces mark s = [s] := by
  induction s with
  | nil => rfl
  | cons c rest ih =>
      obtain ⟨hne, hrest⟩ := not_or.mp (List.mem_cons.not.mp h)
      simp [pieces, Ne.symm hne, ih hrest]

end Text

namespace FileTree

theorem entryAt_set_self (tree : FileTree) (place : Place) (entry : Entry) :
    entry? (tree.set place entry) place = some entry := by
  have hgone : (tree.entries.filter (·.1 ≠ place)).find? (·.1 = place) = none := by
    rw [List.find?_eq_none]
    rintro item hitem
    simpa using (List.mem_filter.mp hitem).2
  rw [ entry?, set, List.find?_append, hgone, Option.none_or, List.find?_singleton]
  simp

theorem entryAt_set_of_ne (tree : FileTree) {place other : Place} (entry : Entry)
    (h : other ≠ place) : entry? (tree.set place entry) other = tree.entry? other := by
  have hkept : (tree.entries.filter (·.1 ≠ place)).find? (·.1 = other) =
      tree.entries.find? (·.1 = other) := by
    rw [List.find?_filter]
    congr 1
    funext item
    by_cases hitem : item.1 = other
    · simp [hitem, h]
    · simp [hitem]
  have hnew : [(place, entry)].find? (·.1 = other) = none := by
    simp [Ne.symm h]
  rw [ entry?, set, List.find?_append, hkept, hnew, Option.or_none]
  rfl

/-- One tree has every directory of another. -/
def Keeps (before after : FileTree) : Prop :=
  ∀ place, before.entry? place = some .directory → after.entry? place = some .directory

/-- One tree is another with more directories, where nothing was. -/
def Extends (before after : FileTree) : Prop :=
  ∀ place, after.entry? place = before.entry? place ∨
    (before.entry? place = none ∧ after.entry? place = some .directory)

theorem Extends.refl (tree : FileTree) : tree.Extends tree := fun _ => .inl rfl

theorem Extends.trans {first second third : FileTree} (h : first.Extends second)
    (h' : second.Extends third) : first.Extends third := by
  intro place
  rcases h place with hsame | ⟨hnone, hnew⟩
  · rcases h' place with hsame' | ⟨hnone', hnew'⟩
    · exact .inl (hsame'.trans hsame)
    · exact .inr ⟨hsame ▸ hnone', hnew'⟩
  · rcases h' place with hsame' | ⟨hnone', -⟩
    · exact .inr ⟨hnone, hsame'.trans hnew⟩
    · exact absurd (hnew.symm.trans hnone') (by simp)

/-- Names are followed from where those in front of them lead. -/
theorem enter_append (tree : FileTree) (place : Place) (names more : List String) :
    tree.enter place (names ++ more) =
      tree.enter place names >>= fun next => tree.enter next more := by
  induction names generalizing place with
  | nil => rfl
  | cons name rest ih =>
      simp only [List.cons_append, enter]
      cases move? place name with
      | some next => exact ih next
      | none =>
          cases tree.lookUp place name with
          | error fault => rfl
          | ok found =>
              match found with
              | none => rfl
              | some (.file content) => rfl
              | some (.barred fault) => rfl
              | some .directory => exact ih _

/-- A file is looked for from where the names in front of its own lead. -/
theorem readFrom_append {tree : FileTree} {place next : Place} {names : List String}
    (h : tree.enter place names = .ok next) (more : List String) :
    tree.readFrom place (names ++ more) = tree.readFrom next more := by
  induction names generalizing place with
  | nil =>
      obtain rfl : place = next := Except.ok.inj h
      rfl
  | cons name rest ih =>
      simp only [List.cons_append, readFrom]
      simp only [enter] at h
      cases hmove : move? place name with
      | some moved =>
          rw [hmove] at h
          exact ih h
      | none =>
          rw [hmove] at h
          cases hfound : tree.lookUp place name with
          | error fault =>
              rw [hfound] at h
              cases h
          | ok found =>
              rw [hfound] at h
              match found, h with
              | some .directory, h => exact ih h

/-- Where the directories are kept, a path leads where it led before. -/
theorem Keeps.enter {before after : FileTree} (hkeeps : before.Keeps after) {place next : Place}
    {names : List String} (h : before.enter place names = .ok next) :
    after.enter place names = .ok next := by
  induction names generalizing place with
  | nil => exact h
  | cons name rest ih =>
      simp only [FileTree.enter] at h ⊢
      cases hmove : move? place name with
      | some moved =>
          rw [hmove] at h
          exact ih h
      | none =>
          rw [hmove] at h
          simp only [lookUp] at h ⊢
          split at h
          · next hshort =>
            rw [if_pos hshort]
            cases hfound : before.entry? (place ++ [name]) with
            | none => simp [hfound] at h
            | some entry =>
                cases entry with
                | file content => simp [hfound] at h
                | barred fault => simp [hfound] at h
                | directory =>
                    rw [hfound] at h
                    rw [hkeeps _ hfound]
                    exact ih h
          · cases h

theorem Extends.set_directory {tree : FileTree} {place : Place} (h : tree.entry? place = none) :
    tree.Extends (tree.set place .directory) := by
  intro other
  by_cases hother : other = place
  · subst hother
    exact .inr ⟨h, entryAt_set_self tree other .directory⟩
  · exact .inl (entryAt_set_of_ne tree .directory hother)

theorem extends_of_makeOne {tree made : FileTree} {place : Place} {names : List String}
    (h : tree.makeOne place names = .ok made) : tree.Extends made := by
  unfold makeOne at h
  split at h
  · cases h
  · next last before _ =>
    obtain ⟨parent, -, hparent⟩ := Outcome.bind_eq_ok.mp h
    split at hparent
    · cases hparent
    · obtain ⟨found, hfound, hmade⟩ := Outcome.bind_eq_ok.mp hparent
      cases found with
      | some entry => cases hmade
      | none =>
          obtain rfl : tree.set (parent ++ [last]) .directory = made := Except.ok.inj hmade
          apply Extends.set_directory
          unfold lookUp at hfound
          split at hfound
          · exact Except.ok.inj hfound
          · cases hfound

theorem extends_of_keepOne {tree made : FileTree} {place : Place} {names : List String}
    (h : tree.keepOne place names = .ok made) : tree.Extends made := by
  unfold keepOne at h
  split at h
  · split at h
    · obtain rfl : tree = made := Except.ok.inj h
      exact .refl tree
    · cases h
  · exact extends_of_makeOne h

/-- Making directories, one in the other, adds nothing but directories. The induction is on the
directories that stand around the first. -/
theorem extends_of_makeFrom {tree made : FileTree} {place : Place} {ways : List (List String)}
    (h : tree.makeFrom place ways = .ok made) : tree.Extends made := by
  induction ways generalizing tree made with
  | nil =>
      obtain rfl : tree = made := Except.ok.inj h
      exact .refl tree
  | cons way outer ih =>
      unfold makeFrom at h
      split at h
      · obtain ⟨around, haround, hmade⟩ := Outcome.bind_eq_ok.mp h
        exact (ih haround).trans (extends_of_keepOne hmade)
      · exact extends_of_keepOne h

theorem extends_of_makeDirectories {tree made : FileTree} {path : String}
    (h : tree.makeDirectories path = .ok made) : tree.Extends made := by
  obtain ⟨-, -, hmade⟩ := Outcome.bind_eq_ok.mp h
  exact extends_of_makeFrom hmade

/-- What is under a name may be replaced by a file: it is neither a directory nor barred. -/
def IsFree (found : Option Entry) : Prop :=
  found ≠ some .directory ∧ ∀ fault, found ≠ some (.barred fault)

/-- A file is written if its path and its name are not too long, the directory is there, and the
name is free in it. Then its bytes are at its place, and nothing else has changed. -/
theorem write_eq_ok_iff {tree after : FileTree} {directory name content : String} :
    tree.write directory name content = .ok after ↔
      (pathIn directory name).utf8ByteSize ≤ pathLimit ∧ name.utf8ByteSize ≤ nameLimit ∧
        ∃ place, tree.enter (start directory) (names directory) = .ok place ∧
          IsFree (tree.entry? (place ++ [name])) ∧
          tree.set (place ++ [name]) (.file content.toUTF8) = after := by
  unfold write checkLength lookUp
  by_cases hpath : (pathIn directory name).utf8ByteSize ≤ pathLimit
  · by_cases hname : name.utf8ByteSize ≤ nameLimit
    · cases hplace : tree.enter (start directory) (names directory) with
      | error fault => simp [hpath]
      | ok place =>
          cases hentry : tree.entry? (place ++ [name]) with
          | none => simp [hpath, hname, hentry, IsFree]
          | some entry => cases entry <;> simp [hpath, hname, hentry, IsFree]
    · cases tree.enter (start directory) (names directory) <;> simp [hpath, hname]
  · simp [hpath]

/-- Writing a file where no directory is keeps the directories. -/
theorem keeps_set_file {tree : FileTree} {place : Place} (h : IsFree (tree.entry? place))
    (content : ByteArray) : tree.Keeps (tree.set place (.file content)) := by
  intro other hother
  have hne : other ≠ place := by
    rintro rfl
    exact h.1 hother
  rw [entryAt_set_of_ne tree _ hne, hother]

/-- A name that stands for a file in any directory. -/
structure IsFileName (name : String) : Prop where
  unslashed : '/' ∉ name.toList
  unmoving : ∀ place, move? place name = none

theorem start_pathIn {directory : String} (name : String) (h : directory ≠ "") :
    start (pathIn directory name) = start directory := by
  have hhead : ∀ s : List Char, (directory.toList ++ s).head? = directory.toList.head? := by
    intro s
    have hne : directory.toList ≠ [] := by simpa using h
    rw [List.head?_append_of_ne_nil _ hne]
  unfold start pathIn
  split
  · rw [String.toList_append, hhead]
  · rw [String.toList_append, String.toList_append, List.append_assoc, hhead]

/-- The path of a name in a directory is followed through the directory to the name. -/
theorem names_pathIn (tree : FileTree) {name : String} (directory : String)
    (h : '/' ∉ name.toList) :
    ∃ front, names (pathIn directory name) = front ++ [name] ∧
      ∀ place, tree.enter place front = tree.enter place (names directory) := by
  have hname : Text.pieces '/' name.toList = [name.toList] := Text.pieces_of_not_mem h
  unfold pathIn
  split
  · next hslash =>
    -- The directory ends in a slash, and so in an empty name, at which a path stays.
    obtain ⟨before, hbefore⟩ : ∃ before, directory.toList = before ++ ['/'] :=
      List.getLast?_eq_some_iff.mp hslash
    refine ⟨(Text.pieces '/' before).map String.ofList, ?_, fun place => ?_⟩
    · simp [names, Text.split, hbefore, Text.pieces_append_mark, hname]
    · have hempty : ∀ next, tree.enter next [String.ofList []] = .ok next := fun _ => rfl
      have hdirectory : names directory =
          (Text.pieces '/' before).map String.ofList ++ [String.ofList []] := by
        simp [names, Text.split, hbefore, Text.pieces_append_mark, Text.pieces]
      rw [hdirectory, enter_append]
      simp only [hempty, Outcome.bind_ok]
  · refine ⟨names directory, ?_, fun _ => rfl⟩
    simp [names, Text.split, Text.pieces_append_mark, hname]

/-- The UTF-8 of a text spells it. -/
theorem decode_toUTF8 (text : String) : FileFault.decode text.toUTF8 = .ok text := by
  have hutf : String.fromUTF8? text.toUTF8 = some text := by
    simp only [String.fromUTF8?, String.toUTF8_eq_toByteArray, dif_pos text.isValidUTF8]
    rfl
  rw [FileFault.decode, hutf]

/-- A text whose UTF-8 is at a name in a directory is read at its path. -/
theorem read_pathIn {tree : FileTree} {directory name content : String} {place : Place}
    (hdirectory : directory ≠ "") (hname : IsFileName name)
    (hpath : (pathIn directory name).utf8ByteSize ≤ pathLimit)
    (hlength : name.utf8ByteSize ≤ nameLimit)
    (hplace : tree.enter (start directory) (names directory) = .ok place)
    (hentry : tree.entry? (place ++ [name]) = some (.file content.toUTF8)) :
    tree.read (pathIn directory name) = .ok content := by
  obtain ⟨front, hnames, hfront⟩ := names_pathIn tree directory hname.unslashed
  have henter : tree.enter (start directory) front = .ok place := by rw [hfront, hplace]
  have hcheck : checkLength (pathIn directory name) = .ok () := if_pos hpath
  have hfound : tree.lookUp place name = .ok (some (.file content.toUTF8)) := by
    rw [lookUp, if_pos hlength, hentry]
  rw [read, hcheck, Outcome.ok_bind, start_pathIn name hdirectory, hnames,
    readFrom_append henter]
  simpa [readFrom, hname.unmoving, hfound] using decode_toUTF8 content

end FileTree

end SchemaMigration
