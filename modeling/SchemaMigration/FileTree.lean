import SchemaMigration.Failure
import SchemaMigration.Text.Basic

/-!
# File trees

Files and directories below a starting directory, with the rules by which paths are followed. A file
holds bytes, which have to be UTF-8 before they are read as text, and what is written as text is its
UTF-8. A path is followed from left to right; a dot stays, two dots go up, and a file cannot be
entered. What lies above the starting directory, or at the root of all paths, is there but holds
nothing. Names and paths that are too long are refused, a name only when it is looked up. For any
other reason the system may bar what is at a place from being read, entered or written.
-/

namespace SchemaMigration

/-- A place: the names on the way to it. The first may be two dots or a slash. -/
abbrev Place := List String

/-- What is at a place. -/
inductive Entry where
  | file (content : ByteArray)
  | directory
  | barred (fault : FileFault)

/-- The entries of a tree, by their places. -/
structure FileTree where
  entries : List (Place × Entry)

namespace FileTree

/-- The most bytes that a name has. -/
def nameLimit : Nat := 255

/-- The most bytes that a path has. -/
def pathLimit : Nat := 4095

/-- Refuses a path that is too long to be followed. -/
def checkLength (path : String) : Except FileFault Unit :=
  if path.utf8ByteSize ≤ pathLimit then .ok () else .error .nameTooLong

/-- The names of a path; empty ones stand for repeated slashes. -/
def names (path : String) : List String := Text.split '/' path

/-- The place where following a path starts. -/
def start (path : String) : Place := if path.toList.head? = some '/' then ["/"] else []

/-- The directory above a directory. -/
def above (place : Place) : Place :=
  match place.getLast? with
  | none | some ".." => place ++ [".."]
  | some "/" => place
  | some _ => place.dropLast

/-- The place reached from a directory by a name that moves among directories. -/
def move? (place : Place) (name : String) : Option Place :=
  if name = "" || name = "." then some place
  else if name = ".." then some (above place)
  else none

/-- What is at a place. -/
def entry? (tree : FileTree) (place : Place) : Option Entry :=
  (tree.entries.find? (·.1 = place)).map (·.2)

/-- The tree with an entry at a place. -/
def set (tree : FileTree) (place : Place) (entry : Entry) : FileTree :=
  ⟨tree.entries.filter (·.1 ≠ place) ++ [(place, entry)]⟩

/-- What is under a name in a directory. -/
def lookUp (tree : FileTree) (place : Place) (name : String) : Except FileFault (Option Entry) :=
  if name.utf8ByteSize ≤ nameLimit then .ok (tree.entry? (place ++ [name]))
  else .error .nameTooLong

/-- The directory that names lead to from a directory. -/
def enter (tree : FileTree) (place : Place) : List String → Except FileFault Place
  | [] => .ok place
  | name :: rest =>
    match move? place name with
    | some next => tree.enter next rest
    | none => do
      match ← tree.lookUp place name with
      | none => .error .notFound
      | some (.file _) => .error .notDirectory
      | some (.barred fault) => .error fault
      | some .directory => tree.enter (place ++ [name]) rest

/-- The text of the file that names lead to from a directory. -/
def readFrom (tree : FileTree) (place : Place) : List String → Except FileFault String
  | [] => .error .isDirectory
  | name :: rest =>
    match move? place name with
    | some next => tree.readFrom next rest
    | none => do
      match ← tree.lookUp place name with
      | none => .error .notFound
      | some .directory => tree.readFrom (place ++ [name]) rest
      | some (.barred fault) => .error fault
      | some (.file content) =>
        if rest = [] then FileFault.decode content else .error .notDirectory

/-- The text of the file at a path. -/
def read (tree : FileTree) (path : String) : Except FileFault String := do
  checkLength path
  tree.readFrom (start path) (names path)

/-- Makes the one directory that names lead to from a directory, in a directory that is there. -/
def makeOne (tree : FileTree) (place : Place) (names : List String) :
    Except FileFault FileTree :=
  match (names.reverse.dropWhile (· = "")) with
  | [] => .error .alreadyThere
  | last :: before => do
    let parent ← tree.enter place before.reverse
    if (move? parent last).isSome then .error .alreadyThere
    else match ← tree.lookUp parent last with
      | some _ => .error .alreadyThere
      | none => .ok (tree.set (parent ++ [last]) .directory)

/-- Makes one directory, or keeps it if it is there. -/
def keepOne (tree : FileTree) (place : Place) (names : List String) : Except FileFault FileTree :=
  match tree.makeOne place names with
  | .error .alreadyThere =>
    if (tree.enter place names).isOk then .ok tree else .error .alreadyThere
  | made => made

/-- The ways to the names among some, leaving out those that stay, the longest way first. -/
def ways (names : List String) : List (List String) :=
  let all := (List.range names.length).map fun before => names.take (before + 1)
  (all.filter fun way => (way.getLast?.any fun name => name ≠ "" && name ≠ ".")).reverse

/-- Makes the first of some directories, each of which stands in the next. Where one cannot be made
for want of what it stands in, that is made first. -/
def makeFrom (tree : FileTree) (place : Place) : List (List String) → Except FileFault FileTree
  | [] => .ok tree
  | way :: outer =>
    match tree.keepOne place way with
    | .error .notFound => do (← tree.makeFrom place outer).keepOne place way
    | made => made

/-- Makes the directory at a path and those on the way to it. -/
def makeDirectories (tree : FileTree) (path : String) : Except FileFault FileTree := do
  checkLength path
  tree.makeFrom (start path) (names path :: (ways (names path)).tail)

/-- The path of a name in the directory at a path. -/
def pathIn (directory name : String) : String :=
  if directory.toList.getLast? = some '/' then directory ++ name else directory ++ "/" ++ name

/-- Writes a text as a file in the directory at a path. -/
def write (tree : FileTree) (directory name content : String) : Except FileFault FileTree := do
  checkLength (pathIn directory name)
  let place ← tree.enter (start directory) (names directory)
  match ← tree.lookUp place name with
  | some .directory => .error .isDirectory
  | some (.barred fault) => .error fault
  | _ => .ok (tree.set (place ++ [name]) (.file content.toUTF8))

/-- The tree of some text files, with the directories on the way to them. -/
def ofFiles (files : List (String × String)) : FileTree :=
  files.foldl (fun tree file =>
    let place := (names file.1).filter (· ≠ "")
    let directories := (List.range place.length).map (place.take ·) |>.filter (· ≠ [])
    (directories.foldl (·.set · .directory) tree).set place (.file file.2.toUTF8)) ⟨[]⟩

end FileTree

end SchemaMigration
