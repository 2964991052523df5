import Reflection.Batch.Report
/-!
# Files in memory

A tree of files and folders with a working folder, and the actions of a run on it. Errors carry the
wording and the number that a system gives them.
-/

namespace Reflection

/-- Why an action on files failed. -/
inductive FileError where
  | notFound
  | exists
  | notFolder
  | isFolder
  | notText
  | closed
deriving DecidableEq, Repr

/-- The wording of an error. -/
def FileError.message : FileError → String
  | .notFound => "No such file or directory (os error 2)"
  | .exists => "File exists (os error 17)"
  | .notFolder => "Not a directory (os error 20)"
  | .isFolder => "Is a directory (os error 21)"
  | .notText => "stream did not contain valid UTF-8"
  | .closed => "closed"

/-- A file with its bytes, or a folder. -/
inductive FileEntry where
  | file (bytes : ByteArray)
  | folder
deriving Inhabited

/-- Files and folders by their names from the root on, and the folder that relative paths start
from. The root is a folder without an entry. -/
structure FileTree where
  entries : List (List String × FileEntry) := []
  workingFolder : List String := []
  /-- What has been printed. -/
  printed : String := ""
  /-- Can nothing be printed? -/
  outputClosed : Bool := false
deriving Inhabited

/-- Is it a folder? -/
def FileEntry.isFolder : FileEntry → Bool
  | .folder => true
  | .file _ => false

namespace FileTree

/-! ## Entries -/

/-- What stands at a place. -/
def lookup? (t : FileTree) (place : List String) : Option FileEntry :=
  if place = [] then some .folder else t.entries.lookup place

/-- Puts something at a place. -/
def put (t : FileTree) (place : List String) (e : FileEntry) : FileTree :=
  { t with entries := (place, e) :: t.entries.filter (·.1 ≠ place) }

/-- The places that the names lead to one by one, starting at `above`. -/
def placesFrom (above : List String) : List String → List (List String)
  | [] => []
  | name :: names => (above ++ [name]) :: placesFrom (above ++ [name]) names

/-- Puts something at a place, in folders that are made as needed. -/
def plant (t : FileTree) (place : List String) (e : FileEntry) : FileTree :=
  let t := (placesFrom [] place.dropLast).foldl
    (fun t above => if (t.lookup? above).isSome then t else t.put above .folder) t
  if (t.lookup? place).isSome && e.isFolder then t else t.put place e

/-! ## Paths -/

/-- Where a path leads: a folder and, unless the path ends with a dot component, a name in it. -/
structure Place where
  folder : List String
  name : Option String
deriving Repr

/-- Follows one step from a folder to a folder. -/
def enter (t : FileTree) (folder : List String) : Path.Component → Except FileError (List String)
  | .here => .ok folder
  | .up => .ok folder.dropLast
  | .name n =>
    match t.lookup? (folder ++ [n]) with
    | some .folder => .ok (folder ++ [n])
    | some (.file _) => .error .notFolder
    | none => .error .notFound

/-- Finds where a path leads. All but its last step must lead to folders. -/
def locate (t : FileTree) (path : String) : Except FileError Place := do
  if path = "" then throw .notFound
  let start := if Path.isAbsolute path then [] else t.workingFolder
  let steps := Path.steps path
  let folder ← steps.dropLast.foldlM t.enter start
  match steps.getLast? with
  | none => return ⟨folder, none⟩
  | some (.name n) => return ⟨folder, some n⟩
  | some step => return ⟨← t.enter folder step, none⟩

/-- Is there a folder at the end of a path? -/
def isFolder (t : FileTree) (path : String) : Bool :=
  match t.locate path with
  | .ok ⟨_, none⟩ => true
  | .ok ⟨folder, some n⟩ => (t.lookup? (folder ++ [n])).any (·.isFolder)
  | .error _ => false

/-! ## Actions -/

/-- The text of a file. -/
def read (t : FileTree) (path : String) : Except FileError String := do
  match ← t.locate path with
  | ⟨_, none⟩ => throw .isFolder
  | ⟨folder, some n⟩ =>
    match t.lookup? (folder ++ [n]) with
    | none => throw .notFound
    | some .folder => throw .isFolder
    | some (.file bytes) =>
      if Path.endsWithSlash path then throw .notFolder
      match String.fromUTF8? bytes with
      | some text => return text
      | none => throw .notText

/-- Puts a text into a file, which is made if it is not there. -/
def write (t : FileTree) (path text : String) : Except FileError FileTree := do
  match ← t.locate path with
  | ⟨_, none⟩ => throw .isFolder
  | ⟨folder, some n⟩ =>
    let place := folder ++ [n]
    match t.lookup? place with
    | some .folder => throw .isFolder
    | some (.file _) => if Path.endsWithSlash path then throw .notFolder
    | none => if Path.endsWithSlash path then throw .isFolder
    return t.put place (.file text.toUTF8)

/-- Makes a folder in a folder that is there. -/
def createFolder (t : FileTree) (path : String) : Except FileError FileTree := do
  match ← t.locate path with
  | ⟨_, none⟩ => throw .exists
  | ⟨folder, some n⟩ =>
    let place := folder ++ [n]
    if (t.lookup? place).isSome then throw .exists
    return t.put place .folder

/-- Makes a folder in a folder that is there, unless it is there itself. -/
def ensureFolder (t : FileTree) (path : String) : Except FileError FileTree :=
  match t.createFolder path with
  | .ok t => .ok t
  | .error e => if t.isFolder path then .ok t else .error e

/-- Makes a folder and the folders above it. What has been made stays when a later one fails. The
number bounds how many. -/
def createFolders : Nat → String → FileTree → Except FileError Unit × FileTree
  | 0, _, t => (.error .notFound, t)
  | n + 1, path, t =>
    if path = "" then (.ok (), t)
    else
      match t.ensureFolder path with
      | .ok t => (.ok (), t)
      | .error .notFound =>
        match Path.parent? path with
        | none => (.error .notFound, t)
        | some above =>
          match createFolders n above t with
          | (.error e, t) => (.error e, t)
          | (.ok (), t) =>
            match t.ensureFolder path with
            | .ok t => (.ok (), t)
            | .error e => (.error e, t)
      | .error e => (.error e, t)

/-! ## Storage -/

/-- The actions of a run on a tree. -/
def storage : Storage (StateM FileTree) where
  read path := do return ((← get).read path).mapError (·.message)
  createFolders path := modifyGet fun t =>
    let (result, t) := createFolders (path.length + 1) path t
    (result.mapError (·.message), t)
  write path text := modifyGet fun t =>
    match t.write path text with
    | .ok t => (.ok (), t)
    | .error e => (.error e.message, t)
  print text := modifyGet fun t =>
    if t.outputClosed then (.error FileError.closed.message, t)
    else (.ok (), { t with printed := t.printed ++ text })

/-- The files in the working folder, by the names of the folders in it that lead to them. -/
def workingFiles (t : FileTree) : List (List String × ByteArray) :=
  t.entries.filterMap fun (place, e) =>
    match e with
    | .file bytes =>
      if t.workingFolder.isPrefixOf place then some (place.drop t.workingFolder.length, bytes) else none
    | .folder => none

end FileTree
end Reflection
