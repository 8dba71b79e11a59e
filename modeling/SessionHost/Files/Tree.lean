import SessionHost.Path
import SessionHost.SystemError

/-!
# File trees

The files and folders of a machine.  A path is followed part by part, so every part before the
last one has to be a folder, and a trailing separator asks for a folder, too.

Main definitions:

- `FileTree`: entries by their place, and the working folder.
- `FileTree.find`: what a path leads to.
- `FileTree.createFolders`, `FileTree.write`, `FileTree.rename`, `FileTree.delete`: changes.
-/

namespace SessionHost

/-- The parts below the root that lead to an entry. -/
abbrev Place := List String

/-- Who may do what with a folder: its permission bits, and whether it belongs to the user who runs
the program. -/
structure FolderRights where
  mode : Nat
  own : Bool

/-- The rights on a new folder. -/
def FolderRights.new : FolderRights := ⟨0o755, true⟩

/-- The rights on the folder above all others, which belongs to no user. -/
def FolderRights.root : FolderRights := ⟨0o755, false⟩

/-- A file or a folder.  The permission bits are those of owner, group and others. -/
inductive Entry where
  | file (content : List UInt8) (mode : Nat)
  | folder (rights : FolderRights)

/-- The permission bits of an entry. -/
def Entry.mode : Entry → Nat
  | .file _ mode => mode
  | .folder rights => rights.mode

/-- The entry is a folder of the user who runs the program, and others have rights on it. -/
def Entry.isOpenToOthers : Entry → Bool
  | .file _ _ => false
  | .folder rights => rights.own && rights.mode % 64 != 0

/-- Entries by their place, the later ones first found last.  The root is always there. -/
structure FileTree where
  entries : List (Place × Entry)
  workingFolder : Place

namespace FileTree

/-- The entry at a place. -/
def at? (t : FileTree) (place : Place) : Option Entry :=
  if place.isEmpty then some (.folder .root)
  else (t.entries.find? fun e => e.1 == place).map (·.2)

/-- The tree with an entry at a place. -/
def put (t : FileTree) (place : Place) (entry : Entry) : FileTree :=
  if (t.entries.any fun e => e.1 == place) then
    { t with entries := t.entries.map fun e => if e.1 == place then (place, entry) else e }
  else
    { t with entries := t.entries ++ [(place, entry)] }

/-- The tree without what is at a place. -/
def drop (t : FileTree) (place : Place) : FileTree :=
  { t with entries := t.entries.filter fun e => e.1 != place }

/-- Follows the pieces of a path from a place; the last name need not exist.  The result says
where the path leads and whether it asks for a folder. -/
def follow (t : FileTree) (place : Place) (asFolder : Bool) :
    List String → Except ErrorKind (Place × Bool)
  | [] => .ok (place, asFolder)
  | piece :: rest =>
    match t.at? place with
    | none => .error .notFound
    | some (.file _ _) => .error .notADirectory
    | some (.folder _) =>
      if piece = "" ∨ piece = "." then t.follow place true rest
      else if piece = ".." then t.follow place.dropLast true rest
      else t.follow (place ++ [piece]) false rest

/-- Where a path leads.  The empty path leads nowhere. -/
def locate (t : FileTree) (p : Path) : Except ErrorKind (Place × Bool) :=
  if p.isEmpty then .error .notFound
  else if p.isAbsolute then t.follow [] true (p.pieces.drop 1)
  else t.follow t.workingFolder true p.pieces

/-- What a path leads to. -/
def find (t : FileTree) (p : Path) : Except ErrorKind (Place × Entry) := do
  let (place, asFolder) ← t.locate p
  match t.at? place with
  | none => .error .notFound
  | some (.file content mode) =>
    if asFolder then .error .notADirectory else .ok (place, .file content mode)
  | some (.folder rights) => .ok (place, .folder rights)

/-! ## Questions -/

/-- A path leads to something. -/
def pathExists (t : FileTree) (p : Path) : Bool := (t.find p).toOption.isSome

/-- A path leads to a file. -/
def isFile (t : FileTree) (p : Path) : Bool :=
  match t.find p with
  | .ok (_, .file _ _) => true
  | _ => false

/-- A path leads to a folder. -/
def isFolder (t : FileTree) (p : Path) : Bool :=
  match t.find p with
  | .ok (_, .folder _) => true
  | _ => false

/-- The bytes of a file. -/
def read (t : FileTree) (p : Path) : Except ErrorKind (List UInt8) := do
  match ← t.find p with
  | (_, .file content _) => .ok content
  | (_, .folder _) => .error .isADirectory

/-- The name of an entry directly below a place. -/
def nameBelow? (place entry : Place) : Option String :=
  match entry.getLast? with
  | some name => if entry.dropLast = place then some name else none
  | none => none

/-- The names of the entries in a folder. -/
def names (t : FileTree) (p : Path) : Except ErrorKind (List String) := do
  match ← t.find p with
  | (place, .folder _) => .ok (t.entries.filterMap fun e => nameBelow? place e.1)
  | (_, .file _ _) => .error .notADirectory

/-! ## Changes -/

/-- Makes a folder whose parent is there. -/
def createFolder (t : FileTree) (p : Path) : Except ErrorKind FileTree := do
  let (place, _) ← t.locate p
  match t.at? place with
  | some _ => .error .alreadyExists
  | none =>
    match t.at? place.dropLast with
    | some (.folder _) => .ok (t.put place (.folder .new))
    | some (.file _ _) => .error .notADirectory
    | none => .error .notFound

/-- The paths of the folders above a path, the nearest first, and the path itself in front. -/
def ancestors (p : Path) : Nat → List Path
  | 0 => [p]
  | fuel + 1 =>
    match p.parent? with
    | some parent => if parent.isEmpty then [p] else p :: ancestors parent fuel
    | none => [p]

/-- Makes a folder that may be there already. -/
def ensureFolder (t : FileTree) (p : Path) : Except ErrorKind FileTree :=
  match t.createFolder p with
  | .ok changed => .ok changed
  | .error kind => if t.isFolder p then .ok t else .error kind

/-- Makes a folder and the folders above it that are missing.  The empty path needs nothing. -/
def createFolders (t : FileTree) (p : Path) : Except ErrorKind FileTree :=
  if p.isEmpty then .ok t
  else
    let missing := (ancestors p p.text.length).takeWhile fun q =>
      match t.createFolder q with
      | .error .notFound => true
      | _ => false
    let first := ((ancestors p p.text.length).drop missing.length).take 1
    (first ++ missing.reverse).foldlM ensureFolder t

/-- Sets the permission bits of what a path leads to. -/
def setMode (t : FileTree) (p : Path) (mode : Nat) : Except ErrorKind FileTree := do
  match ← t.find p with
  | (place, .file content _) => .ok (t.put place (.file content mode))
  | (place, .folder rights) => .ok (t.put place (.folder { rights with mode }))

/-- Writes a file, new or in place of the old content; a new one gets the permission bits. -/
def write (t : FileTree) (p : Path) (content : List UInt8) (mode : Nat) :
    Except ErrorKind FileTree := do
  let (place, asFolder) ← t.locate p
  match t.at? place with
  | some (.folder _) => .error .isADirectory
  | some (.file _ old) =>
    if asFolder then .error .notADirectory else .ok (t.put place (.file content old))
  | none =>
    if asFolder then .error .isADirectory
    else
      match t.at? place.dropLast with
      | some (.folder _) => .ok (t.put place (.file content mode))
      | some (.file _ _) => .error .notADirectory
      | none => .error .notFound

/-- Moves a file; a file in the way is replaced. -/
def rename (t : FileTree) (source target : Path) : Except ErrorKind FileTree := do
  let (place, entry) ← t.find source
  let (goal, asFolder) ← t.locate target
  match t.at? goal with
  | some (.folder _) => .error .isADirectory
  | some (.file _ _) =>
    if asFolder then .error .notADirectory else .ok (((t.drop place).drop goal).put goal entry)
  | none =>
    if asFolder then .error .notADirectory
    else
      match t.at? goal.dropLast with
      | some (.folder _) => .ok ((t.drop place).put goal entry)
      | some (.file _ _) => .error .notADirectory
      | none => .error .notFound

/-- Deletes a file. -/
def delete (t : FileTree) (p : Path) : Except ErrorKind FileTree := do
  match ← t.find p with
  | (place, .file _ _) => .ok (t.drop place)
  | (_, .folder _) => .error .isADirectory

/-! ## Making trees -/

/-- The machine with nothing but a working folder. -/
def empty (workingFolder : Place) : FileTree := ⟨[], workingFolder⟩

/-- The tree with a folder at a place and folders above it, where nothing is yet. -/
def plantFolder (t : FileTree) (place : Place) (mode : Nat) : FileTree :=
  (List.range (place.length + 1)).foldl (fun t n =>
    if (t.at? (place.take n)).isSome then t else t.put (place.take n) (.folder ⟨mode, true⟩)) t

/-- The tree with a file at a place and folders above it. -/
def plantFile (t : FileTree) (place : Place) (content : List UInt8) (mode : Nat) : FileTree :=
  (t.plantFolder place.dropLast FolderRights.new.mode).put place (.file content mode)

/-! ## Listing -/

/-- The paths of all entries below a place, in ascending order; folders end in a separator. -/
def listing (t : FileTree) (place : Place) : List String :=
  let below := t.entries.filterMap fun e =>
    if place.isPrefixOf e.1 && place.length < e.1.length then
      let text := Text.joinWith "/" (e.1.drop place.length)
      match e.2 with
      | .folder _ => some (text ++ "/")
      | .file _ _ => some text
    else none
  below.mergeSort fun a b => !(b < a)

end FileTree

end SessionHost
