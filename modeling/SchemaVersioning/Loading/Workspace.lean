import SchemaVersioning.Text.Utf8

/-!
# Workspaces

A workspace is a directory with the files that are seen from it.  Paths are written with slashes;
empty components and those of a single dot do not count.  Two slashes at the front, and no more,
are a root of their own.
-/

namespace SchemaVersioning

/-- A path: its root, which is empty for a path from the workspace, and its components. -/
structure FilePath where
  root : String
  parts : List String
deriving DecidableEq, Repr, Inhabited

namespace FilePath

/-- The root at the front of a text. -/
def rootOf (cs : List Char) : String :=
  match (cs.takeWhile (· = '/')).length with
  | 0 => ""
  | 2 => "//"
  | _ => "/"

/-- The path that a text denotes. -/
def ofText (s : String) : FilePath :=
  ⟨rootOf s.toList, (s.splitOn "/").filter fun part => part ≠ "" && part ≠ "."⟩

def isAbsolute (p : FilePath) : Bool := p.root ≠ ""

/-- The path as text. -/
def text (p : FilePath) : String :=
  let text := p.root ++ "/".intercalate p.parts
  if text = "" then "." else text

def name (p : FilePath) : String := p.parts.getLast?.getD ""

def parent (p : FilePath) : FilePath := ⟨p.root, p.parts.dropLast⟩

/-- The paths of the directories that a path leads through, outermost first. -/
def ancestors (p : FilePath) : List FilePath :=
  (List.range p.parts.length).map fun n => ⟨p.root, p.parts.take n⟩

def isOverlongName (part : String) : Bool := 255 < part.utf8ByteSize

def isOverlong (p : FilePath) : Bool := 4095 < p.text.utf8ByteSize

/-- The components that lead to the same place from the workspace without two dots, if the place
lies in the workspace. -/
def place? (p : FilePath) : Option (List String) :=
  if p.isAbsolute then none
  else
    p.parts.foldlM (fun place part =>
      if part ≠ ".." then some (place ++ [part])
      else if place.isEmpty then none else some place.dropLast) []

end FilePath

/-- What stands at a place. -/
inductive File where
  | regular (content : Buffer)
  | directory
deriving DecidableEq, Repr

/-- What looking for a path gives: nothing, a file where a directory is needed on the way, a name
that is too long to be looked for, or what is there. -/
inductive Lookup where
  | absent
  | blocked
  | overlong
  | found (f : File)
deriving DecidableEq, Repr

/-- A directory and what is seen from it. -/
structure Workspace where
  directory : String
  look : FilePath → Lookup

namespace Workspace

/-- A path as it is seen from the root. -/
def absoluteText (w : Workspace) (p : FilePath) : String :=
  if p.isAbsolute then p.text
  else if p.parts.isEmpty then w.directory
  else w.directory ++ "/" ++ p.text

/-- What stands at a place of a tree that holds some files; a directory stands above each. -/
def fileAt (files : List (List String × File)) (place : List String) : Lookup :=
  match files.lookup place with
  | some f => .found f
  | none =>
    if place.isEmpty || files.any fun (other, _) => place.isPrefixOf other then .found .directory
    else .absent

/-- What a path leads to from a place of a tree; two dots lead to the place above.  Above the tree
there are directories. -/
def follow (files : List (List String × File)) : List String → List String → Lookup
  | place, [] => fileAt files place
  | place, part :: rest =>
    match fileAt files place with
    | .found .directory =>
      if FilePath.isOverlongName part then .overlong
      else if part ≠ ".." then follow files (place ++ [part]) rest
      else if place.isEmpty then if rest.all (· = "..") then .found .directory else .absent
      else follow files place.dropLast rest
    | .found (.regular _) => .blocked
    | nothing => nothing

/-- What a path leads to from the root, of which nothing is known. -/
def followRoot : List String → Lookup
  | [] => .found .directory
  | ".." :: rest => followRoot rest
  | part :: _ => if FilePath.isOverlongName part then .overlong else .absent

/-- The workspace that holds some files and nothing else. -/
def ofFiles (directory : String) (files : List (FilePath × File)) : Workspace :=
  let placed := files.map fun (path, file) => (path.parts, file)
  { directory
    look := fun path =>
      if path.isOverlong then .overlong
      else if path.isAbsolute then followRoot path.parts
      else follow placed [] path.parts }

/-! ## Writing -/

/-- Why a file or a directory cannot be made at a path. -/
inductive WriteFault where
  | fileExists (path : FilePath)
  | notDirectory (path : FilePath)
  | isDirectory (path : FilePath)
  | nameTooLong (path : FilePath)
deriving DecidableEq, Repr

/-- The report of a fault. -/
def WriteFault.message : WriteFault → String
  | fileExists path => s!"[Errno 17] File exists: {Quoted.quote path.text}"
  | notDirectory path => s!"[Errno 20] Not a directory: {Quoted.quote path.text}"
  | isDirectory path => s!"[Errno 21] Is a directory: {Quoted.quote path.text}"
  | nameTooLong path => s!"[Errno 36] File name too long: {Quoted.quote path.text}"

/-- Why there is no directory at a path when those that are missing have been made, outermost
first. -/
def directoryFault? (w : Workspace) (p : FilePath) : Option WriteFault :=
  match w.look p with
  | .found .directory => none
  | .found (.regular _) => some (.fileExists p)
  | .blocked => some (.notDirectory p)
  | .overlong => some (.nameTooLong p)
  | .absent =>
    if _h : p.parts = [] then none
    else if w.look p.parent = .found .directory then none
    else
      (directoryFault? w p.parent).or <|
        if FilePath.isOverlongName p.name then some (.nameTooLong p) else none
termination_by p.parts.length
decreasing_by
  simp only [FilePath.parent, List.length_dropLast]
  have := List.length_pos_iff.2 _h
  omega

/-- Why no file can be written at a path when the directories above it have been made. -/
def writeFault? (w : Workspace) (p : FilePath) : Option WriteFault :=
  (w.directoryFault? p.parent).or <|
    match w.look p with
    | .found .directory => some (.isDirectory p)
    | .overlong => some (.nameTooLong p)
    | .absent =>
      if p.name = ".." then some (.isDirectory p)
      else if FilePath.isOverlongName p.name then some (.nameTooLong p)
      else none
    | _ => none

end Workspace

end SchemaVersioning
