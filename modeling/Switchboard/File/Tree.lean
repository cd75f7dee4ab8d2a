import Switchboard.File.Error
import Switchboard.Record

/-!
# File trees

A tree records for every location that is taken whether it holds a directory or a file and with
which bytes. What stands at a path is found by going through the directories above it: a name may be
missing on the way, or be a file, or be longer than names may be. There are no links, so a location
has one way to it, and what lies below the working directory is apart from what lies below the root.
-/

namespace Switchboard

inductive FileNode
  | file (contents : Bytes)
  | directory
  deriving DecidableEq, Repr

/-- What stands at a path, or keeps anything from standing there. -/
inductive Occupancy
  | taken (node : FileNode)
  /-- Nothing stands at the path, in a directory that exists. -/
  | vacant
  /-- A directory on the way is missing. -/
  | adrift
  /-- A file stands on the way. -/
  | blocked
  | nameTooLong
  | unnameable
  deriving DecidableEq, Repr

structure FileTree where
  entries : Record Location FileNode
  deriving DecidableEq, Repr

namespace FileTree

def holding (nodes : List (FilePath × FileNode)) : FileTree :=
  ⟨nodes.map fun (path, node) => (path.location, node)⟩

/-- The node that is listed for where a path leads. -/
def node? (tree : FileTree) (path : FilePath) : Option FileNode :=
  tree.entries.get? path.location

def put (tree : FileTree) (path : FilePath) (node : FileNode) : FileTree :=
  ⟨tree.entries.put path.location node⟩

def remove (tree : FileTree) (path : FilePath) : FileTree :=
  ⟨tree.entries.remove path.location⟩

def removeAll (tree : FileTree) (path : FilePath) : FileTree :=
  let place := path.location
  ⟨tree.entries.filter fun entry => ¬ entry.1.IsWithin place⟩

/-- What stands at a path when its directories can be gone through. A path that leads back to a
directory has that directory at its end. -/
def atEnd (tree : FileTree) (path : FilePath) : Occupancy :=
  if path.lastName = FilePath.upward then .taken .directory
  else if path.NameTooLong then .nameTooLong
  else
    match tree.node? path with
    | some node => .taken node
    | none => .vacant

def obstacle? (tree : FileTree) (path : FilePath) : Option Occupancy :=
  match tree.atEnd path with
  | .taken .directory => none
  | .taken (.file _) => some .blocked
  | .vacant => some .adrift
  | other => some other

def occupancy (tree : FileTree) (path : FilePath) : Occupancy :=
  if path.Unnameable then .unnameable
  else if path.TooLong then .nameTooLong
  else if path.names = [] then .taken .directory
  else (path.ancestors.findSome? tree.obstacle?).getD (tree.atEnd path)

/-- Whether anything stands at a path. A path that leads through a missing directory or through a
file has nothing at its end; one that is too long, or has a name that is, cannot be asked about. -/
def exists? (tree : FileTree) (path : FilePath) : Except FileError Bool :=
  match tree.occupancy path with
  | .taken _ => .ok true
  | .nameTooLong => .error (.nameTooLong path)
  | _ => .ok false

def read (tree : FileTree) (path : FilePath) : Except FileError Bytes :=
  match tree.occupancy path with
  | .taken (.file contents) => .ok contents
  | .taken .directory => .error (.isDirectory path)
  | .vacant => .error (.notFound path)
  | .adrift => .error (.notFound path)
  | .blocked => .error (.notDirectory path)
  | .nameTooLong => .error (.nameTooLong path)
  | .unnameable => .error path.refusal

/-- What a file that is opened to be written holds so far; it is created if nothing is there. -/
def openToWrite (tree : FileTree) (path : FilePath) : Except FileError Bytes :=
  match tree.occupancy path with
  | .vacant => .ok []
  | _ => tree.read path

def write (tree : FileTree) (path : FilePath) (contents : Bytes) : Except FileError FileTree :=
  match tree.openToWrite path with
  | .ok _ => .ok (tree.put path (.file contents))
  | .error e => .error e

def append (tree : FileTree) (path : FilePath) (more : Bytes) : Except FileError FileTree :=
  match tree.openToWrite path with
  | .ok contents => .ok (tree.put path (.file (contents ++ more)))
  | .error e => .error e

def makeDirectory (tree : FileTree) (path : FilePath) : Occupancy → Except FileError FileTree
  | .taken .directory => .ok tree
  | .taken (.file _) => .error (.alreadyExists path)
  | .vacant => .ok (tree.put path .directory)
  | .adrift => .error (.notFound path)
  | .blocked => .error (.notDirectory path)
  | .nameTooLong => .error (.nameTooLong path)
  | .unnameable => .error path.refusal

/-- Makes the directories of a row, each of which lies in the one before it. -/
def makeRow (tree : FileTree) : List FilePath → Except FileError Unit × FileTree
  | [] => (.ok (), tree)
  | path :: rest =>
    match tree.makeDirectory path (tree.atEnd path) with
    | .ok tree => makeRow tree rest
    | .error e => (.error e, tree)

/-- Makes a directory and those above it, unless it is there already. Directories made before a
refusal stay. -/
def makeDirectories (tree : FileTree) (path : FilePath) : Except FileError Unit × FileTree :=
  match tree.occupancy path with
  | .adrift => tree.makeRow (path.ancestors ++ [path])
  | other =>
    match tree.makeDirectory path other with
    | .ok tree => (.ok (), tree)
    | .error e => (.error e, tree)

/-- A name longer than every name in the tree, and so the name of nothing in it. -/
def unusedName (tree : FileTree) : Text :=
  let longest := (tree.entries.map fun entry => entry.1.lastName.length).foldr max 0
  ".settings-" ++ List.replicate (longest + 1) (CodePoint.ofChar '*') ++ ".json"

def isEmptyDirectory (tree : FileTree) (path : FilePath) : Bool :=
  let place := path.location
  tree.entries.all fun entry => entry.1 = place ∨ ¬ entry.1.IsWithin place

theorem node?_put (tree : FileTree) (path : FilePath) (node : FileNode) (asked : FilePath) :
    (tree.put path node).node? asked =
      if asked.location = path.location then some node else tree.node? asked :=
  Record.get?_put ..

theorem node?_remove (tree : FileTree) (path asked : FilePath) :
    (tree.remove path).node? asked =
      if asked.location = path.location then none else tree.node? asked :=
  Record.get?_remove ..

end FileTree

end Switchboard
