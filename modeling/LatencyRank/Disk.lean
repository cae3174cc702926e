/-!
A tree of files. A location is the list of names from the root. A path is a text: it is followed
name by name, `.` and empty names stay, `..` goes up, and every place that is passed has to be a
directory. Paths and names that are too long lead nowhere. A file may be opened for a write and then
not take all of it; what it held before is gone by then.
-/

namespace LatencyRank

inductive DiskEntry where
  | file (bytes : ByteArray)
  | directory

inductive DiskTree where
  | file (bytes : ByteArray)
  | directory (children : List (String × DiskTree))

abbrev Location := List String

namespace DiskTree

def ofEntry : DiskEntry → DiskTree
  | .file bytes => file bytes
  | .directory => directory []

def entry : DiskTree → DiskEntry
  | file bytes => .file bytes
  | directory _ => .directory

def at? : Location → DiskTree → Option DiskTree
  | [], tree => some tree
  | _ :: _, file _ => none
  | name :: rest, directory children =>
    match children.lookup name with
    | some child => child.at? rest
    | none => none

/-- The tree with something else, or nothing, at a location below its top. It stays as it is if the
location's directory is not there. -/
def set (new : Option DiskTree) : Location → DiskTree → DiskTree
  | [], tree => tree
  | _ :: _, file bytes => file bytes
  | [name], directory children =>
    directory (new.toList.map (name, ·) ++ children.filter fun child => child.1 ≠ name)
  | name :: next :: rest, directory children =>
    directory (children.map fun child =>
      if child.1 = name then (name, child.2.set new (next :: rest)) else child)

end DiskTree

structure Disk where
  root : DiskTree
  /-- How many bytes a file takes before a write to it fails; without a number, any. -/
  fileLimit : Option Nat := none

namespace Disk

def empty : Disk := { root := .directory [] }

def takes (d : Disk) (bytes : ByteArray) : Bool :=
  d.fileLimit.all fun limit => decide (bytes.size ≤ limit)

/-- What of the bytes gets into a file. -/
def taken (d : Disk) (bytes : ByteArray) : ByteArray :=
  if d.takes bytes then bytes else bytes.extract 0 (d.fileLimit.getD 0)

def entry? (d : Disk) (location : Location) : Option DiskEntry :=
  (d.root.at? location).map DiskTree.entry

def isDirectory (d : Disk) (location : Location) : Bool :=
  match d.entry? location with
  | some .directory => true
  | _ => false

def put (d : Disk) (location : Location) (entry : DiskEntry) : Disk :=
  { d with root := d.root.set (some (.ofEntry entry)) location }

def erase (d : Disk) (location : Location) : Disk := { d with root := d.root.set none location }

/-- The longest name that a directory can hold, in bytes. -/
def nameLimit : Nat := 255

def canHold (name : String) : Bool := decide (name.utf8ByteSize ≤ nameLimit)

/-- The longest path that is looked at, in bytes. -/
def pathLimit : Nat := 4095

/-- Whether a path is looked at. A zero byte is in none that is. -/
def mayFollow (path : String) : Bool :=
  decide (path.utf8ByteSize ≤ pathLimit ∧ '\x00' ∉ path.toList)

def names (path : String) : List String := path.splitOn "/"

/-- Whether a name leads to where it stands. -/
def stays (name : String) : Bool := name == "" || name == "."

/-- Follows names from a location; `none` where something other than a directory is passed. -/
def follow (d : Disk) : List String → Location → Option Location
  | [], at' => some at'
  | name :: rest, at' =>
    if !d.isDirectory at' then none
    else if stays name then follow d rest at'
    else if name = ".." then follow d rest at'.dropLast
    else follow d rest (at' ++ [name])

def locate (d : Disk) (path : String) : Option Location :=
  if mayFollow path then d.follow (names path) [] else none

def lookup (d : Disk) (path : String) : Option DiskEntry := (d.locate path).bind d.entry?

def holds (d : Disk) (path : String) : Bool := (d.lookup path).isSome

def read? (d : Disk) (path : String) : Option ByteArray :=
  match d.lookup path with
  | some (.file bytes) => some bytes
  | _ => none

/-- Makes or empties a file, if its directory is there and no directory is in its place, and writes to
it what it takes. -/
def write? (d : Disk) (path : String) (bytes : ByteArray) : Option Disk :=
  match d.locate path with
  | none => none
  | some location =>
    match d.entry? location with
    | some .directory => none
    | some (.file _) => some (d.put location (.file (d.taken bytes)))
    | none =>
      if location.all canHold then some (d.put location (.file (d.taken bytes))) else none

/-- Moves a file over what is at the other path, unless that is a directory. -/
def rename? (d : Disk) (source target : String) : Option Disk :=
  match d.locate source, d.locate target with
  | some old, some new =>
    match d.entry? old, d.entry? new with
    | some (.file _), some .directory => none
    | some (.file bytes), _ =>
      if new.all canHold then some ((d.erase old).put new (.file bytes)) else none
    | _, _ => none
  | _, _ => none

/-- Makes the directories that are missing along the names, as far as nothing is in the way. A last
name is not made if a `.` stands behind it, which asks for the directory to be there. -/
def makeAlong (d : Disk) : List String → Location → Disk
  | [], _ => d
  | name :: rest, at' =>
    if !d.isDirectory at' then d
    else if stays name then makeAlong d rest at'
    else if name = ".." then makeAlong d rest at'.dropLast
    else
      let next := at' ++ [name]
      match d.entry? next with
      | some _ => makeAlong d rest next
      | none =>
        if !canHold name || (rest.all stays && rest.contains ".") then d
        else makeAlong (d.put next .directory) rest next

def makeDirectory (d : Disk) (path : String) : Disk :=
  if mayFollow path then d.makeAlong (names path) [] else d

/-- The names without those at the end that stay where they are. -/
def withoutStays (names : List String) : List String :=
  (names.reverse.dropWhile stays).reverse

/-- The path of the directory that a path lies in: what stands before its last name. -/
def parent (path : String) : String :=
  "/".intercalate (withoutStays (withoutStays (names path)).dropLast)

def makeParent (d : Disk) (path : String) : Disk := d.makeDirectory (parent path)

/-- A path below a base. An absolute path stays as it is; no slash is doubled at the seam. -/
def resolve (base path : String) : String :=
  if path.startsWith "/" then path
  else if base = "" ∨ base.endsWith "/" then base ++ path
  else base ++ "/" ++ path

end Disk

end LatencyRank
