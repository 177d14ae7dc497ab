import DesignPages.CommandLine.Path

/-!
# Folders

This module holds the files that a run of the program can see: folders and files below one root, and
the folder in which the program runs.  Places are lists of names from the root down.
-/

namespace DesignPages

/-- The places of all folders, the files with their contents, and the working folder. -/
structure Folder where
  folders : List (List String)
  files : List (List String × String)
  working : List String
  deriving DecidableEq, Repr

namespace Folder

/-- The content of the file at a place. -/
def file? (f : Folder) (place : List String) : Option String :=
  (f.files.find? fun entry => entry.1 == place).map Prod.snd

/-- Whether there is a folder at a place. -/
def isFolder (f : Folder) (place : List String) : Bool :=
  f.folders.contains place

/-- Whether a name can be given to a file: it has at most 255 bytes and no NUL. -/
def isName (name : String) : Bool :=
  name.utf8ByteSize ≤ 255 && !name.toList.contains '\x00'

/-- The place that a path starts from. -/
def start (f : Folder) (path : String) : List String :=
  if Path.isAbsolute path then [] else f.working

/-- The names in a path. -/
def names (path : String) : List String :=
  (Path.segments path.toList).map String.ofList

/-- The place one step further on from a folder. -/
def step? (f : Folder) (place : List String) (name : String) : Option (List String) :=
  if !f.isFolder place then none
  else if name.isEmpty || name == "." then some place
  else if name == ".." then some place.dropLast
  else if isName name then some (place ++ [name])
  else none

/-- The place that names lead to.  Each but the last has to lead to a folder. -/
def follow? (f : Folder) (place : List String) : List String → Option (List String)
  | [] => some place
  | name :: rest => do f.follow? (← f.step? place name) rest

/-- The content of the file that a path leads to. -/
def read? (f : Folder) (path : String) : Option String := do
  f.file? (← f.follow? (f.start path) (names path))

/-- Makes the folders that names lead through. -/
def makeAlong (f : Folder) (place : List String) : List String → Option Folder
  | [] => some f
  | name :: rest => do
    let next ← f.step? place name
    if f.isFolder next then f.makeAlong next rest
    else if (f.file? next).isSome then none
    else makeAlong { f with folders := next :: f.folders } next rest

/-- Makes the folder that a path leads to, with all folders on the way. -/
def make? (f : Folder) (path : String) : Option Folder :=
  if path.isEmpty then some f else f.makeAlong (f.start path) (names path)

/-- Puts a file at a place. -/
def put (f : Folder) (place : List String) (content : String) : Folder :=
  { f with files := (place, content) :: f.files.filter fun entry => entry.1 != place }

/-- Writes the file that a path leads to. -/
def write? (f : Folder) (path content : String) : Option Folder := do
  let place ← f.follow? (f.start path) (names path)
  if f.isFolder place || !f.isFolder place.dropLast then none else some (f.put place content)

/-- A working folder with nothing in it. -/
def empty (working : List String) : Folder :=
  ⟨(List.range (working.length + 1)).map working.take, [], working⟩

/-- Adds a file with the folders that it needs. -/
def add (f : Folder) (path content : String) : Folder :=
  let place := f.start path ++ (names path).filter fun name => !name.isEmpty && name != "."
  let parents := (List.range place.length).map place.take
  ({ f with folders := f.folders ++ parents.filter fun p => !f.folders.contains p }).put place
    content

/-- The files below the working folder that are new or have other contents than before, each with
its path from there. -/
def changes (before after : Folder) : List (String × String) :=
  (after.files.filter fun entry =>
      after.working.isPrefixOf entry.1 && before.file? entry.1 != some entry.2).map
    fun entry => ("/".intercalate (entry.1.drop after.working.length), entry.2)

end Folder
end DesignPages
