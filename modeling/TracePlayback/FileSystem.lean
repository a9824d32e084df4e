import TracePlayback.FileTree

/-!
# File systems

A file system is a tree with a place in it where a program works. It lets one do what settings need:
read a file, create directories, write a file. Every directory that a path moves through must be
there, even if the next part of the path leads out of it again.
-/
namespace TracePlayback

/-- A tree, and where a program works in it. -/
structure FileSystem where
  root : FileTree
  /-- The place of the directory in which paths begin that are not absolute. -/
  working : List Bytes

namespace FileSystem

/-- The file system that holds nothing but the directory a program works in. -/
def ofWorking (working : List Bytes) : FileSystem := ⟨.nest working, working⟩

/-- The place where a path begins. -/
def start (fs : FileSystem) (p : Path) : List Bytes := if p.isAbsolute then [] else fs.working

/-- The place that moves lead to; none if one of them leads into no directory. Above the root is the
root. -/
def walk? (fs : FileSystem) : List Bytes → List Path.Move → Option (List Bytes)
  | place, [] => some place
  | place, .up :: rest => fs.walk? place.dropLast rest
  | place, .down name :: rest =>
    let inner := place ++ [name]
    if (fs.root.find? inner).any (·.isDirectory) then fs.walk? inner rest else none

/-- The place of the directory that a path's file lies in, and the file's name. -/
def locate? (fs : FileSystem) (p : Path) : Option (List Bytes × Bytes) := do
  guard p.isUsable
  let name ← p.fileName?
  return (← fs.walk? (fs.start p) p.moves.dropLast, name)

/-- The contents of a file; none if there is no such file. -/
def read? (fs : FileSystem) (p : Path) : Option Bytes := do
  let (place, name) ← fs.locate? p
  match fs.root.find? (place ++ [name]) with
  | some (.file contents) => some contents
  | _ => none

/-- Gives a directory an entry, whose name must not be too long. -/
def insert? (fs : FileSystem) (place : List Bytes) (name : Bytes) (entry : FileTree) :
    Option FileSystem := do
  guard (name.length ≤ Path.maxNameLength)
  return { fs with root := ← fs.root.insert? place name entry }

/-- Writes a file; none if its directory is missing or a directory has its name. -/
def write? (fs : FileSystem) (p : Path) (contents : Bytes) : Option FileSystem := do
  let (place, name) ← fs.locate? p
  guard (!(fs.root.find? (place ++ [name])).any (·.isDirectory))
  fs.insert? place name (.file contents)

/-- Makes moves, and creates the directories that are missing on the way: whether all moves could be
made, and the file system afterwards. -/
def createAlong (fs : FileSystem) : List Bytes → List Path.Move → Bool × FileSystem
  | _, [] => (true, fs)
  | place, .up :: rest => fs.createAlong place.dropLast rest
  | place, .down name :: rest =>
    let inner := place ++ [name]
    match fs.root.find? inner with
    | some (.directory _) => fs.createAlong inner rest
    | some (.file _) => (false, fs)
    | none =>
      match fs.insert? place name (.directory []) with
      | some fs => fs.createAlong inner rest
      | none => (false, fs)

/-- Creates a directory and those it lies in: whether it is there now, and the file system
afterwards. What has been created before a failure stays. -/
def createDirectories (fs : FileSystem) (p : Path) : Bool × FileSystem :=
  if p.isUsable then fs.createAlong (fs.start p) p.moves else (false, fs)

end FileSystem
end TracePlayback
