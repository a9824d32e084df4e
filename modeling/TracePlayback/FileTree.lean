import TracePlayback.Path

/-!
# File trees

A file tree is a file, or a directory with the trees below it. A place in a tree is the list of the
names that lead there from its root.
-/
namespace TracePlayback

/-- A file, or a directory with its entries. -/
inductive FileTree where
  | file (contents : Bytes)
  | directory (entries : List (Bytes × FileTree))

namespace FileTree

/-- Directories one inside the other, and nothing else. -/
def nest : List Bytes → FileTree
  | [] => .directory []
  | name :: rest => .directory [(name, nest rest)]

def isDirectory : FileTree → Bool
  | .file _ => false
  | .directory _ => true

def find? : FileTree → List Bytes → Option FileTree
  | tree, [] => some tree
  | .file _, _ :: _ => none
  | .directory entries, name :: rest => do find? (← entries.lookup name) rest

/-- Replaces the entry of a name, or adds it. -/
def put (name : Bytes) (tree : FileTree) : List (Bytes × FileTree) → List (Bytes × FileTree)
  | [] => [(name, tree)]
  | (n, old) :: rest => if n = name then (n, tree) :: rest else (n, old) :: put name tree rest

/-- Gives the directory at a place an entry; none if there is no directory. -/
def insert? : FileTree → List Bytes → Bytes → FileTree → Option FileTree
  | .file _, _, _, _ => none
  | .directory entries, [], name, entry => some (.directory (put name entry entries))
  | .directory entries, step :: rest, name, entry => do
    return .directory (put step (← insert? (← entries.lookup step) rest name entry) entries)

end FileTree
end TracePlayback
