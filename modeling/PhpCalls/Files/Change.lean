import PhpCalls.Files.Disk

set_option autoImplicit false

/-!
# Changes of a file tree

## Main definitions

* `Change`: a directory made, a file written, a file removed.
* `FileTree.changes`: the changes that lead from one tree to another.
* `FileTree.apply`: a tree after a change.
-/

namespace PhpCalls

/-- A change of a file tree, with its position. -/
inductive Change where
  | makeDir (position : List String)
  | write (position : List String) (content : ByteArray)
  | remove (position : List String)

namespace FileTree

mutual

/-- The changes at a position, where `old` was and another tree is now. -/
def changesAt (position : List String) (old : Option FileTree) : FileTree → List Change
  | file b =>
    match old with
    | some (file a) => if a == b then [] else [.write position b]
    | _ => [.write position b]
  | dir es =>
    let made := if old.any isDir then [] else [Change.makeDir position]
    let before := (old.map entries).getD []
    let gone := before.filter fun e => e.2.isFile && (es.lookup e.1).isNone
    made ++ gone.map (fun e => .remove (position ++ [e.1])) ++ changesOfEntries position before es

/-- The changes of the entries of a directory, where the entries `old` were. -/
def changesOfEntries (position : List String) (old : List (String × FileTree)) :
    List (String × FileTree) → List Change
  | [] => []
  | e :: es => changesOfEntry position old e ++ changesOfEntries position old es

/-- The changes of one entry of a directory, where the entries `old` were. -/
def changesOfEntry (position : List String) (old : List (String × FileTree)) :
    String × FileTree → List Change
  | (n, t) => changesAt (position ++ [n]) (old.lookup n) t

end

/-- The changes that lead from one tree to another. Directories are made before what is in them; no
directory is removed. -/
def changes (old new : FileTree) : List Change := changesAt [] (some old) new

/-- The tree after a change. -/
def apply (t : FileTree) : Change → FileTree
  | .makeDir p => put emptyDir t p
  | .write p b => put (file b) t p
  | .remove p => t.remove p

end FileTree

end PhpCalls
