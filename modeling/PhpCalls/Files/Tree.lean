import PhpCalls.Files.Path

set_option autoImplicit false

/-!
# File trees

A file tree is a file with its bytes, or a directory with named trees in it, in ascending order of
their names. Positions in a tree are lists of names from the top. There are no symbolic links: a
file or directory has one position, and what stands above it is told by that position.

## Main definitions

* `FileTree`: files and directories.
* `FileTree.get?`, `FileTree.put`, `FileTree.remove`: the tree at a position, put there, taken away.
* `FileTree.files`: all files with their positions.
-/

namespace PhpCalls

/-- A file, or a directory. -/
inductive FileTree where
  | file (content : ByteArray)
  | dir (entries : List (String × FileTree))

namespace FileTree

instance : Inhabited FileTree := ⟨.dir []⟩

/-- A directory with nothing in it. -/
def emptyDir : FileTree := .dir []

/-- It is a directory. -/
def isDir : FileTree → Bool
  | file _ => false
  | dir _ => true

/-- It is a file. -/
def isFile (t : FileTree) : Bool := !t.isDir

/-- What is in a directory; nothing is in a file. -/
def entries : FileTree → List (String × FileTree)
  | file _ => []
  | dir es => es

/-- The entry of a directory with a name. -/
def child? (t : FileTree) (name : String) : Option FileTree := t.entries.lookup name

/-- The tree at a position. -/
def get? (t : FileTree) : List String → Option FileTree
  | [] => some t
  | n :: ns => (t.child? n).bind fun c => c.get? ns

/-- Puts an entry among others, in the order of the names; an entry of the same name is replaced. -/
def putEntry (name : String) (t : FileTree) : List (String × FileTree) → List (String × FileTree)
  | [] => [(name, t)]
  | e :: es =>
    if name < e.1 then (name, t) :: e :: es
    else if name = e.1 then (name, t) :: es
    else e :: putEntry name t es

/-- A directory with some entries, in the order of their names; of two with one name the later
counts. -/
def ofEntries (es : List (String × FileTree)) : FileTree :=
  dir (es.foldl (fun placed e => putEntry e.1 e.2 placed) [])

/-- Puts a tree at a position. Directories on the way are made where nothing is; nothing is put
below a file. -/
def put (new : FileTree) : FileTree → List String → FileTree
  | _, [] => new
  | file b, _ :: _ => file b
  | dir es, n :: ns => dir (putEntry n (put new ((es.lookup n).getD emptyDir) ns) es)

/-- Takes the tree at a position away. -/
def remove : FileTree → List String → FileTree
  | t, [] => t
  | file b, _ => file b
  | dir es, [n] => dir (es.filter fun e => e.1 ≠ n)
  | dir es, n :: ns =>
    match es.lookup n with
    | some c => dir (putEntry n (c.remove ns) es)
    | none => dir es

mutual

/-- The files of a tree, with their positions below `path`. -/
def filesBelow (path : List String) : FileTree → List (List String × ByteArray)
  | file b => [(path, b)]
  | dir es => filesOfEntries path es

/-- The files of the entries of a directory at `path`. -/
def filesOfEntries (path : List String) : List (String × FileTree) → List (List String × ByteArray)
  | [] => []
  | e :: es => filesOfEntry path e ++ filesOfEntries path es

/-- The files of one entry of a directory at `path`. -/
def filesOfEntry (path : List String) : String × FileTree → List (List String × ByteArray)
  | (n, t) => filesBelow (path ++ [n]) t

end

/-- All files of a tree with their positions. -/
def files (t : FileTree) : List (List String × ByteArray) := filesBelow [] t

end FileTree

end PhpCalls
