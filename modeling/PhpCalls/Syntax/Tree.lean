import PhpCalls.Syntax.Kind

set_option autoImplicit false

/-!
# Syntax trees

A node of a syntax tree has a kind, a role in its parent, the text it covers, the first and the last
of its lines and its children in the order of the text. Lines are counted from one.

A `Place` is a node together with its way up to the root, so that two nodes of equal content at
different positions are told apart, and the constructs around a node can be asked for.

## Main definitions

* `Node`: a syntax tree.
* `Place`: a position in a syntax tree.
* `Place.places`: all positions from a node downwards, a node before the nodes inside it.
* `Place.enclosing?`: the nearest construct of some kind around a position.

-/

namespace PhpCalls.Syntax

/-- A syntax tree. -/
inductive Node where
  | mk (role : Option Role) (kind : Kind) (text : String) (startLine endLine : Nat)
      (children : List Node)
  deriving Repr

namespace Node

/-- What the node is to its parent. -/
def role : Node → Option Role
  | mk r _ _ _ _ _ => r

/-- What the node is. -/
def kind : Node → Kind
  | mk _ k _ _ _ _ => k

/-- The text that the node covers. -/
def text : Node → String
  | mk _ _ t _ _ _ => t

/-- The line on which the node begins. -/
def startLine : Node → Nat
  | mk _ _ _ s _ _ => s

/-- The line on which the node ends. -/
def endLine : Node → Nat
  | mk _ _ _ _ e _ => e

/-- The parts of the node. -/
def children : Node → List Node
  | mk _ _ _ _ _ cs => cs

/-- The node in another role. -/
def inRole (r : Role) : Node → Node
  | mk _ k t s e cs => mk (some r) k t s e cs

/-- Constructs, as opposed to keywords and punctuation. -/
def isNamed (n : Node) : Bool := n.kind.isNamed

/-- The children that are constructs. Comments are among them. -/
def namedChildren (n : Node) : List Node := n.children.filter isNamed

/-- The child in a role. -/
def child? (r : Role) (n : Node) : Option Node := n.children.find? fun c => c.role = some r

/-- The text of the child in a role. -/
def childText? (r : Role) (n : Node) : Option String := (n.child? r).map text

/-- The children of one kind. -/
def childrenOfKind (k : Kind) (n : Node) : List Node := n.children.filter fun c => c.kind = k

/-- The first child of one kind. -/
def childOfKind? (k : Kind) (n : Node) : Option Node := n.children.find? fun c => c.kind = k

/-- The child in a role, or else the first child of one kind. -/
def part? (r : Role) (k : Kind) (n : Node) : Option Node := (n.child? r).or (n.childOfKind? k)

end Node

/-- A position in a syntax tree: a node, the nodes above it from its parent up to the root, and the
indices by which one comes to it, its own among its siblings first. -/
structure Place where
  /-- The node at the position. -/
  node : Node
  /-- The nodes above, the parent first. -/
  above : List Node
  /-- The indices of the way, the last step first. -/
  path : List Nat
  deriving Repr

namespace Place

/-- The position of the root of a tree. -/
def root (n : Node) : Place := ⟨n, [], []⟩

/-- The kind of the node at the position. -/
def kind (p : Place) : Kind := p.node.kind

/-- The text of the node at the position. -/
def text (p : Place) : String := p.node.text

/-- The first line of the node at the position. -/
def startLine (p : Place) : Nat := p.node.startLine

/-- The last line of the node at the position. -/
def endLine (p : Place) : Nat := p.node.endLine

/-! ## Downwards -/

/-- The positions of `nodes`, the first of which has the index `i`, below `parent`. -/
def numbered (parent : Place) : Nat → List Node → List Place
  | _, [] => []
  | i, n :: ns => ⟨n, parent.node :: parent.above, i :: parent.path⟩ :: numbered parent (i + 1) ns

/-- The positions of the parts of a node. -/
def children (p : Place) : List Place := numbered p 0 p.node.children

/-- The position of the child in a role. -/
def child? (r : Role) (p : Place) : Option Place :=
  p.children.find? fun c => c.node.role = some r

/-- The position of the child in a role, or else of the first child of one kind. -/
def part? (r : Role) (k : Kind) (p : Place) : Option Place :=
  (p.child? r).or (p.children.find? fun c => c.kind = k)

/-- The positions of the children that are constructs. -/
def namedChildren (p : Place) : List Place := p.children.filter fun c => c.node.isNamed

mutual

/-- The positions from a node downwards, given the way to it. -/
def placesOf (above : List Node) (path : List Nat) : Node → List Place
  | .mk r k t s e cs =>
    ⟨.mk r k t s e cs, above, path⟩ :: placesOfAll (.mk r k t s e cs :: above) path 0 cs

/-- The positions from several siblings downwards, given the way to their parent and the index of
the first of them. -/
def placesOfAll (above : List Node) (path : List Nat) (i : Nat) : List Node → List Place
  | [] => []
  | n :: ns => placesOf above (i :: path) n ++ placesOfAll above path (i + 1) ns

end

/-- All positions from this one downwards, a node before the nodes inside it. -/
def places (p : Place) : List Place := placesOf p.above p.path p.node

/-! ## Upwards -/

/-- The positions above a node, given the nodes and the indices of the way. -/
def climb : List Node → List Nat → List Place
  | n :: ns, is => ⟨n, ns, is⟩ :: climb ns is.tail
  | [], _ => []

/-- The positions above this one, the parent first. -/
def ancestors (p : Place) : List Place := climb p.above p.path.tail

/-- The nearest position above this one whose kind is of a family. -/
def enclosing? (family : Kind → Bool) (p : Place) : Option Place :=
  p.ancestors.find? fun a => family a.kind

/-- Some construct of a family is around the position. -/
def isInside (family : Kind → Bool) (p : Place) : Bool := p.above.any fun a => family a.kind

/-- Two positions of one tree are the same position. -/
def same (p q : Place) : Bool := p.path = q.path

end Place

end PhpCalls.Syntax
