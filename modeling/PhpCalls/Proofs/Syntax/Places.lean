import Mathlib.Tactic.Lemma
import PhpCalls.Syntax.Tree

set_option autoImplicit false

/-!
# Properties of all nodes of a tree

A property that goes over from a node to its parts holds everywhere below a place where it holds.
Whoever goes through the places of a tree, downwards or upwards, meets only nodes that have it.

## Main definitions

* `Node.Hereditary`: a property goes over from a node to its parts.
* `Place.Within`: the node at a place and the nodes above it have a property.

## Main results

* `Place.Within.of_mem_places`, `Place.Within.of_mem_children`, `Place.Within.of_mem_ancestors`:
  going through the places of a tree does not lead out of a hereditary property.
-/

namespace PhpCalls.Syntax

/-- The property goes over from a node to its parts. -/
class Node.Hereditary (P : Node → Prop) : Prop where
  of_mem_children : ∀ {n c : Node}, P n → c ∈ n.children → P c

/-- A part by role or kind is one of the parts of the node. -/
lemma Node.mem_children_of_part? {r : Role} {k : Kind} {n c : Node} (hc : n.part? r k = some c) :
    c ∈ n.children := by
  rcases Option.or_eq_some_iff.1 hc with hrole | ⟨-, hkind⟩
  · exact List.mem_of_find?_eq_some hrole
  · exact List.mem_of_find?_eq_some hkind

namespace Place

variable {P : Node → Prop}

/-- The node at the place and the nodes above it have the property. -/
structure Within (P : Node → Prop) (p : Place) : Prop where
  node : P p.node
  above : ∀ a ∈ p.above, P a

mutual

/-- **Proof sketch.** By the two recursions of `placesOf`: a part of the node lies below the node,
which has the property. -/
theorem within_of_mem_placesOf [hP : Node.Hereditary P] {above : List Node} {path : List Nat} :
    ∀ {n : Node}, P n → (∀ a ∈ above, P a) → ∀ p ∈ placesOf above path n, p.Within P
  | .mk r k t s e cs, hn, habove => by
    refine List.forall_mem_cons.mpr ⟨⟨hn, habove⟩, ?_⟩
    exact within_of_mem_placesOfAll (fun c hc => hP.of_mem_children hn hc)
      (List.forall_mem_cons.mpr ⟨hn, habove⟩)

/-- All that is below nodes with a hereditary property stands within it. -/
theorem within_of_mem_placesOfAll [Node.Hereditary P] {above : List Node} {path : List Nat}
    {i : Nat} :
    ∀ {ns : List Node}, (∀ n ∈ ns, P n) → (∀ a ∈ above, P a) →
      ∀ p ∈ placesOfAll above path i ns, p.Within P
  | [], _, _ => fun p hp => by cases hp
  | n :: ns, hns, habove => by
    obtain ⟨hn, hns⟩ := List.forall_mem_cons.mp hns
    exact List.forall_mem_append.mpr
      ⟨within_of_mem_placesOf hn habove, within_of_mem_placesOfAll hns habove⟩

end

/-- The position of a part by role or kind is one of the positions of the parts. -/
lemma mem_children_of_part? {r : Role} {k : Kind} {p q : Place} (hq : p.part? r k = some q) :
    q ∈ p.children := by
  rcases Option.or_eq_some_iff.1 hq with hrole | ⟨-, hkind⟩
  · exact List.mem_of_find?_eq_some hrole
  · exact List.mem_of_find?_eq_some hkind

/-- The root of a tree stands within what holds of it. -/
lemma within_root {n : Node} (h : P n) : (root n).Within P := ⟨h, fun _ ha => by cases ha⟩

namespace Within

variable {p q : Place} (h : p.Within P)

include h

/-- What is above a place stands within the same property. -/
lemma of_mem_ancestors (hq : q ∈ p.ancestors) : q.Within P := by
  have hclimb (ns : List Node) (is : List Nat) (hns : ∀ n ∈ ns, P n) :
      ∀ c ∈ climb ns is, c.Within P := by
    induction ns generalizing is with
    | nil => exact fun c hc => by cases hc
    | cons n ns ih =>
      obtain ⟨hn, hns⟩ := List.forall_mem_cons.mp hns
      exact List.forall_mem_cons.mpr ⟨⟨hn, hns⟩, ih is.tail hns⟩
  exact hclimb _ _ h.above q hq

/-- The nearest place of a family above a place stands within the same property. -/
lemma of_enclosing? {family : Kind → Bool} (hq : p.enclosing? family = some q) : q.Within P :=
  h.of_mem_ancestors (List.mem_of_find?_eq_some hq)

variable [hP : Node.Hereditary P]

include hP

/-- What is below a place stands within the same property. -/
lemma of_mem_places (hq : q ∈ p.places) : q.Within P := within_of_mem_placesOf h.node h.above q hq

/-- The children of a place stand within the same property. -/
lemma of_mem_children (hq : q ∈ p.children) : q.Within P := by
  have hnumbered (i : Nat) (ns : List Node) (hns : ∀ n ∈ ns, P n) :
      ∀ c ∈ numbered p i ns, c.Within P := by
    induction ns generalizing i with
    | nil => exact fun c hc => by cases hc
    | cons n ns ih =>
      obtain ⟨hn, hns⟩ := List.forall_mem_cons.mp hns
      exact List.forall_mem_cons.mpr ⟨⟨hn, List.forall_mem_cons.mpr ⟨h.node, h.above⟩⟩,
        ih (i + 1) hns⟩
  exact hnumbered 0 _ (fun n hn => hP.of_mem_children h.node hn) q hq

/-- The child of a place in a role stands within the same property. -/
lemma of_child? {r : Role} (hq : p.child? r = some q) : q.Within P :=
  h.of_mem_children (List.mem_of_find?_eq_some hq)

/-- A part of a place stands within the same property. -/
lemma of_part? {r : Role} {k : Kind} (hq : p.part? r k = some q) : q.Within P :=
  h.of_mem_children (mem_children_of_part? hq)

end Within

end Place

end PhpCalls.Syntax
