import PhpCalls.Facts.Scope
import PhpCalls.Proofs.Syntax.DocumentOrder

set_option autoImplicit false

/-!
# How far bindings reach

A binding is made in a declaration or outside all declarations, and is meant for the places of that
declaration alone. Which binding counts at a place is told by lines: the line of the place is one of
those of the binding, and the binding does not begin before the declaration around the place. Lines
tell declarations apart only where they do not share any. So a binding may stray, into a declaration
on whose first or last line it begins, or out of its own declaration to a place on the first or last
line of that; and it never strays further.

## Main definitions

* `Binding.Reaches`: the lines of a binding let it count at a place.
* `Binding.Strays`: a binding reaches into a declaration that it is not made in, or out of its own.

## Main results

* `Binding.lines_of_ofPlace?`: where a binding begins and ends.
* `Scope.of_binding?_eq_some`: the binding of a variable at a place reaches the place.
* `Binding.declaration_eq_iff`: a binding that reaches a place is made in the declaration around the
  place exactly if it does not stray.
* `binding_declaration_eq_iff`: so it is with the bindings of the variables of a page.
-/

namespace PhpCalls

open Syntax

/-! ## Lines -/

namespace Binding

variable {fileEnd : Nat} {p : Place} {b : Binding}

/-- A binding begins with its place or with the function around it, and ends with that function. -/
lemma lines_of_ofPlace? (h : ofPlace? fileEnd p = some b) :
    (b.startLine = p.startLine ∨
      ∃ f, p.enclosing? Kind.isFunctionScope = some f ∧ b.startLine = f.startLine) ∧
    b.endLine = ((p.enclosing? Kind.isFunctionScope).map Place.endLine).getD fileEnd := by
  rw [ofPlace?, Option.orElse_eq_orElse, Option.orElse_eq_or] at h
  rcases Option.or_eq_some_iff.1 h with h | ⟨-, h⟩
  · unfold ofCreation? at h
    obtain ⟨parent, -, h⟩ := Option.bind_eq_some_iff.1 h
    obtain ⟨-, -, h⟩ := Option.bind_eq_some_iff.1 h
    obtain ⟨target, -, h⟩ := Option.bind_eq_some_iff.1 h
    obtain ⟨-, -, h⟩ := Option.bind_eq_some_iff.1 h
    obtain ⟨designator, -, h⟩ := Option.bind_eq_some_iff.1 h
    obtain ⟨-, -, h⟩ := Option.bind_eq_some_iff.1 h
    obtain ⟨className, -, ⟨⟩⟩ := Option.bind_eq_some_iff.1 h
    exact ⟨.inl rfl, rfl⟩
  · unfold ofParameter? at h
    obtain ⟨parent, -, h⟩ := Option.bind_eq_some_iff.1 h
    obtain ⟨-, -, h⟩ := Option.bind_eq_some_iff.1 h
    obtain ⟨type, -, h⟩ := Option.bind_eq_some_iff.1 h
    obtain ⟨-, -, h⟩ := Option.bind_eq_some_iff.1 h
    obtain ⟨f, hf, h⟩ := Option.bind_eq_some_iff.1 h
    obtain ⟨className, -, ⟨⟩⟩ := Option.bind_eq_some_iff.1 h
    exact ⟨.inr ⟨f, hf, rfl⟩, by rw [hf]; rfl⟩

/-- The bindings of a tree are those that its places make. -/
lemma mem_ofTree_iff {root : Node} :
    b ∈ ofTree root ↔ ∃ p ∈ (Place.root root).places, ofPlace? root.endLine p = some b :=
  List.mem_filterMap

/-- The lines of a binding let it count at a place. -/
structure Reaches (b : Binding) (p : Place) : Prop where
  startLine_le : b.startLine ≤ p.startLine
  le_endLine : p.startLine ≤ b.endLine
  le_startLine : ∀ d, p.enclosing? Kind.isRoutine = some d → d.startLine ≤ b.startLine

end Binding

namespace Scope

/-- What is kept of bindings, one after the other, is one of them. -/
lemma mem_of_foldl_eq_some {bs : List Binding} {best : Option Binding} {b : Binding}
    (h : bs.foldl (fun best b =>
      match best with
      | some (c : Binding) => if c.startLine ≤ b.startLine then some b else some c
      | none => some b) best = some b) : best = some b ∨ b ∈ bs := by
  induction bs generalizing best with
  | nil => exact .inl h
  | cons c bs ih =>
    rw [List.foldl_cons] at h
    rcases ih h with hstep | hmem
    · split at hstep
      · split_ifs at hstep
        · exact .inr (Option.some.inj hstep ▸ List.mem_cons_self)
        · exact .inl hstep
      · exact .inr (Option.some.inj hstep ▸ List.mem_cons_self)
    · exact .inr (List.mem_cons_of_mem _ hmem)

/-- The binding of a variable at a place is a binding of that variable that reaches the place. -/
lemma of_binding?_eq_some {s : Scope} {object : String} {p : Place} {b : Binding}
    (h : s.binding? object p = some b) : b ∈ s.bindings ∧ b.object = object ∧ b.Reaches p := by
  obtain hnone | hmem := mem_of_foldl_eq_some h
  · cases hnone
  obtain ⟨hb, hnear⟩ := List.mem_filter.1 hmem
  simp only [Bool.and_eq_true, decide_eq_true_eq] at hnear
  obtain ⟨⟨⟨hobject, hstart⟩, hend⟩, hfirst⟩ := hnear
  refine ⟨hb, hobject, hstart, hend, fun d hd => ?_⟩
  rw [hd] at hfirst
  exact hfirst

end Scope

/-! ## Declarations -/

/-- A line is the first or the last one of a place. -/
def Syntax.Place.OnEdge (d : Place) (line : Nat) : Prop := line = d.startLine ∨ line = d.endLine

namespace Binding

variable {root : Node} {p q d : Place} {b : Binding}

/-- A binding that is made at `q` reaches into a declaration around `p` that is not around `q`, or
out of the declaration around `q` to `p`. It begins on an edge of the first, or `p` begins on an
edge of the second. -/
inductive Strays (b : Binding) (q p : Place) : Prop
  | into (d : Place) (around : p.enclosing? Kind.isRoutine = some d) (outside : d ∉ q.ancestors)
      (edge : d.OnEdge b.startLine)
  | outOf (d : Place) (around : q.enclosing? Kind.isRoutine = some d) (outside : d ∉ p.ancestors)
      (edge : d.OnEdge p.startLine)

/-- Every routine is a scope of variables. -/
lemma isFunctionScope_of_isRoutine {k : Kind} (h : k.isRoutine = true) :
    k.isFunctionScope = true := by
  simp only [Kind.isRoutine, Kind.isFunctionScope, Bool.or_eq_true] at h ⊢
  exact .inl (.inl h)

/-- A binding begins with its place or with a place around that. -/
lemma exists_begin (hq : q ∈ (Place.root root).places) (hb : ofPlace? root.endLine q = some b) :
    ∃ o ∈ (Place.root root).places, (o = q ∨ o ∈ q.ancestors) ∧ b.startLine = o.startLine := by
  obtain ⟨hstart | ⟨f, hf, hstart⟩, -⟩ := lines_of_ofPlace? hb
  · exact ⟨q, hq, .inl rfl, hstart⟩
  · exact ⟨f, (Place.of_enclosing? hq hf).1, .inr (List.mem_of_find?_eq_some hf), hstart⟩

/-- A binding that is made in a declaration stands on its lines.

**Proof sketch.** The function with which the binding ends is the declaration or is inside of it. -/
lemma lines_of_declaration (h : root.InOrder) (hq : q ∈ (Place.root root).places)
    (hb : ofPlace? root.endLine q = some b) (hd : q.enclosing? Kind.isRoutine = some d) :
    d.startLine ≤ b.startLine ∧ b.endLine ≤ d.endLine := by
  have hdq : d ∈ q.ancestors := List.mem_of_find?_eq_some hd
  have hroutine := (Place.of_enclosing? hq hd).2.2
  obtain ⟨f, hf, hfd⟩ :=
    Place.enclosing?_of_mem_ancestors hdq (isFunctionScope_of_isRoutine hroutine)
  have hlines : d.startLine ≤ f.startLine ∧ f.endLine ≤ d.endLine := by
    rcases hfd with rfl | hfd
    · exact ⟨Nat.le_refl _, Nat.le_refl _⟩
    · exact Place.lines_of_mem_ancestors h (Place.of_enclosing? hq hf).1 hfd
  obtain ⟨hstart, hend⟩ := lines_of_ofPlace? hb
  rw [hf] at hstart hend
  refine ⟨?_, Nat.le_trans (Nat.le_of_eq hend) hlines.2⟩
  rcases hstart with hstart | ⟨f', hf', hstart⟩
  · rw [hstart]
    exact (Place.lines_of_mem_ancestors h hq hdq).1
  · cases hf'
    rw [hstart]
    exact hlines.1

/-- A binding that is made outside of the declaration around a place begins on an edge of it. -/
lemma onEdge_startLine (h : root.InOrder) (hp : p ∈ (Place.root root).places)
    (hq : q ∈ (Place.root root).places) (hb : ofPlace? root.endLine q = some b)
    (hreach : b.Reaches p) (hd : p.enclosing? Kind.isRoutine = some d) (hout : d ∉ q.ancestors) :
    d.OnEdge b.startLine := by
  obtain ⟨o, ho, hoq, hstart⟩ := exists_begin hq hb
  have hout : d ∉ o.ancestors := by
    rcases hoq with rfl | hoq
    · exact hout
    · exact fun hdo => hout (Place.mem_ancestors_trans hoq hdo)
  have hfirst := hreach.le_startLine d hd
  have hlast : b.startLine ≤ d.endLine := by
    have hpd := (Place.lines_of_mem_ancestors h hp (List.mem_of_find?_eq_some hd)).2
    have hlines := Place.startLine_le_endLine (Place.lines_of_mem_places (p := .root root) h hp).2.2
    exact hreach.startLine_le.trans (hlines.trans hpd)
  rcases Place.startLine_le_or_endLine_le (r := .root root) h
    (Place.of_enclosing? hp hd).1 ho hout with
    hbefore | hafter
  · exact .inl (Nat.le_antisymm (hstart ▸ hbefore) hfirst)
  · exact .inr (Nat.le_antisymm hlast (hstart ▸ hafter))

/-- A place outside of the declaration that a binding is made in begins on an edge of it, if the
binding reaches the place. -/
lemma onEdge_of_reaches (h : root.InOrder) (hp : p ∈ (Place.root root).places)
    (hq : q ∈ (Place.root root).places) (hb : ofPlace? root.endLine q = some b)
    (hreach : b.Reaches p) (hd : q.enclosing? Kind.isRoutine = some d) (hout : d ∉ p.ancestors) :
    d.OnEdge p.startLine := by
  obtain ⟨hfirst, hlast⟩ := lines_of_declaration h hq hb hd
  rcases Place.startLine_le_or_endLine_le (r := .root root) h
    (Place.of_enclosing? hq hd).1 hp hout with
    hbefore | hafter
  · exact .inl (Nat.le_antisymm hbefore (hfirst.trans hreach.startLine_le))
  · exact .inr (Nat.le_antisymm (hreach.le_endLine.trans hlast) hafter)

/-- A binding that reaches a place is made in the declaration around the place, or both are outside
all declarations, exactly if it does not stray. -/
theorem declaration_eq_iff (h : root.InOrder) (hp : p ∈ (Place.root root).places)
    (hq : q ∈ (Place.root root).places) (hb : ofPlace? root.endLine q = some b)
    (hreach : b.Reaches p) :
    q.enclosing? Kind.isRoutine = p.enclosing? Kind.isRoutine ↔ ¬ b.Strays q p := by
  constructor
  · rintro hsame (⟨d, hd, hout, -⟩ | ⟨d, hd, hout, -⟩)
    · exact hout (List.mem_of_find?_eq_some (hsame.trans hd))
    · exact hout (List.mem_of_find?_eq_some (hsame.symm.trans hd))
  · intro hstay
    refine Place.enclosing?_eq_enclosing? (fun d hd => ?_) fun d hd => ?_
    · by_contra hout
      exact hstay (.outOf d hd hout (onEdge_of_reaches h hp hq hb hreach hd hout))
    · by_contra hout
      exact hstay (.into d hd hout (onEdge_startLine h hp hq hb hreach hd hout))

end Binding

/-- **Bindings stay in their declarations but for shared lines.** Let the lines of a syntax tree be
in order, as those of the tree of a page are. The binding that gives a variable its class at a place
of the tree is one of that variable, and is made in the function or method around the place, or
outside all of them as the place is, unless it strays: it begins on the first or last line of the
function or method around the place, or the place begins on the first or last line of the one that
the binding is made in. -/
theorem binding_declaration_eq_iff {root : Node} (h : root.InOrder) {object : String} {p : Place}
    {b : Binding} (hp : p ∈ (Place.root root).places)
    (hb : (Scope.ofTree root).binding? object p = some b) :
    b.object = object ∧
    (∃ q ∈ (Place.root root).places, Binding.ofPlace? root.endLine q = some b) ∧
    ∀ q ∈ (Place.root root).places, Binding.ofPlace? root.endLine q = some b →
      (q.enclosing? Kind.isRoutine = p.enclosing? Kind.isRoutine ↔ ¬ b.Strays q p) := by
  obtain ⟨hmem, hobject, hreach⟩ := Scope.of_binding?_eq_some hb
  refine ⟨hobject, Binding.mem_ofTree_iff.1 hmem, fun q hq hmade => ?_⟩
  exact Binding.declaration_eq_iff h hp hq hmade hreach

/-- A page on which a variable is bound on the line of a function that uses its name. -/
def sharedLine : String := "<?php\n$x = new A(); function f() { $x->m(); }\n"

/-- The binding, made outside all functions, counts in the function. -/
theorem binding_declaration_eq_iff_sharedLine :
    ∃ p ∈ (Place.root (Node.ofSource sharedLine)).places,
    ∃ q ∈ (Place.root (Node.ofSource sharedLine)).places,
      p.kind = .memberCall ∧
      (Scope.ofTree (Node.ofSource sharedLine)).binding? "$x" p = some ⟨"$x", "A", 2, 3⟩ ∧
      Binding.ofPlace? (Node.ofSource sharedLine).endLine q = some ⟨"$x", "A", 2, 3⟩ ∧
      (p.enclosing? Kind.isRoutine).isSome = true ∧ q.enclosing? Kind.isRoutine = none ∧
      Binding.Strays ⟨"$x", "A", 2, 3⟩ q p := by
  have hpage : ∃ p ∈ (Place.root (Node.ofSource sharedLine)).places,
      ∃ q ∈ (Place.root (Node.ofSource sharedLine)).places,
        p.kind = .memberCall ∧
        (Scope.ofTree (Node.ofSource sharedLine)).binding? "$x" p = some ⟨"$x", "A", 2, 3⟩ ∧
        Binding.ofPlace? (Node.ofSource sharedLine).endLine q = some ⟨"$x", "A", 2, 3⟩ ∧
        (p.enclosing? Kind.isRoutine).isSome = true ∧
        (q.enclosing? Kind.isRoutine).isNone = true := by
    decide +kernel
  obtain ⟨p, hp, q, hq, hcall, hbound, hmade, hinside, houtside⟩ := hpage
  have houtside := Option.isNone_iff_eq_none.1 houtside
  refine ⟨p, hp, q, hq, hcall, hbound, hmade, hinside, houtside, ?_⟩
  by_contra hstay
  have hordered := Node.inOrder_ofSource sharedLine
  have hsame := ((binding_declaration_eq_iff hordered hp hbound).2.2 q hq hmade).2 hstay
  rw [← hsame, houtside] at hinside
  cases hinside

end PhpCalls
