import PhpCalls.Proofs.Facts.Native
import PhpCalls.Proofs.Syntax.Page

set_option autoImplicit false

/-!
# Names of declarations

The functions, methods and classes of a page are known by words of the page: their names consist of
the characters of names, of which the bar is none. This is shown for every syntax tree whose
declarations are named by names, as those of pages are. The namespace of a class is told by the line
on which it begins.

## Main definitions

* `Routine.IsNamed`: the routine and the class around it are known by names.

## Main results

* `FileFacts.isNamed_of_mem_routines`, `FileFacts.isName_of_mem_classes`: the declarations of a file
  are known by names.
* `FileFacts.inNamespace_eq`: two classes of a file that begin on the same line are in the same
  namespace.
-/

namespace PhpCalls

open Syntax

/-- A bar is no character of a name. -/
lemma Syntax.Lexeme.IsName.bar_notMem {cs : List Char} (h : IsName cs) : '|' ∉ cs :=
  fun hbar => absurd (h.isNameChar _ hbar) (by decide)

/-- The kinds of classes are kinds of declarations. -/
lemma Syntax.Kind.declares_of_isClassLike {k : Kind} (h : k.isClassLike = true) :
    k.declares = true := by
  simp only [isClassLike, Bool.or_eq_true, decide_eq_true_eq] at h
  rcases h with ((rfl | rfl) | rfl) | rfl <;> rfl

/-- What declares something is named by a name. -/
lemma Syntax.Node.DeclaresNames.isName {n : Node} {name : String} (h : n.DeclaresNames)
    (hn : n.kind.declares = true) (hname : n.childText? .name = some name) :
    Lexeme.IsName name.toList := by
  obtain ⟨c, hc, rfl⟩ := Option.map_eq_some_iff.mp hname
  exact h.named hn c hc

/-! ## Routines -/

namespace Routine

/-- The routine is known by a name, and so is the class around it. -/
structure IsNamed (r : Routine) : Prop where
  name : Lexeme.IsName r.name.toList
  className : ∀ c ∈ r.className, Lexeme.IsName c.toList

variable {s : Scope} {r : Routine}

/-- A routine that is declared at a place has a name, and its class has one. -/
lemma isNamed_of_ofPlace? {context : Option ClassContext} {p : Place} (hp : p.node.DeclaresNames)
    (hk : p.kind.declares = true) (hcontext : ∀ c ∈ context, Lexeme.IsName c.name.toList)
    (h : ofPlace? s context p = some r) : r.IsNamed := by
  unfold ofPlace? at h
  obtain ⟨name, hname, ⟨⟩⟩ := Option.bind_eq_some_iff.mp h
  refine ⟨hp.isName hk hname, fun c hc => ?_⟩
  obtain ⟨x, hx, rfl⟩ := Option.map_eq_some_iff.mp hc
  exact hcontext x hx

/-- The routine for the code of a file itself has a name. -/
lemma isNamed_of_ofFileLevel? {root : Node} (h : ofFileLevel? s root = some r) : r.IsNamed := by
  have hname : Lexeme.IsName fileLevelName.toList :=
    ⟨by decide, List.all_eq_true.mp (by decide)⟩
  unfold ofFileLevel? at h
  dsimp only at h
  split at h
  · cases h
  · cases h
    exact ⟨hname, nofun⟩

end Routine

/-! ## Classes -/

namespace ClassDecl

variable {s : Scope} {p : Place} {k : ClassDecl}

/-- The head of the record of a class is that of its declaration. -/
lemma head_of_ofPlace? (h : ofPlace? s p = some k) :
    p.node.childText? .name = some k.name ∧ k.startLine = p.startLine ∧
      k.inNamespace = s.namespaceAt? p.startLine := by
  unfold ofPlace? at h
  obtain ⟨name, hname, ⟨⟩⟩ := Option.bind_eq_some_iff.mp h
  obtain ⟨_, _, _, hfold⟩ := exists_foldl_withMember_eq s _ _ _
  rw [hfold]
  exact ⟨hname, rfl, rfl⟩

/-- The methods of a class are declared in its body. -/
lemma isNamed_of_mem_methods (hp : p.Within Node.DeclaresNames) (hk : p.kind.declares = true)
    (h : ofPlace? s p = some k) : ∀ m ∈ k.methods, m.IsNamed := by
  intro m hm
  obtain ⟨context, member, -, hcontext, hmember, hm⟩ := exists_place_of_mem_methods h hm
  obtain ⟨hkind, body, hbody, hmember⟩ := mem_methodPlaces_iff.mp hmember
  have hwithin : member.Within Node.DeclaresNames := (hp.of_part? hbody).of_mem_children hmember
  refine Routine.isNamed_of_ofPlace? hwithin.node (by rw [hkind]) ?_ hm
  rintro _ ⟨⟩
  rw [hcontext]
  exact hp.node.isName hk (head_of_ofPlace? h).1

end ClassDecl

/-! ## Files -/

namespace FileFacts

variable {root : Node}

/-- Everywhere in a tree whose declarations are named by names, declarations are named by names. -/
lemma within_of_mem_places (h : root.DeclaresNames) {p : Place}
    (hp : p ∈ (Place.root root).places) : p.Within Node.DeclaresNames :=
  (Place.within_root h).of_mem_places hp

/-- Every class of a file is known by a name. -/
theorem isName_of_mem_classes (h : root.DeclaresNames) {k : ClassDecl}
    (hk : k ∈ (ofTree root).classes) : Lexeme.IsName k.name.toList := by
  obtain ⟨p, hp, hk⟩ := List.mem_filterMap.mp hk
  obtain ⟨hp, hkind⟩ := List.mem_filter.mp hp
  obtain ⟨hname, -, -⟩ := ClassDecl.head_of_ofPlace? hk
  exact (within_of_mem_places h hp).node.isName (Kind.declares_of_isClassLike hkind) hname

/-- Every routine of a file is known by a name, and so is the class around it. -/
theorem isNamed_of_mem_routines (h : root.DeclaresNames) {r : Routine}
    (hr : r ∈ (ofTree root).routines) : r.IsNamed := by
  rcases List.mem_append.mp hr with hr | hr
  · rcases List.mem_append.mp hr with hr | hr
    · obtain ⟨p, hp, hr⟩ := List.mem_filterMap.mp hr
      obtain ⟨hp, hkind⟩ := List.mem_filter.mp hp
      refine Routine.isNamed_of_ofPlace? (within_of_mem_places h hp).node ?_ (by simp) hr
      rw [of_decide_eq_true hkind]
    · exact Routine.isNamed_of_ofFileLevel? (Option.mem_toList.mp hr)
  · obtain ⟨k, hk, hr⟩ := List.mem_flatMap.mp hr
    obtain ⟨p, hp, hk⟩ := List.mem_filterMap.mp hk
    obtain ⟨hp, hkind⟩ := List.mem_filter.mp hp
    exact ClassDecl.isNamed_of_mem_methods (within_of_mem_places h hp)
      (Kind.declares_of_isClassLike hkind) hk r hr

/-- Two classes of a file that begin on the same line are in the same namespace. -/
theorem inNamespace_eq {k l : ClassDecl} (hk : k ∈ (ofTree root).classes)
    (hl : l ∈ (ofTree root).classes) (h : k.startLine = l.startLine) :
    k.inNamespace = l.inNamespace := by
  obtain ⟨p, -, hk⟩ := List.mem_filterMap.mp hk
  obtain ⟨q, -, hl⟩ := List.mem_filterMap.mp hl
  obtain ⟨-, hkline, hknamespace⟩ := ClassDecl.head_of_ofPlace? hk
  obtain ⟨-, hlline, hlnamespace⟩ := ClassDecl.head_of_ofPlace? hl
  rw [hknamespace, hlnamespace, ← hkline, ← hlline, h]

end FileFacts

end PhpCalls
