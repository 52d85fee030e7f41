import PhpCalls.Proofs.Facts.Owners

set_option autoImplicit false

/-!
# Which calls are lost

A call belongs to the nearest function or method around it. A record is made of every function, but
of a method only if it stands in the body of a class that has a name; and in a record there are only
calls from the body of its declaration. So a call in executable code may belong to a method that has
no record, as the methods of anonymous classes have none, or stand in the head of a function that is
declared within another. Such a call reaches no record. It is shown that these are the only calls
that are lost.

## Main definitions

* `Place.Executable`: the place is in the body of a function or method, or outside all declarations.
* `Place.classContext?`: the class in whose body the nearest function or method around a place is
  declared.
* `FileFacts.HasRecord`: the function or method has a record.
* `FileFacts.Loses`: the two ways in which a call is lost.
* `FileFacts.Represents`: a record has a call of the same name and line.

## Main results

* `FileFacts.represents_of_not_loses`, `FileFacts.notMem_contributions_of_loses`: what is not lost
  is represented, and what is lost contributes to no record.
* `executable_calls_represented`: the calls in executable code that are represented.
-/

namespace PhpCalls

open Syntax

namespace Syntax.Place

variable {root : Node} {d p : Place}

/-- The place is in the body of a function or method, or in no function, method or class. -/
def Executable (root : Node) (p : Place) : Prop :=
  (∃ d ∈ (Place.root root).places, d.kind.isRoutine = true ∧ Owner.InBody d p) ∨
    p.enclosing? Kind.isRoutine = none ∧ p.enclosing? Kind.isClassLike = none

/-- The class in whose body a method is declared: between the two is the body. -/
def declaringClass? (d : Place) : Option ClassContext :=
  if d.kind = .methodDeclaration then
    (d.ancestors[1]?).bind fun k => if k.kind.isClassLike then
      ClassContext.ofClass? k.node else none
  else none

/-- The class in whose body the nearest function or method around a place is declared. -/
def classContext? (p : Place) : Option ClassContext :=
  (p.enclosing? Kind.isRoutine).bind declaringClass?

/-- Around a place in the body of a routine there is a nearest routine. -/
lemma enclosing?_ne_none_of_inBody (hd : d.kind.isRoutine = true) (hbody : Owner.InBody d p) :
    p.enclosing? Kind.isRoutine ≠ none := by
  obtain ⟨body, hbody, hp⟩ := hbody
  have hparent : d ∈ body.ancestors := by
    rw [ancestors_of_mem_children (mem_children_of_part? hbody)]
    exact List.mem_cons_self
  have hmem : d ∈ p.ancestors := by
    rcases ancestors_suffix_of_mem_places hp with rfl | hway
    · exact hparent
    · exact hway.subset (List.mem_cons_of_mem _ hparent)
  intro hnone
  exact absurd hd (by simpa using List.find?_eq_none.1 hnone d hmem)

/-- The context in which a routine is read is the class in whose body it is declared. -/
lemma declaringClass?_of_mem_ofTree {context : Option ClassContext}
    (h : Owner.routine context d ∈ Owner.ofTree root) : d.declaringClass? = context := by
  unfold declaringClass?
  rcases Owner.routine_mem_ofTree_iff.1 h with ⟨rfl, -, hkind⟩ | ⟨k, -, hkind, -, rfl, hd⟩
  · rw [if_neg (by simp [hkind])]
  · rw [if_pos (mem_methodPlaces_iff.1 hd).1, Owner.getElem?_ancestors_of_mem_methodPlaces hd,
      Option.bind_some, if_pos hkind]

end Syntax.Place

namespace FileFacts

variable {root : Node} {d p : Place}

/-- A function has a record, and so has a method in the body of a class, if all of them have
names. -/
def HasRecord (root : Node) (d : Place) : Prop :=
  (d.node.childText? .name).isSome = true ∧
    (d.kind = .functionDefinition ∨ ∃ k ∈ (Place.root root).places, k.kind.isClassLike = true ∧
      (k.node.childText? .name).isSome = true ∧ d ∈ methodPlaces k)

/-- The two ways in which the call at a place is lost. -/
inductive Loses (root : Node) (p : Place) : Prop
  /-- The nearest routine has no record. -/
  | unrecorded (d : Place) (nearest : p.enclosing? Kind.isRoutine = some d)
    (hd : ¬ HasRecord root d)
  /-- The call is in the head of the nearest routine: in an attribute or the default of a
  parameter. -/
  | inHead (d : Place) (nearest : p.enclosing? Kind.isRoutine = some d) (hd : ¬ Owner.InBody d p)

/-- A call is not lost if it is in the body of its nearest routine, and that has a record. -/
lemma not_loses_iff (hnearest : p.enclosing? Kind.isRoutine = some d) :
    ¬ Loses root p ↔ HasRecord root d ∧ Owner.InBody d p := by
  constructor
  · intro h
    exact ⟨by_contra fun hd => h (.unrecorded d hnearest hd),
      by_contra fun hd => h (.inHead d hnearest hd)⟩
  · rintro ⟨hrecord, hbody⟩ (⟨d', hnearest', hd⟩ | ⟨d', hnearest', hd⟩)
    all_goals obtain rfl : d = d' := Option.some.inj (hnearest.symm.trans hnearest')
    · exact hd hrecord
    · exact hd hbody

/-- Some record has a call of the same name that begins on the same line. -/
def Represents (root : Node) (c : Call) : Prop :=
  ∃ r ∈ (ofTree root).routines, ∃ d ∈ r.calls, d.name = c.name ∧ d.startLine = c.startLine

/-- The routines that have a record are the owners that have one. -/
lemma hasRecord_iff (hd : d ∈ (Place.root root).places) : HasRecord root d ↔
    ∃ a ∈ Owner.ofTree root, a.place? = some d ∧ (a.record? root).isSome = true := by
  have hrecord (context : Option ClassContext) :
      ((Owner.routine context d).record? root).isSome = (d.node.childText? .name).isSome := by
    rw [Owner.record?, Routine.ofPlace?]
    cases d.node.childText? .name <;> rfl
  constructor
  · rintro ⟨hname, hkind | ⟨k, hk, hkind, hkname, hdk⟩⟩
    · have hmem := Owner.routine_mem_ofTree_iff.2 (.inl ⟨rfl, hd, hkind⟩)
      exact ⟨_, hmem, rfl, (hrecord none).trans hname⟩
    · have hcontext : (ClassContext.ofClass? k.node).isSome = true := by
        rwa [ClassContext.ofClass?, Option.isSome_map]
      have hmem := Owner.routine_mem_ofTree_iff.2 (.inr ⟨k, hk, hkind, hcontext, rfl, hdk⟩)
      exact ⟨_, hmem, rfl, (hrecord _).trans hname⟩
  · rintro ⟨a, ha, hplace, hsome⟩
    cases a with
    | fileLevel => cases hplace
    | routine context d' =>
      obtain rfl : d' = d := Option.some.inj hplace
      refine ⟨(hrecord context).symm.trans hsome, ?_⟩
      rcases Owner.routine_mem_ofTree_iff.1 ha with
        ⟨-, -, hkind⟩ | ⟨k, hk, hkind, hcontext, rfl, hdk⟩
      · exact .inl hkind
      · rw [ClassContext.ofClass?, Option.isSome_map] at hcontext
        exact .inr ⟨k, hk, hkind, hcontext, hdk⟩

/-- A call that belongs to an owner with a record is represented there. -/
lemma represents_of_keeps {a : Owner} (ha : a ∈ Owner.ofTree root) {r : Routine}
    (hr : a.record? root = some r) (hcall : p.kind.isCall = true) (hkeeps : a.Keeps root p)
    {c : Call} (hc : Call.ofPlace? (Scope.ofTree root) a.context p = some c) :
    Represents root c := by
  have hmem : r ∈ (ofTree root).routines := by
    rw [Owner.routines_ofTree]
    exact List.mem_filterMap.2 ⟨a, ha, hr⟩
  exact ⟨r, hmem, (Owner.accounts_of_record? ha hr).kept p hcall hkeeps c hc⟩

/-- There is a record of the file level if it has a call. -/
lemma exists_record?_fileLevel (hcall : p.kind.isCall = true)
    (hkeeps : Owner.fileLevel.Keeps root p) {c : Call}
    (hc : Call.ofPlace? (Scope.ofTree root) none p = some c) :
    ∃ r, Owner.fileLevel.record? root = some r := by
  have hsource : p ∈ Owner.fileLevel.sources root :=
    Owner.mem_sources_fileLevel_iff.2 ⟨hkeeps.1, hcall, hkeeps.2⟩
  obtain ⟨d, hd, -⟩ := Call.exists_spot_eq hsource hc
  have hne : Call.ofFileLevel (Scope.ofTree root) root ≠ [] := List.ne_nil_of_mem hd
  simp only [Owner.record?, Routine.ofFileLevel?]
  split
  · simp_all
  · exact ⟨_, rfl⟩

/-- A call in executable code that is not lost is represented.

**Proof sketch.** Its nearest routine has a record, and the call is in the body of it; or there is
no routine around it, and then there is no class either. -/
theorem represents_of_not_loses (hp : p ∈ (Place.root root).places) (hcall : p.kind.isCall = true)
    (hexec : p.Executable root) (h : ¬ Loses root p) {c : Call}
    (hc : Call.ofPlace? (Scope.ofTree root) p.classContext? p = some c) : Represents root c := by
  unfold Place.classContext? at hc
  cases hnearest : p.enclosing? Kind.isRoutine with
  | none =>
    rcases hexec with ⟨d, -, hd, hbody⟩ | ⟨-, hclass⟩
    · exact absurd hnearest (Place.enclosing?_ne_none_of_inBody hd hbody)
    · rw [hnearest] at hc
      have hkeeps : Owner.fileLevel.Keeps root p := ⟨hp, hnearest, hclass⟩
      obtain ⟨r, hr⟩ := exists_record?_fileLevel hcall hkeeps hc
      exact represents_of_keeps (List.mem_append_right _ List.mem_cons_self) hr hcall hkeeps hc
  | some d =>
    obtain ⟨hrecord, hbody⟩ := (not_loses_iff hnearest).1 h
    obtain ⟨hd, -, -⟩ := Place.of_enclosing? hp hnearest
    obtain ⟨a, ha, hplace, hsome⟩ := (hasRecord_iff hd).1 hrecord
    obtain ⟨r, hr⟩ := Option.isSome_iff_exists.1 hsome
    cases a with
    | fileLevel => cases hplace
    | routine context d' =>
      obtain rfl : d' = d := Option.some.inj hplace
      rw [hnearest, Option.bind_some, Place.declaringClass?_of_mem_ofTree ha] at hc
      exact represents_of_keeps ha hr hcall ⟨hbody, hnearest⟩ hc

/-- A call that is lost contributes to no record. -/
theorem notMem_contributions_of_loses (h : Loses root p) {a : Owner} (ha : a ∈ Owner.ofTree root)
    (hsome : (a.record? root).isSome = true) : p ∉ (a.contributions root).map Prod.fst := by
  intro hmem
  obtain ⟨e, he, rfl⟩ := List.mem_map.1 hmem
  have hkeeps := ((Owner.mem_sources_iff ha).1 (Owner.of_mem_contributions he).1).2
  cases a with
  | fileLevel =>
    obtain ⟨-, hnone, -⟩ := hkeeps
    cases h <;> simp_all
  | routine context d =>
    obtain ⟨hbody, hnearest⟩ := hkeeps
    have hrecord := (hasRecord_iff (Owner.mem_places_of_mem_ofTree ha)).2 ⟨_, ha, rfl, hsome⟩
    exact (not_loses_iff hnearest).2 ⟨hrecord, hbody⟩ h

/-- A page on which a function has a call of its own, and another in a method of an anonymous
class. -/
def anonymousTree : Node := Node.ofSource
  "<?php\nfunction f() { g(); return new class { function m() { h(); } }; }\n"

end FileFacts

/-- **The calls in executable code that are lost.** A call in the body of a function or method, or
outside all functions and classes, is represented in the records of its file by its name and line,
unless it is lost: the nearest function or method around it has no record, as a method of an
anonymous class has none, or the call is in the head of that function or method and not in its body.
A lost call contributes to no record. -/
theorem executable_calls_represented (root : Node) {p : Place} (hp : p ∈ (Place.root root).places)
    (hcall : p.kind.isCall = true) (hexec : p.Executable root) :
    (¬ FileFacts.Loses root p →
      ∀ c, Call.ofPlace? (Scope.ofTree root) p.classContext? p = some c →
        FileFacts.Represents root c) ∧
    (FileFacts.Loses root p → ∀ a ∈ Owner.ofTree root, (a.record? root).isSome = true →
      p ∉ (a.contributions root).map Prod.fst) :=
  ⟨fun h _ hc => FileFacts.represents_of_not_loses hp hcall hexec h hc,
    fun h _ ha hsome => FileFacts.notMem_contributions_of_loses h ha hsome⟩

open FileFacts in
/-- The call of `g` is represented. That of `h`, in the same function, is not: the method around it
has no record, as no class of the page has a name. -/
theorem executable_calls_represented_anonymous :
    (∃ p ∈ (Place.root anonymousTree).places, p.Executable anonymousTree ∧ ¬ Loses anonymousTree p ∧
      ∃ c, Call.ofPlace? (Scope.ofTree anonymousTree) p.classContext? p = some c ∧ c.name = "g" ∧
        Represents anonymousTree c) ∧
    ∃ p ∈ (Place.root anonymousTree).places, p.Executable anonymousTree ∧ Loses anonymousTree p ∧
      (∃ c, Call.ofPlace? (Scope.ofTree anonymousTree) p.classContext? p = some c ∧ c.name = "h" ∧
        ¬ Represents anonymousTree c) ∧
      ∀ a ∈ Owner.ofTree anonymousTree, (a.record? anonymousTree).isSome = true →
        p ∉ (a.contributions anonymousTree).map Prod.fst := by
  have hpage : (∃ d ∈ (Place.root anonymousTree).places, d.kind = .functionDefinition ∧
      (d.node.childText? .name).isSome = true ∧ ∃ body ∈ (d.part? .body .block).toList,
        (∃ p ∈ body.places, p.kind.isCall = true ∧ Call.ownedBy d p = true ∧
          (Call.ofPlace? (Scope.ofTree anonymousTree) p.classContext? p).map Call.name = some "g") ∧
        ∃ p ∈ body.places, p.kind.isCall = true ∧
          (p.enclosing? Kind.isRoutine).map Place.kind = some .methodDeclaration ∧
          (Call.ofPlace? (Scope.ofTree anonymousTree) p.classContext? p).map Call.name = some "h") ∧
      (∀ k ∈ (Place.root anonymousTree).places, k.kind.isClassLike = false) ∧
      ∀ r ∈ (ofTree anonymousTree).routines, ∀ c ∈ r.calls, c.name ≠ "h" := by
    decide +kernel
  obtain
    ⟨⟨d, hd, hkind, hname, body, hbody, ⟨p, hp, hpcall, howned, hg⟩, q, hq, hqcall, hmethod, hh⟩,
    hclasses, hcalls⟩ := hpage
  have hbody : d.part? .body .block = some body := Option.mem_toList.1 hbody
  have hinside {p : Place} (hp : p ∈ body.places) : p ∈ (Place.root anonymousTree).places :=
    Place.mem_places_trans hd (Owner.InBody.mem_places ⟨body, hbody, hp⟩)
  have hexec {p : Place} (hp : p ∈ body.places) : p.Executable anonymousTree :=
    .inl ⟨d, hd, by rw [hkind]; rfl, body, hbody, hp⟩
  obtain ⟨c, hc, hcname⟩ := Option.map_eq_some_iff.1 hg
  obtain ⟨e, he, hename⟩ := Option.map_eq_some_iff.1 hh
  obtain ⟨m, hm, hmkind⟩ := Option.map_eq_some_iff.1 hmethod
  have hkept : ¬ Loses anonymousTree p :=
    (not_loses_iff ((Owner.ownedBy_iff hd (hinside hp)).1 howned)).2
      ⟨⟨hname, .inl hkind⟩, body, hbody, hp⟩
  have hlost : Loses anonymousTree q := by
    refine .unrecorded m hm ?_
    rintro ⟨-, hfunction | ⟨k, hk, hclass, -⟩⟩
    · rw [hmkind] at hfunction
      cases hfunction
    · rw [hclasses k hk] at hclass
      cases hclass
  refine ⟨⟨p, hinside hp, hexec hp, hkept, c, hc, hcname, ?_⟩,
    q, hinside hq, hexec hq, hlost, ⟨e, he, hename, ?_⟩, ?_⟩
  · exact (executable_calls_represented anonymousTree (hinside hp) hpcall (hexec hp)).1 hkept c hc
  · rintro ⟨r, hr, call, hcall, hsame, -⟩
    exact hcalls r hr call hcall (hsame.trans hename)
  · exact (executable_calls_represented anonymousTree (hinside hq) hqcall (hexec hq)).2 hlost

end PhpCalls
