import PhpCalls.Facts.File
import PhpCalls.Proofs.List
import PhpCalls.Proofs.Syntax.DocumentOrder

set_option autoImplicit false

/-!
# Who owns a call

The records of a file are made in three passes: one over its functions, one over the file level, and
one over the bodies of its classes. Here the three are one list of owners, each with the places
whose calls it keeps. The nearest function or method around a call is the owner that keeps it, so
that no two owners keep a call from the same place, however functions, classes and methods are
nested in one another.

## Main definitions

* `Owner`: a function or method in its context, or the file level.
* `Owner.ofTree`, `Owner.record?`: the owners of a tree, and the record of an owner.
* `Owner.sources`, `Owner.contributions`: the places of the calls of an owner, and the calls that
  are kept of them, each with its place.
* `Owner.Accounts`: where the calls of a record come from.

## Main results

* `ClassDecl.ofPlace?_spec`: the name and the methods of the record of a class.
* `Owner.routines_ofTree`: the records of a file are those of its owners.
* `Owner.nodup_place?_ofTree`: no routine is an owner twice.
* `calls_attributed`: every call of a file comes from one place of one owner.
-/

namespace PhpCalls

open Syntax

/-! ## Calls and their places -/

namespace Call

/-- The name of a call and the line on which it begins. -/
def spot (c : Call) : String × Nat := (c.name, c.startLine)

variable (s : Scope) (context : Option ClassContext) (ps : List Place)

/-- The calls at places, the first of each name and line, each with its place. -/
def attributed : List (Place × Call) :=
  (ps.filterMap fun p => (ofPlace? s context p).map fun c => (p, c)).eraseDupsBy fun a b =>
    a.2.coincides b.2

/-- The calls with their places are the calls of the places. -/
lemma map_snd_attributed : (attributed s context ps).map Prod.snd = ofPlaces s context ps := by
  rw [attributed, ofPlaces, ← eraseDupsBy_map Prod.snd, List.map_filterMap]
  simp only [Option.map_map, Function.comp_def, Option.map_id_fun', id_eq]

/-- The places whose calls are kept are in the order in which the places are given. -/
lemma map_fst_attributed_sublist : ((attributed s context ps).map Prod.fst).Sublist ps := by
  have hplaces : (ps.filterMap fun p => (ofPlace? s context p).map fun c => (p, c)).map Prod.fst =
      ps.filter fun p => (ofPlace? s context p).isSome := by
    induction ps with
    | nil => rfl
    | cons p ps ih => cases h : ofPlace? s context p <;> simp [h, ih]
  refine ((eraseDupsBy_sublist _ _).map Prod.fst).trans ?_
  rw [hplaces]
  exact List.filter_sublist

variable {s context ps}

/-- A call stands with a place that makes it. -/
lemma of_mem_attributed {e : Place × Call} (he : e ∈ attributed s context ps) :
    e.1 ∈ ps ∧ ofPlace? s context e.1 = some e.2 := by
  obtain ⟨p, hp, he⟩ := List.mem_filterMap.1 (mem_of_mem_eraseDupsBy he)
  obtain ⟨c, hc, rfl⟩ := Option.map_eq_some_iff.1 he
  exact ⟨hp, hc⟩

/-- Of the calls of places, one stays for each spot. -/
lemma ofPlaces_eq_eraseDupsBy_spot : ofPlaces s context ps =
    (ps.filterMap (ofPlace? s context)).eraseDupsBy fun a b => a.spot = b.spot := by
  have hspot : coincides = fun a b => decide (a.spot = b.spot) := by
    funext a b
    simp [coincides, spot]
  rw [ofPlaces, hspot]

/-- No two calls have one name and begin on one line. -/
lemma nodup_spot_ofPlaces : ((ofPlaces s context ps).map spot).Nodup := by
  rw [ofPlaces_eq_eraseDupsBy_spot]
  exact nodup_map_eraseDupsBy spot _

/-- Every call that is built is represented by its name and line. -/
lemma exists_spot_eq {p : Place} {c : Call} (hp : p ∈ ps) (hc : ofPlace? s context p = some c) :
    ∃ d ∈ ofPlaces s context ps, d.spot = c.spot := by
  have hspot : c.spot ∈ (ofPlaces s context ps).map spot := by
    rw [ofPlaces_eq_eraseDupsBy_spot, mem_map_eraseDupsBy]
    exact List.mem_map_of_mem (List.mem_filterMap.2 ⟨p, hp, hc⟩)
  exact List.mem_map.1 hspot

/-- A call begins on the line of its place. -/
lemma startLine_of_ofPlace? {p : Place} {c : Call} (h : ofPlace? s context p = some c) :
    c.startLine = p.startLine := by
  simp only [ofPlace?] at h
  split at h <;> obtain ⟨call, -, ⟨⟩⟩ := Option.bind_eq_some_iff.1 h <;> rfl

end Call

/-! ## Records of classes -/

/-- The class in whose body the methods of a class stand. -/
def ClassContext.ofClass? (n : Node) : Option ClassContext :=
  (n.childText? .name).map fun name =>
    ⟨name, (((n.childOfKind? .baseClause).map ClassDecl.namesIn).getD []).head?⟩

/-- The places of the methods in the body of a class. -/
def methodPlaces (k : Place) : List Place :=
  (((k.part? .body .declarationList).map Place.namedChildren).getD []).filter fun m =>
    m.kind = .methodDeclaration

/-- The places of methods are the method declarations that stand directly in the body of the
class. -/
lemma mem_methodPlaces_iff {k m : Place} : m ∈ methodPlaces k ↔
    m.kind = .methodDeclaration ∧ ∃ body, k.part? .body .declarationList = some body ∧
      m ∈ body.children := by
  have hnamed : m.kind = .methodDeclaration → m.node.isNamed = true := by
    intro hkind
    rw [Node.isNamed, show m.node.kind = .methodDeclaration from hkind]
    rfl
  cases hbody : k.part? .body .declarationList with
  | none => simp [methodPlaces, hbody]
  | some body =>
    simp only [methodPlaces, hbody, Option.map_some, Option.getD_some, List.mem_filter,
      Place.namedChildren, decide_eq_true_eq, Option.some.injEq, exists_eq_left']
    tauto

namespace ClassDecl

variable {s : Scope}

/-- A member of the body adds to the properties, the methods and the traits of the class. -/
lemma exists_withMember_eq (s : Scope) (context : ClassContext) (k : ClassDecl) (member : Place) :
    ∃ properties methods uses,
      withMember s context k member = { k with properties, methods, uses } := by
  unfold withMember
  split
  · split <;> exact ⟨_, _, _, rfl⟩
  all_goals exact ⟨_, _, _, rfl⟩

/-- Taking up members changes the properties, methods and uses of a class alone. -/
lemma exists_foldl_withMember_eq (s : Scope) (context : ClassContext) (members : List Place)
    (k : ClassDecl) : ∃ properties methods uses,
      members.foldl (withMember s context) k = { k with properties, methods, uses } := by
  induction members generalizing k with
  | nil => exact ⟨_, _, _, rfl⟩
  | cons member members ih =>
    obtain ⟨_, _, _, hmember⟩ := exists_withMember_eq s context k member
    rw [List.foldl_cons, hmember]
    exact ih _

/-- The methods of a class are the records of the methods in its body, in their order. -/
lemma methods_foldl_withMember (s : Scope) (context : ClassContext) (members : List Place)
    (k : ClassDecl) : (members.foldl (withMember s context) k).methods = k.methods ++
      (members.filter fun m => m.kind = .methodDeclaration).filterMap
        (Routine.ofPlace? s (some context)) := by
  induction members generalizing k with
  | nil => simp
  | cons member members ih =>
    rw [List.foldl_cons, ih]
    unfold withMember
    split
    next hkind =>
      rw [List.filter_cons_of_pos (by simpa using hkind), List.filterMap_cons]
      split <;> simp_all
    all_goals rw [List.filter_cons_of_neg (by simp_all)]

/-- The record of a class has the name that is written, and its methods are those in its body. -/
lemma ofPlace?_spec (s : Scope) (p : Place) :
    match ClassContext.ofClass? p.node with
    | none => ofPlace? s p = none
    | some context => ∃ k : ClassDecl, ofPlace? s p = some k ∧ k.name = context.name ∧
        k.methods = (methodPlaces p).filterMap (Routine.ofPlace? s (some context)) := by
  unfold ofPlace? ClassContext.ofClass?
  cases p.node.childText? .name with
  | none => rfl
  | some name =>
    refine ⟨_, rfl, ?_, ?_⟩
    · obtain ⟨_, _, _, hfold⟩ := exists_foldl_withMember_eq s _ _ _
      rw [hfold]
    · rw [methods_foldl_withMember]
      rfl

/-- Each method of a class is the record of a declaration in its body. -/
lemma exists_place_of_mem_methods {p : Place} {k : ClassDecl} (hk : ofPlace? s p = some k)
    {m : Routine} (hm : m ∈ k.methods) :
    ∃ context member, ClassContext.ofClass? p.node = some context ∧
      context.name = k.name ∧ member ∈ methodPlaces p ∧
      Routine.ofPlace? s (some context) member = some m := by
  have hspec := ofPlace?_spec s p
  split at hspec
  next hcontext =>
    rw [hspec] at hk
    cases hk
  next context hcontext =>
    obtain ⟨k', hk', hname, hmethods⟩ := hspec
    obtain rfl : k' = k := Option.some.inj (hk'.symm.trans hk)
    rw [hmethods] at hm
    obtain ⟨member, hmember, hm⟩ := List.mem_filterMap.1 hm
    exact ⟨context, member, hcontext, hname.symm, hmember, hm⟩

end ClassDecl

/-! ## Owners -/

/-- What calls belong to: a function or method, in the context in which it is read, or the file
level. -/
inductive Owner where
  | routine (context : Option ClassContext) (place : Place)
  | fileLevel

namespace Owner

/-- The class in whose body the calls are read. -/
def context : Owner → Option ClassContext
  | routine context _ => context
  | fileLevel => none

/-- The place of the function or method. -/
def place? : Owner → Option Place
  | routine _ place => some place
  | fileLevel => none

variable (root : Node)

/-- The record of an owner. -/
def record? : Owner → Option Routine
  | routine context place => Routine.ofPlace? (Scope.ofTree root) context place
  | fileLevel => Routine.ofFileLevel? (Scope.ofTree root) root

/-- The places of the calls that belong to an owner. -/
def sources : Owner → List Place
  | routine _ place =>
    ((place.part? .body .block).map fun body =>
      body.places.filter fun p => p.kind.isCall && Call.ownedBy place p).getD []
  | fileLevel => (Place.root root).places.filter fun p => p.kind.isCall && Call.atFileLevel p

/-- The calls that an owner keeps, each with its place. -/
def contributions (a : Owner) : List (Place × Call) :=
  Call.attributed (Scope.ofTree root) a.context (a.sources root)

/-- The methods of a class as owners. -/
def ofClass (k : Place) : List Owner :=
  match ClassContext.ofClass? k.node with
  | none => []
  | some context => (methodPlaces k).map (routine (some context))

/-- The owners of a tree: its functions, the file level, and the methods of its classes. -/
def ofTree : List Owner :=
  ((Place.root root).places.filter fun p => p.kind = .functionDefinition).map (routine none)
    ++ fileLevel :: ((Place.root root).places.filter fun p => p.kind.isClassLike).flatMap ofClass

/-! ### Records -/

/-- The records of a file are those of its owners, in their order. -/
theorem routines_ofTree :
    (FileFacts.ofTree root).routines = (ofTree root).filterMap (record? root) := by
  have hclass (k : Place) :
      (ClassDecl.ofPlace? (Scope.ofTree root) k).toList.flatMap ClassDecl.methods =
      (ofClass k).filterMap (record? root) := by
    have hspec := ClassDecl.ofPlace?_spec (Scope.ofTree root) k
    unfold ofClass
    split at hspec
    next => rw [hspec]; rfl
    next context hcontext =>
      obtain ⟨record, hrecord, -, hmethods⟩ := hspec
      rw [hrecord, Option.toList_some, List.flatMap_singleton, hmethods, List.filterMap_map]
      rfl
  have hclasses : (FileFacts.ofTree root).classes.flatMap ClassDecl.methods =
      (((Place.root root).places.filter fun p => p.kind.isClassLike).flatMap ofClass).filterMap
        (record? root) := by
    rw [FileFacts.ofTree, ClassDecl.ofTree, List.filterMap_eq_flatMap_toList, List.flatMap_assoc,
      List.filterMap_flatMap]
    exact congrArg (List.flatMap · _) (funext hclass)
  rw [FileFacts.routines, hclasses, ofTree, List.filterMap_append, List.filterMap_map,
    List.filterMap_cons, FileFacts.ofTree, Routine.ofTree, List.append_assoc]
  refine congrArg (_ ++ ·) ?_
  rw [record?]
  cases Routine.ofFileLevel? (Scope.ofTree root) root <;> rfl

variable {root} {a : Owner}

/-- The calls of a record are those that its owner keeps. -/
lemma calls_of_record? {r : Routine} (h : a.record? root = some r) :
    r.calls = (a.contributions root).map Prod.snd := by
  rw [contributions, Call.map_snd_attributed]
  cases a with
  | routine context place =>
    simp only [record?, Routine.ofPlace?] at h
    obtain ⟨name, -, ⟨⟩⟩ := Option.bind_eq_some_iff.1 h
    simp only [sources]
    cases place.part? .body .block <;> rfl
  | fileLevel =>
    simp only [record?, Routine.ofFileLevel?] at h
    split at h
    · cases h
    · cases h
      rfl

/-! ### Places -/

/-- A routine is an owner if it is a function, or a method in the body of a class with a name. -/
lemma routine_mem_ofTree_iff {context : Option ClassContext} {d : Place} :
    routine context d ∈ ofTree root ↔
      (context = none ∧ d ∈ (Place.root root).places ∧ d.kind = .functionDefinition) ∨
      ∃ k ∈ (Place.root root).places, k.kind.isClassLike = true ∧ context.isSome = true ∧
        ClassContext.ofClass? k.node = context ∧ d ∈ methodPlaces k := by
  have hclass (k : Place) : routine context d ∈ ofClass k ↔ context.isSome = true ∧
      ClassContext.ofClass? k.node = context ∧ d ∈ methodPlaces k := by
    unfold ofClass
    cases hk : ClassContext.ofClass? k.node with
    | none =>
      simp only [List.not_mem_nil, false_iff]
      rintro ⟨hsome, rfl, -⟩
      cases hsome
    | some x =>
      simp only [List.mem_map, routine.injEq]
      constructor
      · rintro ⟨m, hm, rfl, rfl⟩
        exact ⟨rfl, rfl, hm⟩
      · rintro ⟨-, rfl, hm⟩
        exact ⟨d, hm, rfl, rfl⟩
  simp only [ofTree, List.mem_append, List.mem_map, List.mem_filter, decide_eq_true_eq,
    routine.injEq, List.mem_cons, reduceCtorEq, false_or, List.mem_flatMap, hclass]
  constructor
  · rintro (⟨p, ⟨hp, hkind⟩, rfl, rfl⟩ | ⟨k, ⟨hk, hkind⟩, hd⟩)
    · exact .inl ⟨rfl, hp, hkind⟩
    · exact .inr ⟨k, hk, hkind, hd⟩
  · rintro (⟨rfl, hp, hkind⟩ | ⟨k, hk, hkind, hd⟩)
    · exact .inl ⟨d, ⟨hp, hkind⟩, rfl, rfl⟩
    · exact .inr ⟨k, ⟨hk, hkind⟩, hd⟩

/-- A method stands below its class. -/
lemma mem_places_of_mem_methodPlaces {k m : Place} (hm : m ∈ methodPlaces k) : m ∈ k.places := by
  obtain ⟨-, body, hbody, hm⟩ := mem_methodPlaces_iff.1 hm
  refine Place.mem_places_of_mem_children (Place.mem_children_of_part? hbody) ?_
  exact Place.mem_places_of_mem_children hm (Place.self_mem_places m)

/-- The routine of an owner is a place of the tree. -/
lemma mem_places_of_mem_ofTree {context : Option ClassContext} {d : Place}
    (h : routine context d ∈ ofTree root) : d ∈ (Place.root root).places := by
  rcases routine_mem_ofTree_iff.1 h with ⟨-, hd, -⟩ | ⟨k, hk, -, -, -, hd⟩
  · exact hd
  · exact Place.mem_places_trans hk (mem_places_of_mem_methodPlaces hd)

/-- From a method in the body of a class, the way up leads to the class. -/
lemma getElem?_ancestors_of_mem_methodPlaces {k m : Place} (hm : m ∈ methodPlaces k) :
    m.ancestors[1]? = some k := by
  obtain ⟨-, body, hbody, hm⟩ := mem_methodPlaces_iff.1 hm
  rw [Place.ancestors_of_mem_children hm,
    Place.ancestors_of_mem_children (Place.mem_children_of_part? hbody)]
  rfl

/-- A method stands in the body of one class only. -/
lemma eq_of_mem_methodPlaces {k k' m : Place} (hm : m ∈ methodPlaces k)
    (hm' : m ∈ methodPlaces k') : k = k' := by
  have hk := getElem?_ancestors_of_mem_methodPlaces hm
  exact Option.some.inj (hk.symm.trans (getElem?_ancestors_of_mem_methodPlaces hm'))

/-- The places of the methods of a class are different. -/
lemma nodup_methodPlaces (k : Place) : (methodPlaces k).Nodup := by
  unfold methodPlaces
  cases k.part? .body .declarationList with
  | none => exact List.nodup_nil
  | some body => exact (body.nodup_path_children.of_map.filter _).filter _

/-- The owners in a class stand at places of its methods, in their order. -/
lemma map_place?_ofClass_sublist (k : Place) :
    ((ofClass k).map place?).Sublist ((methodPlaces k).map some) := by
  unfold ofClass
  split
  · exact List.nil_sublist _
  · rw [List.map_map]
    exact List.Sublist.refl _

variable (root)

/-- No routine is an owner twice.

**Proof sketch.** The places of a tree are all different, and so are the methods in one body. A
method is no function, and from a method the way up leads to the class in whose body it stands. -/
theorem nodup_place?_ofTree : ((ofTree root).map place?).Nodup := by
  have hsome : Function.Injective (some : Place → Option Place) := fun _ _ => Option.some.inj
  have hfunctions : (((Place.root root).places.filter fun p => p.kind = .functionDefinition).map
      (place? ∘ routine none)).Nodup := ((Place.nodup_places _).filter _).map hsome
  have hmethod {k : Place} {d : Option Place} (hd : d ∈ (ofClass k).map place?) :
      ∃ m ∈ methodPlaces k, some m = d :=
    List.mem_map.1 ((map_place?_ofClass_sublist k).subset hd)
  have hmethods : (((Place.root root).places.filter fun p => p.kind.isClassLike).flatMap
      fun k => (ofClass k).map place?).Nodup := by
    refine List.nodup_flatMap.2 ⟨fun k _ => ?_, ?_⟩
    · exact ((nodup_methodPlaces k).map hsome).sublist (map_place?_ofClass_sublist k)
    · refine ((Place.nodup_places _).filter _).imp fun hne d hd hd' => ?_
      obtain ⟨m, hm, rfl⟩ := hmethod hd
      obtain ⟨m', hm', ⟨⟩⟩ := hmethod hd'
      exact hne (eq_of_mem_methodPlaces hm hm')
  rw [ofTree, List.map_append, List.map_map, List.map_cons, List.map_flatMap, List.nodup_append,
    List.nodup_cons]
  refine ⟨hfunctions, ⟨fun hnone => ?_, hmethods⟩, fun d hd d' hd' => ?_⟩
  · obtain ⟨k, -, hd⟩ := List.mem_flatMap.1 hnone
    obtain ⟨m, -, ⟨⟩⟩ := hmethod hd
  · rintro rfl
    obtain ⟨p, hp, rfl⟩ := List.mem_map.1 hd
    rcases List.mem_cons.1 hd' with hfile | hd'
    · cases hfile
    · obtain ⟨k, -, hd'⟩ := List.mem_flatMap.1 hd'
      obtain ⟨m, hm, hmp⟩ := hmethod hd'
      obtain rfl : m = p := Option.some.inj hmp
      have hfunction : m.kind = .functionDefinition := of_decide_eq_true (List.mem_filter.1 hp).2
      rw [(mem_methodPlaces_iff.1 hm).1] at hfunction
      cases hfunction

variable {root}

/-! ### Sources -/

/-- The place is in the body of a routine. -/
def InBody (d p : Place) : Prop := ∃ body, d.part? .body .block = some body ∧ p ∈ body.places

/-- What is in the body of a routine is one of the places below it. -/
lemma InBody.mem_places {d p : Place} (h : InBody d p) : p ∈ d.places := by
  obtain ⟨body, hbody, hp⟩ := h
  exact Place.mem_places_of_mem_children (Place.mem_children_of_part? hbody) hp

/-- The places that a routine looks at are the calls in its body that it owns. -/
lemma mem_sources_routine_iff {context : Option ClassContext} {d p : Place} :
    p ∈ (routine context d).sources root ↔
      p.kind.isCall = true ∧ InBody d p ∧ Call.ownedBy d p = true := by
  cases hbody : d.part? .body .block with
  | none => simp [sources, InBody, hbody]
  | some body =>
    simp only [sources, InBody, hbody, Option.map_some, Option.getD_some, List.mem_filter,
      Bool.and_eq_true, Option.some.injEq, exists_eq_left']
    tauto

/-- The places that the file itself looks at are the calls outside of all routines and classes. -/
lemma mem_sources_fileLevel_iff {p : Place} : p ∈ fileLevel.sources root ↔
    p ∈ (Place.root root).places ∧ p.kind.isCall = true ∧
      p.enclosing? Kind.isRoutine = none ∧ p.enclosing? Kind.isClassLike = none := by
  simp only [sources, List.mem_filter, Bool.and_eq_true, Call.atFileLevel, Bool.not_eq_true',
    Place.enclosing?_eq_none_iff]

/-- In a tree, a routine owns what it is the nearest routine around. -/
lemma ownedBy_iff {d p : Place}
    (hd : d ∈ (Place.root root).places) (hp : p ∈ (Place.root root).places) :
    Call.ownedBy d p = true ↔ p.enclosing? Kind.isRoutine = some d := by
  rw [Call.ownedBy, Option.any_eq_true]
  constructor
  · rintro ⟨d', hd', hsame⟩
    obtain ⟨hmem, -, -⟩ := Place.of_enclosing? hp hd'
    rwa [← Place.eq_of_path_eq hmem hd (by simpa [Place.same] using hsame)]
  · exact fun h => ⟨d, h, by simp [Place.same]⟩

/-- Where the calls stand that belong to an owner: in its body, and in no routine within it; at the
file level, in no routine and in no class. -/
def Keeps (root : Node) : Owner → Place → Prop
  | routine _ d, p => InBody d p ∧ p.enclosing? Kind.isRoutine = some d
  | fileLevel, p => p ∈ (Place.root root).places ∧ p.enclosing? Kind.isRoutine = none ∧
      p.enclosing? Kind.isClassLike = none

/-- The places that an owner looks at are the calls that it keeps. -/
lemma mem_sources_iff (ha : a ∈ ofTree root) {p : Place} :
    p ∈ a.sources root ↔ p.kind.isCall = true ∧ a.Keeps root p := by
  cases a with
  | routine context d =>
    have hd := mem_places_of_mem_ofTree ha
    rw [mem_sources_routine_iff]
    refine and_congr_right fun _ => and_congr_right fun hbody => ?_
    exact ownedBy_iff hd (Place.mem_places_trans hd hbody.mem_places)
  | fileLevel => exact mem_sources_fileLevel_iff.trans and_left_comm

/-- The nearest routine around a source is its owner. -/
lemma enclosing?_of_mem_sources (ha : a ∈ ofTree root) {p : Place} (hp : p ∈ a.sources root) :
    p.enclosing? Kind.isRoutine = a.place? := by
  have hkeeps := ((mem_sources_iff ha).1 hp).2
  cases a with
  | routine context d => exact hkeeps.2
  | fileLevel => exact hkeeps.2.1

/-- The sources of an owner are in the order of the page. -/
lemma nodup_sources (a : Owner) : (a.sources root).Nodup := by
  cases a with
  | routine context d =>
    rw [sources]
    cases d.part? .body .block with
    | none => exact List.nodup_nil
    | some body => exact (Place.nodup_places body).filter _
  | fileLevel => exact (Place.nodup_places _).filter _

/-- The places that an owner looks at are in the order of their lines. -/
lemma pairwise_startLine_sources (hroot : root.InOrder) (ha : a ∈ ofTree root) :
    (a.sources root).Pairwise fun p q => p.startLine ≤ q.startLine := by
  cases a with
  | routine context d =>
    rw [sources]
    cases hbody : d.part? .body .block with
    | none => exact .nil
    | some body =>
      have hd : d.Within Node.InOrder :=
        (Place.within_root hroot).of_mem_places (mem_places_of_mem_ofTree ha)
      exact (Place.pairwise_startLine_places (hd.of_part? hbody).node).filter _
  | fileLevel =>
    have hplaces : (Place.root root).places.Pairwise fun p q => p.startLine ≤ q.startLine :=
      Place.pairwise_startLine_places hroot
    exact hplaces.filter _

/-! ### Contributions -/

/-- What an owner contributes are calls of the places it looks at. -/
lemma of_mem_contributions {e : Place × Call} (he : e ∈ a.contributions root) :
    e.1 ∈ a.sources root ∧ Call.ofPlace? (Scope.ofTree root) a.context e.1 = some e.2 :=
  Call.of_mem_attributed he

variable (root) in
/-- A place contributes to one owner at most, and to that one at most once. -/
theorem nodup_contributions :
    ((ofTree root).flatMap fun a => (a.contributions root).map Prod.fst).Nodup := by
  refine List.nodup_flatMap.2 ⟨fun a _ => ?_, ?_⟩
  · exact (nodup_sources a).sublist (Call.map_fst_attributed_sublist _ _ _)
  · have hplaces : (ofTree root).Pairwise fun a b => a.place? ≠ b.place? :=
      List.pairwise_map.1 (nodup_place?_ofTree root)
    refine hplaces.imp_of_mem fun {a b} ha hb hne p hpa hpb => ?_
    have hpa := (Call.map_fst_attributed_sublist _ _ _).subset hpa
    have hpb := (Call.map_fst_attributed_sublist _ _ _).subset hpb
    exact hne ((enclosing?_of_mem_sources ha hpa).symm.trans (enclosing?_of_mem_sources hb hpb))

/-- The calls of a record come, one by one, from calls that belong to its owner, and represent all
of these by name and line; no two have one name and begin on one line; and if the lines of the page
are in order, so are theirs. -/
structure Accounts (root : Node) (a : Owner) (r : Routine) : Prop where
  calls_eq : r.calls = (a.contributions root).map Prod.snd
  built : ∀ e ∈ a.contributions root, e.1.kind.isCall = true ∧ a.Keeps root e.1 ∧
    Call.ofPlace? (Scope.ofTree root) a.context e.1 = some e.2
  kept : ∀ p, p.kind.isCall = true → a.Keeps root p →
    ∀ c, Call.ofPlace? (Scope.ofTree root) a.context p = some c →
      ∃ d ∈ r.calls, d.name = c.name ∧ d.startLine = c.startLine
  distinct : (r.calls.map fun c => (c.name, c.startLine)).Nodup
  ascending : root.InOrder → r.calls.Pairwise fun c d => c.startLine ≤ d.startLine

/-- The record of an owner holds what the owner contributes, call by call. -/
lemma accounts_of_record? (ha : a ∈ ofTree root) {r : Routine} (hr : a.record? root = some r) :
    a.Accounts root r where
  calls_eq := calls_of_record? hr
  built e he := by
    obtain ⟨hsource, hbuilt⟩ := of_mem_contributions he
    obtain ⟨hcall, hkeeps⟩ := (mem_sources_iff ha).1 hsource
    exact ⟨hcall, hkeeps, hbuilt⟩
  kept p hcall hkeeps c hc := by
    obtain ⟨d, hd, hspot⟩ := Call.exists_spot_eq ((mem_sources_iff ha).2 ⟨hcall, hkeeps⟩) hc
    rw [calls_of_record? hr, contributions, Call.map_snd_attributed]
    exact ⟨d, hd, congrArg Prod.fst hspot, congrArg Prod.snd hspot⟩
  distinct := by
    rw [calls_of_record? hr, contributions, Call.map_snd_attributed]
    exact Call.nodup_spot_ofPlaces
  ascending hroot := by
    have hplaces : ((a.contributions root).map Prod.fst).Pairwise fun p q =>
        p.startLine ≤ q.startLine :=
      (pairwise_startLine_sources hroot ha).sublist (Call.map_fst_attributed_sublist _ _ _)
    rw [calls_of_record? hr, List.pairwise_map]
    refine (List.pairwise_map.1 hplaces).imp_of_mem fun {e f} he hf hlines => ?_
    rwa [Call.startLine_of_ofPlace? (of_mem_contributions he).2,
      Call.startLine_of_ofPlace? (of_mem_contributions hf).2]

/-- A page on which a function has calls of its own, one of them in a closure, and another function
in its body. -/
def nestedTree : Node := Node.ofSource
  "<?php\nfunction f() \x7b\n  g();\n  function n() \x7b i(); \x7d\n  $c = fn() => h();\n\x7d\n"

end Owner

/-- **Calls stay with their declaration, and none is counted twice.** The records of the functions,
the file level and the methods of a tree are those of its owners. Over all owners together, no place
contributes two calls. The calls of each record come one by one from the places that contribute to
its owner: for a function or method these are calls in its body that have it for the nearest
function or method around them, and for the file level calls that are in no function, no method and
no class; and each such call is represented in the record by its name and line. Within a record no
two calls have one name and begin on one line, and their lines never go back where those of the tree
are in order. -/
theorem calls_attributed (root : Node) :
    (FileFacts.ofTree root).routines = (Owner.ofTree root).filterMap (Owner.record? root) ∧
    ((Owner.ofTree root).flatMap fun a => (a.contributions root).map Prod.fst).Nodup ∧
    ∀ a ∈ Owner.ofTree root, ∀ r, a.record? root = some r → a.Accounts root r :=
  ⟨Owner.routines_ofTree root, Owner.nodup_contributions root,
    fun _ ha _ hr => Owner.accounts_of_record? ha hr⟩

open Owner in
/-- The call in a closure stays with the function around it; that of the function in its body does
not. -/
theorem calls_attributed_nested :
    ∃ a ∈ ofTree nestedTree, ∃ r, a.record? nestedTree = some r ∧ a.Accounts nestedTree r ∧
      r.name = "f" ∧ r.calls.map (fun c => (c.name, c.startLine)) = [("g", 3), ("h", 5)] ∧
      r.calls.Pairwise fun c d => c.startLine ≤ d.startLine := by
  have hrecord : ∃ r ∈ (FileFacts.ofTree nestedTree).routines, r.name = "f" ∧
      r.calls.map (fun c => (c.name, c.startLine)) = [("g", 3), ("h", 5)] := by
    decide +kernel
  obtain ⟨hroutines, -, haccounts⟩ := calls_attributed nestedTree
  obtain ⟨r, hr, hname, hcalls⟩ := hrecord
  obtain ⟨a, ha, hr⟩ := List.mem_filterMap.1 (hroutines ▸ hr)
  have hrecord := haccounts a ha r hr
  exact ⟨a, ha, r, hr, hrecord, hname, hcalls, hrecord.ascending (Node.inOrder_ofSource _)⟩

end PhpCalls
