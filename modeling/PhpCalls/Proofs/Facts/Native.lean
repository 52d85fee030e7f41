import PhpCalls.Proofs.Facts.Owners

set_option autoImplicit false

/-!
# What the marks of a call mean

A call is marked as native when its callee is declared in the file of the call, and it has a sort,
by which it is looked up later. Four shapes of calls come to both in their own ways: through a
function name, a variable with a known class, the class around the call, or a class name. Here it is
shown that all of them agree on what the marks mean in terms of the records of the same file,
whatever the syntax tree.

## Main definitions

* `Call.Marked`: the mark and the sort of a call, in terms of the classes and functions of its file.
* `FileFacts.HasClass`, `FileFacts.HasFunction`: a file has a record of a class or function of a
  name.

## Main results

* `CallKind.guess_function`, `CallKind.guess_method`: the sorts of the calls of functions and of
  methods.
* `Call.marked_ofPlace?`: the call at a place is well marked.
* `FileFacts.exists_class_of_isNative`: a native call of a method or constructor names a record of
  its file.
* `calls_marked`: every call of a file is well marked.
-/

namespace PhpCalls

open Syntax

/-! ## Sorts of calls -/

namespace CallKind

/-- The sorts of the calls of functions. -/
lemma guess_function (name : String) (isNative : Bool) :
    guess name isNative false = .dynamic ∨ guess name isNative false = .general ∨
      guess name isNative false = .builtin ∧ isNative = false ∧ Builtin.isFunction name = true := by
  unfold guess
  split
  · exact .inl rfl
  · simp only [Bool.false_eq_true, if_false]
    split
    next h =>
      obtain ⟨hn, hf⟩ := Bool.and_eq_true_iff.1 h
      exact .inr (.inr ⟨rfl, by simpa using hn, hf⟩)
    next => exact .inr (.inl rfl)

/-- The sorts of the calls of methods. -/
lemma guess_method (name : String) (isNative : Bool) :
    guess name isNative true = .dynamic ∨ guess name isNative true = .construct ∨
      guess name isNative true = .classMethod ∨
      guess name isNative true = .magic ∧ isNative = true ∨
      guess name isNative true = .builtin ∧ isNative = false ∧ Builtin.isMagic name = true := by
  unfold guess
  split
  · exact .inl rfl
  · rw [if_pos rfl]
    split
    · exact .inr (.inl rfl)
    · split
      next hmagic =>
        cases isNative
        · exact .inr (.inr (.inr (.inr ⟨rfl, rfl, hmagic⟩)))
        · exact .inr (.inr (.inr (.inl ⟨rfl, rfl⟩)))
      next => exact .inr (.inr (.inl rfl))

end CallKind

/-! ## Well-marked calls -/

/-- The mark and the sort of a call mean what they are taken for, if `classes` and `functions` are
the names of the classes and functions of its file. -/
structure Call.Marked (classes functions : String → Prop) (c : Call) : Prop where
  /-- A call on an object or a class is native just if its class is declared in the file. -/
  onObject : c.object.isSome = true → (c.isNative = true ↔ ∃ k, c.className = some k ∧ classes k)
  /-- A call of a function is native just if the function is declared in the file. -/
  ofFunction : c.kind = .general ∨ c.kind = .builtin ∧ c.object = none →
    (c.isNative = true ↔ functions c.name)
  /-- What PHP provides is not native; it is a provided function or a hook. -/
  builtin : c.kind = .builtin → c.isNative = false ∧
    (c.object = none → Builtin.isFunction c.name = true) ∧
    (c.object.isSome = true → Builtin.isMagic c.name = true)
  magic : c.kind = .magic → c.isNative = true
  /-- Constructors, hooks and methods are called on something. -/
  classBound : c.kind = .construct ∨ c.kind = .magic ∨ c.kind = .classMethod →
    c.object.isSome = true
  general : c.kind = .general → c.object = none ∧ c.className = none

namespace Call

variable {classes functions : String → Prop} {s : Scope} {context : Option ClassContext} {p : Place}
  {c : Call}

/-- A call of a function by its name. -/
lemma Marked.function {name fullname : String} {isNative : Bool}
    (hnative : isNative = true ↔ functions name) :
    Marked classes functions
      { name, fullname, startLine := 0, endLine := 0, isNative,
        kind := .guess name isNative false } := by
  rcases CallKind.guess_function name isNative with h | h | ⟨h, rfl, hf⟩ <;> rw [h]
  · constructor <;> simp
  · exact ⟨by simp, fun _ => hnative, by simp, by simp, by simp, fun _ => ⟨rfl, rfl⟩⟩
  · exact ⟨by simp, fun _ => hnative, fun _ => ⟨rfl, fun _ => hf, by simp⟩, by simp,
      by simp, by simp⟩

/-- A call of a method on an object or a class. -/
lemma Marked.method {name fullname object : String} {className : Option String} {isNative : Bool}
    {modifiers : List Modifier} (hnative : isNative = true ↔ ∃ k, className = some k ∧ classes k) :
    Marked classes functions
      { name, fullname, startLine := 0, endLine := 0, object := some object, className,
        modifiers, isNative,
        kind := .guess name isNative true } := by
  rcases CallKind.guess_method name isNative with h | h | h | ⟨h, rfl⟩ | ⟨h, rfl, hm⟩ <;> rw [h]
  case inr.inr.inr.inr =>
    exact ⟨fun _ => hnative, by simp, fun _ => ⟨rfl, by simp, fun _ => hm⟩, by simp,
      by simp, by simp⟩
  all_goals exact ⟨fun _ => hnative, by simp, by simp, by simp, fun _ => rfl, by simp⟩

/-- A call of what an expression gives is never native. -/
lemma Marked.dynamic {name fullname : String} {object : Option String} :
    Marked classes functions
      { name, fullname, startLine := 0, endLine := 0, object, kind := .dynamic } := by
  constructor <;> simp

/-- Lines and arguments do not count. -/
lemma Marked.located (h : c.Marked classes functions) (startLine endLine : Nat)
    (arguments : List Param) : Marked classes functions { c with startLine, endLine, arguments } :=
  ⟨h.onObject, h.ofFunction, h.builtin, h.magic, h.classBound, h.general⟩

/-! ### The four shapes -/

/-- A call of a function is well marked. -/
lemma marked_ofFunctionCall? (hfunctions : ∀ n, s.declaresFunction n = true ↔ functions n)
    (h : ofFunctionCall? s p = some c) : c.Marked classes functions := by
  unfold ofFunctionCall? at h
  obtain ⟨function, -, h⟩ := Option.bind_eq_some_iff.1 h
  split at h <;> obtain rfl := Option.some.inj h
  · exact .function (hfunctions _)
  · exact .dynamic

/-- Of a class and whether the file declares it, the second says so. -/
def Tells (classes : String → Prop) (origin : Option String × Bool) : Prop :=
  origin.2 = true ↔ ∃ k, origin.1 = some k ∧ classes k

/-- The class around a call counts as declared, and it is. -/
lemma tells_ownClass (hcontext : ∀ x ∈ context, classes x.name) :
    Tells classes (ownClass context) := by
  cases context with
  | none => simp [Tells, ownClass]
  | some x => simpa [Tells, ownClass] using hcontext x rfl

section Classes

variable (hclasses : ∀ n, s.declaresClass n = true ↔ classes n)

include hclasses

/-- A class counts as declared just if the file declares it. -/
lemma tells_withOrigin (className : Option String) : Tells classes (withOrigin s className) := by
  rw [Tells, withOrigin, Option.any_eq_true]
  exact exists_congr fun k => and_congr_right fun _ => hclasses k

/-- The call that a creation makes is well marked. -/
lemma marked_ofCreation? (h : ofCreation? s context p = some c) : c.Marked classes functions := by
  unfold ofCreation? at h
  obtain ⟨designator, -, h⟩ := Option.bind_eq_some_iff.1 h
  split at h
  · obtain ⟨className, -, h⟩ := Option.bind_eq_some_iff.1 h
    obtain rfl := Option.some.inj h
    refine .method ((hclasses className).trans ?_)
    simp
  · obtain rfl := Option.some.inj h
    exact .dynamic

variable (hcontext : ∀ x ∈ context, classes x.name)

include hcontext

/-- A call on an object is well marked. -/
lemma marked_ofMemberCall? (h : ofMemberCall? s context p = some c) :
    c.Marked classes functions := by
  unfold ofMemberCall? at h
  obtain ⟨object, -, h⟩ := Option.bind_eq_some_iff.1 h
  obtain ⟨name, -, h⟩ := Option.bind_eq_some_iff.1 h
  split at h
  next className isNative horigin =>
    have htells : Tells classes (className, isNative) := by
      rw [← horigin]
      split
      · exact tells_ownClass hcontext
      · exact tells_withOrigin hclasses _
    obtain rfl := Option.some.inj h
    exact .method htells

/-- A call on a class is well marked. -/
lemma marked_ofScopedCall? (h : ofScopedCall? s context p = some c) :
    c.Marked classes functions := by
  unfold ofScopedCall? at h
  obtain ⟨scope, -, h⟩ := Option.bind_eq_some_iff.1 h
  obtain ⟨name, -, h⟩ := Option.bind_eq_some_iff.1 h
  split at h
  next className isNative horigin =>
    have htells : Tells classes (className, isNative) := by
      rw [← horigin]
      split
      · exact tells_ownClass hcontext
      · exact tells_ownClass hcontext
      · exact tells_withOrigin hclasses _
      · split <;> exact tells_withOrigin hclasses _
    obtain rfl := Option.some.inj h
    exact .method htells

/-- The call at a place is well marked, if the scope knows the classes and functions, and the class
around the place is one of them. -/
theorem marked_ofPlace? (hfunctions : ∀ n, s.declaresFunction n = true ↔ functions n)
    (h : ofPlace? s context p = some c) : c.Marked classes functions := by
  simp only [ofPlace?] at h
  split at h <;> obtain ⟨call, hcall, h⟩ := Option.bind_eq_some_iff.1 h <;>
    obtain rfl := Option.some.inj h <;> refine Marked.located ?_ _ _ _
  · exact marked_ofFunctionCall? hfunctions hcall
  · exact marked_ofMemberCall? hclasses hcontext hcall
  · exact marked_ofMemberCall? hclasses hcontext hcall
  · exact marked_ofScopedCall? hclasses hcontext hcall
  · exact marked_ofCreation? hclasses hcall
  · cases hcall

end Classes

end Call

/-! ## Files -/

namespace FileFacts

variable {root : Node}

/-- There is a record of a class of the name. -/
def HasClass (f : FileFacts) (name : String) : Prop := ∃ k ∈ f.classes, k.name = name

/-- There is a record of a function of the name among the facts of a tree: the file level, which has
a name too, is none. -/
def HasFunction (root : Node) (name : String) : Prop :=
  ∃ d ∈ (Place.root root).places, d.kind = .functionDefinition ∧
    ∃ f ∈ (ofTree root).methods, Routine.ofPlace? (Scope.ofTree root) none d = some f ∧
      f.name = name

/-- The class names that count as declared in a file are the names of its class records. -/
lemma declaresClass_iff (name : String) :
    (Scope.ofTree root).declaresClass name = true ↔ (ofTree root).HasClass name := by
  have hname (p : Place) : p.node.childText? .name = some name ↔
      ∃ k, ClassDecl.ofPlace? (Scope.ofTree root) p = some k ∧ k.name = name := by
    have hspec := ClassDecl.ofPlace?_spec (Scope.ofTree root) p
    rw [ClassContext.ofClass?] at hspec
    cases htext : p.node.childText? .name with
    | none =>
      rw [htext] at hspec
      simp [show ClassDecl.ofPlace? (Scope.ofTree root) p = none from hspec]
    | some written =>
      rw [htext] at hspec
      obtain ⟨k, hk, hkname, -⟩ := hspec
      simp [hk, hkname]
  simp only [Scope.declaresClass, Scope.ofTree, List.contains_iff_mem, Scope.declaredNames,
    List.mem_filterMap, hname, HasClass, ofTree, ClassDecl.ofTree]
  constructor
  · rintro ⟨p, hp, k, hk, rfl⟩
    exact ⟨k, ⟨p, hp, hk⟩, rfl⟩
  · rintro ⟨k, ⟨p, hp, hk⟩, rfl⟩
    exact ⟨p, hp, k, hk, rfl⟩

/-- The function names that count as declared in a file are the names of its function records. -/
lemma declaresFunction_iff (name : String) :
    (Scope.ofTree root).declaresFunction name = true ↔ HasFunction root name := by
  have hname (p : Place) : p.node.childText? .name = some name ↔
      ∃ f, Routine.ofPlace? (Scope.ofTree root) none p = some f ∧ f.name = name := by
    unfold Routine.ofPlace?
    cases p.node.childText? .name <;> simp
  have hrecord {p : Place} {f : Routine} (hp : p ∈ (Place.root root).places)
      (hkind : p.kind = .functionDefinition)
      (hf : Routine.ofPlace? (Scope.ofTree root) none p = some f) : f ∈ (ofTree root).methods := by
    refine List.mem_append_left _ (List.mem_filterMap.2 ⟨p, List.mem_filter.2 ⟨hp, ?_⟩, hf⟩)
    simpa using hkind
  simp only [Scope.declaresFunction, Scope.ofTree, List.contains_iff_mem, Scope.declaredNames,
    List.mem_filterMap, List.mem_filter, decide_eq_true_eq, hname, HasFunction]
  constructor
  · rintro ⟨p, ⟨hp, hkind⟩, f, hf, hname⟩
    exact ⟨p, hp, hkind, f, hrecord hp hkind hf, hf, hname⟩
  · rintro ⟨p, hp, hkind, f, -, hf, hname⟩
    exact ⟨p, ⟨hp, hkind⟩, f, hf, hname⟩

/-- The class in whose body a method stands has a record. -/
lemma hasClass_of_mem_ofTree {a : Owner} (ha : a ∈ Owner.ofTree root) :
    ∀ x ∈ a.context, (ofTree root).HasClass x.name := by
  intro x hx
  cases a with
  | fileLevel => cases hx
  | routine context d =>
    obtain rfl : context = some x := hx
    rcases Owner.routine_mem_ofTree_iff.1 ha with ⟨hnone, -⟩ | ⟨k, hk, hkind, -, hcontext, -⟩
    · cases hnone
    · have hspec := ClassDecl.ofPlace?_spec (Scope.ofTree root) k
      rw [hcontext] at hspec
      obtain ⟨record, hrecord, hname, -⟩ := hspec
      exact ⟨record, List.mem_filterMap.2 ⟨k, List.mem_filter.2 ⟨hk, hkind⟩, hrecord⟩, hname⟩

/-- The calls that an owner keeps are well marked. -/
lemma marked_of_mem_contributions {a : Owner} (ha : a ∈ Owner.ofTree root) {e : Place × Call}
    (he : e ∈ a.contributions root) : e.2.Marked (ofTree root).HasClass (HasFunction root) :=
  Call.marked_ofPlace? declaresClass_iff (hasClass_of_mem_ofTree ha) declaresFunction_iff
    (Owner.of_mem_contributions he).2

/-- Every call of a routine is kept by an owner. -/
lemma exists_contribution {r : Routine}
    (hr : r ∈ (ofTree root).routines) {c : Call} (hc : c ∈ r.calls) :
    ∃ a ∈ Owner.ofTree root, ∃ e ∈ a.contributions root, e.2 = c := by
  rw [Owner.routines_ofTree] at hr
  obtain ⟨a, ha, hrecord⟩ := List.mem_filterMap.1 hr
  rw [Owner.calls_of_record? hrecord] at hc
  exact ⟨a, ha, List.mem_map.1 hc⟩

/-- A native call of a method or constructor has a class name, and it is the name of a class record
of the same file. -/
theorem exists_class_of_isNative {r : Routine} (hr : r ∈ (ofTree root).routines) {c : Call}
    (hc : c ∈ r.calls) (hn : c.isNative = true) (hb : c.kind.isClassBound = true) :
    ∃ k ∈ (ofTree root).classes, c.className = some k.name := by
  obtain ⟨a, ha, e, he, rfl⟩ := exists_contribution hr hc
  have hmarked := marked_of_mem_contributions ha he
  have hobject : e.2.object.isSome = true := hmarked.classBound (by
    cases hkind : e.2.kind <;> simp_all [CallKind.isClassBound])
  obtain ⟨name, hname, k, hk, rfl⟩ := (hmarked.onObject hobject).1 hn
  exact ⟨k, hk, hname⟩

end FileFacts

/-- **The marks of a call mean what resolution takes them for.** In the facts of any syntax tree, a
call on an object or a class is native just if its class name is that of a class record of these
facts, and a call of a function just if there is a record of a function of its name. What PHP
provides is not native, and is a provided function or a hook; a hook that is not provided is native;
constructors, hooks and methods are called on something, and functions are not. -/
theorem calls_marked (root : Node) {r : Routine}
    (hr : r ∈ (FileFacts.ofTree root).routines) {c : Call} (hc : c ∈ r.calls) :
    c.Marked (FileFacts.ofTree root).HasClass (FileFacts.HasFunction root) := by
  obtain ⟨a, ha, e, he, rfl⟩ := FileFacts.exists_contribution hr hc
  exact FileFacts.marked_of_mem_contributions ha he

/-- A method calls another on its own object, in a file that declares its class. -/
theorem calls_marked_ownClass :
    let root := Node.ofSource "<?php\nclass A { function m() { $this->n(); } }\n"
    ∃ r ∈ (FileFacts.ofTree root).routines, ∃ c ∈ r.calls, c.name = "n" ∧ c.isNative = true ∧
      c.Marked (FileFacts.ofTree root).HasClass (FileFacts.HasFunction root) := by
  intro root
  have hcall : ∃ r ∈ (FileFacts.ofTree root).routines, ∃ c ∈ r.calls,
      c.name = "n" ∧ c.isNative = true := by decide +kernel
  obtain ⟨r, hr, c, hc, hname, hnative⟩ := hcall
  exact ⟨r, hr, c, hc, hname, hnative, calls_marked root hr hc⟩

end PhpCalls
