import PhpCalls.Proofs.Facts.Names
import PhpCalls.Proofs.Text

set_option autoImplicit false

/-!
# Names of constructors

The constructor may be spelled in any letter case. A call keeps its spelling, in its name and behind
the owner in its full name, while the full name of a declared constructor has one spelling. Full
names can be taken apart, as names have neither colons nor arrows; so a call of the constructor
shares its full name with a method only if the method is a constructor and the call has the spelling
of full names.

## Main definitions

* `joints`: the marks that join a method to its class.
* `Call.spelled`: a call with another spelling of the constructor.
* `Call.SpellsConstructor`: the form of a call of the constructor.

## Main results

* `joined_inj`: a full name can be taken apart.
* `methodFullname_eq_iff`: the full names that calls of the constructor share with methods.
* `FileFacts.fullname_of_mem_methods`: the full names of the methods of a file.
* `Call.spellsConstructor_of_ofPlace?`: the calls of the constructor have this form.
-/

namespace PhpCalls

open Syntax

/-! ## Full names -/

/-- The marks that join a method to its class. -/
def joints : List String := ["::", "->"]

/-- A text without the characters that end the joints. -/
def Unjoined (s : String) : Prop := ':' ∉ s.toList ∧ '>' ∉ s.toList

/-- A full name can be taken apart. -/
lemma joined_inj {owner owner' joint joint' name name' : String} (hj : joint ∈ joints)
    (hj' : joint' ∈ joints) (hn : Unjoined name) (hn' : Unjoined name') :
    owner ++ joint ++ name = owner' ++ joint' ++ name' ↔
      owner = owner' ∧ joint = joint' ∧ name = name' := by
  have hends {joint : String} (hj : joint ∈ joints) :
      ∃ a b, joint.toList = [a, b] ∧ ∀ name, Unjoined name → b ∉ name.toList := by
    rcases List.mem_pair.1 hj with rfl | rfl
    · exact ⟨':', ':', rfl, fun _ h => h.1⟩
    · exact ⟨'-', '>', rfl, fun _ h => h.2⟩
  refine ⟨fun h => ?_, by rintro ⟨rfl, rfl, rfl⟩; rfl⟩
  obtain ⟨a, b, hab, hb⟩ := hends hj
  obtain ⟨a', b', hab', hb'⟩ := hends hj'
  have hlist : (owner.toList ++ [a]) ++ b :: name.toList =
      (owner'.toList ++ [a']) ++ b' :: name'.toList := by
    simpa [hab, hab'] using congrArg String.toList h
  obtain ⟨hbefore, rfl, hname⟩ := Text.eq_of_append_cons (hb' _ hn) (hb _ hn') hlist
  obtain ⟨howner, ha⟩ := List.append_inj' hbefore rfl
  refine ⟨String.toList_inj.1 howner, String.toList_inj.1 ?_, String.toList_inj.1 hname⟩
  rw [hab, hab', List.singleton_inj.1 ha]

/-- The name of a constructor cannot be taken for a part of a joint. -/
lemma unjoined_of_isConstructor {name : String} (h : Builtin.isConstructor name = true) :
    Unjoined name := by
  rw [Builtin.isConstructor_eq_decide, decide_eq_true_iff] at h
  have hlist := congrArg String.toList h
  rw [Text.foldCase, String.toList_ofList] at hlist
  have hlack (c : Char) (hc : c.toLower ∉ Builtin.constructor.toList) : c ∉ name.toList :=
    fun hmem => hc (hlist ▸ List.mem_map_of_mem hmem)
  exact ⟨hlack ':' (by decide), hlack '>' (by decide)⟩

/-- A name has none of the marks that end the joints. -/
lemma unjoined_of_isName {name : String} (h : Lexeme.IsName name.toList) : Unjoined name :=
  ⟨fun hmem => absurd (h.isNameChar _ hmem) (by decide),
    fun hmem => absurd (h.isNameChar _ hmem) (by decide)⟩

/-- Calls of constructors share their full name with constructors only, and only if they spell them
in the one way of full names. -/
lemma methodFullname_eq_iff {owner joint spelling className name : String} {isStatic : Bool}
    (hj : joint ∈ joints) (hspelling : Builtin.isConstructor spelling = true)
    (hname : Lexeme.IsName name.toList) :
    methodFullname className name isStatic = owner ++ joint ++ spelling ↔
      className = owner ∧ Builtin.isConstructor name = true ∧ joint = "::" ∧
        spelling = Builtin.constructor := by
  have hunjoined := unjoined_of_isConstructor hspelling
  have hconstructor : Unjoined Builtin.constructor := ⟨by decide, by decide⟩
  have hne (h : ¬ Builtin.isConstructor name = true) : name ≠ spelling := fun e => h (e ▸ hspelling)
  unfold methodFullname
  split
  case isTrue hcon =>
    rw [joined_inj (by simp [joints]) hj hconstructor hunjoined]
    exact ⟨fun ⟨howner, hjoint, hsame⟩ => ⟨howner, hcon, hjoint.symm, hsame.symm⟩,
      fun ⟨howner, _, hjoint, hsame⟩ => ⟨howner, hjoint.symm, hsame.symm⟩⟩
  case isFalse hcon =>
    have hnot (mark : String) (hmark : mark ∈ joints) :
        className ++ mark ++ name ≠ owner ++ joint ++ spelling := by
      rw [ne_eq, joined_inj hmark hj (unjoined_of_isName hname) hunjoined]
      exact fun h => hne hcon h.2.2
    split
    · simp [hnot "::" (by simp [joints]), hcon]
    · simp [hnot "->" (by simp [joints]), hcon]

/-- A method has the full name that its class, its name and its modifiers make. -/
lemma ClassDecl.fullname_of_mem_methods {s : Scope} {p : Place} {k : ClassDecl}
    (h : ofPlace? s p = some k) {m : Routine} (hm : m ∈ k.methods) :
    m.fullname = methodFullname k.name m.name m.isStatic := by
  obtain ⟨context, member, -, hcontext, -, hm⟩ := exists_place_of_mem_methods h hm
  unfold Routine.ofPlace? at hm
  obtain ⟨name, -, ⟨⟩⟩ := Option.bind_eq_some_iff.mp hm
  rw [← hcontext]
  rfl

/-- The methods of the classes of a file have the full names that their classes make. -/
lemma FileFacts.fullname_of_mem_methods {root : Node} {k : ClassDecl}
    (hk : k ∈ (ofTree root).classes) {m : Routine} (hm : m ∈ k.methods) :
    m.fullname = methodFullname k.name m.name m.isStatic := by
  obtain ⟨p, -, hk⟩ := List.mem_filterMap.mp hk
  exact ClassDecl.fullname_of_mem_methods hk hm

/-! ## Calls of the constructor -/

namespace Call

/-- A call with another spelling of the constructor behind its owner. -/
def spelled (owner joint name : String) (c : Call) : Call :=
  { c with name, fullname := owner ++ joint ++ name }

/-- The call names the constructor, in some spelling, and its full name joins this spelling to an
owner. -/
def SpellsConstructor (c : Call) : Prop :=
  Builtin.isConstructor c.name = true ∧
  ∃ owner, ∃ joint ∈ joints, c.fullname = owner ++ joint ++ c.name

/-- Only the name of a constructor is guessed to be one. -/
lemma isConstructor_of_guess {name : String} {isNative isMethod : Bool}
    (h : CallKind.guess name isNative isMethod = .construct) :
    Builtin.isConstructor name = true := by
  unfold CallKind.guess at h
  split at h
  · cases h
  · split at h
    · split at h
      next hcon => exact hcon
      next =>
        split at h
        · cases isNative <;> cases h
        · cases h
    · split at h <;> cases h

variable {s : Scope} {context : Option ClassContext} {p : Place} {c : Call}

/-- A call of a function is never the call of a constructor. -/
lemma kind_ne_construct_of_ofFunctionCall? (h : ofFunctionCall? s p = some c) :
    c.kind ≠ .construct := by
  unfold ofFunctionCall? at h
  obtain ⟨function, -, h⟩ := Option.bind_eq_some_iff.1 h
  have hguess (name : String) (isNative : Bool) : CallKind.guess name isNative false ≠
      .construct := by
    rcases CallKind.guess_function name isNative with hkind | hkind | ⟨hkind, -⟩ <;> simp [hkind]
  split at h <;> obtain rfl := Option.some.inj h
  · dsimp only
    exact hguess _ _
  · simp

/-- A constructor that is called on an object is spelled as such. -/
lemma spellsConstructor_of_ofMemberCall? (h : ofMemberCall? s context p = some c)
    (hc : c.kind = .construct) : c.SpellsConstructor := by
  unfold ofMemberCall? at h
  obtain ⟨object, -, h⟩ := Option.bind_eq_some_iff.1 h
  obtain ⟨name, -, h⟩ := Option.bind_eq_some_iff.1 h
  split at h
  obtain rfl := Option.some.inj h
  exact ⟨isConstructor_of_guess hc, object, "->", by simp [joints], rfl⟩

/-- A constructor that is called on a class is spelled as such. -/
lemma spellsConstructor_of_ofScopedCall? (h : ofScopedCall? s context p = some c)
    (hc : c.kind = .construct) : c.SpellsConstructor := by
  unfold ofScopedCall? at h
  obtain ⟨scope, -, h⟩ := Option.bind_eq_some_iff.1 h
  obtain ⟨name, -, h⟩ := Option.bind_eq_some_iff.1 h
  split at h
  next className isNative _ =>
    obtain rfl := Option.some.inj h
    exact ⟨isConstructor_of_guess hc, className.getD scope, "::", by simp [joints], rfl⟩

/-- The call that a creation makes is spelled as a constructor. -/
lemma spellsConstructor_of_ofCreation? (h : ofCreation? s context p = some c)
    (hc : c.kind = .construct) : c.SpellsConstructor := by
  unfold ofCreation? at h
  obtain ⟨designator, -, h⟩ := Option.bind_eq_some_iff.1 h
  split at h
  · obtain ⟨className, -, h⟩ := Option.bind_eq_some_iff.1 h
    obtain rfl := Option.some.inj h
    have hname : Builtin.isConstructor Builtin.constructor = true := by decide
    exact ⟨hname, className, "::", by simp [joints], rfl⟩
  · obtain rfl := Option.some.inj h
    cases hc

/-- A call of the constructor spells it. -/
lemma spellsConstructor_of_ofPlace? (h : ofPlace? s context p = some c) (hc : c.kind = .construct) :
    c.SpellsConstructor := by
  simp only [ofPlace?] at h
  -- lines and arguments do not count
  split at h <;> obtain ⟨call, hcall, h⟩ := Option.bind_eq_some_iff.1 h <;>
    obtain rfl := Option.some.inj h <;> change call.kind = .construct at hc <;>
    change call.SpellsConstructor
  · exact absurd hc (kind_ne_construct_of_ofFunctionCall? hcall)
  · exact spellsConstructor_of_ofMemberCall? hcall hc
  · exact spellsConstructor_of_ofMemberCall? hcall hc
  · exact spellsConstructor_of_ofScopedCall? hcall hc
  · exact spellsConstructor_of_ofCreation? hcall hc
  · cases hcall

end Call

end PhpCalls
