import PhpCalls.Facts.File
import PhpCalls.Proofs.Facts.Bindings
import PhpCalls.Proofs.List
import PhpCalls.Proofs.Record.RoundTrip
import PhpCalls.Proofs.Syntax.Page
import PhpCalls.Proofs.Syntax.Places
import PhpCalls.Text.Utf8

set_option autoImplicit false

/-!
# The numbers in the facts of a file

All numbers in the facts of a file come from its syntax tree: they are lines of nodes, or count the
parts of a node. So the facts of a page that is not too long are in the range in which they can be
written and read back.

## Main definitions

* `Place.InRange`: the node at a place and the nodes above it are in range.

## Main results

* `FileFacts.inRange_ofTree`: the facts of a tree in range are in range.
* `FileFacts.inRange_ofSource`: so are the facts of a page that is not too long.
-/

namespace PhpCalls

namespace Syntax.Place

/-! ## Places -/

instance hereditary_inRange : Node.Hereditary Node.InRange := ⟨Node.InRange.of_mem_children⟩

/-- The node at the place and the nodes above it are in range. -/
abbrev InRange (p : Place) : Prop := p.Within Node.InRange

end Syntax.Place

open Syntax

/-! ## Namespaces, bindings and variables -/

/-- Extents are in range if their definitions and the end of the file are. -/
lemma NamespaceExtent.inRange_of_mem_ofDefinitions {fileEnd : Nat}
    (hend : fileEnd < Decoder.natBound) {ds : List Node} (hds : ∀ d ∈ ds, d.InRange) :
    ∀ n ∈ ofDefinitions fileEnd ds, n.InRange := by
  induction ds with
  | nil => exact fun n hn => by cases hn
  | cons d ds ih =>
    obtain ⟨hd, hds⟩ := List.forall_mem_cons.mp hds
    refine List.forall_mem_cons.mpr ⟨⟨hd.startLine, ?_⟩, ih hds⟩
    dsimp only
    split
    · exact hd.endLine
    · split
      next _ next rest _ =>
        have hnext : next.startLine < Decoder.natBound := (hds next List.mem_cons_self).startLine
        exact max_lt ((Nat.sub_le _ _).trans_lt hnext) hd.startLine
      next => exact max_lt hend hd.startLine

namespace Binding

variable {fileEnd : Nat} {p : Place} {b : Binding}

/-- A binding is in range if its place and the end of the file are. -/
lemma inRange_of_ofPlace? (hend : fileEnd < Decoder.natBound) (hp : p.InRange)
    (h : ofPlace? fileEnd p = some b) : b.InRange := by
  obtain ⟨hstart, hlast⟩ := lines_of_ofPlace? h
  constructor
  · rcases hstart with hstart | ⟨scope, hscope, hstart⟩
    · exact hstart ▸ hp.node.startLine
    · exact hstart ▸ (hp.of_enclosing? hscope).node.startLine
  · rw [hlast]
    cases hscope : p.enclosing? Kind.isFunctionScope with
    | none => exact hend
    | some scope => exact (hp.of_enclosing? hscope).node.endLine

end Binding

namespace Variable

variable {p : Place} {v : Variable}

/-- The record of a variable is in range if its place is. -/
lemma inRange_of_record? {kind : VariableKind} {name : String} {value : Option String}
    (hp : p.InRange) (h : record? kind p name value = some v) : v.InRange := by
  unfold record? at h
  split at h <;>
    (obtain ⟨scope, -, ⟨⟩⟩ := Option.bind_eq_some_iff.mp h
     exact ⟨hp.node.startLine, hp.node.endLine⟩)

/-- The record of a superglobal is in range if its place is. -/
lemma inRange_of_ofSuperGlobal? (hp : p.InRange) (h : ofSuperGlobal? p = some v) : v.InRange := by
  unfold ofSuperGlobal? at h
  obtain ⟨-, -, h⟩ := Option.bind_eq_some_iff.mp h
  obtain ⟨subscript, hsubscript, h⟩ := Option.bind_eq_some_iff.mp h
  obtain ⟨-, -, h⟩ := Option.bind_eq_some_iff.mp h
  exact inRange_of_record? (hp.of_mem_ancestors (List.mem_of_mem_head? hsubscript)) h

/-- The record of a defined constant is in range if its place is. -/
lemma inRange_of_ofDefine? (hp : p.InRange) (h : ofDefine? p = some v) : v.InRange := by
  unfold ofDefine? at h
  obtain ⟨call, -, h⟩ := Option.bind_eq_some_iff.mp h
  obtain ⟨-, -, h⟩ := Option.bind_eq_some_iff.mp h
  obtain ⟨function, -, h⟩ := Option.bind_eq_some_iff.mp h
  obtain ⟨-, -, h⟩ := Option.bind_eq_some_iff.mp h
  obtain ⟨name, -, h⟩ := Option.bind_eq_some_iff.mp h
  exact inRange_of_record? hp h

/-- The record of an assigned variable is in range if its place is. -/
lemma inRange_of_ofAssignment? (hp : p.InRange) (h : ofAssignment? p = some v) : v.InRange := by
  unfold ofAssignment? at h
  obtain ⟨assignment, hassignment, h⟩ := Option.bind_eq_some_iff.mp h
  obtain ⟨-, -, h⟩ := Option.bind_eq_some_iff.mp h
  obtain ⟨target, htarget, h⟩ := Option.bind_eq_some_iff.mp h
  obtain ⟨-, -, h⟩ := Option.bind_eq_some_iff.mp h
  have hassignment := hp.of_mem_ancestors (List.mem_of_mem_head? hassignment)
  exact inRange_of_record? (hassignment.of_child? htarget) h

/-- The records that a place in range gives rise to are in range: their lines are those of a place
below or above it. -/
lemma inRange_of_mem_ofPlace (hp : p.InRange) (h : v ∈ ofPlace p) : v.InRange := by
  have hbelow {family : Place → Bool} {record : Place → Option Variable}
      (hv : v ∈ (p.children.filter family).filterMap record)
      (hrecord : ∀ {c : Place}, c.InRange → record c = some v → v.InRange) : v.InRange := by
    obtain ⟨c, hc, hv⟩ := List.mem_filterMap.mp hv
    exact hrecord (hp.of_mem_children (List.mem_of_mem_filter hc)) hv
  unfold ofPlace at h
  split at h
  · exact hbelow h fun hc hv => inRange_of_record? hc hv
  · refine hbelow h fun hc hv => ?_
    obtain ⟨name, -, hv⟩ := Option.bind_eq_some_iff.mp hv
    exact inRange_of_record? hc hv
  · unfold ofConst at h
    split at h
    · cases h
    · refine hbelow h fun hc hv => ?_
      obtain ⟨name, -, hv⟩ := Option.bind_eq_some_iff.mp hv
      exact inRange_of_record? hc hv
  · rcases List.mem_append.mp h with h | h
    · rcases List.mem_append.mp h with h | h
      · exact inRange_of_ofSuperGlobal? hp (Option.mem_toList.mp h)
      · exact inRange_of_ofDefine? hp (Option.mem_toList.mp h)
    · exact inRange_of_ofAssignment? hp (Option.mem_toList.mp h)

end Variable

/-! ## Imports -/

namespace Import

variable {n : Node} {i : Import}

/-- The imports of a use declaration are in range if the declaration is. -/
lemma inRange_of_mem_ofUse (hn : n.InRange) (h : i ∈ ofUse n) : i.InRange := by
  obtain ⟨clause, -, h⟩ := List.mem_filterMap.mp h
  obtain ⟨written, -, ⟨⟩⟩ := Option.bind_eq_some_iff.mp h
  exact ⟨hn.startLine, hn.endLine⟩

/-- The import of an include expression is in range if the expression is. -/
lemma inRange_of_ofInclude? (hn : n.InRange) (h : ofInclude? n = some i) : i.InRange := by
  unfold ofInclude? at h
  obtain ⟨kind, -, h⟩ := Option.bind_eq_some_iff.mp h
  obtain ⟨operand, -, h⟩ := Option.bind_eq_some_iff.mp h
  obtain ⟨path, -, ⟨⟩⟩ := Option.bind_eq_some_iff.mp h
  exact ⟨hn.startLine, hn.endLine⟩

end Import

/-! ## Calls -/

/-- What is made of a part that may be missing has a property if it has it wherever the part is
there. -/
lemma forall_mem_getD_map {α β : Type} {P : β → Prop} {part : Option α} {f : α → List β}
    (h : ∀ a, part = some a → ∀ b ∈ f a, P b) : ∀ b ∈ (part.map f).getD [], P b := by
  cases part with
  | none => exact List.forall_mem_nil _
  | some a => exact h a rfl

/-- Parameters and arguments are numbered by their places among the parts of a node. -/
lemma Param.inRange_of_mem_zipIdx {n : Node} (hn : n.InRange) {parts : List Node}
    (hparts : parts.Sublist n.children) {c : Node} {index : Nat} (h : (c, index) ∈ parts.zipIdx) :
    index < Decoder.natBound := by
  have hindex : index < parts.length := by simpa using (List.mem_zipIdx h).2.1
  exact (hindex.trans_le hparts.length_le).trans hn.length_children

/-- Arguments are in range if their list is. -/
lemma Param.inRange_of_mem_ofArguments {n : Node} (hn : n.InRange) :
    ∀ p ∈ ofArguments n, p.InRange := by
  intro p hp
  obtain ⟨⟨c, index⟩, hc, rfl⟩ := List.mem_map.mp hp
  exact inRange_of_mem_zipIdx hn (List.filter_sublist.trans List.filter_sublist) hc

/-- Parameters are in range if their list is. -/
lemma Param.inRange_of_mem_ofParameters {n : Node} (hn : n.InRange) :
    ∀ p ∈ ofParameters n, p.InRange := by
  intro p hp
  obtain ⟨⟨c, index⟩, hc, rfl⟩ := List.mem_map.mp hp
  exact inRange_of_mem_zipIdx hn List.filter_sublist hc

namespace Call

variable {s : Scope} {context : Option ClassContext}

/-- The lines of a call are those of its place, and its arguments are numbered by their places. -/
lemma inRange_of_ofPlace? {p : Place} {c : Call} (hp : p.InRange)
    (h : ofPlace? s context p = some c) : c.InRange := by
  have harguments : ∀ a ∈ ((p.node.part? .arguments .arguments).map Param.ofArguments).getD [],
      a.InRange :=
    forall_mem_getD_map fun _ hn => Param.inRange_of_mem_ofArguments (hp.node.of_part? hn)
  simp only [ofPlace?] at h
  split at h <;> obtain ⟨call, -, ⟨⟩⟩ := Option.bind_eq_some_iff.mp h <;>
    exact ⟨hp.node.startLine, hp.node.endLine, harguments⟩

/-- The calls of places in range are in range. -/
lemma inRange_of_mem_ofPlaces {ps : List Place} (hps : ∀ p ∈ ps, p.InRange) :
    ∀ c ∈ ofPlaces s context ps, c.InRange := by
  intro c hc
  obtain ⟨p, hp, hc⟩ := List.mem_filterMap.mp (mem_of_mem_eraseDupsBy hc)
  exact inRange_of_ofPlace? (hps p hp) hc

end Call

/-! ## Functions and methods -/

namespace Routine

variable {s : Scope}

/-- A routine is in range if its place is. -/
lemma inRange_of_ofPlace? {context : Option ClassContext} {p : Place} {r : Routine} (hp : p.InRange)
    (h : ofPlace? s context p = some r) : r.InRange := by
  unfold ofPlace? at h
  obtain ⟨name, -, ⟨⟩⟩ := Option.bind_eq_some_iff.mp h
  refine ⟨hp.node.startLine, hp.node.endLine, ?_, ?_⟩
  · exact forall_mem_getD_map fun _ hlist =>
      Param.inRange_of_mem_ofParameters (hp.node.of_part? hlist)
  · refine forall_mem_getD_map fun body hbody => Call.inRange_of_mem_ofPlaces fun q hq => ?_
    exact (hp.of_part? hbody).of_mem_places (List.mem_of_mem_filter hq)

/-- The routine for the code of a file itself is in range if the tree and the end of the file
are. -/
lemma inRange_of_ofFileLevel? {root : Node} {r : Routine} (hs : s.fileEnd < Decoder.natBound)
    (hroot : root.InRange) (h : ofFileLevel? s root = some r) : r.InRange := by
  unfold ofFileLevel? at h
  dsimp only at h
  split at h
  · cases h
  · cases h
    have hone : 1 < Decoder.natBound := by decide
    refine ⟨hone, hs, fun _ h => (by cases h), Call.inRange_of_mem_ofPlaces fun q hq => ?_⟩
    exact (Place.within_root hroot).of_mem_places (List.mem_of_mem_filter hq)

end Routine

/-! ## Classes -/

namespace Property

variable {n : Node}

/-- The properties of a declaration are in range if the declaration is. -/
lemma inRange_of_mem_ofDeclaration (hn : n.InRange) : ∀ p ∈ ofDeclaration n, p.InRange := by
  intro p hp
  obtain ⟨e, he, hp⟩ := List.mem_filterMap.mp hp
  obtain ⟨name, -, ⟨⟩⟩ := Option.bind_eq_some_iff.mp hp
  have he : e.InRange := hn.of_mem_children (List.mem_of_mem_filter he)
  exact ⟨he.startLine, he.endLine⟩

/-- The constants of a declaration are in range if the declaration is. -/
lemma inRange_of_mem_ofConstants (hn : n.InRange) : ∀ p ∈ ofConstants n, p.InRange := by
  intro p hp
  obtain ⟨e, he, hp⟩ := List.mem_filterMap.mp hp
  obtain ⟨name, -, ⟨⟩⟩ := Option.bind_eq_some_iff.mp hp
  have he : e.InRange := hn.of_mem_children (List.mem_of_mem_filter he)
  exact ⟨he.startLine, he.endLine⟩

/-- The promoted parameters of a constructor are in range if its declaration is. -/
lemma inRange_of_mem_ofPromotions (hn : n.InRange) : ∀ p ∈ ofPromotions n, p.InRange := by
  unfold ofPromotions
  split
  · exact fun _ h => by cases h
  next list hlist =>
    intro p hp
    obtain ⟨e, he, hp⟩ := List.mem_filterMap.mp hp
    obtain ⟨name, -, ⟨⟩⟩ := Option.bind_eq_some_iff.mp hp
    have he : e.InRange := (hn.of_child? hlist).of_mem_children (List.mem_of_mem_filter he)
    exact ⟨he.startLine, he.endLine⟩

end Property

namespace ClassDecl

variable {s : Scope}

/-- A member of the body in range keeps the class in range. -/
lemma InRange.withMember {k : ClassDecl} (hk : k.InRange) {context : ClassContext} {member : Place}
    (hmember : member.InRange) : (ClassDecl.withMember s context k member).InRange := by
  have hmore {more : List Property} (hmore : ∀ p ∈ more, p.InRange) :
      ∀ p ∈ k.properties ++ more, p.InRange :=
    List.forall_mem_append.mpr ⟨hk.properties, hmore⟩
  unfold ClassDecl.withMember
  split
  · split
    next method hmethod =>
      refine ⟨hk.startLine, hk.endLine, ?_, ?_⟩
      · dsimp only
        split
        · exact hmore (Property.inRange_of_mem_ofPromotions hmember.node)
        · exact hk.properties
      · refine List.forall_mem_append.mpr ⟨hk.methods, List.forall_mem_singleton.mpr ?_⟩
        exact Routine.inRange_of_ofPlace? hmember hmethod
    next => exact hk
  · exact ⟨hk.startLine, hk.endLine, hmore (Property.inRange_of_mem_ofDeclaration hmember.node),
      hk.methods⟩
  · exact ⟨hk.startLine, hk.endLine, hmore (Property.inRange_of_mem_ofConstants hmember.node),
      hk.methods⟩
  · exact ⟨hk.startLine, hk.endLine, hk.properties, hk.methods⟩
  · exact hk

/-- A class stays in range through all members in range. -/
lemma InRange.foldl_withMember {context : ClassContext} {members : List Place}
    (hmembers : ∀ m ∈ members, m.InRange) {k : ClassDecl} (hk : k.InRange) :
    (members.foldl (ClassDecl.withMember s context) k).InRange := by
  induction members generalizing k with
  | nil => exact hk
  | cons member members ih =>
    obtain ⟨hmember, hmembers⟩ := List.forall_mem_cons.mp hmembers
    exact ih hmembers (hk.withMember hmember)

/-- A class is in range if its place is. -/
lemma inRange_of_ofPlace? {p : Place} {k : ClassDecl} (hp : p.InRange) (h : ofPlace? s p = some k) :
    k.InRange := by
  unfold ofPlace? at h
  obtain ⟨name, -, ⟨⟩⟩ := Option.bind_eq_some_iff.mp h
  refine InRange.foldl_withMember ?_
    ⟨hp.node.startLine, hp.node.endLine, fun _ h => (by cases h), fun _ h => (by cases h)⟩
  exact forall_mem_getD_map fun body hbody member hmember =>
    (hp.of_part? hbody).of_mem_children (List.mem_of_mem_filter hmember)

end ClassDecl

/-! ## The facts of a file -/

namespace FileFacts

/-- **The facts of a tree in range are in range.** -/
theorem inRange_ofTree {root : Node} (h : root.InRange) : (ofTree root).InRange := by
  have hplaces (p : Place) (hp : p ∈ (Place.root root).places) : p.InRange :=
    (Place.within_root h).of_mem_places hp
  refine ⟨?_, ?_, ?_, ?_, ?_, ?_⟩
  · refine List.forall_mem_append.mpr ⟨fun r hr => ?_, fun r hr => ?_⟩
    · obtain ⟨p, hp, hr⟩ := List.mem_filterMap.mp hr
      exact Routine.inRange_of_ofPlace? (hplaces p (List.mem_of_mem_filter hp)) hr
    · exact Routine.inRange_of_ofFileLevel? h.endLine h (Option.mem_toList.mp hr)
  · intro k hk
    obtain ⟨p, hp, hk⟩ := List.mem_filterMap.mp hk
    exact ClassDecl.inRange_of_ofPlace? (hplaces p (List.mem_of_mem_filter hp)) hk
  · have hnodes (n : Node) (hn : n ∈ (Place.root root).places.map Place.node) : n.InRange := by
      obtain ⟨p, hp, rfl⟩ := List.mem_map.mp hn
      exact (hplaces p hp).node
    refine List.forall_mem_append.mpr ⟨fun i hi => ?_, fun i hi => ?_⟩
    · obtain ⟨n, hn, hi⟩ := List.mem_flatMap.mp hi
      exact Import.inRange_of_mem_ofUse (hnodes n (List.mem_of_mem_filter hn)) hi
    · obtain ⟨n, hn, hi⟩ := List.mem_filterMap.mp hi
      exact Import.inRange_of_ofInclude? (hnodes n hn) hi
  · refine NamespaceExtent.inRange_of_mem_ofDefinitions h.endLine fun d hd => ?_
    exact h.of_mem_children (List.mem_of_mem_filter hd)
  · intro b hb
    obtain ⟨p, hp, hb⟩ := List.mem_filterMap.mp hb
    exact Binding.inRange_of_ofPlace? h.endLine (hplaces p hp) hb
  · intro v hv
    obtain ⟨p, hp, hv⟩ := List.mem_flatMap.mp hv
    exact Variable.inRange_of_mem_ofPlace (hplaces p hp) hv

/-- **The facts of a page that is not too long are in range.** -/
theorem inRange_ofSource {source : String} (h : source.length + 1 < Decoder.natBound) :
    (ofSource source).InRange :=
  inRange_ofTree (Node.inRange_ofSource h)

end FileFacts

/-! ## Pages from bytes -/

namespace Text

/-- The list of the bytes has the size of the bytes. -/
lemma length_byteList (b : ByteArray) : b.toList.length = b.size := by
  have hloop (i : Nat) (r : List UInt8) (hi : i ≤ b.size) :
      (ByteArray.toList.loop b i r).length = b.size - i + r.length := by
    fun_induction ByteArray.toList.loop b i r with
    | case1 i r h ih =>
      rw [ih (by omega), List.length_cons]
      omega
    | case2 i r h =>
      rw [List.length_reverse]
      omega
  have hlist := hloop 0 [] (Nat.zero_le _)
  rwa [List.length_nil, Nat.sub_zero, Nat.add_zero] at hlist

/-- No more characters are read than there are bytes. -/
lemma length_readChars_le (n : Nat) (bs : List Nat) : (readChars n bs).length ≤ bs.length := by
  fun_induction readChars n bs with
  | case1 => exact le_rfl
  | case2 n b bs ih => exact le_trans ih (Nat.le_succ _)
  | case3 b bs c used h ih => exact Nat.succ_le_succ ih

/-- A text has no more characters than bytes. -/
lemma length_ofBytesLossy_le (b : ByteArray) : (ofBytesLossy b).length ≤ b.size := by
  rw [ofBytesLossy, String.length_ofList]
  calc (readChars 0 (b.toList.map UInt8.toNat)).length
      ≤ (b.toList.map UInt8.toNat).length := length_readChars_le 0 _
    _ = b.size := by rw [List.length_map, length_byteList]

end Text

end PhpCalls
