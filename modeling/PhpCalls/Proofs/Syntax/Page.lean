import PhpCalls.Json.Codec
import PhpCalls.Proofs.Syntax.Grammar
import PhpCalls.Proofs.Syntax.Places

set_option autoImplicit false

/-!
# The syntax tree of a page

The leaves of the tokens of a page are its lexemes but the blanks, on the lines where they stand,
and the end of the page. The tree of the page is put together from them in their order, so that its
lines and the numbers of its parts stay within the size of the page. The functions, methods and
classes in it are named by words of the page.

## Main definitions

* `Lexeme.leavesFrom`: the leaves of lexemes that begin on a line.
* `Node.InRange`: the lines and the numbers of parts stay below the bound of numbers.
* `Node.DeclaresNames`: what declares something is named by a name.

## Main results

* `Token.leaves_locate`: the leaves of the tokens of lexemes.
* `Fragment.isPrefix_leaves_ofTokens`: a page is parsed into its leaves.
* `Node.inRange_ofSource`: the tree of a page that is not too long is in range.
* `Node.declaresNames_ofSource`: every declaration of a page is named by a name.
-/

namespace PhpCalls.Syntax

/-! ## Leaves of a page -/

/-- The leaves of lexemes that begin on a line: all but the blanks, and the end. -/
def Lexeme.leavesFrom (line : Nat) : List Lexeme → List Leaf
  | [] => [⟨"", line, line⟩]
  | l :: ls =>
    let next := line + Token.lineFeeds l.text
    if l.sort = .blank then leavesFrom next ls
    else ⟨String.ofList l.text, line, next⟩ :: leavesFrom next ls

/-- There are no more leaves than lexemes, and one for the end. -/
lemma Lexeme.length_leavesFrom_le (line : Nat) (ls : List Lexeme) :
    (leavesFrom line ls).length ≤ ls.length + 1 := by
  fun_induction leavesFrom line ls with
  | case1 => rfl
  | case2 line l ls next hblank ih => exact ih.trans (Nat.le_succ _)
  | case3 line l ls next hblank ih => exact Nat.succ_le_succ ih

/-- Every leaf stands on the lines that the lexemes cover. -/
lemma Lexeme.endLine_le_of_mem_leavesFrom {line : Nat} {ls : List Lexeme} :
    ∀ l ∈ leavesFrom line ls, l.startLine ≤ l.endLine ∧
      l.endLine ≤ line + Token.lineFeeds (ls.flatMap Lexeme.text) := by
  fun_induction leavesFrom line ls with
  | case1 line =>
    intro l hl
    rw [List.mem_singleton.mp hl]
    exact ⟨le_rfl, Nat.le_add_right _ _⟩
  | case2 line l ls next hblank ih =>
    rw [List.flatMap_cons, Token.lineFeeds, List.count_append, ← Nat.add_assoc]
    exact ih
  | case3 line l ls next hblank ih =>
    rw [List.flatMap_cons, Token.lineFeeds, List.count_append, ← Nat.add_assoc]
    rintro leaf (_ | ⟨_, hleaf⟩)
    · exact ⟨Nat.le_add_right _ _, Nat.le_add_right _ _⟩
    · exact ih leaf hleaf

namespace Token

/-- The leaves of the tokens of lexemes are those of the extras before them, and then those of the
lexemes. Blanks go to the gaps between the leaves. -/
theorem leaves_locate (line : Nat) (gap : String) (extras : Fragment) (ls : List Lexeme) :
    (locate line gap extras ls).flatMap leaves =
      Fragment.leaves extras.reverse ++ Lexeme.leavesFrom line ls := by
  fun_induction locate line gap extras ls with
  | case1 => simp [leaves, Lexeme.leavesFrom]
  | case2 line gap extras l ls next text hblank _ ih =>
    rw [ih, Lexeme.leavesFrom, if_pos hblank]
  | case3 line gap extras l ls next text extra hcomment ih =>
    rw [Lexeme.leavesFrom, if_neg (by simp [hcomment])]
    simp [extra, ih, Fragment.leaves, Node.leaves, next, text]
  | case4 line gap extras l ls next text extra hinterlude ih =>
    rw [Lexeme.leavesFrom, if_neg (by simp [hinterlude])]
    simp [extra, ih, Fragment.leaves, Node.leaves, next, text]
  | case5 line gap extras l ls next text hblank _ _ _ ih =>
    rw [List.flatMap_cons, ih, Lexeme.leavesFrom, if_neg hblank]
    simp [leaves, next, text]

/-- Tokens are well formed where the words among their lexemes are names. -/
lemma wellFormed_of_mem_locate {line : Nat} {gap : String} {extras : Fragment} {ls : List Lexeme}
    (hwords : ∀ l ∈ ls, l.sort = .word → Lexeme.IsName l.text)
    (hextras : ∀ p ∈ extras, p.WellFormed ∧ p.node.kind.isExtra = true) :
    ∀ t ∈ locate line gap extras ls, t.WellFormed := by
  have htoken {extras : Fragment} (h : ∀ p ∈ extras, p.WellFormed ∧ p.node.kind.isExtra = true)
      {sort : Option LexemeSort} {text folded gap : String} {s e : Nat}
      (hname : sort = some .word → Lexeme.IsName text.toList) :
      WellFormed ⟨sort, text, folded, s, e, gap, extras.reverse⟩ :=
    ⟨fun p hp => (h p (List.mem_reverse.mp hp)).1,
      fun p hp => (h p (List.mem_reverse.mp hp)).2, hname⟩
  have hextra {extras : Fragment} (h : ∀ p ∈ extras, p.WellFormed ∧ p.node.kind.isExtra = true)
      {gap text : String} {k : Kind} {s e : Nat} (hk : k.isExtra = true) :
      ∀ p ∈ ⟨gap, .mk none k text s e []⟩ :: extras, p.WellFormed ∧ p.node.kind.isExtra = true :=
    List.forall_mem_cons.mpr ⟨⟨⟨.leaf .., fun _ => rfl⟩, hk⟩, h⟩
  fun_induction locate line gap extras ls with
  | case1 => exact List.forall_mem_singleton.mpr (htoken hextras fun h => by cases h)
  | case2 _ _ _ _ _ _ _ _ _ ih => exact ih (List.forall_mem_cons.mp hwords).2 hextras
  | case3 _ _ _ _ _ _ _ _ _ ih =>
    exact ih .comment (List.forall_mem_cons.mp hwords).2 (hextra hextras rfl)
  | case4 _ _ _ _ _ _ _ _ _ ih =>
    exact ih .interlude (List.forall_mem_cons.mp hwords).2 (hextra hextras rfl)
  | case5 _ _ _ l ls next text _ _ _ _ ih =>
    obtain ⟨hword, hwords⟩ := List.forall_mem_cons.mp hwords
    refine List.forall_mem_cons.mpr ⟨htoken hextras fun hsort => ?_,
      ih hwords fun _ h => by cases h⟩
    rw [String.toList_ofList]
    exact hword (Option.some.inj hsort)

/-- The tokens of a page are well formed. -/
lemma wellFormed_of_mem_ofSource {source : String} : ∀ t ∈ ofSource source, t.WellFormed :=
  wellFormed_of_mem_locate (fun _ hl hword => Lexeme.isName_of_mem_scan hl hword) fun _ h =>
    by cases h

end Token

/-! ## The tree of a page -/

namespace Fragment

/-- A page is parsed into leaves that stand at its beginning, in their order. -/
theorem isPrefix_leaves_ofTokens {ts : List Token} (h : ∀ t ∈ ts, t.WellFormed) :
    (ofTokens ts).leaves <+: ts.flatMap Token.leaves ∧ (ofTokens ts).WellFormed := by
  unfold ofTokens
  dsimp only
  split
  next f rest hrun =>
    obtain ⟨taken, rfl, hleaves, hf⟩ := Parse.Adds.exists_taken hrun wellFormed_nil h
    cases rest with
    | nil => simpa [hleaves] using hf
    | cons t rest =>
      have ht : t.WellFormed := h t (by simp)
      refine ⟨?_, wellFormed_append.mpr ⟨hf, ht.extras⟩⟩
      simp [hleaves, Token.leaves]
  next => exact ⟨List.nil_prefix, wellFormed_nil⟩

end Fragment

namespace Node

/-- The lines of a node and the number of its parts stay below the bound of numbers, and so for all
parts. -/
inductive InRange : Node → Prop
  | mk (r : Option Role) (k : Kind) (t : String) {s e : Nat} {cs : List Node}
      (hstart : s < Decoder.natBound) (hend : e < Decoder.natBound)
      (hlength : cs.length < Decoder.natBound) (hparts : ∀ c ∈ cs, InRange c) :
      InRange (.mk r k t s e cs)

/-- A node in range begins on a line in range. -/
lemma InRange.startLine {n : Node} : n.InRange → n.startLine < Decoder.natBound
  | .mk _ _ _ hstart _ _ _ => hstart

/-- A node in range ends on a line in range. -/
lemma InRange.endLine {n : Node} : n.InRange → n.endLine < Decoder.natBound
  | .mk _ _ _ _ hend _ _ => hend

/-- The number of children of a node in range is in range. -/
lemma InRange.length_children {n : Node} : n.InRange → n.children.length < Decoder.natBound
  | .mk _ _ _ _ _ hlength _ => hlength

/-- The children of a node in range are in range. -/
lemma InRange.of_mem_children {n c : Node} : n.InRange → c ∈ n.children → c.InRange
  | .mk _ _ _ _ _ _ hparts, hc => hparts c hc

/-- The child of a node in range in a role is in range. -/
lemma InRange.of_child? {n c : Node} {r : Role} (h : n.InRange) (hc : n.child? r = some c) :
    c.InRange :=
  h.of_mem_children (List.mem_of_find?_eq_some hc)

/-- A part of a node in range is in range. -/
lemma InRange.of_part? {n c : Node} {r : Role} {k : Kind} (h : n.InRange)
    (hc : n.part? r k = some c) : c.InRange :=
  h.of_mem_children (mem_children_of_part? hc)

/-- Every node has a leaf. -/
lemma leaves_ne_nil : ∀ n : Node, n.leaves ≠ []
  | .mk _ _ _ _ _ [] => List.cons_ne_nil _ _
  | .mk _ _ _ _ _ (c :: _) => List.append_ne_nil_of_left_ne_nil (leaves_ne_nil c) _

/-- Nodes have at least as many leaves as they are. -/
lemma length_le_length_flatMap_leaves (cs : List Node) :
    cs.length ≤ (cs.flatMap leaves).length := by
  induction cs with
  | nil => exact Nat.zero_le _
  | cons c cs ih =>
    have hc : 0 < c.leaves.length := List.length_pos_iff.mpr c.leaves_ne_nil
    rw [List.flatMap_cons, List.length_append, List.length_cons]
    omega

/-- Leaves that bound a tree: their lines and their number stay below the bound of numbers. -/
structure LeavesInRange (ls : List Leaf) : Prop where
  length : ls.length < Decoder.natBound
  lines : ∀ l ∈ ls, l.startLine < Decoder.natBound ∧ l.endLine < Decoder.natBound

/-- Leaves stay in range if some are left out. -/
lemma LeavesInRange.of_sublist {ls ls' : List Leaf} (h : LeavesInRange ls) (hsub : ls'.Sublist ls) :
    LeavesInRange ls' :=
  ⟨hsub.length_le.trans_lt h.length, fun l hl => h.lines l (hsub.subset hl)⟩

/-- The leaves of one of several nodes are in range if all are. -/
lemma LeavesInRange.of_mem {cs : List Node} (h : LeavesInRange (cs.flatMap leaves)) {c : Node}
    (hc : c ∈ cs) : LeavesInRange c.leaves :=
  h.of_sublist (List.sublist_flatten_of_mem (List.mem_map_of_mem hc))

/-- Where nodes begin and end with their parts, the leaves bound everything. -/
lemma WellFormed.inRange {n : Node} (h : n.WellFormed) (hleaves : LeavesInRange n.leaves) :
    n.InRange := by
  induction h with
  | leaf r k t s e =>
    obtain ⟨hstart, hend⟩ := hleaves.lines _ List.mem_cons_self
    exact .mk r k t hstart hend (by decide) fun c hc => by cases hc
  | @node r k t first last cs hname hfirst hlast hparts ih =>
    have hfirst : first ∈ cs := List.mem_of_mem_head? hfirst
    have hlast : last ∈ cs := List.mem_of_mem_getLast? hlast
    rw [leaves_of_ne_nil (List.ne_nil_of_mem hfirst)] at hleaves
    have hin (c : Node) (hc : c ∈ cs) : c.InRange := ih c hc (hleaves.of_mem hc)
    exact .mk r k t (hin first hfirst).startLine (hin last hlast).endLine
      ((length_le_length_flatMap_leaves cs).trans_lt hleaves.length) hin

/-- The leaves of a page that is not too long are in range. -/
lemma leavesInRange_scan {source : String} (h : source.length + 1 < Decoder.natBound) :
    LeavesInRange (Lexeme.leavesFrom 1 (Lexeme.scan source)) := by
  have hscan := Lexeme.length_scan_le source
  have hlength := Lexeme.length_leavesFrom_le 1 (Lexeme.scan source)
  have hfeeds : Token.lineFeeds ((Lexeme.scan source).flatMap Lexeme.text) ≤ source.length := by
    rw [Lexeme.flatMap_text_scan, ← String.length_toList]
    exact List.count_le_length
  refine ⟨by omega, fun l hl => ?_⟩
  obtain ⟨hstart, hend⟩ := Lexeme.endLine_le_of_mem_leavesFrom l hl
  omega

/-- The tree of a page that is not too long is in range. -/
theorem inRange_ofSource {source : String} (h : source.length + 1 < Decoder.natBound) :
    (ofSource source).InRange := by
  obtain ⟨hbegin, hwell⟩ := Fragment.isPrefix_leaves_ofTokens Token.wellFormed_of_mem_ofSource
  have hleaves : LeavesInRange
      (((Fragment.ofTokens (Token.ofSource source)).map Piece.node).flatMap leaves) := by
    rw [List.flatMap_map]
    refine (leavesInRange_scan h).of_sublist (hbegin.sublist.trans ?_)
    rw [Token.ofSource, Token.leaves_locate]
    exact List.Sublist.refl _
  have hfeeds : source.toList.count '\n' ≤ source.length := by
    rw [← String.length_toList]
    exact List.count_le_length
  refine .mk _ _ _ (by decide) (by omega)
    ((length_le_length_flatMap_leaves _).trans_lt hleaves.length) fun c hc => ?_
  obtain ⟨p, hp, rfl⟩ := List.mem_map.mp hc
  exact (hwell p hp).node.inRange (hleaves.of_mem hc)

/-- Every declaration in the tree is named by a name. -/
inductive DeclaresNames : Node → Prop
  | mk (r : Option Role) {k : Kind} (t : String) (s e : Nat) {cs : List Node}
      (hname : k.declares = true → Named cs) (hparts : ∀ c ∈ cs, DeclaresNames c) :
      DeclaresNames (.mk r k t s e cs)

/-- If the node is a declaration, it is named by a name. -/
lemma DeclaresNames.named {n : Node} : n.DeclaresNames → n.kind.declares = true → Named n.children
  | .mk _ _ _ _ hname _ => hname

instance hereditary_declaresNames : Hereditary DeclaresNames where
  of_mem_children
    | .mk _ _ _ _ _ hparts, hc => hparts _ hc

/-- The declarations of a well-formed tree are named by names. -/
lemma WellFormed.declaresNames {n : Node} (h : n.WellFormed) : n.DeclaresNames := by
  induction h with
  | leaf r k t s e =>
    refine .mk r t s e (fun _ c hc => ?_) fun c hc => ?_
    · cases hc
    · cases hc
  | node r t hname _ _ _ ih => exact .mk r t _ _ hname ih

/-- In the tree of a page, every declaration is named by a name. -/
theorem declaresNames_ofSource (source : String) : (ofSource source).DeclaresNames := by
  obtain ⟨-, hwell⟩ := Fragment.isPrefix_leaves_ofTokens Token.wellFormed_of_mem_ofSource
  refine .mk none source 1 _ (fun hdeclares => by cases hdeclares) fun c hc => ?_
  obtain ⟨p, hp, rfl⟩ := List.mem_map.mp hc
  exact (hwell p hp).node.declaresNames

end Node

end PhpCalls.Syntax
