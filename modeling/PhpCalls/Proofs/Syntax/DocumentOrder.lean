import PhpCalls.Proofs.Syntax.Descent
import PhpCalls.Proofs.Syntax.Page

set_option autoImplicit false

/-!
# The order of a document

In a tree whose lines are in order, the parts of a node stand on the lines of the node and follow
one another. Then the places of the tree, a node before the nodes inside it, begin on lines that
never go back. The trees of pages are such trees: their leaves are the lexemes of the page one after
the other.

## Main definitions

* `Node.InOrder`: the lines of a node and of its parts are in order.

## Main results

* `Place.pairwise_startLine_places`: going through a tree in order, lines never go back.
* `Place.startLine_le_or_endLine_le`: where a place begins that is not inside of another.
* `Node.WellFormed.inOrder`: a tree is in order if its leaves are.
* `Node.inOrder_ofSource`: the tree of a page is in order.
-/

namespace PhpCalls.Syntax

namespace Node

/-- The parts of the node stand on its lines and follow one another, and so for all parts. -/
inductive InOrder : Node → Prop
  | mk (r : Option Role) (k : Kind) (t : String) {s e : Nat} {cs : List Node} (hlines : s ≤ e)
      (hwithin : ∀ c ∈ cs, s ≤ c.startLine ∧ c.endLine ≤ e)
      (hrow : cs.Pairwise fun c d => c.endLine ≤ d.startLine)
      (hparts : ∀ c ∈ cs, InOrder c) : InOrder (.mk r k t s e cs)

namespace InOrder

variable {n c : Node}

/-- A node in order does not end before it begins. -/
lemma startLine_le_endLine : n.InOrder → n.startLine ≤ n.endLine
  | .mk _ _ _ hlines _ _ _ => hlines

/-- A child of a node in order begins and ends on lines of the node. -/
lemma within : n.InOrder → c ∈ n.children → n.startLine ≤ c.startLine ∧ c.endLine ≤ n.endLine
  | .mk _ _ _ _ hwithin _ _, hc => hwithin c hc

/-- A child of a node in order does not begin before the one before it ends. -/
lemma row : n.InOrder → n.children.Pairwise fun c d => c.endLine ≤ d.startLine
  | .mk _ _ _ _ _ hrow _ => hrow

/-- A child of a node in order is in order. -/
lemma of_mem_children : n.InOrder → c ∈ n.children → c.InOrder
  | .mk _ _ _ _ _ _ hparts, hc => hparts c hc

end InOrder

instance hereditary_inOrder : Hereditary InOrder := ⟨InOrder.of_mem_children⟩

end Node

/-! ## Places in order -/

namespace Place

variable {p q : Place}

/-- A place in order does not end before it begins. -/
lemma startLine_le_endLine (h : p.node.InOrder) : p.startLine ≤ p.endLine := h.startLine_le_endLine

/-- A place below another begins and ends on its lines. -/
lemma lines_of_mem_places (h : p.node.InOrder) (hq : q ∈ p.places) :
    p.startLine ≤ q.startLine ∧ q.endLine ≤ p.endLine ∧ q.node.InOrder := by
  induction p using descend with
  | step p ih =>
    rcases mem_places_iff.1 hq with rfl | ⟨c, hc, hq⟩
    · exact ⟨Nat.le_refl _, Nat.le_refl _, h⟩
    · have hmem := node_mem_of_mem_children hc
      obtain ⟨hstart, hend⟩ := h.within hmem
      obtain ⟨hstart', hend', hin⟩ := ih c hc (h.of_mem_children hmem) hq
      exact ⟨hstart.trans hstart', hend'.trans hend, hin⟩

/-- A place of a tree begins and ends on the lines of the places around it. -/
lemma lines_of_mem_ancestors {n : Node} {a : Place} (h : n.InOrder) (hq : q ∈ (root n).places)
    (ha : a ∈ q.ancestors) : a.startLine ≤ q.startLine ∧ q.endLine ≤ a.endLine := by
  obtain ⟨htree, hbelow⟩ := mem_places_of_mem_ancestors hq ha
  obtain ⟨-, -, hin⟩ := lines_of_mem_places (p := root n) h htree
  obtain ⟨hstart, hend, -⟩ := lines_of_mem_places hin hbelow
  exact ⟨hstart, hend⟩

/-- The children of a place in order stand one behind the other. -/
lemma pairwise_children (h : p.node.InOrder) :
    p.children.Pairwise fun c d => c.endLine ≤ d.startLine := by
  have hnodes := h.row
  rw [← map_node_children, List.pairwise_map] at hnodes
  exact hnodes

/-- Of two parts of a place, one ends before the other begins. -/
lemma eq_or_endLine_le_of_mem_children (h : p.node.InOrder) : ∀ ⦃c⦄, c ∈ p.children → ∀ ⦃d⦄,
    d ∈ p.children → c = d ∨ c.endLine ≤ d.startLine ∨ d.endLine ≤ c.startLine := by
  refine List.Pairwise.forall_of_forall_of_flip (fun c _ => .inl rfl) ?_ ?_
  · exact (pairwise_children h).imp fun hcd => .inr (.inl hcd)
  · exact (pairwise_children h).imp fun hcd => .inr (.inr hcd)

/-- Going through a tree in order, a node before the nodes inside it, lines never go back.

**Proof sketch.** By induction from the parts. What is below a place begins no earlier than the
place; what is below a part ends before the next part begins. -/
theorem pairwise_startLine_places (h : p.node.InOrder) :
    p.places.Pairwise fun a b => a.startLine ≤ b.startLine := by
  induction p using descend with
  | step p ih =>
    have hbelow : ∀ q ∈ p.places, p.startLine ≤ q.startLine :=
      fun q hq => (lines_of_mem_places h hq).1
    have hin : ∀ c ∈ p.children, c.node.InOrder := fun c hc =>
      h.of_mem_children (node_mem_of_mem_children hc)
    rw [places_eq] at hbelow ⊢
    refine List.pairwise_cons.2 ⟨(List.forall_mem_cons.1 hbelow).2,
      List.pairwise_flatMap.2 ⟨?_, ?_⟩⟩
    · exact fun c hc => ih c hc (hin c hc)
    · refine (pairwise_children h).imp_of_mem fun {c d} hc hd hcd a ha b hb => ?_
      obtain ⟨-, hend, ha⟩ := lines_of_mem_places (hin c hc) ha
      obtain ⟨hstart, -, -⟩ := lines_of_mem_places (hin d hd) hb
      calc a.startLine
          ≤ a.endLine := startLine_le_endLine ha
        _ ≤ c.endLine := hend
        _ ≤ d.startLine := hcd
        _ ≤ b.startLine := hstart

/-- A place that is not inside of another begins no later than that one begins, or no earlier than
it ends.

**Proof sketch.** By induction from the parts. If the two are below different parts, one of the
parts ends before the other begins. -/
theorem startLine_le_or_endLine_le {r : Place} (h : r.node.InOrder) (hp : p ∈ r.places)
    (hq : q ∈ r.places) (hout : p ∉ q.ancestors) :
    q.startLine ≤ p.startLine ∨ p.endLine ≤ q.startLine := by
  induction r using descend with
  | step r ih =>
    rcases mem_places_iff.1 hp with rfl | ⟨c, hc, hpc⟩
    · -- all places below `p` other than `p` are inside of it
      rcases ancestors_suffix_of_mem_places hq with rfl | hsuffix
      · exact .inl (Nat.le_refl _)
      · exact absurd (hsuffix.subset List.mem_cons_self) hout
    rcases mem_places_iff.1 hq with rfl | ⟨d, hd, hqd⟩
    · exact .inl (lines_of_mem_places h hp).1
    have hin : ∀ c ∈ r.children, c.node.InOrder := fun c hc =>
      h.of_mem_children (node_mem_of_mem_children hc)
    obtain ⟨hstartp, hendp, hinp⟩ := lines_of_mem_places (hin c hc) hpc
    obtain ⟨hstartq, hendq, hinq⟩ := lines_of_mem_places (hin d hd) hqd
    rcases eq_or_endLine_le_of_mem_children h hc hd with rfl | hcd | hdc
    · exact ih c hc (hin c hc) hpc hqd
    · exact .inr ((hendp.trans hcd).trans hstartq)
    · exact .inl (((startLine_le_endLine hinq).trans hendq).trans (hdc.trans hstartp))

end Place

/-! ## Trees in order -/

/-- Leaves one after the other. -/
structure LeavesInOrder (ls : List Leaf) : Prop where
  lines : ∀ l ∈ ls, l.startLine ≤ l.endLine
  row : ls.Pairwise fun l m => l.endLine ≤ m.startLine

/-- Leaves stay in order if some are left out. -/
lemma LeavesInOrder.of_sublist {ls ls' : List Leaf} (h : LeavesInOrder ls) (hsub : ls'.Sublist ls) :
    LeavesInOrder ls' :=
  ⟨fun l hl => h.lines l (hsub.subset hl), h.row.sublist hsub⟩

namespace Node

variable {n : Node} {cs : List Node}

/-- A node begins with one of its leaves and ends with one. -/
lemma WellFormed.exists_leaves (h : n.WellFormed) :
    (∃ l ∈ n.leaves, l.startLine = n.startLine) ∧ ∃ l ∈ n.leaves, l.endLine = n.endLine := by
  induction h with
  | leaf r k t s e => exact ⟨⟨_, List.mem_cons_self, rfl⟩, ⟨_, List.mem_cons_self, rfl⟩⟩
  | @node r k t first last cs hname hfirst hlast hparts ih =>
    have hfirst : first ∈ cs := List.mem_of_mem_head? hfirst
    have hlast : last ∈ cs := List.mem_of_mem_getLast? hlast
    rw [leaves_of_ne_nil (List.ne_nil_of_mem hfirst)]
    obtain ⟨l, hl, hstart⟩ := (ih first hfirst).1
    obtain ⟨m, hm, hend⟩ := (ih last hlast).2
    exact ⟨⟨l, List.mem_flatMap.2 ⟨first, hfirst, hl⟩, hstart⟩,
      ⟨m, List.mem_flatMap.2 ⟨last, hlast, hm⟩, hend⟩⟩

/-- Nodes whose leaves are in order follow one another. -/
lemma pairwise_of_leavesInOrder (hcs : ∀ c ∈ cs, c.WellFormed)
    (h : LeavesInOrder (cs.flatMap leaves)) : cs.Pairwise fun c d => c.endLine ≤ d.startLine := by
  obtain ⟨-, hrow⟩ := List.pairwise_flatMap.1 h.row
  refine hrow.imp_of_mem fun {c d} hc hd hcd => ?_
  obtain ⟨l, hl, hend⟩ := (hcs c hc).exists_leaves.2
  obtain ⟨m, hm, hstart⟩ := (hcs d hd).exists_leaves.1
  rw [← hend, ← hstart]
  exact hcd l hl m hm

/-- Nodes that follow one another stand on the lines from the first to the last of them. -/
lemma within_of_pairwise {first last c : Node} (hfirst : cs.head? = some first)
    (hlast : cs.getLast? = some last) (hrow : cs.Pairwise fun c d => c.endLine ≤ d.startLine)
    (hlines : ∀ c ∈ cs, c.startLine ≤ c.endLine) (hc : c ∈ cs) :
    first.startLine ≤ c.startLine ∧ c.endLine ≤ last.endLine := by
  constructor
  · obtain ⟨rest, rfl⟩ := List.head?_eq_some_iff.1 hfirst
    rcases List.mem_cons.1 hc with rfl | hc
    · exact Nat.le_refl _
    · have hfollows := (List.pairwise_cons.1 hrow).1 c hc
      exact (hlines first List.mem_cons_self).trans hfollows
  · obtain ⟨before, rfl⟩ := List.getLast?_eq_some_iff.1 hlast
    rcases List.mem_append.1 hc with hbefore | hc
    · have hfollows := (List.pairwise_append.1 hrow).2.2 c hbefore last (List.mem_singleton_self _)
      exact hfollows.trans (hlines last (List.mem_append_right _ (List.mem_singleton_self _)))
    · rw [List.mem_singleton.1 hc]

/-- Where nodes begin and end with their parts, a tree is in order if its leaves are. -/
theorem WellFormed.inOrder (h : n.WellFormed) (hleaves : LeavesInOrder n.leaves) : n.InOrder := by
  induction h with
  | leaf r k t s e =>
    have hlines : s ≤ e := hleaves.lines ⟨t, s, e⟩ List.mem_cons_self
    exact .mk r k t hlines (fun c hc => by cases hc) .nil fun c hc => by cases hc
  | @node r k t first last cs hname hfirst hlast hparts ih =>
    have hmem : first ∈ cs := List.mem_of_mem_head? hfirst
    rw [leaves_of_ne_nil (List.ne_nil_of_mem hmem)] at hleaves
    have hin (c : Node) (hc : c ∈ cs) : c.InOrder :=
      ih c hc (hleaves.of_sublist (List.sublist_flatten_of_mem (List.mem_map_of_mem hc)))
    have hrow := pairwise_of_leavesInOrder hparts hleaves
    have hwithin (c : Node) (hc : c ∈ cs) :=
      within_of_pairwise hfirst hlast hrow (fun c hc => (hin c hc).startLine_le_endLine) hc
    refine .mk r k t ?_ hwithin hrow hin
    exact (hin first hmem).startLine_le_endLine.trans (hwithin first hmem).2

end Node

/-! ## Pages -/

/-- The leaves of lexemes begin where the lexemes begin. -/
lemma Lexeme.le_startLine_of_mem_leavesFrom {line : Nat} {ls : List Lexeme} :
    ∀ l ∈ leavesFrom line ls, line ≤ l.startLine := by
  fun_induction leavesFrom line ls with
  | case1 line =>
    intro l hl
    rw [List.mem_singleton.1 hl]
  | case2 line l ls next hblank ih => exact fun m hm => (Nat.le_add_right _ _).trans (ih m hm)
  | case3 line l ls next hblank ih =>
    refine List.forall_mem_cons.2 ⟨Nat.le_refl _, fun m hm => ?_⟩
    exact (Nat.le_add_right _ _).trans (ih m hm)

/-- The leaves of lexemes follow one another. -/
lemma Lexeme.leavesInOrder_leavesFrom (line : Nat) (ls : List Lexeme) :
    LeavesInOrder (leavesFrom line ls) := by
  refine ⟨fun l hl => (endLine_le_of_mem_leavesFrom l hl).1, ?_⟩
  fun_induction leavesFrom line ls with
  | case1 => exact List.pairwise_singleton _ _
  | case2 line l ls next hblank ih => exact ih
  | case3 line l ls next hblank ih =>
    exact List.pairwise_cons.2 ⟨le_startLine_of_mem_leavesFrom, ih⟩

/-- The lines of the tree of a page are in order. -/
theorem Node.inOrder_ofSource (source : String) : (ofSource source).InOrder := by
  obtain ⟨hbegin, hwell⟩ := Fragment.isPrefix_leaves_ofTokens Token.wellFormed_of_mem_ofSource
  set parts := (Fragment.ofTokens (Token.ofSource source)).map Piece.node with hparts
  have hwell : ∀ c ∈ parts, c.WellFormed := by
    intro c hc
    obtain ⟨p, hp, rfl⟩ := List.mem_map.1 hc
    exact (hwell p hp).node
  have hsub : (parts.flatMap leaves).Sublist (Lexeme.leavesFrom 1 (Lexeme.scan source)) := by
    rw [hparts, List.flatMap_map]
    refine hbegin.sublist.trans ?_
    rw [Token.ofSource, Token.leaves_locate]
    exact List.Sublist.refl _
  have hleaves : LeavesInOrder (parts.flatMap leaves) :=
    (Lexeme.leavesInOrder_leavesFrom 1 _).of_sublist hsub
  refine .mk _ _ _ (Nat.le_add_left 1 _) (fun c hc => ?_) (pairwise_of_leavesInOrder hwell hleaves)
    fun c hc => ?_
  · -- the leaves stand on the lines of the page
    obtain ⟨⟨l, hl, hstart⟩, m, hm, hend⟩ := (hwell c hc).exists_leaves
    have hl := hsub.subset (List.mem_flatMap.2 ⟨c, hc, hl⟩)
    have hm := hsub.subset (List.mem_flatMap.2 ⟨c, hc, hm⟩)
    obtain ⟨-, hlast⟩ := Lexeme.endLine_le_of_mem_leavesFrom m hm
    rw [Lexeme.flatMap_text_scan, Token.lineFeeds, Nat.add_comm] at hlast
    exact ⟨hstart ▸ Lexeme.le_startLine_of_mem_leavesFrom l hl, hend ▸ hlast⟩
  · exact (hwell c hc).inOrder
      (hleaves.of_sublist (List.sublist_flatten_of_mem (List.mem_map_of_mem hc)))

end PhpCalls.Syntax
