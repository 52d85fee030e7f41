import PhpCalls.Facts.Scope
import PhpCalls.Proofs.Syntax.DocumentOrder

set_option autoImplicit false

/-!
# The lines of namespaces without braces

A namespace definition without braces governs the lines up to the next definition, and the last one
governs the rest of the file. Which namespace counts at a line is asked of the extents: of those
that hold the line, the one that starts last. The two fit together. Where no definition has braces,
the answer at a line of the file is the last definition that does not start behind the line, also if
several definitions share a line; and where they share none, the extents lie side by side without a
gap.

## Main definitions

* `NamespaceExtent.Governs`: a line lies in an extent.

## Main results

* `namespaceAt_eq_getLast?`: among extents in the order of their starts the last one around a line
  counts.
* `NamespaceExtent.getLast?_filter_ofDefinitions`: without braces, this is the last one that has
  started.
* `NamespaceExtent.pairwise_endLine_lt`: definitions on different lines have extents one behind the
  other.
* `namespaces_tile_lines`: the lines of a file, as its definitions divide them.
-/

namespace PhpCalls

open Syntax

/-! ## Looking up a line -/

namespace NamespaceExtent

/-- The line lies in the extent. -/
def Governs (n : NamespaceExtent) (line : Nat) : Prop := n.startLine ≤ line ∧ line ≤ n.endLine

instance (n : NamespaceExtent) (line : Nat) : Decidable (n.Governs line) :=
  inferInstanceAs (Decidable (_ ∧ _))

end NamespaceExtent

variable {ns : List NamespaceExtent} {line : Nat}

/-- One more extent at the end is chosen if it holds the line and does not start before the one
chosen so far. -/
lemma namespaceAt_concat (ns : List NamespaceExtent) (n : NamespaceExtent) (line : Nat) :
    namespaceAt (ns ++ [n]) line =
      if n.Governs line then
        match namespaceAt ns line with
        | some b => if b.startLine ≤ n.startLine then some n else some b
        | none => some n
      else namespaceAt ns line := by
  rw [namespaceAt, List.filter_append, List.foldl_append]
  by_cases h : n.Governs line
  · rw [if_pos h, List.filter_cons_of_pos (by simpa [NamespaceExtent.Governs] using h)]
    rfl
  · rw [if_neg h, List.filter_cons_of_neg (by simpa [NamespaceExtent.Governs] using h)]
    rfl

/-- Among extents in the order of their starts, the last one around the line is chosen. -/
theorem namespaceAt_eq_getLast? (h : ns.Pairwise fun m n => m.startLine ≤ n.startLine)
    (line : Nat) : namespaceAt ns line = (ns.filter fun n => n.Governs line).getLast? := by
  induction ns using List.reverseRecOn with
  | nil => rfl
  | append_singleton ns n ih =>
    obtain ⟨hns, -, hlast⟩ := List.pairwise_append.1 h
    rw [namespaceAt_concat, ih hns, List.filter_append]
    split_ifs with hn
    · rw [List.filter_cons_of_pos (by simpa using hn), List.filter_nil, List.getLast?_concat]
      cases hbest : (ns.filter fun n => n.Governs line).getLast? with
      | none => rfl
      | some b =>
        have hb := (List.mem_filter.1 (List.mem_of_getLast? hbest)).1
        exact if_pos (hlast b hb n (List.mem_singleton_self n))
    · rw [List.filter_cons_of_neg (by simpa using hn), List.filter_nil, List.append_nil]

/-! ## Extents without braces -/

namespace NamespaceExtent

variable {fileEnd : Nat} {ds : List Node}

/-- The first of several definitions has the first extent. -/
lemma exists_ofDefinitions_cons (fileEnd : Nat) (d : Node) (ds : List Node) :
    ∃ last, ofDefinitions fileEnd (d :: ds) =
      ⟨nameOf d, d.startLine, last⟩ :: ofDefinitions fileEnd ds := by
  cases ds with
  | nil => exact ⟨_, rfl⟩
  | cons next ds => exact ⟨_, rfl⟩

/-- Every definition has one extent, with its name and its first line. -/
lemma map_ofDefinitions (fileEnd : Nat) (ds : List Node) :
    (ofDefinitions fileEnd ds).map (fun n => (n.name, n.startLine)) = ds.map fun d =>
      (nameOf d, d.startLine) := by
  induction ds with
  | nil => rfl
  | cons d ds ih =>
    obtain ⟨last, hcons⟩ := exists_ofDefinitions_cons fileEnd d ds
    rw [hcons, List.map_cons, ih, List.map_cons]

/-- Extents begin where their definitions begin. -/
lemma map_startLine_ofDefinitions (fileEnd : Nat) (ds : List Node) :
    (ofDefinitions fileEnd ds).map startLine = ds.map Node.startLine := by
  have h := congrArg (List.map Prod.snd) (map_ofDefinitions fileEnd ds)
  rwa [List.map_map, List.map_map] at h

/-- What is said of the first line of some extent is said of that of some definition. -/
lemma exists_mem_ofDefinitions_iff {fileEnd : Nat} {ds : List Node} (p : Nat → Prop) :
    (∃ n ∈ ofDefinitions fileEnd ds, p n.startLine) ↔ ∃ d ∈ ds, p d.startLine := by
  have hmap : (∃ s ∈ (ofDefinitions fileEnd ds).map startLine, p s) ↔
      ∃ s ∈ ds.map Node.startLine, p s := by
    rw [map_startLine_ofDefinitions]
  simpa using hmap

/-- A relation of first lines carries over from the definitions to their extents. -/
lemma pairwise_ofDefinitions {r : Nat → Nat → Prop}
    (h : ds.Pairwise fun d e => r d.startLine e.startLine) :
    (ofDefinitions fileEnd ds).Pairwise fun m n => r m.startLine n.startLine := by
  rw [← List.pairwise_map, map_startLine_ofDefinitions, List.pairwise_map]
  exact h

/-- The first extent of definitions without braces, if another definition follows. -/
lemma ofDefinitions_cons_cons {d next : Node} (hd : isBraced d = false) :
    ofDefinitions fileEnd (d :: next :: ds) =
      ⟨nameOf d, d.startLine, max (next.startLine - 1) d.startLine⟩ :: ofDefinitions fileEnd
        (next :: ds) := by
  rw [ofDefinitions, hd]
  rfl

/-- At a line of the file, the last extent around it is the last one that has started.

**Proof sketch.** By induction on the definitions. If the second of them has started, the first one
is not the last in either list; else the first extent ends before the second definition, so behind
the line. -/
theorem getLast?_filter_ofDefinitions (hplain : ∀ d ∈ ds, isBraced d = false)
    (hordered : ds.Pairwise fun d e => d.startLine ≤ e.startLine) (hline : line ≤ fileEnd) :
    ((ofDefinitions fileEnd ds).filter fun n => n.Governs line).getLast? =
      ((ofDefinitions fileEnd ds).filter fun n => n.startLine ≤ line).getLast? := by
  induction ds with
  | nil => rfl
  | cons d ds ih =>
    obtain ⟨hd, hplain⟩ := List.forall_mem_cons.1 hplain
    obtain ⟨-, hordered⟩ := List.pairwise_cons.1 hordered
    specialize ih hplain hordered
    cases ds with
    | nil =>
      have hall : ∀ n ∈ ofDefinitions fileEnd [d], n.Governs line ↔ n.startLine ≤ line := by
        intro n hn
        rw [ofDefinitions, hd, ofDefinitions, List.mem_singleton] at hn
        subst hn
        exact ⟨And.left, fun h => ⟨h, hline.trans (le_max_left _ _)⟩⟩
      rw [List.filter_congr fun n hn => decide_eq_decide.2 (hall n hn)]
    | cons next ds =>
      rw [ofDefinitions_cons_cons hd]
      set e : NamespaceExtent := ⟨nameOf d, d.startLine, max (next.startLine - 1) d.startLine⟩
      set rest := ofDefinitions fileEnd (next :: ds) with hrest
      by_cases hnext : next.startLine ≤ line
      · -- the second definition has started, so neither list ends with the first
        have hstarted : (rest.filter fun n => n.startLine ≤ line) ≠ [] := by
          obtain ⟨last, hcons⟩ := exists_ofDefinitions_cons fileEnd next ds
          rw [hrest, hcons, List.filter_cons_of_pos (by simpa using hnext)]
          exact List.cons_ne_nil _ _
        have hgoverned : (rest.filter fun n => n.Governs line) ≠ [] := by
          rw [ne_eq, ← List.getLast?_eq_none_iff, ih, List.getLast?_eq_none_iff]
          exact hstarted
        rw [← List.singleton_append, List.filter_append, List.filter_append,
          List.getLast?_append_of_ne_nil _ hgoverned, List.getLast?_append_of_ne_nil _ hstarted, ih]
      · have hlater : ∀ n ∈ rest, ¬ n.startLine ≤ line := by
          intro n hn
          obtain ⟨c, hc, hstart⟩ := (exists_mem_ofDefinitions_iff (n.startLine = ·)).1 ⟨n, hn, rfl⟩
          rw [hstart]
          rcases List.mem_cons.1 hc with rfl | hc
          · exact hnext
          · exact fun h => hnext (((List.pairwise_cons.1 hordered).1 c hc).trans h)
        have hfirst : e.Governs line ↔ e.startLine ≤ line := by
          refine ⟨And.left, fun h => ⟨h, ?_⟩⟩
          change line ≤ max (next.startLine - 1) d.startLine
          omega
        have hall : ∀ n ∈ e :: rest, n.Governs line ↔ n.startLine ≤ line := by
          refine List.forall_mem_cons.2 ⟨hfirst, fun n hn => ?_⟩
          exact iff_of_false (fun h => hlater n hn h.1) (hlater n hn)
        rw [List.filter_congr fun n hn => decide_eq_decide.2 (hall n hn)]

/-- Definitions on different lines have extents one behind the other. -/
theorem pairwise_endLine_lt (hplain : ∀ d ∈ ds, isBraced d = false)
    (hordered : ds.Pairwise fun d e => d.startLine < e.startLine) :
    (ofDefinitions fileEnd ds).Pairwise fun m n => m.endLine < n.startLine := by
  induction ds with
  | nil => exact .nil
  | cons d ds ih =>
    obtain ⟨hd, hplain⟩ := List.forall_mem_cons.1 hplain
    obtain ⟨hfirst, hordered⟩ := List.pairwise_cons.1 hordered
    cases ds with
    | nil => exact List.pairwise_singleton _ _
    | cons next ds =>
      rw [ofDefinitions_cons_cons hd]
      refine List.pairwise_cons.2 ⟨fun n hn => ?_, ih hplain hordered⟩
      have hnext : next.startLine ≤ n.startLine := by
        have hstarts : (ofDefinitions fileEnd (next :: ds)).Pairwise fun m n =>
            m.startLine ≤ n.startLine :=
          pairwise_ofDefinitions (hordered.imp fun h => Nat.le_of_lt h)
        obtain ⟨last, hcons⟩ := exists_ofDefinitions_cons fileEnd next ds
        rw [hcons] at hn hstarts
        rcases List.mem_cons.1 hn with rfl | hn
        · exact Nat.le_refl _
        · exact (List.pairwise_cons.1 hstarts).1 n hn
      have hlt := hfirst next List.mem_cons_self
      change max (next.startLine - 1) d.startLine < n.startLine
      omega

/-! ## Files -/

variable {root : Node} {n : NamespaceExtent}

/-- The namespace definitions of a file, in its order. -/
def definitions (root : Node) : List Node := root.childrenOfKind .namespaceDefinition

/-- The definitions of a tree in document order start in that order. -/
lemma pairwise_startLine_definitions (h : root.InOrder) :
    (definitions root).Pairwise fun d e => d.startLine ≤ e.startLine := by
  refine (h.row.imp_of_mem fun {c d} hc _ hcd => ?_).sublist List.filter_sublist
  exact (h.of_mem_children hc).startLine_le_endLine.trans hcd

/-- The extents of a tree are in the order of their first lines if its definitions are. -/
lemma pairwise_ofTree (h : (definitions root).Pairwise fun d e => d.startLine ≤ e.startLine) :
    (ofTree root).Pairwise fun m n => m.startLine ≤ n.startLine :=
  pairwise_ofDefinitions h

/-- In a file without braces, the last extent that has started is chosen. -/
lemma namespaceAt_ofTree (hplain : ∀ d ∈ definitions root, isBraced d = false)
    (hordered : (definitions root).Pairwise fun d e => d.startLine ≤ e.startLine)
    (hline : line ≤ root.endLine) :
    namespaceAt (ofTree root) line =
      ((ofTree root).filter fun n => n.startLine ≤ line).getLast? := by
  rw [namespaceAt_eq_getLast? (pairwise_ofTree hordered)]
  exact getLast?_filter_ofDefinitions hplain hordered hline

/-- The extent that is found for a line is one of the tree and governs the line. -/
lemma governs_of_namespaceAt
    (hordered : (definitions root).Pairwise fun d e => d.startLine ≤ e.startLine)
    (h : namespaceAt (ofTree root) line = some n) : n ∈ ofTree root ∧ n.Governs line := by
  rw [namespaceAt_eq_getLast? (pairwise_ofTree hordered)] at h
  simpa using List.mem_filter.1 (List.mem_of_getLast? h)

/-- The extent belongs to the last definition that does not start behind the line. -/
def IsLatest (root : Node) (line : Nat) (n : NamespaceExtent) : Prop :=
  ∃ before d after, definitions root = before ++ d :: after ∧ d.startLine ≤ line ∧
    (∀ e ∈ after, line < e.startLine) ∧
    (ofTree root)[before.length]? = some n ∧ n.name = nameOf d ∧ n.startLine = d.startLine

/-- The last extent that begins at or before a line is that of the latest definition. -/
lemma isLatest_of_getLast?
    (h : ((ofTree root).filter fun n => n.startLine ≤ line).getLast? = some n) :
    IsLatest root line n := by
  obtain ⟨earlier, hfilter⟩ := List.getLast?_eq_some_iff.1 h
  obtain ⟨skipped, rest, hsplit, -, hrest⟩ := List.filter_eq_append_iff.1 hfilter
  obtain ⟨between, later, rfl, -, hstart, hlater⟩ := List.filter_eq_cons_iff.1 hrest
  rw [← List.append_assoc] at hsplit
  generalize skipped ++ between = before at hsplit
  -- the definitions are cut where the extents are
  have hmap := map_ofDefinitions root.endLine (definitions root)
  rw [show ofDefinitions root.endLine (definitions root) = before ++ n :: later from hsplit,
    List.map_append, List.map_cons] at hmap
  obtain ⟨before', tail, hdefs, hbefore, htail⟩ := List.map_eq_append_iff.1 hmap.symm
  obtain ⟨d, after, rfl, hd, hafter⟩ := List.map_eq_cons_iff.1 htail
  obtain ⟨hname, hfirst⟩ := Prod.mk.inj hd
  have hlength : before'.length = before.length := by simpa using congrArg List.length hbefore
  refine ⟨before', d, after, hdefs, by simpa [hfirst] using hstart, fun e he => ?_, ?_, hname.symm,
    hfirst.symm⟩
  · have hmem : (nameOf e, e.startLine) ∈ later.map fun n => (n.name, n.startLine) := by
      rw [← hafter]
      exact List.mem_map_of_mem he
    obtain ⟨m, hm, hme⟩ := List.mem_map.1 hmem
    have hbehind := List.filter_eq_nil_iff.1 hlater m hm
    rw [← (Prod.mk.inj hme).2]
    simpa using hbehind
  · rw [hsplit, hlength, List.getElem?_append_right (Nat.le_refl _), Nat.sub_self,
      List.getElem?_cons_zero]

end NamespaceExtent

open NamespaceExtent

/-- **Namespaces without braces divide a file.** If no namespace definition of a file has braces,
and they start one after the other or on one line, no namespace counts at a line before the first of
them, and at every other line of the file the last one counts that does not start behind it. If they
start on different lines, no line lies in two extents, and every line from the first definition to
the end of the file lies in one. -/
theorem namespaces_tile_lines {root : Node} (hplain : ∀ d ∈ definitions root, isBraced d = false)
    (hordered : (definitions root).Pairwise fun d e => d.startLine ≤ e.startLine) :
    (∀ line ≤ root.endLine,
      ((∀ first ∈ (definitions root).head?, line < first.startLine) →
        namespaceAt (ofTree root) line = none) ∧
      ((∃ first ∈ (definitions root).head?, first.startLine ≤ line) →
        ∃ n, namespaceAt (ofTree root) line = some n ∧ IsLatest root line n)) ∧
    ((definitions root).Pairwise (fun d e => d.startLine ≠ e.startLine) →
      (ofTree root).Pairwise (fun m n => ∀ line, ¬ (m.Governs line ∧ n.Governs line)) ∧
      ∀ first ∈ (definitions root).head?, ∀ line, first.startLine ≤ line → line ≤ root.endLine →
        ∃ n ∈ ofTree root, n.Governs line) := by
  have hlookup :
      ∀ line ≤ root.endLine, (∃ first ∈ (definitions root).head?, first.startLine ≤ line) →
      ∃ n, namespaceAt (ofTree root) line = some n ∧ IsLatest root line n := by
    rintro line hline ⟨first, hfirst, hstart⟩
    obtain ⟨n, hn, hstarted⟩ :=
      (exists_mem_ofDefinitions_iff (· ≤ line)).2 ⟨first, List.mem_of_head? hfirst, hstart⟩
    have hne : ((ofTree root).filter fun n => n.startLine ≤ line) ≠ [] :=
      List.ne_nil_of_mem (List.mem_filter.2 ⟨hn, by simpa using hstarted⟩)
    have hlast := List.getLast?_eq_some_getLast hne
    exact ⟨_, (namespaceAt_ofTree hplain hordered hline).trans hlast, isLatest_of_getLast? hlast⟩
  refine ⟨fun line hline => ⟨fun hbefore => ?_, hlookup line hline⟩, fun hdistinct => ⟨?_, ?_⟩⟩
  -- an extent that has started has a definition, and the first one starts no later
  · rw [namespaceAt_ofTree hplain hordered hline, List.getLast?_eq_none_iff, List.filter_eq_nil_iff]
    intro n hn hstarted
    obtain ⟨d, hd, hstart⟩ : ∃ d ∈ definitions root, d.startLine ≤ line :=
      (exists_mem_ofDefinitions_iff (· ≤ line)).1 ⟨n, hn, of_decide_eq_true hstarted⟩
    obtain ⟨first, rest, hdefs⟩ := List.exists_cons_of_ne_nil (List.ne_nil_of_mem hd)
    rw [hdefs] at hd hordered hbefore
    have hlt : line < first.startLine := hbefore first rfl
    rcases List.mem_cons.1 hd with rfl | hd
    · omega
    · have hle := (List.pairwise_cons.1 hordered).1 d hd
      omega
  · have hstrict := (hordered.and hdistinct).imp fun h => Nat.lt_of_le_of_ne h.1 h.2
    refine (pairwise_endLine_lt hplain hstrict).imp fun {m n} hmn line h => ?_
    exact absurd (h.2.1.trans h.1.2) (Nat.not_le_of_lt hmn)
  · intro first hfirst line hstart hline
    obtain ⟨n, hn, -⟩ := hlookup line hline ⟨first, hfirst, hstart⟩
    exact ⟨n, governs_of_namespaceAt hordered hn⟩

/-- A page with two definitions on one line and one on another. -/
def sharedStart : String := "<?php\nnamespace A; namespace B;\nf();\nnamespace C;\ng();\n"

/-- A page whose definitions start on different lines. -/
def ownStarts : String := "<?php\nf();\nnamespace A;\nnamespace B\\C;\ng();\n"

/-- On the line behind two definitions that share one, the second counts; and the lines of
definitions that share none are divided. -/
theorem namespaces_tile_lines_pages :
    ((∀ d ∈ definitions (Node.ofSource sharedStart), isBraced d = false) ∧
      ∃ n, namespaceAt (ofTree (Node.ofSource sharedStart)) 3 = some n ∧
        IsLatest (Node.ofSource sharedStart) 3 n) ∧
    (definitions (Node.ofSource ownStarts)).Pairwise (fun d e => d.startLine ≠ e.startLine) ∧
      (ofTree (Node.ofSource ownStarts)).Pairwise
        (fun m n => ∀ line, ¬ (m.Governs line ∧ n.Governs line)) ∧
      ∃ n ∈ ofTree (Node.ofSource ownStarts), n.Governs 6 := by
  have hshared : (definitions (Node.ofSource sharedStart)).all (fun d => !isBraced d) = true ∧
      ((definitions (Node.ofSource sharedStart)).head?.any fun d => d.startLine ≤ 3) = true ∧
      3 ≤ (Node.ofSource sharedStart).endLine := by
    decide +kernel
  have hown : (definitions (Node.ofSource ownStarts)).all (fun d => !isBraced d) = true ∧
      ((definitions (Node.ofSource ownStarts)).head?.any fun d => d.startLine ≤ 6) = true ∧
      6 ≤ (Node.ofSource ownStarts).endLine ∧
      (definitions (Node.ofSource ownStarts)).Pairwise (fun d e => d.startLine ≠ e.startLine) := by
    decide +kernel
  obtain ⟨hplain, hfirst, hline⟩ := hshared
  obtain ⟨hplain', hfirst', hline', hdistinct⟩ := hown
  have hbare : ∀ d ∈ definitions (Node.ofSource sharedStart), isBraced d = false := by
    simpa using hplain
  have hbare' : ∀ d ∈ definitions (Node.ofSource ownStarts), isBraced d = false := by
    simpa using hplain'
  obtain ⟨hlookup, -⟩ :=
    namespaces_tile_lines hbare (pairwise_startLine_definitions (Node.inOrder_ofSource sharedStart))
  obtain ⟨-, htile⟩ :=
    namespaces_tile_lines hbare' (pairwise_startLine_definitions (Node.inOrder_ofSource ownStarts))
  refine ⟨⟨hbare, (hlookup 3 hline).2 ?_⟩, hdistinct, (htile hdistinct).1, ?_⟩
  · simpa [Option.any_eq_true] using hfirst
  · obtain ⟨first, hhead, hstart⟩ : ∃ first, (definitions (Node.ofSource ownStarts)).head? =
      some first ∧
        first.startLine ≤ 6 := by simpa [Option.any_eq_true] using hfirst'
    exact (htile hdistinct).2 first hhead 6 hstart hline'

end PhpCalls
