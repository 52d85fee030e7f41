import PhpCalls.Facts.Imports
import PhpCalls.Proofs.Text

set_option autoImplicit false

/-!
# Parentheses around an expression

The file that an expression includes may stand in parentheses, and these again in others, with
blanks in between. They are taken off by offsets: the one of the parenthesis that closes the first
is looked for, and if it is that of the last byte, what is between the two is cut out and trimmed.
Here it is shown what this comes to. Whether two parentheses are a pair is said by counting, without
a scan, and the layers around a text by an inductive relation, without offsets.

## Main definitions

* `Parens.Closes`: characters behind open parentheses that close all of them, and none before its
  time.
* `Parens.Enclosed`: a text whose first and last characters are a pair of parentheses.
* `Parens.Wrapped`: a text with a number of layers of parentheses around it.
* `Parens.Trimmed`: a text with no blank at its ends.

## Main results

* `Parens.closingOffset?_eq_some_iff`: the offset at which the scan stops.
* `Parens.peel?_of_enclosed`, `Parens.peel?_of_not_enclosed`: one turn of the loop, and its end.
* `Import.isSome_ofInclude?_iff`: every expression that includes a file has its record.
* `stripParens_peels_layers`: an expression is the result with layers around it, and the result has
  none.
-/

namespace PhpCalls

namespace Parens

variable {m n k : Nat} {c : Char} {cs r lead trail inner : List Char}

/-! ## Counting -/

/-- Behind `n` open parentheses, no part from the start on closes more than are open, and the whole
closes all of them. -/
structure Closes (n : Nat) (cs : List Char) : Prop where
  bounded (begun : List Char) (h : begun <+: cs) : begun.count ')' ≤ n + begun.count '('
  settled : cs.count ')' = n + cs.count '('

/-- At the end of a text everything is closed exactly if nothing is open. -/
lemma closes_nil : Closes n [] ↔ n = 0 := by
  refine ⟨fun h => by simpa using h.settled.symm, ?_⟩
  rintro rfl
  exact ⟨fun begun hbegun => by simp [List.prefix_nil.1 hbegun], rfl⟩

/-- A character in front changes how many parentheses are open, from `n` to `m`. -/
lemma closes_cons (hstep : ∀ l : List Char,
      (c :: l).count ')' + (m + l.count '(') = l.count ')' + (n + (c :: l).count '(')) :
    Closes n (c :: cs) ↔ Closes m cs := by
  have hwhole := hstep cs
  constructor
  · intro h
    refine ⟨fun begun hbegun => ?_, by have := h.settled; omega⟩
    have hbound := h.bounded (c :: begun) (List.cons_prefix_cons.2 ⟨rfl, hbegun⟩)
    have hpart := hstep begun
    omega
  · intro h
    refine ⟨fun begun hbegun => ?_, by have := h.settled; omega⟩
    rcases List.prefix_cons_iff.1 hbegun with rfl | ⟨rest, rfl, hrest⟩
    · exact Nat.zero_le _
    · have hbound := h.bounded rest hrest
      have hpart := hstep rest
      omega

/-- An opening parenthesis leaves one more to close. -/
lemma closes_cons_open : Closes n ('(' :: cs) ↔ Closes (n + 1) cs := by
  refine closes_cons fun l => ?_
  rw [List.count_cons_self, List.count_cons_of_ne (by decide)]
  omega

/-- A closing parenthesis leaves one less to close. -/
lemma closes_cons_close : Closes (n + 1) (')' :: cs) ↔ Closes n cs := by
  refine closes_cons fun l => ?_
  rw [List.count_cons_self, List.count_cons_of_ne (by decide)]
  omega

/-- Where nothing is open, nothing can be closed. -/
lemma not_closes_zero_cons_close : ¬ Closes 0 (')' :: cs) := by
  intro h
  have hbound := h.bounded [')'] (by simp)
  exact absurd hbound (by decide)

/-- Any other character leaves what is open. -/
lemma closes_cons_other (hopen : c ≠ '(') (hclose : c ≠ ')') : Closes n (c :: cs) ↔ Closes n cs :=
  closes_cons fun l => by rw [List.count_cons_of_ne hopen, List.count_cons_of_ne hclose]

/-! ## Pairs, layers and blanks -/

/-- The first character is a parenthesis, and the last is the one that closes it. -/
def Enclosed (cs : List Char) : Prop :=
  ∃ inner, cs = '(' :: (inner ++ [')']) ∧ Closes 0 inner

/-- The text `r` with `k` layers around it. A layer is a pair of parentheses, with blanks between
them and what they enclose. -/
inductive Wrapped (r : List Char) : Nat → List Char → Prop
  | bare : Wrapped r 0 r
  | layer {k : Nat} {lead inner trail : List Char} (hlead : ∀ c ∈ lead, Text.isBlank c = true)
      (htrail : ∀ c ∈ trail, Text.isBlank c = true) (hcloses : Closes 0 (lead ++ (inner ++ trail)))
      (hinner : Wrapped r k inner) : Wrapped r (k + 1) ('(' :: (lead ++ (inner ++ trail) ++ [')']))

/-- There is no blank at either end. -/
structure Trimmed (cs : List Char) : Prop where
  head (c : Char) (h : cs.head? = some c) : Text.isBlank c = false
  last (c : Char) (h : cs.getLast? = some c) : Text.isBlank c = false

/-- Dropping the blanks around a text leaves none at its ends. -/
lemma trimmed_dropAround (cs : List Char) : Trimmed (Text.dropAround Text.isBlank cs) := by
  constructor
  · intro c h
    obtain ⟨rest, hrest⟩ := List.head?_eq_some_iff.1 h
    exact Text.head_dropAround hrest
  · intro c h
    obtain ⟨hne, rfl⟩ := List.mem_getLast?_eq_getLast h
    have hlast := List.rdropWhile_last_not _ _ hne
    exact Bool.not_eq_true _ ▸ hlast

/-- Nothing is trimmed from a text with no blank at its ends. -/
lemma Trimmed.dropAround_eq (h : Trimmed cs) : Text.dropAround Text.isBlank cs = cs := by
  have hfront : cs.dropWhile Text.isBlank = cs := by
    cases cs with
    | nil => rfl
    | cons c cs => exact List.dropWhile_cons_of_neg (by simp [h.head c rfl])
  change (cs.dropWhile Text.isBlank).rdropWhile Text.isBlank = cs
  rw [hfront, List.rdropWhile_eq_self_iff]
  intro hne
  simp [h.last _ (List.getLast_mem_getLast? hne)]

/-- A text in parentheses has no blank at its ends. -/
lemma trimmed_parens (cs : List Char) : Trimmed ('(' :: (cs ++ [')'])) := by
  constructor
  · intro c h
    cases h
    decide
  · intro c h
    rw [← List.cons_append, List.getLast?_concat] at h
    cases h
    decide

/-- A text that is wrapped in parentheses has no blanks at its ends if what is inside has none. -/
lemma Wrapped.trimmed (h : Wrapped r k cs) (hr : Trimmed r) : Trimmed cs := by
  cases h with
  | bare => exact hr
  | layer => exact trimmed_parens _

/-! ## The scan for the closing parenthesis -/

/-- A list is cut at a closing parenthesis, which is its first character or stands in the rest. -/
lemma exists_split_cons {p : List Char → Prop} :
    (∃ inner behind, c :: cs = inner ++ ')' :: behind ∧ p inner) ↔
      (c = ')' ∧ p []) ∨ ∃ inner behind, cs = inner ++ ')' :: behind ∧ p (c :: inner) := by
  constructor
  · rintro ⟨inner, behind, hsplit, hp⟩
    rcases List.cons_eq_append_iff.1 hsplit with ⟨rfl, hbehind⟩ | ⟨inner, rfl, hcs⟩
    · exact .inl ⟨(List.cons.inj hbehind).1.symm, hp⟩
    · exact .inr ⟨inner, behind, hcs, hp⟩
  · rintro (⟨rfl, hp⟩ | ⟨inner, behind, rfl, hp⟩)
    · exact ⟨[], cs, rfl, hp⟩
    · exact ⟨c :: inner, behind, rfl, hp⟩

/-- The size of a text is that of its first character and that of the rest. -/
lemma utf8ByteSize_cons :
    (String.ofList (c :: cs)).utf8ByteSize = c.utf8Size + (String.ofList cs).utf8ByteSize := by
  rw [String.ofList_cons, String.utf8ByteSize_append, String.utf8ByteSize_singleton]

/-- The size of a text that is divided at a closing parenthesis, which takes one byte. -/
lemma utf8ByteSize_append_close (inner behind : List Char) :
    (String.ofList (inner ++ ')' :: behind)).utf8ByteSize =
      (String.ofList inner).utf8ByteSize + 1 + (String.ofList behind).utf8ByteSize := by
  rw [String.ofList_append, String.utf8ByteSize_append, utf8ByteSize_cons, Nat.add_assoc]
  rfl

/-- The scan stops at the parenthesis that closes what is open, and says how many bytes are before
it. -/
theorem closingOffset?_eq_some_iff {depth offset found : Nat} :
    closingOffset? (depth + 1) offset cs = some found ↔
      ∃ inner behind, cs = inner ++ ')' :: behind ∧
        (Closes depth inner ∧ offset + (String.ofList inner).utf8ByteSize = found) := by
  induction cs generalizing depth offset with
  | nil => simp [closingOffset?]
  | cons c cs ih =>
    rw [exists_split_cons]
    simp only [closingOffset?]
    by_cases hopen : c = '('
    · subst hopen
      simp only [closes_cons_open, utf8ByteSize_cons, ← Nat.add_assoc, ← ih]
      simp
    by_cases hclose : c = ')'
    · subst hclose
      cases depth with
      | zero => simp [closes_nil, not_closes_zero_cons_close]
      | succ depth =>
        simp only [closes_cons_close, utf8ByteSize_cons, ← Nat.add_assoc, ← ih]
        simp [closes_nil]
    · simp only [closes_cons_other hopen hclose, utf8ByteSize_cons, ← Nat.add_assoc, ← ih]
      simp [hopen, hclose]

/-- The scan stops at the last byte just if this closes the first. -/
lemma closingOffset?_eq_last_iff {s : String} {last : Nat} (hfront : s.front? = some '(')
    (hlast : s.utf8ByteSize = last + 1) :
    closingOffset? 0 0 s.toList = some last ↔ Enclosed s.toList := by
  rw [String.front?_eq, List.head?_eq_some_iff] at hfront
  obtain ⟨rest, hs⟩ := hfront
  have hbytes : (String.ofList rest).utf8ByteSize = last := by
    rw [← String.ofList_toList (s := s), hs, utf8ByteSize_cons, Nat.add_comm] at hlast
    exact Nat.succ.inj hlast
  have hscan : closingOffset? 0 0 s.toList = closingOffset? (0 + 1) 1 rest := by
    rw [hs]
    simp only [closingOffset?, if_true]
    rfl
  rw [hscan, closingOffset?_eq_some_iff, hs]
  constructor
  · rintro ⟨inner, behind, rfl, hcloses, hfound⟩
    -- no byte is left behind the one at which the scan stops
    rw [utf8ByteSize_append_close] at hbytes
    have hbehind : (String.ofList behind).utf8ByteSize = 0 := by omega
    rw [String.utf8ByteSize_eq_zero_iff, String.ofList_eq_empty_iff] at hbehind
    subst hbehind
    exact ⟨inner, rfl, hcloses⟩
  · rintro ⟨inner, hinner, hcloses⟩
    obtain rfl := (List.cons.inj hinner).2
    refine ⟨inner, [], rfl, hcloses, ?_⟩
    rw [utf8ByteSize_append_close] at hbytes
    rw [← hbytes, Nat.add_comm]
    rfl

/-! ## The loop -/

/-- What is between the parentheses can be cut out. -/
lemma slice?_of_enclosed {s : String} (hs : s.toList = '(' :: (inner ++ [')'])) :
    s.utf8ByteSize = (String.ofList inner).utf8ByteSize + 1 + 1 ∧
      Text.slice? s 1 ((String.ofList inner).utf8ByteSize + 1) = some (String.ofList inner) := by
  obtain rfl : s = "(" ++ String.ofList inner ++ ")" := by
    rw [← String.toList_inj, hs]
    simp
  constructor
  · rw [String.utf8ByteSize_append, String.utf8ByteSize_append, Nat.add_comm "(".utf8ByteSize]
    rfl
  · refine Text.slice?_eq_some_iff.2 ⟨"(", ")", rfl, rfl, ?_⟩
    rw [String.utf8ByteSize_append]
    exact Nat.add_comm _ _

/-- One turn takes a pair of parentheses off. -/
theorem peel?_of_enclosed {s : String} (hs : s.toList = '(' :: (inner ++ [')']))
    (hcloses : Closes 0 inner) : peel? s = peel? (Text.trim (String.ofList inner)) := by
  obtain ⟨hbytes, hslice⟩ := slice?_of_enclosed hs
  have hfront : s.front? = some '(' := by rw [String.front?_eq, hs, List.head?_cons]
  have hscan := (closingOffset?_eq_last_iff hfront hbytes).2 ⟨inner, hs, hcloses⟩
  rw [peel?, if_pos hfront]
  simp only [hbytes, hscan, if_true]
  split
  case h_1 found hfound =>
    rw [hslice] at hfound
    rw [← Option.some.inj hfound]
  case h_2 hnone =>
    rw [hslice] at hnone
    cases hnone

/-- The loop ends where there is no pair of parentheses. -/
theorem peel?_of_not_enclosed {s : String} (h : ¬ Enclosed s.toList) : peel? s = some s := by
  rw [peel?]
  split
  case isFalse => rfl
  case isTrue hfront =>
    cases hbytes : s.utf8ByteSize with
    | zero =>
      rw [String.utf8ByteSize_eq_zero_iff.1 hbytes, String.front?_eq] at hfront
      cases hfront
    | succ last =>
      simp only [closingOffset?_eq_last_iff hfront hbytes, h, if_false]

/-- Every text without blanks at its ends is a core that no pair encloses, with layers around it. -/
theorem exists_wrapped (cs : List Char) (h : Trimmed cs) :
    ∃ r k, Wrapped r k cs ∧ Trimmed r ∧ ¬ Enclosed r := by
  induction hlen : cs.length using Nat.strong_induction_on generalizing cs with
  | _ len ih =>
    by_cases henclosed : Enclosed cs
    · -- the outer layer encloses a shorter text, with the blanks that are trimmed from it
      obtain ⟨inner, rfl, hcloses⟩ := henclosed
      obtain ⟨lead, trail, hlead, htrail, hinner⟩ :=
        Text.exists_append_dropAround Text.isBlank inner
      have hshorter : (Text.dropAround Text.isBlank inner).length < len := by
        have hlength := congrArg List.length hinner
        simp only [List.length_append, List.length_cons] at hlength hlen
        omega
      obtain ⟨r, k, hwrapped, hr⟩ := ih _ hshorter _ (trimmed_dropAround inner) rfl
      rw [hinner] at hcloses
      have hlayer := Wrapped.layer hlead htrail hcloses hwrapped
      rw [← hinner] at hlayer
      exact ⟨r, k + 1, hlayer, hr⟩
    · exact ⟨cs, 0, .bare, h, henclosed⟩

/-- The loop takes all layers off. -/
theorem peel?_of_wrapped {s t : String} (h : Wrapped t.toList k s.toList) (ht : Trimmed t.toList)
    (hbare : ¬ Enclosed t.toList) : peel? s = some t := by
  generalize hcs : s.toList = cs at h
  induction h generalizing s with
  | bare =>
    rw [String.toList_inj] at hcs
    subst hcs
    exact peel?_of_not_enclosed hbare
  | layer hlead htrail hcloses hinner ih =>
    rw [peel?_of_enclosed hcs hcloses]
    refine ih ?_
    rw [Text.trim, String.toList_ofList, String.toList_ofList, Text.dropAround_append hlead htrail,
      (hinner.trimmed ht).dropAround_eq]

/-- Trimming leaves no blanks at the ends. -/
lemma trimmed_trim (e : String) : Trimmed (Text.trim e).toList := by
  rw [Text.trim, String.toList_ofList]
  exact trimmed_dropAround _

/-- Every expression has a result, which is its core. -/
theorem exists_stripParens? (e : String) :
    ∃ r k, stripParens? e = some r ∧ Wrapped r.toList k (Text.trim e).toList ∧ Trimmed r.toList ∧
      ¬ Enclosed r.toList := by
  obtain ⟨cs, k, hwrapped, hcs, hbare⟩ := exists_wrapped _ (trimmed_trim e)
  obtain ⟨r, rfl⟩ : ∃ r : String, r.toList = cs := ⟨String.ofList cs, String.toList_ofList⟩
  exact ⟨r, k, peel?_of_wrapped hwrapped hcs hbare, hwrapped, hcs, hbare⟩

end Parens

/-- No record of an included file is lost on the way: there is one for every expression that
includes a file and has an operand. -/
theorem Import.isSome_ofInclude?_iff (node : Syntax.Node) :
    (Import.ofInclude? node).isSome = true ↔
      (Import.includeKind? node.kind).isSome = true ∧ node.namedChildren ≠ [] := by
  constructor
  · intro h
    obtain ⟨i, hi⟩ := Option.isSome_iff_exists.1 h
    obtain ⟨kind, hkind, hi⟩ := Option.bind_eq_some_iff.1 hi
    obtain ⟨operand, hoperand, -⟩ := Option.bind_eq_some_iff.1 hi
    refine ⟨Option.isSome_iff_exists.2 ⟨kind, hkind⟩, fun hnil => ?_⟩
    rw [hnil] at hoperand
    cases hoperand
  · rintro ⟨hkind, hne⟩
    obtain ⟨kind, hkind⟩ := Option.isSome_iff_exists.1 hkind
    have hoperand := List.getLast?_eq_getLast_of_ne_nil hne
    obtain ⟨path, -, hpath, -⟩ := Parens.exists_stripParens? (node.namedChildren.getLast hne).text
    simp [Import.ofInclude?, hkind, hoperand, hpath]

open Parens in
/-- **What is left of an expression without its parentheses.** Every expression has a result: no
offset is below zero, and what is to be cut out never begins or ends inside a character. The trimmed
expression is the result with some number of layers around it, each a pair of parentheses that match
by counting, with blanks inside. The result has no blank at its ends and no such pair around it, so
nothing more is taken off in a second run. No other text fits this description.

**Proof sketch.** A text is a core with layers by induction on its length. In each turn the scan
finds the last byte just if a layer is left, and the parentheses, of one byte each, give the offsets
of what they enclose. So the loop undoes the layers one by one. -/
theorem stripParens_peels_layers (e : String) :
    ∃ r, stripParens? e = some r ∧ (∃ k, Wrapped r.toList k (Text.trim e).toList) ∧
      Trimmed r.toList ∧ ¬ Enclosed r.toList ∧ stripParens? r = some r ∧
      ∀ r' k, Wrapped r'.toList k (Text.trim e).toList → Trimmed r'.toList → ¬ Enclosed r'.toList →
        r' = r := by
  obtain ⟨r, k, hr, hwrapped, htrimmed, hbare⟩ := exists_stripParens? e
  refine ⟨r, hr, ⟨k, hwrapped⟩, htrimmed, hbare, ?_, ?_⟩
  · have hself : Text.trim r = r := by rw [Text.trim, htrimmed.dropAround_eq, String.ofList_toList]
    rw [stripParens?, hself]
    exact peel?_of_wrapped .bare htrimmed hbare
  · intro r' k' hwrapped' htrimmed' hbare'
    have hr' : stripParens? e = some r' := peel?_of_wrapped hwrapped' htrimmed' hbare'
    exact Option.some.inj (hr'.symm.trans hr)

-- the blank before the quote has three bytes
example : stripParens? " (( \u3000'a.php' )\n) " = some "'a.php'" := by decide +kernel

-- what is left begins and ends with parentheses that are no pair
example : stripParens? "(('a') . ('b'))" = some "('a') . ('b')" := by decide +kernel

end PhpCalls
