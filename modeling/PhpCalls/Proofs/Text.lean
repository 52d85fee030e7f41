import Mathlib.Data.List.DropRight
import Mathlib.Data.List.Infix
import PhpCalls.Text.Basic

set_option autoImplicit false

/-!
# Parts of texts

Search, replacement and trimming go over a text character by character. Here they are described by
parts of lists: what is found is a part, what follows an occurrence is an end, and what is replaced
on one side of a character that the pattern lacks does not depend on the other side.

## Main results

* `Text.contains_iff`: what is found in a text is a part of it.
* `Text.replaceFrom_append_cons`, `Text.replaceFrom_eq_self`: replacement on both sides of a
  character that the pattern lacks, and where there is no occurrence.
* `Text.suffix_of_afterLast`: what follows the last occurrence is an end of the text.
* `Text.dropAround_append`, `Text.head_dropAround`: what trimming leaves.
* `Text.eq_of_append_cons`: the last of two marks can be found again.
* `Text.splitAt_intercalate`, `Text.toList_eq_intercalate_splitAt`: a text and its pieces.
-/

namespace PhpCalls.Text

variable {pattern insert lead trail l m r t : List Char} {c : Char} {p : Char → Bool}

/-! ## Search -/

/-- A pattern occurs in a text exactly if it is a run of its characters. -/
lemma occurs_iff : occurs pattern l = true ↔ pattern <:+: l := by
  induction l with
  | nil => simp [occurs]
  | cons c l ih =>
    rw [occurs, Bool.or_eq_true, ih, List.isPrefixOf_iff_prefix, List.infix_cons_iff]

/-- What is found in a text is a part of it. -/
theorem contains_iff {s part : String} : contains s part = true ↔ part.toList <:+: s.toList :=
  occurs_iff

/-- A text has at most as many characters as bytes. -/
lemma length_toList_le (s : String) : s.toList.length ≤ s.utf8ByteSize := by
  induction s using String.push_induction with
  | empty => simp
  | push s c ih =>
    have hpos : 0 < c.utf8Size := c.utf8Size_pos
    rw [String.toList_push, String.utf8ByteSize_push, List.length_append, List.length_singleton]
    omega

/-! ## Replacement -/

/-- A pattern that begins before a character which it lacks ends before it. -/
lemma isPrefixOf_append_cons (hc : c ∉ pattern) :
    pattern.isPrefixOf (l ++ c :: r) = pattern.isPrefixOf l := by
  induction pattern generalizing l with
  | nil => simp
  | cons x pattern ih =>
    rw [List.mem_cons, not_or] at hc
    obtain ⟨hx, hc⟩ := hc
    cases l with
    | nil => simp [List.isPrefixOf, Ne.symm hx]
    | cons y l => simp only [List.cons_append, List.isPrefixOf, ih hc]

/-- Replacement goes on anew behind a character which the pattern lacks. -/
theorem replaceFrom_append_cons (hpattern : pattern ≠ []) (hc : c ∉ pattern) {n : Nat}
    (hn : n ≤ l.length) :
    replaceFrom pattern insert n (l ++ c :: r) =
      replaceFrom pattern insert n l ++ c :: replaceFrom pattern insert 0 r := by
  induction l generalizing n with
  | nil =>
    obtain rfl : n = 0 := Nat.le_zero.1 hn
    have hfirst : pattern.isPrefixOf (c :: r) = false := by
      have hnil := isPrefixOf_append_cons (l := []) (r := r) hc
      rw [List.nil_append] at hnil
      rw [hnil]
      cases pattern with
      | nil => exact absurd rfl hpattern
      | cons x pattern => rfl
    simp [replaceFrom, hfirst]
  | cons x l ih =>
    cases n with
    | succ n => exact ih (Nat.le_of_succ_le_succ hn)
    | zero =>
      have hsame : pattern.isPrefixOf (x :: (l ++ c :: r)) = pattern.isPrefixOf (x :: l) :=
        isPrefixOf_append_cons (l := x :: l) hc
      rw [List.cons_append, replaceFrom, replaceFrom, hsame]
      split
      case isTrue hbegins =>
        have hlength := (List.isPrefixOf_iff_prefix.1 hbegins).length_le
        rw [List.length_cons] at hlength
        rw [ih (by omega), List.append_assoc]
      case isFalse => rw [ih (Nat.zero_le _), List.cons_append]

/-- Where there is no occurrence, nothing is replaced. -/
theorem replaceFrom_eq_self (h : ¬ pattern <:+: l) : replaceFrom pattern insert 0 l = l := by
  induction l with
  | nil => rfl
  | cons c l ih =>
    rw [List.infix_cons_iff, not_or, ← List.isPrefixOf_iff_prefix] at h
    rw [replaceFrom, if_neg h.1, ih h.2]

/-- Taking occurrences out leaves a part of the characters. -/
lemma replaceFrom_nil_sublist (pattern : List Char) (n : Nat) (l : List Char) :
    (replaceFrom pattern [] n l).Sublist l := by
  induction l generalizing n with
  | nil => simp [replaceFrom]
  | cons c l ih =>
    cases n with
    | succ n => exact (ih n).cons c
    | zero =>
      rw [replaceFrom]
      split
      · exact (ih _).cons c
      · exact (ih 0).cons_cons c

/-! ## Ends -/

/-- What follows the last occurrence of a pattern is an end, and so is the occurrence with it. -/
theorem suffix_of_afterLast (h : afterLast pattern l = some t) : pattern ++ t <:+ l := by
  induction l with
  | nil => cases h
  | cons c l ih =>
    rw [afterLast] at h
    cases hlast : afterLast pattern l with
    | some tail =>
      rw [hlast] at h
      obtain rfl : tail = t := Option.some.inj h
      exact List.suffix_cons_iff.2 (.inr (ih hlast))
    | none =>
      simp only [hlast] at h
      split at h
      case isTrue hbegins =>
        obtain rfl := Option.some.inj h
        rw [List.isPrefixOf_iff_prefix, List.prefix_iff_eq_append] at hbegins
        rw [hbegins]
      case isFalse => cases h

/-- The last occurrence in an end of a list is the last one of the list. -/
lemma afterLast_append (h : afterLast pattern r = some t) :
    afterLast pattern (l ++ r) = some t := by
  induction l with
  | nil => exact h
  | cons c l ih => rw [List.cons_append, afterLast, ih]

/-- An end that has none of the characters before it does not reach into them. -/
lemma suffix_of_suffix_append (hl : ∀ c ∈ l, c ∉ t) (h : t <:+ l ++ r) : t <:+ r := by
  induction l with
  | nil => exact h
  | cons c l ih =>
    rw [List.cons_append, List.suffix_cons_iff] at h
    rcases h with rfl | h
    · exact absurd List.mem_cons_self (hl c List.mem_cons_self)
    · exact ih (fun c hc => hl c (List.mem_cons_of_mem _ hc)) h

/-- The last of two marks can be found again. -/
lemma eq_of_append_cons {d : Char} (hr : d ∉ r) (ht : c ∉ t)
    (h : l ++ c :: r = m ++ d :: t) : l = m ∧ c = d ∧ r = t := by
  rcases List.append_eq_append_iff.1 h with ⟨between, rfl, hrest⟩ | ⟨between, rfl, hrest⟩
  · cases between with
    | nil => exact ⟨(List.append_nil l).symm, List.cons.inj hrest⟩
    | cons x between =>
      rw [(List.cons.inj hrest).2] at hr
      simp at hr
  · cases between with
    | nil => exact ⟨List.append_nil m, (List.cons.inj hrest).1.symm, (List.cons.inj hrest).2.symm⟩
    | cons x between =>
      rw [(List.cons.inj hrest).2] at ht
      simp at ht

/-! ## Pieces -/

/-- Texts without a character that are joined by it are its pieces. -/
lemma splitAt_intercalate {c : Char} {parts : List String} (hparts : ∀ p ∈ parts, c ∉ p.toList)
    (hne : parts ≠ []) {s : String} (hs : s.toList = [c].intercalate (parts.map String.toList)) :
    splitAt c s = parts := by
  have hpieces : ∀ l ∈ parts.map String.toList, c ∉ l := by
    intro l hl
    obtain ⟨p, hp, rfl⟩ := List.mem_map.1 hl
    exact hparts p hp
  have hsplit := List.splitOn_intercalate c hpieces (by simpa using hne)
  rw [List.splitOn, ← hs] at hsplit
  rw [splitAt, hsplit, List.map_map]
  simp [Function.comp_def]

/-- A text has at least one piece. -/
lemma splitAt_ne_nil (c : Char) (s : String) : splitAt c s ≠ [] := by simp [splitAt]

/-- The pieces on both sides of a dividing character. -/
lemma splitAt_append_cons {s u v : String} (hs : s.toList = u.toList ++ c :: v.toList) :
    splitAt c s = splitAt c u ++ splitAt c v := by
  rw [splitAt, hs, List.splitOnP_append_cons _ _ (by simp), List.map_append]
  rfl

/-- A text without the character is its only piece. -/
lemma splitAt_of_not_mem {s : String} (h : c ∉ s.toList) : splitAt c s = [s] := by
  rw [splitAt, List.splitOnP_eq_singleton]
  · simp
  · intro x hx
    exact beq_eq_false_iff_ne.2 fun heq => h (heq ▸ hx)

/-- The pieces of a text, joined again. -/
lemma toList_eq_intercalate_splitAt (c : Char) (s : String) :
    s.toList = [c].intercalate ((splitAt c s).map String.toList) := by
  have hpieces : (splitAt c s).map String.toList = s.toList.splitOn c := by
    simp [splitAt, Function.comp_def, List.splitOn_eq_splitOnP]
  rw [hpieces]
  exact (List.intercalate_splitOn c).symm

/-- No piece holds the character that divides a text. -/
lemma not_mem_of_mem_splitAt {s p : String} (hp : p ∈ splitAt c s) : c ∉ p.toList := by
  have hall : ∀ cs : List Char, ∀ l ∈ cs.splitOnP (· == c), c ∉ l := by
    intro cs
    induction cs with
    | nil => simp
    | cons x cs ih =>
      obtain ⟨first, rest, hsplit⟩ := List.exists_cons_of_ne_nil (List.splitOnP_ne_nil (· == c) cs)
      rw [hsplit, List.forall_mem_cons] at ih
      rw [List.splitOnP_cons_eq_if_modifyHead, hsplit]
      split
      case isTrue => simpa using ih
      case isFalse hx => simpa [Ne.symm (by simpa using hx : x ≠ c)] using ih
  obtain ⟨l, hl, rfl⟩ := List.mem_map.1 hp
  rw [String.toList_ofList]
  exact hall _ l hl

/-! ## Trimming -/

/-- Characters of the sort that is dropped at the end make no difference there. -/
lemma rdropWhile_append (htrail : ∀ c ∈ trail, p c = true) :
    (l ++ trail).rdropWhile p = l.rdropWhile p := by
  rw [List.rdropWhile, List.reverse_append, List.dropWhile_append_of_pos]
  · rfl
  · exact fun c hc => htrail c (List.mem_reverse.1 hc)

/-- Characters that are trimmed may be added at both ends. -/
theorem dropAround_append (hlead : ∀ c ∈ lead, p c = true) (htrail : ∀ c ∈ trail, p c = true) :
    dropAround p (lead ++ (m ++ trail)) = dropAround p m := by
  change ((lead ++ (m ++ trail)).dropWhile p).rdropWhile p = (m.dropWhile p).rdropWhile p
  rw [List.dropWhile_append_of_pos hlead, List.dropWhile_append]
  split
  case isTrue hm =>
    rw [List.isEmpty_iff.1 hm, List.dropWhile_eq_nil_iff.2 htrail]
  case isFalse => exact rdropWhile_append htrail

/-- What trimming takes away stands at both ends. -/
theorem exists_append_dropAround (p : Char → Bool) (l : List Char) :
    ∃ lead trail, (∀ c ∈ lead, p c = true) ∧ (∀ c ∈ trail, p c = true) ∧
      l = lead ++ (dropAround p l ++ trail) := by
  refine ⟨l.takeWhile p, (l.dropWhile p).rtakeWhile p, fun c => List.mem_takeWhile_imp,
    fun c => List.mem_rtakeWhile_imp, ?_⟩
  change l = _ ++ ((l.dropWhile p).rdropWhile p ++ (l.dropWhile p).rtakeWhile p)
  rw [List.rdropWhile_append_rtakeWhile, List.takeWhile_append_dropWhile]

/-- What trimming leaves does not begin with a character that is trimmed. -/
lemma head_dropAround (h : dropAround p l = c :: t) : p c = false := by
  have hbegins : c :: t <+: l.dropWhile p := by
    rw [← h]
    exact List.rdropWhile_prefix p _
  obtain ⟨rest, hrest⟩ := hbegins
  have hne : l.dropWhile p ≠ [] := by
    rw [← hrest]
    exact List.cons_ne_nil _ _
  have hhead := List.head_dropWhile_not p hne
  simpa [← hrest] using hhead

/-- A list that ends with a character which is not trimmed keeps its end. -/
lemma dropAround_append_of_neg {a : Char} (ha : p a = false) :
    dropAround p (l ++ [a]) = (l ++ [a]).dropWhile p := by
  have hne : ¬ p a = true := by simp [ha]
  change ((l ++ [a]).dropWhile p).rdropWhile p = (l ++ [a]).dropWhile p
  rw [List.dropWhile_append]
  split
  · rw [List.dropWhile_cons_of_neg hne]
    exact List.rdropWhile_concat_neg p [] a hne
  · exact List.rdropWhile_concat_neg p _ a hne

end PhpCalls.Text
