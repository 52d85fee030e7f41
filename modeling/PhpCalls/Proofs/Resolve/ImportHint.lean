import PhpCalls.Proofs.Resolve.ImportFilter

set_option autoImplicit false

/-!
# What the hint of an included file shows

The expression after `include` goes through five steps: markers are taken out, what stands before
the last of an even number of `__` is cut off, and so is what stands before the first of two or more
dots, the edges are trimmed, and backslashes are made slashes. Whatever path is written into the
expression, dots, underscores and all, the cuts leave an end of the path. So the hint is a part of
the path, and the file that is included is kept.

Trimming takes the dot from a bare extension, before the test that should reject it looks for the
dot. So that test rejects nothing, and `php` is a hint for which every file speaks.

## Main definitions

* `bareText`, `cutText`, `shownPath`: an expression after the first step, after the cuts, and at the
  end.
* `includeTexts`: four ways to write the path of an included file.
* `IncludedPath`: the paths that can be written in these ways.

## Main results

* `importHint?_eq_some_iff`, `importHint?_eq_none_iff`: the hint without the test for an extension.
* `IncludedPath.cutText_suffix`: what the cuts leave of a path.
* `includedFile_kept`: the hint of an included file is a part of its path, and its declarations are
  kept.
* `extension_hint_kept`: when the hint is the bare extension, and what it keeps.
-/

namespace PhpCalls

/-! ## Taking out markers -/

/-- An expression without the words and marks that say nothing about a path. -/
def bareText (expression : String) : String :=
  pathMarkers.foldl (fun s m => Text.replace s m "") expression

/-- The characters that are left when texts are taken out, one after the other. -/
def takeOut (markers : List String) (l : List Char) : List Char :=
  markers.foldl (fun l m => Text.replaceFrom m.toList [] 0 l) l

/-- The characters that are left when markers are taken out. -/
def withoutMarkers (l : List Char) : List Char := takeOut pathMarkers l

section TakeOut

variable {markers : List String} {l r : List Char} {c : Char}

/-- The bare text is the expression without its markers. -/
lemma toList_bareText (expression : String) :
    (bareText expression).toList = withoutMarkers expression.toList := by
  have hgen (markers : List String) (s : String) :
      (markers.foldl (fun s m => Text.replace s m "") s).toList = takeOut markers s.toList := by
    induction markers generalizing s with
    | nil => rfl
    | cons m markers ih =>
      rw [List.foldl_cons, ih]
      simp [takeOut, Text.replace]
  exact hgen pathMarkers expression

/-- Markers are taken out on both sides of a character that they lack. -/
lemma takeOut_append_cons (h : ∀ m ∈ markers, m.toList ≠ [] ∧ c ∉ m.toList) :
    takeOut markers (l ++ c :: r) = takeOut markers l ++ c :: takeOut markers r := by
  induction markers generalizing l r with
  | nil => rfl
  | cons m markers ih =>
    obtain ⟨hm, hc⟩ := h m List.mem_cons_self
    simp only [takeOut, List.foldl_cons]
    rw [Text.replaceFrom_append_cons hm hc (Nat.zero_le _)]
    exact ih fun m hm => h m (List.mem_cons_of_mem _ hm)

/-- Where no marker occurs, nothing is taken out. -/
lemma takeOut_eq_self (h : ∀ m ∈ markers, ¬ m.toList <:+: l) : takeOut markers l = l := by
  induction markers with
  | nil => rfl
  | cons m markers ih =>
    simp only [takeOut, List.foldl_cons]
    rw [Text.replaceFrom_eq_self (h m List.mem_cons_self)]
    exact ih fun m hm => h m (List.mem_cons_of_mem _ hm)

/-- Taking markers out keeps the order of what is left. -/
lemma takeOut_sublist (markers : List String) (l : List Char) : (takeOut markers l).Sublist l := by
  induction markers generalizing l with
  | nil => exact .refl l
  | cons m markers ih => exact (ih _).trans (Text.replaceFrom_nil_sublist _ 0 l)

end TakeOut

/-- Quotes, slashes and dots are in no marker. -/
lemma withoutMarkers_append_cons {c : Char} (hc : c ∈ ['\'', '"', '/', '.']) (l r : List Char) :
    withoutMarkers (l ++ c :: r) = withoutMarkers l ++ c :: withoutMarkers r := by
  refine takeOut_append_cons ?_
  simp only [List.mem_cons, List.not_mem_nil, or_false] at hc
  rcases hc with rfl | rfl | rfl | rfl <;> decide

/-! ## The two cuts -/

/-- What is left of an expression before its edges are trimmed. -/
def cutText (expression : String) : String := afterFirstDot (afterConstants (bareText expression))

/-- The cut behind constants leaves all, or what follows the last pair of underscores. -/
lemma afterConstants_eq_or (s : String) :
    afterConstants s = s ∨ ∃ t, Text.afterLast ['_', '_'] s.toList = some t ∧
      (afterConstants s).toList = t := by
  simp only [afterConstants]
  split
  · cases h : Text.afterLast ['_', '_'] s.toList with
    | none => exact .inl rfl
    | some t => exact .inr ⟨t, rfl, String.toList_ofList⟩
  · exact .inl rfl

/-- The cut at the first of several dots. -/
lemma toList_afterFirstDot {s : String} {before rest : List Char}
    (hs : s.toList = before ++ '.' :: rest) (hbefore : '.' ∉ before) (hrest : '.' ∈ rest) :
    (afterFirstDot s).toList = rest := by
  have hpass : ∀ c ∈ before, decide (c ≠ '.') = true :=
    fun c hc => decide_eq_true fun hdot => hbefore (hdot ▸ hc)
  have hcount : 2 ≤ (before ++ '.' :: rest).count '.' := by
    have hmore : 0 < rest.count '.' := List.count_pos_iff.2 hrest
    rw [List.count_append, List.count_cons_self]
    omega
  rw [afterFirstDot, hs, if_pos hcount, String.toList_ofList, List.dropWhile_append_of_pos hpass,
    List.dropWhile_cons_of_neg (by simp), List.drop_one, List.tail_cons]

/-- The cut behind a dot leaves all, or what follows a dot, with another dot in it. -/
lemma afterFirstDot_eq_or (s : String) :
    afterFirstDot s = s ∨ ∃ before, '.' ∈ (afterFirstDot s).toList ∧
      s.toList = before ++ '.' :: (afterFirstDot s).toList := by
  by_cases hcount : 2 ≤ s.toList.count '.'
  · obtain ⟨before, rest, hs, hbefore⟩ :=
      List.eq_append_cons_of_mem (List.count_pos_iff.1 (by omega : 0 < s.toList.count '.'))
    have hrest : '.' ∈ rest := by
      rw [hs, List.count_append, List.count_eq_zero_of_not_mem hbefore,
        List.count_cons_self] at hcount
      exact List.count_pos_iff.1 (by omega)
    refine .inr ⟨before, ?_⟩
    rw [toList_afterFirstDot hs hbefore hrest]
    exact ⟨hrest, hs⟩
  · exact .inl (if_neg hcount)

/-- The cut behind a dot leaves an end of the text. -/
lemma afterFirstDot_suffix (s : String) : (afterFirstDot s).toList <:+ s.toList := by
  rcases afterFirstDot_eq_or s with hs | ⟨before, -, hs⟩
  · rw [hs]
  · rw [hs]
    exact (List.suffix_cons _ _).trans (List.suffix_append _ _)

/-! ## What the cuts leave of a path -/

section Cuts

variable {p lead : List Char} {quote : Char} {s : String}

/-- A cut behind `__` does not reach into an end that has no underscores. -/
lemma suffix_afterConstants {t : List Char} (ht : '_' ∉ t) (h : t <:+ s.toList) :
    (afterConstants s).toList <:+ s.toList ∧ t <:+ (afterConstants s).toList := by
  rcases afterConstants_eq_or s with hs | ⟨rest, hlast, hrest⟩
  · rw [hs]
    exact ⟨List.suffix_rfl, h⟩
  · have hsuffix := Text.suffix_of_afterLast hlast
    rw [hrest]
    refine ⟨(List.suffix_append _ rest).trans hsuffix, ?_⟩
    rcases List.suffix_or_suffix_of_suffix h hsuffix with hin | hout
    · exact Text.suffix_of_suffix_append (by simpa using ht) hin
    · exact absurd (hout.subset List.mem_cons_self) ht

/-- The extension of a path, and the quote that closes it. -/
def closing (quote : Char) : List Char := ['.', 'p', 'h', 'p', quote]

/-- A cut behind the first of several dots does not reach into the extension. -/
lemma closing_suffix_afterFirstDot (hquote : quote ∈ ['\'', '"']) (h : closing quote <:+ s.toList) :
    closing quote <:+ (afterFirstDot s).toList := by
  rcases afterFirstDot_eq_or s with hs | ⟨before, hdot, -⟩
  · rwa [hs]
  · rcases List.suffix_or_suffix_of_suffix h (afterFirstDot_suffix s) with hin | hout
    · exact hin
    · -- the rest has a dot, and the closing has only its first one
      have hlack : '.' ∉ ['p', 'h', 'p', quote] := by
        rcases List.mem_pair.1 hquote with rfl | rfl <;> decide
      rcases List.suffix_cons_iff.1 hout with heq | hshort
      · rw [heq]
        exact List.suffix_rfl
      · exact absurd (hshort.subset hdot) hlack

/-- The two cuts leave an end of a quoted path, with its extension. -/
lemma cuts_suffix (hquote : quote ∈ ['\'', '"']) (h : closing quote <:+ s.toList) :
    (afterFirstDot (afterConstants s)).toList <:+ s.toList ∧
      closing quote <:+ (afterFirstDot (afterConstants s)).toList := by
  have hlack : '_' ∉ closing quote := by
    rcases List.mem_pair.1 hquote with rfl | rfl <;> decide
  obtain ⟨hsuffix, hclosing⟩ := suffix_afterConstants hlack h
  exact ⟨(afterFirstDot_suffix _).trans hsuffix, closing_suffix_afterFirstDot hquote hclosing⟩

/-- What follows `__DIR__` is cut behind the constant or within the path, or else behind the dot
that follows the constant. -/
lemma cuts_suffix_dir {rest : List Char} (hs : s.toList = "__DIR__ ".toList ++ '.' :: rest)
    (hrest : '.' ∈ rest) :
    (afterFirstDot (afterConstants s)).toList <:+ ' ' :: '.' :: rest := by
  rcases afterConstants_eq_or s with heq | ⟨t, hlast, ht⟩
  · rw [heq, toList_afterFirstDot hs (by decide) hrest]
    exact (List.suffix_cons _ _).trans (List.suffix_cons _ _)
  · refine (afterFirstDot_suffix _).trans ?_
    rw [ht]
    cases hin : Text.afterLast ['_', '_'] ('.' :: rest) with
    | some t' =>
      rw [hs, Text.afterLast_append hin] at hlast
      obtain rfl := Option.some.inj hlast
      exact ((List.suffix_append _ _).trans (Text.suffix_of_afterLast hin)).trans
        (List.suffix_cons _ _)
    | none =>
      have hconstant : Text.afterLast ['_', '_'] ("__DIR__ ".toList ++ '.' :: rest) =
          some (' ' :: '.' :: rest) := by
        generalize '.' :: rest = behind at hin
        simp [Text.afterLast, hin]
      rw [hs, hconstant] at hlast
      rw [Option.some.inj hlast]

/-- An end of a quoted path behind edges, as long as it has the extension, is an end of the path
when it is trimmed. -/
lemma dropAround_suffix (hquote : quote ∈ ['\'', '"']) (hlead : ∀ c ∈ lead, isPathEdge c = true)
    {t : List Char} (ht : t <:+ lead ++ (p ++ [quote])) (hclosing : closing quote <:+ t) :
    Text.dropAround isPathEdge t <:+ p ∧ Text.dropAround isPathEdge t ≠ [] := by
  have hedge : ∀ c ∈ [quote], isPathEdge c = true := by
    rcases List.mem_pair.1 hquote with rfl | rfl <;> exact List.all_eq_true.1 (by decide)
  -- the end begins in the edges or in the path
  obtain ⟨e, q, rfl, he, hq⟩ : ∃ e q, t = e ++ (q ++ [quote]) ∧
      (∀ c ∈ e, isPathEdge c = true) ∧ q <:+ p := by
    rcases List.suffix_or_suffix_of_suffix ht (List.suffix_append lead _) with hin | hout
    · rcases List.suffix_concat_iff.1 hin with rfl | ⟨q, rfl, hq⟩
      · exact absurd (List.suffix_nil.1 hclosing) (List.cons_ne_nil _ _)
      · exact ⟨[], q, rfl, by simp, hq⟩
    · obtain ⟨e, rfl⟩ := hout
      exact ⟨e, p, rfl, fun c hc => hlead c ((List.suffix_append_self_iff.1 ht).subset hc),
        List.suffix_rfl⟩
  -- and ends with a letter, which is no edge
  have hletter : isPathEdge 'p' = false := by decide
  obtain ⟨q', rfl⟩ : ∃ q', q = q' ++ ['p'] := by
    have hlast : ['p'] <:+ e ++ q := by
      have hextension : ['.', 'p', 'h', 'p'] ++ [quote] <:+ (e ++ q) ++ [quote] := by
        rw [List.append_assoc]
        exact hclosing
      exact .trans (by decide) (List.suffix_append_self_iff.1 hextension)
    rcases List.suffix_or_suffix_of_suffix hlast (List.suffix_append e q) with ⟨q', hq'⟩ | hshort
    · exact ⟨q', hq'.symm⟩
    · rcases List.suffix_cons_iff.1 hshort with rfl | hnil
      · exact ⟨[], rfl⟩
      · rw [List.suffix_nil.1 hnil, List.append_nil] at hlast
        exact absurd (he 'p' (hlast.subset List.mem_cons_self)) (by simp [hletter])
  rw [Text.dropAround_append he hedge, Text.dropAround_append_of_neg hletter]
  refine ⟨(List.dropWhile_suffix _).trans hq, fun hnil => ?_⟩
  have hall := List.dropWhile_eq_nil_iff.1 hnil 'p' (by simp)
  simp [hletter] at hall

end Cuts

/-! ## The test for an extension -/

/-- The path that is left of an expression. -/
def shownPath (expression : String) : String :=
  Text.slashed (Text.trimBoth isPathEdge (cutText expression))

section ShownPath

variable {expression hint : String}

/-- The path that is shown is what the cuts leave, without edges and with slashes only. -/
lemma toList_shownPath (expression : String) : (shownPath expression).toList =
    (Text.dropAround isPathEdge (cutText expression).toList).map fun c => if c = '\\' then '/'
      else c := by
  simp [shownPath, Text.slashed, Text.trimBoth]

/-- No path is shown exactly if the cuts leave edges alone. -/
lemma shownPath_eq_empty_iff :
    shownPath expression = "" ↔ Text.dropAround isPathEdge (cutText expression).toList = [] := by
  rw [← String.toList_eq_nil_iff, toList_shownPath, List.map_eq_nil_iff]

/-- A path without backslashes is left as it is trimmed. -/
lemma toList_shownPath_of_notMem
    (h : '\\' ∉ Text.dropAround isPathEdge (cutText expression).toList) :
    (shownPath expression).toList = Text.dropAround isPathEdge (cutText expression).toList := by
  have hsame : ∀ c ∈ Text.dropAround isPathEdge (cutText expression).toList,
      (if c = '\\' then '/' else c) = id c :=
    fun c hc => if_neg fun hback : c = '\\' => h (hback ▸ hc)
  rw [toList_shownPath, List.map_congr_left hsame, List.map_id]

/-- A text without slashes is left as a path just if it is left by trimming. -/
lemma shownPath_eq_iff (hslash : '/' ∉ hint.toList) (hback : '\\' ∉ hint.toList) :
    shownPath expression = hint ↔
      Text.dropAround isPathEdge (cutText expression).toList = hint.toList := by
  constructor
  · rintro rfl
    refine (toList_shownPath_of_notMem fun hmem => hslash ?_).symm
    rw [toList_shownPath]
    exact List.mem_map.2 ⟨'\\', hmem, rfl⟩
  · intro hdrop
    rw [← hdrop] at hback
    rw [← String.toList_inj, toList_shownPath_of_notMem hback, hdrop]

/-- A path that is left does not begin with a dot. -/
lemma shownPath_ne_extension (expression : String) : shownPath expression ≠ ".php" := by
  rw [ne_eq, shownPath_eq_iff (by decide) (by decide)]
  intro hdrop
  have hedge : isPathEdge '.' = false := Text.head_dropAround hdrop
  exact absurd hedge (by decide)

/-- No path that is left is so short and has an extension. -/
lemma not_isExtension_shownPath (expression : String) :
    (Text.contains (shownPath expression) ".php" && (shownPath expression).utf8ByteSize ≤ 4) =
      false := by
  rw [Bool.and_eq_false_imp]
  intro hcontains
  refine decide_eq_false fun hsize => shownPath_ne_extension expression ?_
  have hlength := (Text.length_toList_le (shownPath expression)).trans hsize
  have heq := (Text.contains_iff.1 hcontains).eq_of_length_le hlength
  exact (String.toList_inj.1 heq).symm

/-- The hint is the path that is left, if there is any: the test for an extension rejects
nothing. -/
theorem importHint?_eq_some_iff :
    importHint? expression = some hint ↔ hint ≠ "" ∧ shownPath expression = hint := by
  have hdef : importHint? expression =
      if shownPath expression = "" ||
        (Text.contains (shownPath expression) ".php" && (shownPath expression).utf8ByteSize ≤ 4)
      then none else some (shownPath expression) := rfl
  rw [hdef, not_isExtension_shownPath, Bool.or_false]
  by_cases h : shownPath expression = ""
  · rw [if_pos (decide_eq_true h), h]
    exact ⟨fun hnone => absurd hnone (by simp), fun heq => absurd heq.2.symm heq.1⟩
  · rw [if_neg (by simpa using h), Option.some.injEq]
    exact ⟨fun heq => ⟨heq ▸ h, heq⟩, And.right⟩

/-- There is no hint just if nothing but edges is left. -/
theorem importHint?_eq_none_iff :
    importHint? expression = none ↔ ∀ c ∈ (cutText expression).toList, isPathEdge c = true := by
  have hnone : importHint? expression = none ↔ shownPath expression = "" := by
    rw [Option.eq_none_iff_forall_ne_some]
    simp only [ne_eq, importHint?_eq_some_iff, not_and]
    exact ⟨fun h => by_contra fun hne => h _ hne rfl, fun h hint hne heq => hne (heq ▸ h)⟩
  rw [hnone, shownPath_eq_empty_iff]
  constructor
  · intro hnil
    obtain ⟨lead, trail, hlead, htrail, hsplit⟩ :=
      Text.exists_append_dropAround isPathEdge (cutText expression).toList
    rw [hsplit, hnil, List.nil_append]
    exact List.forall_mem_append.2 ⟨hlead, htrail⟩
  · intro hall
    have hedges : Text.dropAround isPathEdge ((cutText expression).toList ++ ([] ++ [])) = [] :=
      Text.dropAround_append hall (by simp)
    rwa [List.append_nil, List.append_nil] at hedges

end ShownPath

/-! ## Included files -/

/-- Four ways to write the path of a file that is included. -/
def includeTexts (p : String) : List String :=
  ["'" ++ p ++ "'", "\"" ++ p ++ "\"", "__DIR__ . '/" ++ p ++ "'",
    "dirname(__FILE__) . '/" ++ p ++ "'"]

/-- A path of a PHP file that has no marks of its own in an expression. -/
structure IncludedPath (p : String) : Prop where
  extension : ".php".toList <:+ p.toList
  plain : ∀ c ∈ ['\\', '\'', '"', '(', ')'], c ∉ p.toList
  unmarked : ∀ m ∈ ["dirname", "__FILE__", "ROOT_PATH"], ¬ m.toList <:+: p.toList

namespace IncludedPath

variable {p : String} (hp : IncludedPath p)

include hp

/-- A path without marks of its own has no markers to take out. -/
lemma withoutMarkers_eq : withoutMarkers p.toList = p.toList := by
  refine takeOut_eq_self fun m hm hinfix => ?_
  have hparenthesis : ∀ c ∈ ['(', ')'], ¬ [c] <:+: p.toList := by
    intro c hc hin
    refine hp.plain c ?_ (hin.subset List.mem_cons_self)
    rcases List.mem_pair.1 hc with rfl | rfl <;> decide
  simp only [pathMarkers, List.mem_cons, List.not_mem_nil, or_false] at hm
  rcases hm with rfl | rfl | rfl | rfl | rfl
  · exact hp.unmarked "dirname" (by simp) hinfix
  · exact hp.unmarked "__FILE__" (by simp) hinfix
  · exact hparenthesis '(' (by simp) hinfix
  · exact hparenthesis ')' (by simp) hinfix
  · exact hp.unmarked "ROOT_PATH" (by simp) hinfix

/-- Without its markers, an expression is a quoted path behind what is left of its beginning. -/
lemma withoutMarkers_append (l : List Char) (c quote : Char) (hc : c ∈ ['\'', '"', '/', '.'])
    (hquote : quote ∈ ['\'', '"', '/', '.']) :
    withoutMarkers (l ++ c :: (p.toList ++ [quote])) =
      withoutMarkers l ++ c :: (p.toList ++ [quote]) := by
  rw [withoutMarkers_append_cons hc, withoutMarkers_append_cons hquote, hp.withoutMarkers_eq]
  rfl

/-- A quoted path ends in its extension and the quotation mark. -/
lemma closing_suffix {quote : Char} : closing quote <:+ p.toList ++ [quote] := by
  have h : ".php".toList ++ [quote] <:+ p.toList ++ [quote] :=
    List.suffix_append_self_iff.2 hp.extension
  exact h

/-- The cuts leave an end of the quoted path behind edges, with its extension.

**Proof sketch.** Without markers, three of the expressions are the quoted path behind edges, and an
end of that with the extension is what the cuts leave. The constant `__DIR__` is no edge, but one of
the cuts takes it away. -/
theorem cutText_suffix {text : String} (htext : text ∈ includeTexts p) :
    ∃ quote ∈ ['\'', '"'], ∃ lead : List Char, (∀ c ∈ lead, isPathEdge c = true) ∧
      (cutText text).toList <:+ lead ++ (p.toList ++ [quote]) ∧
      closing quote <:+ (cutText text).toList := by
  have hcut {quote : Char} (hquote : quote ∈ ['\'', '"']) {text : String} {lead : List Char}
      (h : withoutMarkers text.toList = lead ++ (p.toList ++ [quote])) :
      (cutText text).toList <:+ lead ++ (p.toList ++ [quote]) ∧
        closing quote <:+ (cutText text).toList := by
    rw [← h, ← toList_bareText]
    refine cuts_suffix hquote ?_
    rw [toList_bareText, h]
    exact hp.closing_suffix.trans (List.suffix_append _ _)
  simp only [includeTexts, List.mem_cons, List.not_mem_nil, or_false] at htext
  have hnil : withoutMarkers [] = [] := rfl
  rcases htext with rfl | rfl | rfl | rfl
  · refine ⟨'\'', by simp, ['\''], List.all_eq_true.1 (by decide), hcut (by simp) ?_⟩
    simpa [hnil] using hp.withoutMarkers_append [] '\'' '\'' (by simp) (by simp)
  · refine ⟨'"', by simp, ['"'], List.all_eq_true.1 (by decide), hcut (by simp) ?_⟩
    simpa [hnil] using hp.withoutMarkers_append [] '"' '"' (by simp) (by simp)
  · have hbare : withoutMarkers ("__DIR__ . '/" ++ p ++ "'").toList =
        "__DIR__ . '/".toList ++ (p.toList ++ ['\'']) := by
      have hbegin : withoutMarkers "__DIR__ . '".toList = "__DIR__ . '".toList := by decide
      have h := hp.withoutMarkers_append "__DIR__ . '".toList '/' '\'' (by simp) (by simp)
      rw [hbegin] at h
      simpa using h
    have hsuffix : (cutText ("__DIR__ . '/" ++ p ++ "'")).toList <:+
        ' ' :: '.' :: (" '/".toList ++ (p.toList ++ ['\''])) := by
      have hdot : '.' ∈ p.toList := hp.extension.subset (by decide)
      refine cuts_suffix_dir ?_ (by simp [hdot])
      rw [toList_bareText, hbare]
      simp
    exact ⟨'\'', by simp, " . '/".toList, List.all_eq_true.1 (by decide), by simpa using hsuffix,
      (hcut (by simp) hbare).2⟩
  · refine ⟨'\'', by simp, " . '/".toList, List.all_eq_true.1 (by decide), hcut (by simp) ?_⟩
    have hbegin : withoutMarkers "dirname(__FILE__) . '".toList = " . '".toList := by decide
    have h := hp.withoutMarkers_append "dirname(__FILE__) . '".toList '/' '\'' (by simp) (by simp)
    rw [hbegin] at h
    simpa using h

/-- The hint of an included file is an end of its path. -/
lemma exists_hint {text : String} (htext : text ∈ includeTexts p) :
    ∃ hint, importHint? text = some hint ∧ hint ≠ "" ∧ hint.toList <:+ p.toList := by
  obtain ⟨quote, hquote, lead, hlead, hsuffix, hclosing⟩ := hp.cutText_suffix htext
  obtain ⟨hend, hne⟩ := dropAround_suffix hquote hlead hsuffix hclosing
  have hback : '\\' ∉ Text.dropAround isPathEdge (cutText text).toList :=
    fun hmem => hp.plain '\\' (by simp) (hend.subset hmem)
  have hshown := toList_shownPath_of_notMem hback
  have hnonempty : shownPath text ≠ "" := fun h => hne (shownPath_eq_empty_iff.1 h)
  refine ⟨shownPath text, importHint?_eq_some_iff.2 ⟨hnonempty, rfl⟩, hnonempty, ?_⟩
  rwa [hshown]

end IncludedPath

/-- Where hints speak for a candidate of a call that is not native, its identifier is left. -/
lemma Call.SpeaksFor.mem_map_id_narrow {c : Call} {cs : List Candidate} {k : Candidate}
    (h : c.SpeaksFor k) (hk : k ∈ cs) (hnative : c.isNative = false) (o : ResolveOptions) :
    k.id ∈ (c.narrow o cs).map Candidate.id := by
  simp only [narrow, hnative, Bool.false_eq_true, if_false]
  split
  · exact mem_map_id_filterByImports.2 ⟨k, hk, rfl, h⟩
  · exact List.mem_map_of_mem hk

/-- **The file that is included is kept.** However its path is written after `include`, there is a
hint, and the hint is a part of the path. So of whatever a look-up finds, the import filter keeps
the declarations of that file, and a call that is not native is left with them. -/
theorem includedFile_kept {p : String} (hp : IncludedPath p) {text : String}
    (htext : text ∈ includeTexts p) :
    ∃ hint, importHint? text = some hint ∧ hint ≠ "" ∧ hint.toList <:+: p.toList ∧
      ∀ c : Call, text ∈ c.mayFiles → ∀ cs : List Candidate, ∀ k ∈ cs, k.file = p →
        k.id ∈ (c.filterByImports cs).map Candidate.id ∧
        (c.isNative = false → ∀ o, k.id ∈ (c.narrow o cs).map Candidate.id) := by
  obtain ⟨hint, hhint, hne, hend⟩ := hp.exists_hint htext
  refine ⟨hint, hhint, hne, hend.isInfix, fun c hc cs k hk hfile => ?_⟩
  have hspeaks : c.SpeaksFor k := .byFile text hint hc hhint (hfile ▸ hend.isInfix)
  exact ⟨Call.mem_map_id_filterByImports.2 ⟨k, hk, rfl, hspeaks⟩, hspeaks.mem_map_id_narrow hk⟩

/-- A class without methods in a file. -/
def ClassDecl.lying (id file : String) : ClassDecl :=
  { ClassDecl.waiting id "Waiter" "Hall" [] with file }

/-- A call that includes a file. -/
def Call.including (text : String) : Call :=
  { Call.serve with mayNamespaces := [], mayFiles := [text] }

/-- Dots and underscores of directories are cut off with the directories, and the hint is still a
part of the path. -/
theorem includedFile_kept_lying :
    let p := "../lib.d/__init__/a.php"
    let text := "__DIR__ . '/" ++ p ++ "'"
    let c := Call.including text
    let cs := [Candidate.implicitConstructor (.lying "k1" "lib.d/b.php"),
      .implicitConstructor (.lying "k2" p)]
    IncludedPath p ∧ importHint? text = some "a.php" ∧
    (c.filterByImports cs).map Candidate.id = ["k2"] ∧
      "k2" ∈ (c.narrow { importFilter := true } cs).map Candidate.id := by
  intro p text c cs
  have hp : IncludedPath p := ⟨by decide, by simp [p], by decide⟩
  obtain ⟨_, _, _, _, hkept⟩ := includedFile_kept hp (show text ∈ includeTexts p by decide)
  have hleft := hkept c (by decide) cs (.implicitConstructor (.lying "k2" p)) (by simp [cs]) rfl
  exact ⟨hp, by decide +kernel, by decide +kernel, hleft.2 rfl _⟩

/-! ## The bare extension -/

section Extension

variable {expression : String}

/-- The hint is the bare extension just if trimming leaves it. -/
lemma importHint?_eq_extension_iff :
    importHint? expression = some "php" ↔
      Text.dropAround isPathEdge (cutText expression).toList = "php".toList := by
  rw [importHint?_eq_some_iff, and_iff_right (by decide), shownPath_eq_iff (by decide) (by decide)]

/-- Trimming leaves the bare extension just if it stands between edges. -/
lemma dropAround_eq_extension_iff {l : List Char} :
    Text.dropAround isPathEdge l = "php".toList ↔ ∃ lead trail : List Char,
      (∀ c ∈ lead, isPathEdge c = true) ∧ (∀ c ∈ trail, isPathEdge c = true) ∧
        l = lead ++ ("php".toList ++ trail) := by
  constructor
  · intro hdrop
    obtain ⟨lead, trail, hlead, htrail, hsplit⟩ := Text.exists_append_dropAround isPathEdge l
    rw [hdrop] at hsplit
    exact ⟨lead, trail, hlead, htrail, hsplit⟩
  · rintro ⟨lead, trail, hlead, htrail, rfl⟩
    rw [Text.dropAround_append hlead htrail]
    decide

/-- Behind a text without dots, the cuts take away the text and the dot. -/
lemma toList_cutText_append {t : String} (htext : '.' ∉ expression.toList) (ht : '_' ∉ t.toList)
    (hdot : '.' ∈ t.toList) (hbare : withoutMarkers t.toList = t.toList) :
    (cutText (expression ++ "." ++ t)).toList = t.toList := by
  have hsplit : (bareText (expression ++ "." ++ t)).toList =
      withoutMarkers expression.toList ++ '.' :: t.toList := by
    have h := withoutMarkers_append_cons (c := '.') (by simp) expression.toList t.toList
    rw [hbare] at h
    rw [toList_bareText, ← h]
    simp
  have hlack : '_' ∉ '.' :: t.toList := by simpa using ht
  obtain ⟨hin, l, hl⟩ := suffix_afterConstants hlack (hsplit ▸ List.suffix_append _ _)
  have hshort : l <:+ withoutMarkers expression.toList := by
    rw [hsplit, ← hl] at hin
    exact List.suffix_append_self_iff.1 hin
  exact toList_afterFirstDot hl.symm
    (fun hmem => htext ((takeOut_sublist _ _).subset (hshort.subset hmem))) hdot

end Extension

/-- **The bare extension is a hint.** The test for an extension rejects nothing, as no hint begins
with a dot: an expression has no hint just if nothing but edges is left of it, and if the extension
is left between edges, it is the hint. So it is for every text without a dot that an extension is
appended to, and for such a hint the import filter keeps the declarations of all PHP files. -/
theorem extension_hint_kept (expression : String) :
    importHint? expression ≠ some ".php" ∧
    (importHint? expression = none ↔ ∀ c ∈ (cutText expression).toList, isPathEdge c = true) ∧
    (importHint? expression = some "php" ↔ ∃ lead trail : List Char,
      (∀ c ∈ lead, isPathEdge c = true) ∧ (∀ c ∈ trail, isPathEdge c = true) ∧
        (cutText expression).toList = lead ++ ("php".toList ++ trail)) ∧
    ('.' ∉ expression.toList → ∀ gap ∈ ["", " "], ∀ quote ∈ ["'", "\""],
      importHint? (expression ++ "." ++ (gap ++ quote ++ ".php" ++ quote)) = some "php") ∧
    (importHint? expression = some "php" → ∀ c : Call, expression ∈ c.mayFiles →
      ∀ cs : List Candidate, ∀ k ∈ cs, ".php".toList <:+ k.file.toList →
        k.id ∈ (c.filterByImports cs).map Candidate.id) := by
  refine ⟨fun h => ?_, importHint?_eq_none_iff,
    importHint?_eq_extension_iff.trans dropAround_eq_extension_iff, ?_, ?_⟩
  · exact shownPath_ne_extension expression (importHint?_eq_some_iff.1 h).2
  · intro hdotless gap hgap quote hquote
    have happended : ∀ gap ∈ ["", " "], ∀ quote ∈ ["'", "\""],
        let t := (gap ++ quote ++ ".php" ++ quote).toList
        '_' ∉ t ∧ '.' ∈ t ∧ withoutMarkers t = t ∧ Text.dropAround isPathEdge t = "php".toList := by
      decide
    obtain ⟨hplain, hdot, hbare, hdrop⟩ := happended gap hgap quote hquote
    rw [importHint?_eq_extension_iff, toList_cutText_append hdotless hplain hdot hbare, hdrop]
  · intro hhint c hc cs k hk hextension
    have hpart : "php".toList <:+: k.file.toList := .trans (by decide) hextension.isInfix
    exact Call.mem_map_id_filterByImports.2 ⟨k, hk, rfl, .byFile expression "php" hc hhint hpart⟩

/-- A variable with an extension appended to it speaks for every file. -/
theorem extension_hint_kept_variable :
    let text := "$x . '.php'"
    let cs := [Candidate.implicitConstructor (.lying "k1" "a.php"),
      .implicitConstructor (.lying "k2" "b.php")]
    importHint? text = some "php" ∧
      "k1" ∈ ((Call.including text).filterByImports cs).map Candidate.id ∧
      "k2" ∈ ((Call.including text).filterByImports cs).map Candidate.id := by
  intro text cs
  have hhint : importHint? text = some "php" :=
    (extension_hint_kept "$x ").2.2.2.1 (by decide) " " (by simp) "'" (by simp)
  have hkept := (extension_hint_kept text).2.2.2.2 hhint (.including text) (by decide) cs
  exact ⟨hhint, hkept (.implicitConstructor (.lying "k1" "a.php")) (by simp [cs]) (by decide),
    hkept (.implicitConstructor (.lying "k2" "b.php")) (by simp [cs]) (by decide)⟩

end PhpCalls
