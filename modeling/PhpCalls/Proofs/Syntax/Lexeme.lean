import PhpCalls.Syntax.Lexeme
import Mathlib.Data.List.Infix

set_option autoImplicit false

/-!
# The lexemes of a page are the page

Scanning loses no character and adds none: the lexemes of a page, one after the other, spell the
page. None of them is empty, so that there are at most as many lexemes as characters. Those that are
words hold characters of names only.

## Main definitions

* `Lexeme.Step.whole`: what a step of scanning found, and the rest of the page.
* `Lexeme.IsName`: characters that make a name.

## Main results

* `Lexeme.whole_step`: one step loses nothing.
* `Lexeme.flatMap_text_scan`: the lexemes of a page spell the page.
* `Lexeme.length_scan_le`: a page has at most as many lexemes as characters.
* `Lexeme.isName_of_mem_scan`: every word of a page is a name.
-/

namespace PhpCalls.Syntax.Lexeme

/-! ## Pieces of a page -/

/-- The leading characters of a class, and the rest. -/
lemma takeWhile_append_drop (p : Char → Bool) (cs : List Char) :
    cs.takeWhile p ++ cs.drop (cs.takeWhile p).length = cs :=
  List.prefix_iff_eq_append.1 (List.takeWhile_prefix p)

/-- The part behind the point of a numeral and the rest are what was there. -/
lemma fractional_append (cs : List Char) : (fractional cs).1 ++ (fractional cs).2 = cs := by
  -- the mark of an exponent belongs to the rest if no digits follow
  have hexponent (digit : Char → Bool) (point sign ds : List Char) (m : Char) :
      let found : List Char × List Char :=
        if (ds.takeWhile digit).isEmpty then (point, m :: (sign ++ ds))
        else (point ++ m :: sign ++ ds.takeWhile digit, ds.dropWhile digit)
      found.1 ++ found.2 = point ++ m :: (sign ++ ds) := by
    dsimp only
    split_ifs
    · rfl
    · simp
  fun_cases fractional cs with
  | case1 digit point ds h exponent =>
    have hpoint : point ++ 'e' :: ds = cs := by
      split at h <;> obtain ⟨rfl, hds⟩ := Prod.mk.inj h <;> simp [← hds]
    rw [← hpoint]
    dsimp only [exponent]
    split
    · exact hexponent digit point ['+'] _ 'e'
    · exact hexponent digit point ['-'] _ 'e'
    · exact hexponent digit point [] _ 'e'
  | case2 digit point ds h exponent =>
    have hpoint : point ++ 'E' :: ds = cs := by
      split at h <;> obtain ⟨rfl, hds⟩ := Prod.mk.inj h <;> simp [← hds]
    rw [← hpoint]
    dsimp only [exponent]
    split
    · exact hexponent digit point ['+'] _ 'E'
    · exact hexponent digit point ['-'] _ 'E'
    · exact hexponent digit point [] _ 'E'
  | case3 digit point rest h => split at h <;> obtain ⟨rfl, rfl⟩ := Prod.mk.inj h <;> simp

/-- A numeral and the rest are what was there. -/
lemma numeral_append (cs : List Char) : (numeral cs).1.text ++ (numeral cs).2 = cs := by
  have hdecimal (digit : Char → Bool) :
      (cs.takeWhile digit ++ (fractional (cs.dropWhile digit)).1) ++
      (fractional (cs.dropWhile digit)).2 = cs := by
    rw [List.append_assoc, fractional_append, List.takeWhile_append_dropWhile]
  fun_cases numeral cs with
  | case1 based m ds h =>
    change ('0' :: m :: ds.takeWhile _) ++ ds.dropWhile _ = _
    simp
  | case2 m ds h decimal => exact hdecimal _
  | case3 decimal => exact hdecimal _

/-- The indentation, the label that closes a heredoc and the rest are what was there. -/
lemma closingLabel_append {label cs indent after : List Char}
    (h : closingLabel label cs = some (indent, after)) : indent ++ label ++ after = cs := by
  simp only [closingLabel] at h
  split_ifs at h with hlabel
  obtain ⟨rfl, rfl⟩ := Prod.mk.inj (Option.some.inj h)
  rw [Bool.and_eq_true] at hlabel
  have hbegin := List.prefix_iff_eq_append.1 (List.isPrefixOf_iff_prefix.1 hlabel.1)
  rw [List.append_assoc, hbegin, takeWhile_append_drop]

/-- The opening of a text that is closed by a label begins the page. -/
lemma prefix_of_labelOpening {cs : List Char} : ∀ r ∈ labelOpening cs, r.1 <+: cs := by
  have hblanks {p : Char → Bool} {opening : List Char}
      (h : opening <+: cs.drop (cs.takeWhile p).length) : cs.takeWhile p ++ opening <+: cs := by
    obtain ⟨left, hleft⟩ := h
    exact ⟨left, by rw [List.append_assoc, hleft, takeWhile_append_drop]⟩
  have hquoted {q : Char} {after : List Char}
      (h : (after.drop (after.takeWhile isNameChar).length).head? = some q) :
      q :: after.takeWhile isNameChar ++ [q] <+: q :: after := by
    obtain ⟨left, hleft⟩ := List.head?_eq_some_iff.1 h
    refine ⟨left, ?_⟩
    rw [List.cons_append, List.cons_append, List.append_assoc, List.singleton_append, ← hleft,
      takeWhile_append_drop]
  fun_cases labelOpening cs with
  -- a label in quotes of either sort, then a bare one, then none
  | case1 blanks rest quoted after hrest | case2 blanks rest quoted after hrest =>
    intro r hr
    obtain ⟨r', hr', rfl⟩ := Option.map_eq_some_iff.1 hr
    dsimp only [quoted] at hr'
    split_ifs at hr' with hname
    cases hr'
    rw [Bool.or_eq_true, not_or] at hname
    have hbegin := hquoted (by simpa using hname.2)
    rw [← hrest] at hbegin
    simpa using hblanks hbegin
  | case3 blanks rest c tail _ _ hrest hc name =>
    intro r hr
    cases hr
    exact hblanks (List.takeWhile_prefix _)
  | case4 | case5 =>
    intro r hr
    cases hr

/-- An index within a text and the rest are what was there. -/
lemma simpleIndex_append {cs : List Char} :
    ∀ r ∈ simpleIndex cs, r.1.flatMap text ++ r.2 = '[' :: cs := by
  have hclosed {index : List Lexeme} {rest left : List Char} (h : index.flatMap text ++ rest = cs)
      (hrest : rest = ']' :: left) :
      List.flatMap text (⟨.mark, ['[']⟩ :: index ++ [⟨.mark, [']']⟩]) ++ left = '[' :: cs := by
    simp [← h, hrest]
  fun_cases simpleIndex cs with
  | case1 closed c tail hc | case6 closed c tail _ _ _ hc =>
    intro r hr
    dsimp only [closed] at hr
    split at hr <;> cases hr
    next left hrest =>
      have hname := takeWhile_append_drop isNameChar (c :: tail)
      refine hclosed ?_ hrest
      simpa [Nat.add_comm 1] using hname
  | case3 closed c tail hc | case5 closed c tail _ _ hc =>
    intro r hr
    dsimp only [closed] at hr
    split at hr <;> cases hr
    next left hrest =>
      have hdigits := takeWhile_append_drop Char.isAlphanum (c :: tail)
      refine hclosed ?_ hrest
      simpa [Nat.add_comm 1] using hdigits
  | case2 | case4 | case7 | case8 =>
    intro r hr
    cases hr

/-- What follows a variable within a text and the rest are what was there. -/
lemma simpleTail_append (cs : List Char) :
    (simpleTail cs).1.flatMap text ++ (simpleTail cs).2 = cs := by
  have hname := takeWhile_append_drop isNameChar
  fun_cases simpleTail cs with
  | case1 rest =>
    cases h : simpleIndex rest with
    | none => rfl
    | some r => exact simpleIndex_append r h
  | case2 c rest hc name => simp [name, hname]
  | case3 => rfl
  | case4 c rest hc name => simp [name, hname]
  | case5 => rfl
  | case6 => rfl

/-- A comment up to the end of its line and the rest are what was there. -/
lemma lineComment_append (cs : List Char) : (lineComment cs).1 ++ (lineComment cs).2 = cs := by
  fun_induction lineComment cs <;> simp_all

/-- A comment between marks and the rest are what was there. -/
lemma blockComment_append (cs : List Char) : (blockComment cs).1 ++ (blockComment cs).2 = cs := by
  fun_induction blockComment cs <;> simp_all

/-- A text between apostrophes and the rest are what was there. -/
lemma singleQuoted_append (cs : List Char) : (singleQuoted cs).1 ++ (singleQuoted cs).2 = cs := by
  fun_induction singleQuoted cs <;> simp_all

/-- The lines up to a label and the rest are what was there. -/
lemma untilLabel_append (label cs : List Char) :
    (untilLabel label cs).1 ++ (untilLabel label cs).2 = cs := by
  fun_induction untilLabel label cs <;> simp_all

/-- The characters of a text that stand for themselves and the rest are what was there. -/
lemma plainText_append (ending : Ending) (cs : List Char) :
    (plainText ending cs).1 ++ (plainText ending cs).2 = cs := by
  fun_induction plainText ending cs <;> simp_all

/-- The page up to a tag, the tag and the rest are what was there. -/
lemma untilTag_append (cs : List Char) :
    (untilTag cs).1 ++ ((untilTag cs).2.1 ++ (untilTag cs).2.2) = cs := by
  fun_induction untilTag cs <;> simp_all
  case case3 rest _ heq =>
    obtain ⟨left, rfl⟩ := List.head?_eq_some_iff.1 heq
    rfl

/-- A mark and the rest are what was there. -/
lemma mark_append (c : Char) (cs : List Char) : (mark c cs).1.text ++ (mark c cs).2 = c :: cs := by
  rw [mark]
  split
  · next m hm =>
    have hbegin : m <+: c :: cs := List.isPrefixOf_iff_prefix.1 (by simpa using List.find?_some hm)
    exact List.prefix_iff_eq_append.1 hbegin
  · rfl

/-! ## Steps -/

/-- What a step of scanning found, and the rest of the page. -/
def Step.whole (s : Step) : List Char := s.lexemes.flatMap text ++ s.rest

/-- A step within a text loses no character. -/
lemma whole_stepText (ending : Ending) (modes : List Mode) (cs : List Char) :
    (stepText ending modes cs).whole = cs := by
  have hplain := plainText_append
  fun_cases stepText ending modes cs with
  | case1 => rfl
  | case2 => rfl
  | case3 => rfl
  | case4 => rfl
  | case5 _ c rest _ hc name tail left htail =>
    have htail' := simpleTail_append ((c :: rest).drop name.length)
    rw [htail] at htail'
    simp [Step.whole, htail', name, takeWhile_append_drop]
  | case6 _ c rest _ hc taken left htaken => simp [Step.whole, hplain]
  | case7 _ name taken left indent after hclosing _ _ _ htaken =>
    rw [htaken]
    simp only [hclosing]
    have htaken' := hplain (.label name) cs
    rw [htaken] at htaken'
    split_ifs at hclosing
    simp [Step.whole, ← htaken', ← closingLabel_append hclosing]
  | case8 _ name taken left hclosing _ _ _ htaken =>
    rw [htaken]
    simp only [hclosing]
    have htaken' := hplain (.label name) cs
    rw [htaken] at htaken'
    simp [Step.whole, ← htaken']
  | case9 => simp [Step.whole, hplain]

/-- A step at three angle brackets loses no character. -/
lemma whole_stepAngles (modes : List Mode) (rest : List Char) :
    (stepAngles modes rest).whole = '<' :: '<' :: '<' :: rest := by
  fun_cases stepAngles modes rest with
  | case1 open_ opening name hopening taken left htaken indent =>
    have hopening' := List.prefix_iff_eq_append.1 (prefix_of_labelOpening _ hopening)
    have htaken' := untilLabel_append name (rest.drop opening.length)
    rw [htaken] at htaken'
    have hindent := takeWhile_append_drop (fun c => c = ' ' || c = '\t') left
    have hname := List.take_append_drop name.length (left.drop indent.length)
    rw [List.drop_drop] at hname
    simp only [Step.whole, List.flatMap_cons, List.flatMap_nil, List.append_nil, List.append_assoc]
    rw [hname, hindent, htaken', hopening']
    rfl
  | case2 open_ opening name hopening =>
    have hopening' := List.prefix_iff_eq_append.1 (prefix_of_labelOpening _ hopening)
    simpa [Step.whole, open_] using hopening'
  | case3 => rfl

/-- A step within code loses no character. -/
lemma whole_stepCode (modes : List Mode) (cs : List Char) : (stepCode modes cs).whole = cs := by
  have hcomment (opening : List Char) {body : List Char × List Char} {rest : List Char}
      (h : body.1 ++ body.2 = rest) :
      (⟨[⟨.comment, opening ++ body.1⟩], modes, body.2⟩ : Step).whole = opening ++ rest := by
    simp [Step.whole, ← h]
  have hstring (opening rest : List Char) :
      (⟨[⟨.string, opening ++ (singleQuoted rest).1⟩], modes, (singleQuoted rest).2⟩ : Step).whole =
        opening ++ rest := by
    simp [Step.whole, singleQuoted_append]
  have hlexeme {l : Lexeme × List Char} {cs : List Char} (h : l.1.text ++ l.2 = cs) :
      (⟨[l.1], modes, l.2⟩ : Step).whole = cs := by
    simp [Step.whole, h]
  fun_cases stepCode modes cs with
  | case2 rest html tag left htag =>
    have htag' := untilTag_append rest
    rw [htag] at htag'
    simp [Step.whole, ← htag']
  | case3 comment rest => exact hcomment ['/', '/'] (lineComment_append rest)
  | case4 comment rest => exact hcomment ['/', '*'] (blockComment_append rest)
  | case7 comment rest => exact hcomment ['#'] (lineComment_append rest)
  | case8 string rest => exact hstring ['\''] rest
  | case9 string rest => exact hstring ['b', '\''] rest
  | case10 string rest => exact hstring ['B', '\''] rest
  | case15 rest => exact whole_stepAngles modes rest
  | case18 => exact hlexeme (numeral_append _)
  | case19 => exact hlexeme (mark_append '.' _)
  | case20 => simp [Step.whole]
  | case21 => simp [Step.whole]
  | case22 => exact hlexeme (numeral_append _)
  | case23 => exact hlexeme (mark_append _ _)
  | case1 | case5 | case6 | case11 | case12 | case13 | case14 | case16 | case17 => rfl

/-- A step on the page around the code loses no character. -/
lemma whole_stepPage (modes : List Mode) (cs : List Char) : (stepPage modes cs).whole = cs := by
  have happend := untilTag_append cs
  have hpage (html : List Char) :
      (if html.isEmpty then [] else [⟨.html, html⟩] : List Lexeme).flatMap text = html := by
    cases html <;> simp
  fun_cases stepPage modes cs with
  | case1 html tag left htag page hempty =>
    rw [htag] at happend
    rw [List.isEmpty_iff.1 hempty] at happend
    rw [Step.whole, hpage]
    exact happend
  | case2 html tag left htag page hempty =>
    rw [htag] at happend
    rw [Step.whole, List.flatMap_append, hpage, List.append_assoc]
    simpa using happend

/-- One step loses nothing. -/
theorem whole_step (modes : List Mode) (cs : List Char) : (step modes cs).whole = cs := by
  fun_cases step modes cs
  · exact whole_stepText _ _ cs
  · exact whole_stepCode _ cs
  · exact whole_stepCode _ cs
  · exact whole_stepPage _ cs
  · exact whole_stepPage _ cs

/-! ## Pages -/

/-- Leaving empty lexemes out loses nothing. -/
lemma flatMap_text_filter (ls : List Lexeme) :
    (ls.filter fun l => !l.text.isEmpty).flatMap text = ls.flatMap text := by
  induction ls with
  | nil => rfl
  | cons l ls ih =>
    cases h : l.text <;> simp [h, ih]

/-- The lexemes of a text, one after the other, are the text. -/
lemma flatMap_text_scanFrom (fuel : Nat) (modes : List Mode) (cs : List Char) :
    (scanFrom fuel modes cs).flatMap text = cs := by
  fun_induction scanFrom fuel modes cs with
  | case1 => rfl
  | case2 => simp
  | case3 fuel modes cs _ s ih =>
    rw [List.flatMap_append, flatMap_text_filter, ih]
    exact whole_step modes cs

/-- The lexemes of a page spell the page. -/
theorem flatMap_text_scan (source : String) : (scan source).flatMap text = source.toList :=
  flatMap_text_scanFrom _ _ _

/-- No lexeme is empty. -/
lemma text_ne_nil_of_mem_scanFrom {fuel : Nat} {modes : List Mode} {cs : List Char} {l : Lexeme}
    (h : l ∈ scanFrom fuel modes cs) : l.text ≠ [] := by
  fun_induction scanFrom fuel modes cs with
  | case1 => cases h
  | case2 modes cs hcs =>
    obtain rfl := List.mem_singleton.1 h
    exact hcs
  | case3 fuel modes cs _ s ih =>
    rcases List.mem_append.1 h with h | h
    · simpa using (List.mem_filter.1 h).2
    · exact ih h

/-- A page has at most as many lexemes as characters. -/
theorem length_scan_le (source : String) : (scan source).length ≤ source.length := by
  have hlength (ls : List Lexeme) (h : ∀ l ∈ ls, l.text ≠ []) :
      ls.length ≤ (ls.flatMap text).length := by
    induction ls with
    | nil => simp
    | cons l ls ih =>
      have hl : 0 < l.text.length := List.length_pos_iff.2 (h l List.mem_cons_self)
      have hls := ih fun m hm => h m (List.mem_cons_of_mem _ hm)
      simp only [List.length_cons, List.flatMap_cons, List.length_append]
      omega
  have hscan := hlength (scan source) fun l => text_ne_nil_of_mem_scanFrom
  rwa [flatMap_text_scan, String.length_toList] at hscan

/-! ## Words -/

/-- A text of the characters of names, at least one. -/
structure IsName (cs : List Char) : Prop where
  ne_nil : cs ≠ []
  isNameChar : ∀ c ∈ cs, isNameChar c = true

/-- If the lexeme is a word, it consists of characters of names. -/
def SpellsName (l : Lexeme) : Prop := l.sort = .word → ∀ c ∈ l.text, isNameChar c = true

/-- A word of the characters of names spells a name. -/
@[simp] lemma spellsName_takeWhile (cs : List Char) :
    SpellsName ⟨.word, cs.takeWhile isNameChar⟩ := by
  intro _ c hc
  have hall := List.all_takeWhile (l := cs) (p := isNameChar)
  exact List.all_eq_true.mp hall c hc

/-- What is not a word need not spell a name. -/
lemma spellsName_of_ne {l : Lexeme} (h : l.sort ≠ .word) : SpellsName l :=
  fun hword => absurd hword h

/-- A numeral is not a word. -/
lemma sort_numeral_ne (cs : List Char) : (numeral cs).1.sort ≠ .word := by
  have hdecimal (tail : List Char) : (if tail.isEmpty then LexemeSort.integer else .float) ≠
      .word := by
    split <;> simp
  fun_cases numeral cs with
  | case1 => simp
  | case2 => exact hdecimal _
  | case3 => exact hdecimal _

/-- A mark is not a word. -/
lemma sort_mark_ne (c : Char) (cs : List Char) : (mark c cs).1.sort ≠ .word := by
  rw [mark]
  split <;> simp

/-- The words of an index within a text are names. -/
lemma spellsName_of_simpleIndex {cs : List Char} :
    ∀ r ∈ simpleIndex cs, ∀ l ∈ r.1, l.SpellsName := by
  have hclosed {index : List Lexeme} (h : ∀ l ∈ index, l.SpellsName) :
      ∀ l ∈ ⟨.mark, ['[']⟩ :: index ++ [⟨.mark, [']']⟩], l.SpellsName := by
    simpa [or_imp, forall_and, spellsName_of_ne] using h
  fun_cases simpleIndex cs with
  | case1 closed | case3 closed | case5 closed | case6 closed =>
    intro r hr
    dsimp only [closed] at hr
    split at hr <;> cases hr
    exact hclosed (by simp [spellsName_of_ne])
  | case2 | case4 | case7 | case8 => nofun

/-- The words that follow a variable within a text are names. -/
lemma spellsName_of_simpleTail (cs : List Char) : ∀ l ∈ (simpleTail cs).1, l.SpellsName := by
  fun_cases simpleTail cs with
  | case1 rest =>
    cases h : simpleIndex rest with
    | none => simp
    | some r => exact spellsName_of_simpleIndex r h
  | case2 c rest hc name | case4 c rest hc name => simp [spellsName_of_ne, name]
  | case3 | case5 | case6 => simp

/-- The words of a step within a text are names. -/
lemma spellsName_of_stepText {ending : Ending} {modes : List Mode} {cs : List Char} :
    ∀ l ∈ (stepText ending modes cs).lexemes, l.SpellsName := by
  fun_cases stepText ending modes cs with
  | case5 _ c rest _ hc name tail left htail =>
    have htail' := spellsName_of_simpleTail ((c :: rest).drop name.length)
    rw [htail] at htail'
    exact List.forall_mem_cons.mpr ⟨spellsName_of_ne nofun,
      List.forall_mem_cons.mpr ⟨spellsName_takeWhile _, htail'⟩⟩
  | _ => simp [spellsName_of_ne, *]

/-- The words of a step at three angle brackets are names. -/
lemma spellsName_of_stepAngles {modes : List Mode} {rest : List Char} :
    ∀ l ∈ (stepAngles modes rest).lexemes, l.SpellsName := by
  fun_cases stepAngles modes rest <;> simp [spellsName_of_ne]

/-- The words of a step within code are names. -/
lemma spellsName_of_stepCode {modes : List Mode} {cs : List Char} :
    ∀ l ∈ (stepCode modes cs).lexemes, l.SpellsName := by
  fun_cases stepCode modes cs with
  | case15 => exact spellsName_of_stepAngles
  | case18 | case22 => exact List.forall_mem_singleton.mpr (spellsName_of_ne (sort_numeral_ne _))
  | case19 | case23 => exact List.forall_mem_singleton.mpr (spellsName_of_ne (sort_mark_ne _ _))
  | case21 => exact List.forall_mem_singleton.mpr (spellsName_takeWhile _)
  | case1 => nofun
  | _ => exact List.forall_mem_singleton.mpr (spellsName_of_ne nofun)

/-- The words of a step on the page around the code are names. -/
lemma spellsName_of_stepPage {modes : List Mode} {cs : List Char} :
    ∀ l ∈ (stepPage modes cs).lexemes, l.SpellsName := by
  have hpage (html : List Char) :
      ∀ l ∈ (if html.isEmpty then [] else [⟨.html, html⟩] : List Lexeme), l.SpellsName := by
    split <;> simp [spellsName_of_ne]
  fun_cases stepPage modes cs with
  | case1 => exact hpage _
  | case2 => exact List.forall_mem_append.mpr ⟨hpage _, by simp [spellsName_of_ne]⟩

/-- The words of every step are names. -/
lemma spellsName_of_step {modes : List Mode} {cs : List Char} :
    ∀ l ∈ (step modes cs).lexemes, l.SpellsName := by
  fun_cases step modes cs
  · exact spellsName_of_stepText
  · exact spellsName_of_stepCode
  · exact spellsName_of_stepCode
  · exact spellsName_of_stepPage
  · exact spellsName_of_stepPage

/-- The words of a text are names. -/
lemma spellsName_of_mem_scanFrom {fuel : Nat} {modes : List Mode} {cs : List Char} :
    ∀ l ∈ scanFrom fuel modes cs, l.SpellsName := by
  fun_induction scanFrom fuel modes cs with
  | case1 => simp
  | case2 => simp [spellsName_of_ne]
  | case3 fuel modes cs _ s ih =>
    exact List.forall_mem_append.mpr
      ⟨fun l hl => spellsName_of_step l (List.mem_of_mem_filter hl), ih⟩

/-- Every word of a page is a name. -/
theorem isName_of_mem_scan {source : String} {l : Lexeme} (h : l ∈ scan source)
    (hword : l.sort = .word) : IsName l.text :=
  ⟨text_ne_nil_of_mem_scanFrom h, spellsName_of_mem_scanFrom l h hword⟩

end PhpCalls.Syntax.Lexeme
