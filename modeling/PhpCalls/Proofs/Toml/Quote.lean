import PhpCalls.Toml.Scalar
import PhpCalls.Toml.Writer
import Mathlib.Data.Option.Basic
import Mathlib.Tactic.Lemma
import Mathlib.Tactic.SplitIfs

set_option autoImplicit false

/-!
# Reading back written texts

A text is written in one of four notations, and read back from each of them. The characters of a
text are written one after the other: as they are, or with a backslash. Between three quotes a quote
may stand as it is, as long as no three of them stand in a row where the reader looks for the end.

## Main definitions

* `Toml.Spells`: a character is written in a way that the reader knows.
* `Toml.Fills`: a text is written between three quotes, no three quotes in a row among its own.

## Main results

* `Toml.basicText_escape`, `Toml.literalText_append`: texts on one line are read back.
* `Toml.multilineText_of_fills`: texts between three quotes are read back.
* `Toml.quotedText_quote`: texts are read back from the notation that is chosen for them.
-/

namespace PhpCalls.Toml

/-! ## Characters -/

/-- A character `c` of a text between quotes `q` is written as `w`. -/
inductive Spells (q c : Char) : List Char → Prop where
  | itself (hprintable : isPrintable c = true) (hplain : q = '"' → c ≠ '\\') : Spells q c [c]
  | lineEnd (hc : c = '\n') : Spells q c ['\n']
  | escape {e : List Char} (hq : q = '"') (he : ∀ rest, escaped (e ++ rest) = some (c, rest)) :
      Spells q c ('\\' :: e)

/-- A character is spelled by at least one character. -/
lemma Spells.length_pos {q c : Char} {w : List Char} (h : Spells q c w) : 0 < w.length := by
  cases h <;> exact Nat.zero_lt_succ _

/-- The spelling of a character is never empty, so it is what a text begins with. -/
lemma Spells.head?_append {q c : Char} {w : List Char} (h : Spells q c w) (rest : List Char) :
    (w ++ rest).head? = w.head? := by
  cases h <;> rfl

/-- A hexadecimal digit is read back in upper case. -/
lemma hexDigit?_digitChar (d : Nat) :
    hexDigit? (Nat.digitChar (d % 16)).toUpper = some (d % 16) := by
  have hall : ∀ k < 16, hexDigit? (Nat.digitChar k).toUpper = some k := by decide
  exact hall _ (Nat.mod_lt _ (by decide))

/-- Four hexadecimal digits give back the character. -/
lemma escaped_hex4 {c : Char} (h : c.toNat < 65536) (rest : List Char) :
    escaped ('u' :: hex4 c.toNat ++ rest) = some (c, rest) := by
  have hvalue : ((c.toNat / 4096 % 16 * 16 + c.toNat / 256 % 16) * 16 + c.toNat / 16 % 16) * 16 +
      c.toNat % 16 =
      c.toNat := by omega
  have hvalid : c.toNat.isValidChar := c.valid
  simp [escaped, hexChar, hex4, hexDigit?_digitChar, hvalue, hvalid, guard]

/-- No line is continued at an escape. -/
lemma lineContinuation?_of_escaped {cs rest : List Char} {c : Char}
    (h : escaped cs = some (c, rest)) : lineContinuation? cs = none := by
  unfold escaped at h
  split at h <;> first | rfl | cases h

/-- No line ends before a character that can stand in a text. -/
lemma newline?_of_isPrintable {c : Char} (h : isPrintable c = true) (rest : List Char) :
    newline? (c :: rest) = none := by
  unfold newline?
  split
  · next heq =>
    rw [(List.cons.inj heq).1] at h
    exact absurd h (by decide)
  · next heq =>
    rw [(List.cons.inj heq).1] at h
    exact absurd h (by decide)
  · rfl

/-- What needs no escape and is no line feed can stand as it is. -/
lemma isPrintable_of_not_needsEscape {c : Char} (hc : c ≠ '\n') (h : needsEscape c = false) :
    isPrintable c = true := by
  simp only [needsEscape, isPrintable, Bool.and_eq_false_iff, Bool.or_eq_false_iff,
    decide_eq_false_iff_not, Bool.or_eq_true, Bool.and_eq_true, decide_eq_true_eq] at h ⊢
  rcases h with (h | h) | h
  · exact .inl (Decidable.not_not.1 h)
  · exact absurd hc h
  · exact .inr (by omega)

/-- Other characters than quotation marks are written one at a time, whatever stands around them. -/
lemma escape_cons_of_ne (inLines : Bool) (allowed run : Nat) {c : Char} (cs : List Char)
    (hc : c ≠ '"') :
    ∃ w, Spells '"' c w ∧ w.head? ≠ some '"' ∧ (w = ['\n'] → inLines = true) ∧
      escape inLines allowed run (c :: cs) = w ++ escape inLines allowed 0 cs := by
  have hshort : ∀ x, (∀ rest, escaped (x :: rest) = some (c, rest)) →
      ∃ w, Spells '"' c w ∧ w.head? ≠ some '"' ∧ (w = ['\n'] → inLines = true) ∧
        ['\\', x] ++ escape inLines allowed 0 cs = w ++ escape inLines allowed 0 cs :=
    fun x hx => ⟨['\\', x], .escape rfl hx, by simp, by simp, rfl⟩
  rw [escape.eq_def]
  dsimp only
  -- the quotation mark, the characters with a short escape, and all others
  split
  · exact absurd rfl hc
  · exact hshort 'b' fun _ => rfl
  · exact hshort 't' fun _ => rfl
  · cases inLines with
    | false => exact hshort 'n' fun _ => rfl
    | true => exact ⟨_, .lineEnd rfl, by decide, fun _ => rfl, rfl⟩
  · exact hshort 'f' fun _ => rfl
  · exact hshort 'r' fun _ => rfl
  · exact hshort '\\' fun _ => rfl
  · rename_i hfeed _ _ hback
    cases hneeds : needsEscape c with
    | false =>
      refine ⟨[c], .itself (isPrintable_of_not_needsEscape hfeed hneeds) fun _ => hback,
        by simpa using hc, ?_, rfl⟩
      intro h
      exact absurd (List.singleton_inj.1 h) hfeed
    | true =>
      have hsmall : c.toNat < 65536 := by
        simp only [needsEscape, Bool.and_eq_true, Bool.or_eq_true, decide_eq_true_eq] at hneeds
        omega
      exact ⟨_, .escape rfl (escaped_hex4 hsmall), by simp, by simp, rfl⟩

/-! ## Texts on one line -/

/-- One written character is read. -/
lemma basicText_spelled {c : Char} {w : List Char} (h : Spells '"' c w) (hmark : w ≠ ['"'])
    (hfeed : w ≠ ['\n']) (fuel : Nat) (rest : List Char) :
    basicText (fuel + 1) (w ++ rest) = (basicText fuel rest).map fun r => (c :: r.1, r.2) := by
  cases h with
  | itself hprintable hplain =>
    have hc : c ≠ '"' := fun hc => hmark (by rw [hc])
    rw [List.singleton_append, basicText, hprintable]
    · cases basicText fuel rest <;> rfl
    · exact hc
    · exact hplain rfl
  | lineEnd hc => exact absurd rfl hfeed
  | escape hq he =>
    simp only [List.cons_append, basicText, he, Option.bind_eq_bind, Option.bind_some]
    cases basicText fuel rest <;> rfl

/-- A text with escapes on one line is read back. -/
theorem basicText_escape (cs rest : List Char) (fuel : Nat)
    (hfuel : (escape false 0 0 cs).length < fuel) :
    basicText fuel (escape false 0 0 cs ++ '"' :: rest) = some (cs, rest) := by
  induction cs generalizing fuel with
  | nil =>
    obtain ⟨fuel, rfl⟩ := Nat.exists_eq_add_one.2 hfuel
    rfl
  | cons c cs ih =>
    obtain ⟨w, hspells, hmark, hfeed, hw⟩ : ∃ w, Spells '"' c w ∧ w ≠ ['"'] ∧ w ≠ ['\n'] ∧
        escape false 0 0 (c :: cs) = w ++ escape false 0 0 cs := by
      by_cases hc : c = '"'
      · subst hc
        exact ⟨['\\', '"'], .escape rfl fun _ => rfl, by decide, by decide, rfl⟩
      · obtain ⟨w, hspells, hhead, hfeed, hw⟩ := escape_cons_of_ne false 0 0 cs hc
        refine ⟨w, hspells, ?_, fun h => Bool.false_ne_true (hfeed h), hw⟩
        rintro rfl
        exact hhead rfl
    have hne := hspells.length_pos
    rw [hw, List.length_append] at hfuel
    obtain ⟨fuel, rfl⟩ : ∃ n, fuel = n + 1 := ⟨fuel - 1, by omega⟩
    rw [hw, List.append_assoc, basicText_spelled hspells hmark hfeed, ih fuel (by omega)]
    rfl

/-- A text between apostrophes on one line is read back. -/
theorem literalText_append {cs : List Char} (h : ∀ c ∈ cs, isPrintable c = true ∧ c ≠ '\'')
    (rest : List Char) : literalText (cs ++ '\'' :: rest) = some (cs, rest) := by
  induction cs with
  | nil => rfl
  | cons c cs ih =>
    obtain ⟨hprintable, hc⟩ := h c List.mem_cons_self
    have hrest := ih fun c hc => h c (List.mem_cons_of_mem _ hc)
    rw [List.cons_append, literalText, hprintable, hrest]
    · rfl
    · exact hc

/-! ## Quotes in a row -/

/-- How many quotes `q` a text begins with. -/
def leading (q : Char) (cs : List Char) : Nat := (cs.takeWhile (· = q)).length

/-- The empty text begins with no quotes. -/
@[simp] lemma leading_nil (q : Char) : leading q [] = 0 := rfl

/-- A quote before a text makes one more. -/
@[simp] lemma leading_cons_self (q : Char) (cs : List Char) :
    leading q (q :: cs) = leading q cs + 1 := by
  simp [leading]

/-- A text that begins with another character begins with no quotes. -/
lemma leading_cons_of_ne {q c : Char} (h : c ≠ q) (cs : List Char) : leading q (c :: cs) = 0 := by
  simp [leading, h]

/-- A text that does not begin with a quote begins with no quotes. -/
lemma leading_of_head? {q : Char} {cs : List Char} (h : cs.head? ≠ some q) : leading q cs = 0 := by
  cases cs with
  | nil => rfl
  | cons c cs => exact leading_cons_of_ne (by simpa using h) cs

/-- What stands behind another character does not count. -/
lemma leading_append_of_exists {q : Char} {ws : List Char} (h : ∃ c ∈ ws, c ≠ q) (cs : List Char) :
    leading q (ws ++ cs) = leading q ws := by
  induction ws with
  | nil => simp at h
  | cons c ws ih =>
    by_cases hc : c = q
    · subst hc
      simp only [List.cons_append, leading_cons_self]
      rw [ih (by simpa using h)]
    · rw [List.cons_append, leading_cons_of_ne hc, leading_cons_of_ne hc]

/-- All rows of quotes in a text are as long as the longest one at most. -/
lemma leading_le_longestRun (q : Char) (n : Nat) (cs : List Char) :
    n + leading q cs ≤ longestRun q n cs ∧ ∀ t, t <:+ cs → leading q t ≤ longestRun q n cs := by
  induction cs generalizing n with
  | nil => simp [longestRun]
  | cons c cs ih =>
    by_cases hc : c = q
    · subst hc
      obtain ⟨hhere, hbehind⟩ := ih (n + 1)
      simp only [longestRun, if_true, leading_cons_self]
      refine ⟨by omega, fun t ht => ?_⟩
      rcases List.suffix_cons_iff.1 ht with rfl | ht
      · rw [leading_cons_self]
        omega
      · exact Nat.le_trans (hbehind t ht) (Nat.le_max_right _ _)
    · obtain ⟨-, hbehind⟩ := ih 0
      simp only [longestRun, if_neg hc, leading_cons_of_ne hc]
      refine ⟨by omega, fun t ht => ?_⟩
      rcases List.suffix_cons_iff.1 ht with rfl | ht
      · rw [leading_cons_of_ne hc]
        exact Nat.zero_le _
      · exact Nat.le_trans (hbehind t ht) (Nat.le_max_right _ _)

/-- A text in which the longest row of quotes has no quote has none. -/
lemma not_mem_of_longestRun {q : Char} {cs : List Char} (h : longestRun q 0 cs = 0) : q ∉ cs := by
  intro hq
  obtain ⟨before, behind, rfl⟩ := List.append_of_mem hq
  have hrow := (leading_le_longestRun q 0 (before ++ q :: behind)).2 _ (List.suffix_append _ _)
  rw [h, leading_cons_self] at hrow
  omega

/-- With escapes at most two quotation marks stand in a row, those before the text counted. -/
lemma leading_escape (inLines : Bool) (cs : List Char) {run : Nat} (hrun : run ≤ 2) :
    run + leading '"' (escape inLines 2 run cs) ≤ 2 := by
  induction cs generalizing run with
  | nil => simpa [escape] using hrun
  | cons c cs ih =>
    by_cases hc : c = '"'
    · subst hc
      rw [escape]
      split
      · next hfew =>
        have hrow : run + 1 + _ ≤ 2 := ih hfew
        rw [leading_cons_self]
        omega
      · rw [leading_cons_of_ne (by decide)]
        exact hrun
    · obtain ⟨w, hspells, hhead, -, hw⟩ := escape_cons_of_ne inLines 2 run cs hc
      rw [← hspells.head?_append (escape inLines 2 0 cs), ← hw] at hhead
      rw [leading_of_head? hhead]
      exact hrun

/-! ## Texts between three quotes -/

/-- A text `cs` is written as `ws` between three quotes `q`, and wherever the reader looks for the
end of the text, at most two quotes stand in a row. -/
inductive Fills (q : Char) : List Char → List Char → Prop where
  | nil : Fills q [] []
  | cons {c : Char} {cs w ws : List Char} (hspells : Spells q c w) (hfew : leading q (w ++ ws) ≤ 2)
      (hrest : Fills q cs ws) : Fills q (c :: cs) (w ++ ws)

/-- A text with escapes that keeps its lines. -/
lemma fills_escape (cs : List Char) {run : Nat} (hrun : run ≤ 2) :
    Fills '"' cs (escape true 2 run cs) := by
  induction cs generalizing run with
  | nil => exact .nil
  | cons c cs ih =>
    have hfew := leading_escape true (c :: cs) hrun
    by_cases hc : c = '"'
    · subst hc
      rw [escape] at hfew ⊢
      split at hfew
      · next h =>
        rw [if_pos h]
        exact .cons (w := ['"']) (.itself (by decide) (by decide)) (by simp at hfew ⊢; omega) (ih h)
      · next h =>
        rw [if_neg h]
        exact .cons (w := ['\\', '"']) (.escape rfl fun _ => rfl) (Nat.le_of_add_left_le hfew)
          (ih (Nat.zero_le 2))
    · obtain ⟨w, hspells, -, -, hw⟩ := escape_cons_of_ne true 2 run cs hc
      rw [hw] at hfew ⊢
      exact .cons hspells (Nat.le_of_add_left_le hfew) (ih (Nat.zero_le 2))

/-- A text between apostrophes stands as it is. -/
lemma fills_self {cs : List Char} (hchars : ∀ c ∈ cs, isPrintable c = true ∨ c = '\n')
    (hfew : ∀ t, t <:+ cs → leading '\'' t ≤ 2) : Fills '\'' cs cs := by
  induction cs with
  | nil => exact .nil
  | cons c cs ih =>
    have hspells : Spells '\'' c [c] := by
      rcases hchars c List.mem_cons_self with hc | rfl
      · exact .itself hc fun h => absurd h (by decide)
      · exact .lineEnd rfl
    refine .cons hspells (hfew _ List.suffix_rfl)
      (ih (fun c hc => hchars c (List.mem_cons_of_mem _ hc)) ?_)
    exact fun t ht => hfew t (ht.trans (List.suffix_cons c cs))

section Reading

variable {q : Char} {cs ws rest : List Char}

/-- The end of a text: some quotes that belong to it, and three that close it. -/
lemma closing_of_forall (h : ∀ c ∈ ws, c = q) (hfew : leading q ws ≤ 2)
    (hrest : rest.head? ≠ some q) : closing q (ws ++ q :: q :: q :: rest) = some (ws, rest) := by
  obtain ⟨n, rfl⟩ : ∃ n, ws = List.replicate n q := ⟨_, List.eq_replicate_of_mem h⟩
  have hstop : rest.takeWhile (· = q) = [] := List.length_eq_zero_iff.1 (leading_of_head? hrest)
  have hrow : List.replicate n q ++ q :: q :: q :: rest = List.replicate (n + 3) q ++ rest := by
    rw [← List.replicate_append_replicate, List.append_assoc]
    rfl
  have htake : (List.replicate (n + 3) q ++ rest).takeWhile (· = q) = List.replicate (n + 3) q := by
    rw [List.takeWhile_append_of_pos (by simp), hstop, List.append_nil]
  have hn : n ≤ 2 := by simpa [leading] using hfew
  rw [hrow]
  simp [closing, htake, hn]

/-- No end of a text: another character comes before the third quote. -/
lemma closing_of_exists (h : ∃ c ∈ ws, c ≠ q) (hfew : leading q ws ≤ 2) :
    closing q (ws ++ rest) = none := by
  have hlength : ((ws ++ rest).takeWhile (· = q)).length = leading q ws :=
    leading_append_of_exists h rest
  simp only [closing, hlength]
  rw [if_neg]
  simp only [Bool.and_eq_true, decide_eq_true_eq]
  omega

/-- A text of which only quotes are written is written as it is. -/
lemma Fills.eq_of_forall (h : Fills q cs ws) (hall : ∀ c ∈ ws, c = q) : cs = ws := by
  induction h with
  | nil => rfl
  | @cons c cs w ws hspells _ _ ih =>
    rw [ih fun x hx => hall x (List.mem_append_right _ hx)]
    cases hspells with
    | itself => rfl
    | lineEnd hc => rw [hc]; rfl
    | escape hq' he =>
      have hback := hall '\\' (by simp)
      rw [hq'] at hback
      exact absurd hback (by decide)

/-- One written character is read, where the text does not end. -/
lemma multilineText_spelled {c : Char} {w : List Char} (h : Spells q c w)
    (hopen : closing q (w ++ rest) = none) (hfew : leading q (w ++ rest) ≤ 2) (fuel : Nat) :
    multilineText q (fuel + 1) (w ++ rest) = (multilineText q fuel rest).map fun r =>
      (c :: r.1, r.2) := by
  rw [multilineText.eq_def]
  cases h with
  | itself hprintable hplain =>
    have hline : newline? (c :: rest) = none := newline?_of_isPrintable hprintable rest
    have hback : (decide (c = '\\') && decide (q = '"')) = false := by
      simp only [Bool.and_eq_false_iff, decide_eq_false_iff_not]
      exact (Decidable.em (q = '"')).elim (fun h => .inl (hplain h)) .inr
    have hquote : (isPrintable c &&
        (decide (c ≠ q) || decide ((rest.takeWhile (· = q)).length < 2))) = true := by
      by_cases hc : c = q
      · subst hc
        rw [List.singleton_append, leading_cons_self] at hfew
        have hlt : (rest.takeWhile (· = c)).length < 2 := hfew
        simp [hprintable, hlt]
      · simp [hprintable, hc]
    rw [List.singleton_append] at hopen ⊢
    simp only [hopen, hline, hback, hquote]
    cases multilineText q fuel rest <;> rfl
  | lineEnd hc =>
    rw [List.singleton_append] at hopen ⊢
    simp only [hopen, newline?, hc]
    cases multilineText q fuel rest <;> rfl
  | escape hq he =>
    subst hq
    have hline := newline?_of_isPrintable (by decide : isPrintable '\\' = true)
    have hgoes := lineContinuation?_of_escaped (he rest)
    rw [List.cons_append] at hopen ⊢
    simp only [hopen, hline, hgoes, he, Option.bind_eq_bind, Option.bind_some, decide_true,
      Bool.and_self, if_true]
    cases multilineText '"' fuel rest <;> rfl

/-- A text between three quotes is read back. -/
theorem multilineText_of_fills (h : Fills q cs ws) (hrest : rest.head? ≠ some q)
    (fuel : Nat) (hfuel : ws.length < fuel) :
    multilineText q fuel (ws ++ q :: q :: q :: rest) = some (cs, rest) := by
  induction h generalizing fuel with
  | nil =>
    obtain ⟨fuel, rfl⟩ := Nat.exists_eq_add_one.2 hfuel
    have hclosing : closing q (q :: q :: q :: rest) = some ([], rest) :=
      @closing_of_forall q [] rest (List.forall_mem_nil _) (Nat.zero_le 2) hrest
    rw [multilineText.eq_def]
    simp only [List.nil_append, hclosing]
  | @cons c cs w ws hspells hfew hfills ih =>
    obtain ⟨fuel, rfl⟩ : ∃ n, fuel = n + 1 := ⟨fuel - 1, by omega⟩
    by_cases hall : ∀ x ∈ w ++ ws, x = q
    -- only quotes are left: they are taken with those that close the text
    · have hsame := (Fills.cons hspells hfew hfills).eq_of_forall hall
      rw [multilineText.eq_def]
      simp only [closing_of_forall hall hfew hrest, hsame]
    -- another character comes first, so the text does not end here
    · have hother : ∃ x ∈ w ++ ws, x ≠ q := by simpa using hall
      have hopen : closing q (w ++ ws ++ q :: q :: q :: rest) = none :=
        closing_of_exists hother hfew
      have hcount := leading_append_of_exists hother (q :: q :: q :: rest)
      have hne := hspells.length_pos
      rw [List.length_append] at hfuel
      rw [List.append_assoc] at hopen hcount ⊢
      rw [multilineText_spelled hspells hopen (hcount ▸ hfew), ih fuel (by omega)]
      rfl

/-- No line ends at the beginning of a text that has no lines. -/
lemma newline?_of_fills (h : Fills q cs ws) (hq : q = '"' ∨ q = '\'') (hlines : '\n' ∉ cs) :
    newline? (ws ++ q :: rest) = none := by
  cases h with
  | nil => rcases hq with rfl | rfl <;> rfl
  | cons hspells =>
    cases hspells with
    | itself hprintable => exact newline?_of_isPrintable hprintable _
    | lineEnd hc => exact absurd (hc ▸ List.mem_cons_self) hlines
    | escape => rfl

end Reading

/-! ## The four notations -/

/-- What stands before a text between three quotes: the text begins on a new line if it has
lines. -/
def lineStart (cs : List Char) : List Char := if '\n' ∈ cs then ['\n'] else []

/-- A text between three quotes is read back with what stands before it. -/
lemma quotedText_of_fills {q : Char} {cs ws rest : List Char} (h : Fills q cs ws)
    (hq : q = '"' ∨ q = '\'') (hrest : rest.head? ≠ some q) :
    quotedText (q :: q :: q :: (lineStart cs ++ (ws ++ q :: q :: q :: rest))) =
      some (cs, rest) := by
  have hread : ∀ body : List Char, body = lineStart cs ++ (ws ++ q :: q :: q :: rest) →
      multilineText q (body.length + 1) ((newline? body).getD body) = some (cs, rest) := by
    rintro body rfl
    have hlength : ws.length < (lineStart cs ++ (ws ++ q :: q :: q :: rest)).length + 1 := by
      rw [List.length_append, List.length_append]
      omega
    have hbody : (newline? (lineStart cs ++ (ws ++ q :: q :: q :: rest))).getD
        (lineStart cs ++ (ws ++ q :: q :: q :: rest)) = ws ++ q :: q :: q :: rest := by
      rw [lineStart]
      split
      · rfl
      · next hlines =>
        rw [List.nil_append, newline?_of_fills h hq hlines]
        rfl
    rw [hbody]
    exact multilineText_of_fills h hrest _ hlength
  rcases hq with rfl | rfl
  · exact hread _ rfl
  · exact hread _ rfl

/-- A text that does not begin with three quotes stands on one line. -/
lemma quotedText_of_leading {q : Char} {cs : List Char} (hq : q = '"' ∨ q = '\'')
    (h : leading q cs < 2) : quotedText (q :: cs) = lineText (q :: cs) := by
  rcases hq with rfl | rfl
  · unfold quotedText
    split
    · next heq =>
      rw [(List.cons.inj heq).2, leading_cons_self, leading_cons_self] at h
      omega
    · next heq => simp at heq
    · rfl
  · unfold quotedText
    split
    · next heq => simp at heq
    · next heq =>
      rw [(List.cons.inj heq).2, leading_cons_self, leading_cons_self] at h
      omega
    · rfl

/-- Quotes that close a text on one line stand alone. -/
lemma leading_append_lt_two {q : Char} {ws rest : List Char} (hws : ws.head? ≠ some q)
    (hrest : rest.head? ≠ some q) : leading q (ws ++ q :: rest) < 2 := by
  cases ws with
  | nil =>
    rw [List.nil_append, leading_cons_self, leading_of_head? hrest]
    decide
  | cons c ws =>
    rw [List.cons_append, leading_cons_of_ne (by simpa using hws)]
    decide

/-- A text between quotation marks is read back, if no quotation mark follows. -/
lemma quotedText_basic (cs : List Char) {rest : List Char} (hrest : rest.head? ≠ some '"') :
    quotedText ('"' :: (escape false 0 0 cs ++ '"' :: rest)) = some (cs, rest) := by
  have hhead : (escape false 0 0 cs).head? ≠ some '"' := by
    cases cs with
    | nil => simp [escape]
    | cons c cs =>
      by_cases hc : c = '"'
      · subst hc
        simp [escape]
      · obtain ⟨w, hspells, hhead, -, hw⟩ := escape_cons_of_ne false 0 0 cs hc
        rwa [hw, hspells.head?_append]
  have hlength :
      (escape false 0 0 cs).length < (escape false 0 0 cs ++ '"' :: rest).length + 1 := by
    rw [List.length_append]
    omega
  rw [quotedText_of_leading (.inl rfl) (leading_append_lt_two hhead hrest)]
  exact basicText_escape cs rest _ hlength

/-- A text between apostrophes is read back, if no apostrophe follows. -/
lemma quotedText_literal {cs : List Char} (hchars : ∀ c ∈ cs, isPrintable c = true ∧ c ≠ '\'')
    {rest : List Char} (hrest : rest.head? ≠ some '\'') :
    quotedText ('\'' :: (cs ++ '\'' :: rest)) = some (cs, rest) := by
  have hhead : cs.head? ≠ some '\'' := fun h => (hchars _ (List.mem_of_head? h)).2 rfl
  rw [quotedText_of_leading (.inr rfl) (leading_append_lt_two hhead hrest)]
  exact literalText_append hchars rest

/-- The notation that is chosen for a text can hold the text. -/
lemma quote_cases (s : String) :
    (quote s).toList = '"' :: (escape false 0 0 s.toList ++ ['"']) ∨
    ((∀ c ∈ s.toList, isPrintable c = true ∧ c ≠ '\'') ∧
      (quote s).toList = '\'' :: (s.toList ++ ['\''])) ∨
    ∃ q ws, (q = '"' ∨ q = '\'') ∧ Fills q s.toList ws ∧
      (quote s).toList = q :: q :: q :: (lineStart s.toList ++ (ws ++ [q, q, q])) := by
  have hfills := fills_escape s.toList (Nat.zero_le 2)
  have hchars : s.toList.any needsEscape = false → ∀ c ∈ s.toList, c ≠ '\n' →
      isPrintable c = true := by
    intro h c hc hfeed
    exact isPrintable_of_not_needsEscape hfeed (by simpa using List.any_eq_false.1 h c hc)
  unfold quote
  dsimp only
  generalize hstart : (if s.toList.contains '\n' then "\n" else "") = start
  have hstart : start.toList = lineStart s.toList := by
    rw [← hstart, lineStart]
    by_cases h : '\n' ∈ s.toList <;> simp [h]
  -- one case for each branch of the choice
  split_ifs with h₁ h₂ h₃ h₄ h₅
  · exact .inl (by simp)
  · refine .inr (.inl ⟨fun c hc => ?_, by simp⟩)
    simp only [Bool.and_eq_true, Bool.not_eq_true', decide_eq_true_eq, List.contains_eq_mem,
      decide_eq_false_iff_not] at h₂
    obtain ⟨⟨hcontrols, hrow⟩, hlines⟩ := h₂
    refine ⟨hchars hcontrols c hc fun h => hlines (h ▸ hc), fun h => ?_⟩
    exact not_mem_of_longestRun hrow (h ▸ hc)
  · exact .inr (.inr ⟨'"', _, .inl rfl, hfills, by simp [hstart]⟩)
  · simp only [Bool.and_eq_true, Bool.not_eq_true', decide_eq_true_eq] at h₄
    obtain ⟨hcontrols, hrow⟩ := h₄
    have hself : Fills '\'' s.toList s.toList := by
      refine fills_self (fun c hc => ?_) fun t ht => ?_
      · exact (Decidable.em (c = '\n')).elim .inr fun hfeed => .inl (hchars hcontrols c hc hfeed)
      · exact Nat.le_trans ((leading_le_longestRun '\'' 0 s.toList).2 t ht) hrow
    exact .inr (.inr ⟨'\'', _, .inr rfl, hself, by simp [hstart]⟩)
  · exact .inr (.inr ⟨'"', _, .inl rfl, hfills, by simp [hstart]⟩)
  · exact .inl (by simp)

/-- A written text is read back, if no quote follows. -/
theorem quotedText_quote (s : String) {rest : List Char} (hmark : rest.head? ≠ some '"')
    (hapostrophe : rest.head? ≠ some '\'') :
    quotedText ((quote s).toList ++ rest) = some (s.toList, rest) := by
  rcases quote_cases s with h | ⟨hchars, h⟩ | ⟨q, ws, hq, hfills, h⟩
  · rw [h]
    simpa using quotedText_basic s.toList hmark
  · rw [h]
    simpa using quotedText_literal hchars hapostrophe
  · have hrest : rest.head? ≠ some q := by rcases hq with rfl | rfl <;> assumption
    rw [h]
    simpa using quotedText_of_fills hfills hq hrest

end PhpCalls.Toml
