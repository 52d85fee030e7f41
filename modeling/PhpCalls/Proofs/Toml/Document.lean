import PhpCalls.Proofs.Json.RoundTrip
import PhpCalls.Proofs.List
import PhpCalls.Proofs.Toml.Quote
import PhpCalls.Toml.Reader
import Mathlib.Tactic.Lemma

set_option autoImplicit false

/-!
# Reading back written documents

A document is written as a row of tables with a blank line between them, and each entry of a table
on a line that begins with its key. Values carry the reason why they are read back, so that a
document of them is.

## Main definitions

* `Toml.Written`: a written value, which is read back wherever a line ends behind it.
* `Toml.Table`: a table of written values.
* `Toml.document`: the text of tables.

## Main results

* `Toml.word_toString`, `Toml.arrayElements_lines`: numerals and lists of texts are read back.
* `Toml.lines_header`, `Toml.lines_entry`, `Toml.lines_blank`: what one line does.
* `Toml.lines_table`: what the lines of a table do.
* `Toml.parse_document`: a document is read back.
-/

namespace PhpCalls.Toml

/-! ## Words -/

section Words

variable {w rest : List Char}

/-- A word ends where its line ends. -/
lemma wordLength_append (hw : ∀ c ∈ w, isWordChar c = true) :
    wordLength (w ++ '\n' :: rest) = w.length := by
  have htake : (w ++ '\n' :: rest).takeWhile isWordChar = w := by
    rw [List.takeWhile_append_of_pos hw]
    simp [isWordChar]
  simp only [wordLength, htake, List.drop_left]
  rfl

/-- Digits may stand in words. -/
lemma isWordChar_of_isDigit {c : Char} (h : c.isDigit = true) : isWordChar c = true := by
  simp [isWordChar, Char.isAlphanum, h]

/-- A truth value is read back before the end of a line. -/
lemma word_boolean (b : Bool) (rest : List Char) :
    word ((boolean b).toList ++ '\n' :: rest) = some (.bool b, '\n' :: rest) := by
  have hw : ∀ c ∈ (boolean b).toList, isWordChar c = true :=
    List.all_eq_true.1 (by cases b <;> decide)
  simp only [word, wordLength_append hw, List.take_left, List.drop_left]
  cases b <;> rfl

/-- The digits of a number are digits. -/
lemma isDigit_of_mem_toDigits {n : Nat} {c : Char} (hc : c ∈ Nat.toDigits 10 n) :
    c.isDigit = true :=
  Nat.isDigit_of_mem_toDigits (by decide) (by decide) hc

/-- The value of decimal digits. -/
lemma valueIn_toDigits (n : Nat) : valueIn 10 (Nat.toDigits 10 n) = n := by
  have hfold : ∀ (ds : List Char) (k : Nat), (∀ c ∈ ds, c.isDigit = true) →
      ds.foldl (fun n d => n * 10 + (hexDigit? d).getD 0) k = Nat.ofDigitChars 10 ds k := by
    intro ds
    induction ds with
    | nil => intro k _; rfl
    | cons d ds ih =>
      intro k h
      have hd : hexDigit? d = some (d.toNat - 48) := by simp [hexDigit?, h d List.mem_cons_self]
      rw [List.foldl_cons, ih _ fun c hc => h c (List.mem_cons_of_mem _ hc), hd,
        Nat.ofDigitChars_cons, Nat.mul_comm]
      rfl
  rw [valueIn, hfold _ _ fun c => isDigit_of_mem_toDigits, Nat.ofDigitChars_ten_toDigits]

/-- A numeral is read as a number. -/
lemma decimal?_toDigits (n : Nat) : decimal? (Nat.toDigits 10 n) = some n := by
  have hsplit : (Nat.toDigits 10 n).splitOnP (· == '_') = [Nat.toDigits 10 n] := by
    refine List.splitOnP_eq_singleton fun c hc => beq_false_of_ne ?_
    rintro rfl
    exact absurd (isDigit_of_mem_toDigits hc) (by decide)
  have hgroup : digitsWith Char.isDigit (Nat.toDigits 10 n) = some (Nat.toDigits 10 n) := by
    have hall : (Nat.toDigits 10 n).all Char.isDigit = true :=
      List.all_eq_true.2 fun c => isDigit_of_mem_toDigits
    simp [digitsWith, hsplit, hall]
  have hzero : (Nat.toDigits 10 n).length = 1 ∨ (Nat.toDigits 10 n).head? ≠ some '0' := by
    rcases Nat.eq_zero_or_pos n with rfl | hn
    · exact .inl rfl
    · exact .inr (Json.head_toDigits_ne_zero hn)
  simp [decimal?, hgroup, hzero, valueIn_toDigits, guard]

/-- A number that fits into 63 bits is in range. -/
lemma inRange_natCast {n : Nat} (hn : n < 0x8000000000000000) : inRange (n : Int) = true := by
  simp only [inRange, Bool.and_eq_true, decide_eq_true_eq]
  omega

/-- A numeral without a sign is read as an integer, if it is in range. -/
lemma integer?_toDigits {n : Nat} (hn : n < 0x8000000000000000) :
    integer? (Nat.toDigits 10 n) = some (n : Int) := by
  have hmem : ∀ {c : Char}, c.isDigit = false → c ∉ Nat.toDigits 10 n := by
    intro c hc h
    rw [isDigit_of_mem_toDigits h] at hc
    cases hc
  have hsign : signOf (Nat.toDigits 10 n) = (1, Nat.toDigits 10 n) := by
    unfold signOf
    split
    · next heq => exact absurd (heq ▸ List.mem_cons_self) (hmem (by decide : '+'.isDigit = false))
    · next heq => exact absurd (heq ▸ List.mem_cons_self) (hmem (by decide : '-'.isDigit = false))
    · rfl
  unfold integer?
  split
  · next heq => exact absurd (heq ▸ by simp) (hmem (by decide : 'x'.isDigit = false))
  · next heq => exact absurd (heq ▸ by simp) (hmem (by decide : 'o'.isDigit = false))
  · next heq => exact absurd (heq ▸ by simp) (hmem (by decide : 'b'.isDigit = false))
  · -- the bounds are never unfolded: they are too great for that
    have hvalue :
        (do let a ← decimal? (Nat.toDigits 10 n); pure (a : Int) : Option Int).map (1 * ·) =
        some (n : Int) := by
      rw [decimal?_toDigits, Option.bind_eq_bind, Option.bind_some, Option.pure_def,
        Option.map_some, Int.one_mul]
    rw [hsign]
    dsimp only
    rw [hvalue, Option.bind_eq_bind, Option.bind_some, inRange_natCast hn]
    rfl

/-- A number is read back at the end of a line, if it is in range. -/
lemma word_toString {n : Nat} (hn : n < 0x8000000000000000) (rest : List Char) :
    word ((toString n).toList ++ '\n' :: rest) = some (.int n, '\n' :: rest) := by
  have hlist : (toString n).toList = Nat.toDigits 10 n := Nat.toList_repr
  have hw : ∀ c ∈ Nat.toDigits 10 n, isWordChar c = true :=
    fun c hc => isWordChar_of_isDigit (isDigit_of_mem_toDigits hc)
  have htrue : Nat.toDigits 10 n ≠ "true".toList := by
    intro h
    exact absurd (isDigit_of_mem_toDigits (h ▸ by decide : 't' ∈ Nat.toDigits 10 n)) (by decide)
  have hfalse : Nat.toDigits 10 n ≠ "false".toList := by
    intro h
    exact absurd (isDigit_of_mem_toDigits (h ▸ by decide : 'f' ∈ Nat.toDigits 10 n)) (by decide)
  rw [hlist]
  simp only [word, wordLength_append hw, List.take_left, List.drop_left, if_neg htrue,
    if_neg hfalse, integer?_toDigits hn]

end Words

/-! ## Lists of texts -/

/-- A written text begins with a quote. -/
lemma exists_toList_quote (s : String) :
    ∃ q t, (q = '"' ∨ q = '\'') ∧ (quote s).toList = q :: t := by
  rcases quote_cases s with h | ⟨-, h⟩ | ⟨q, ws, hq, -, h⟩
  · exact ⟨_, _, .inl rfl, h⟩
  · exact ⟨_, _, .inr rfl, h⟩
  · exact ⟨_, _, hq, h⟩

/-- A written text is read as a value, if no quote follows. -/
lemma value_quote (fuel : Nat) (s : String) {rest : List Char} (hmark : rest.head? ≠ some '"')
    (hapostrophe : rest.head? ≠ some '\'') :
    value (fuel + 1) ((quote s).toList ++ rest) = some (.str s, rest) := by
  have hread := quotedText_quote s hmark hapostrophe
  obtain ⟨q, t, hq, hs⟩ := exists_toList_quote s
  rw [hs, List.cons_append] at hread ⊢
  rcases hq with rfl | rfl <;> simp [value, hread]

/-- Blanks and line ends are passed over. -/
lemma skipAll_append {sp : List Char} (hsp : ∀ c ∈ sp, c = ' ' ∨ c = '\n') {c : Char}
    (hc : c = '"' ∨ c = '\'' ∨ c = ',' ∨ c = ']') (rest : List Char) (fuel : Nat)
    (hfuel : sp.length ≤ fuel) :
    skipAll fuel (sp ++ c :: rest) = c :: rest := by
  induction sp generalizing fuel with
  | nil =>
    cases fuel with
    | zero => rfl
    | succ fuel => rcases hc with rfl | rfl | rfl | rfl <;> rfl
  | cons b sp ih =>
    obtain ⟨fuel, rfl⟩ : ∃ n, fuel = n + 1 := ⟨fuel - 1, by simp at hfuel; omega⟩
    have hrest :=
      ih (fun c hc => hsp c (List.mem_cons_of_mem _ hc)) fuel (Nat.le_of_succ_le_succ hfuel)
    rcases hsp b List.mem_cons_self with rfl | rfl <;> exact hrest

section Elements

variable {sp : List Char} (hsp : ∀ c ∈ sp, c = ' ' ∨ c = '\n') (fuel n : Nat) (rest : List Char)

include hsp

/-- A list ends at its bracket. -/
lemma arrayElements_close (v : Reads Toml) :
    arrayElements v (n + 1) (sp ++ ']' :: rest) = some ([], rest) := by
  have hskip := skipAll_append hsp (.inr (.inr (.inr rfl)) : ']' = '"' ∨ _) rest
    (sp ++ ']' :: rest).length (by simp)
  rw [arrayElements, hskip]
  rfl

/-- A text and what follows it in a list, before a comma or the bracket. -/
lemma arrayElements_quote (e : String) {c : Char} (hc : c = ',' ∨ c = ']') :
    arrayElements (value (fuel + 1)) (n + 1) (sp ++ ((quote e).toList ++ c :: rest)) =
      if c = ',' then (arrayElements (value (fuel + 1)) n rest).map fun r => (.str e :: r.1, r.2)
      else some ([.str e], rest) := by
  have hread : value (fuel + 1) ((quote e).toList ++ c :: rest) = some (.str e, c :: rest) := by
    refine value_quote fuel e ?_ ?_ <;> rcases hc with rfl | rfl <;> simp
  have hbehind : skipAll (c :: rest).length (c :: rest) = c :: rest :=
    skipAll_append (List.forall_mem_nil _) (.inr (.inr hc)) rest _ (Nat.zero_le _)
  obtain ⟨q, t, hq, he⟩ := exists_toList_quote e
  rw [he, List.cons_append] at hread ⊢
  have hskip : skipAll (sp ++ q :: (t ++ c :: rest)).length (sp ++ q :: (t ++ c :: rest)) =
      q :: (t ++ c :: rest) :=
    skipAll_append hsp (hq.elim .inl fun h => .inr (.inl h)) _ _ (by simp)
  have hopen : ∀ left, q :: (t ++ c :: rest) ≠ ']' :: left := by
    rintro left heq
    rw [(List.cons.inj heq).1] at hq
    exact absurd hq (by decide)
  rw [arrayElements, hskip]
  split
  · next left heq => exact absurd heq (hopen left)
  · simp only [hread, Option.bind_eq_bind, Option.bind_some, hbehind]
    rcases hc with rfl | rfl
    · rw [if_pos rfl]
      change (arrayElements (value (fuel + 1)) n rest).bind _ = _
      cases arrayElements (value (fuel + 1)) n rest <;> rfl
    · rfl

end Elements

/-- A text on a line of its own in a list. -/
def elementLine (e : String) : List Char :=
  ' ' :: ' ' :: ' ' :: ' ' :: ((quote e).toList ++ [',', '\n'])

/-- A list of texts, each on a line of its own, is read back. -/
lemma arrayElements_lines (fuel : Nat) (es : List String) (rest : List Char) (n : Nat)
    (hn : es.length < n) :
    arrayElements (value (fuel + 1)) n ('\n' :: (es.flatMap elementLine ++ ']' :: rest)) =
      some (es.map .str, rest) := by
  obtain ⟨n, rfl⟩ : ∃ m, n = m + 1 := ⟨n - 1, by omega⟩
  induction es generalizing n with
  | nil => exact arrayElements_close (by simp : ∀ c ∈ ['\n'], c = ' ' ∨ c = '\n') n rest _
  | cons e es ih =>
    obtain ⟨n, rfl⟩ : ∃ m, n = m + 1 := ⟨n - 1, by simp at hn; omega⟩
    have hblank : ∀ c ∈ ['\n', ' ', ' ', ' ', ' '], c = ' ' ∨ c = '\n' := by simp
    have hstep :=
      arrayElements_quote hblank fuel (n + 1) ('\n' :: (es.flatMap elementLine ++ ']' :: rest)) e
        (.inl rfl)
    rw [if_pos rfl, ih n (Nat.lt_of_succ_lt_succ hn)] at hstep
    simpa [elementLine] using hstep

/-- An array is read if its elements are. -/
lemma value_of_elements {fuel : Nat} {body rest : List Char} {vs : List Toml}
    (h : arrayElements (value (fuel + 1)) (body.length + 1) body = some (vs, rest)) :
    value (fuel + 2) ('[' :: body) = some (.arr vs, rest) := by
  rw [value, h]
  rfl

/-- A list of texts is read back. -/
lemma value_array (fuel : Nat) (es : List String) (rest : List Char) :
    value (fuel + 2) ((array es).toList ++ rest) = some (.arr (es.map .str), rest) := by
  unfold array
  split
  · have htext : "[]".toList ++ rest = '[' :: ([] ++ ']' :: rest) := by simp
    rw [htext]
    exact value_of_elements (arrayElements_close (List.forall_mem_nil _) _ rest _)
  · next e =>
    have htext : ("[" ++ quote e ++ "]").toList ++ rest =
        '[' :: ([] ++ ((quote e).toList ++ ']' :: rest)) := by simp
    rw [htext]
    refine value_of_elements
      ((arrayElements_quote (List.forall_mem_nil _) fuel _ rest e (.inr rfl)).trans ?_)
    rfl
  · have htext :
        ("[\n" ++ String.join (es.map fun e => "    " ++ quote e ++ ",\n") ++ "]").toList ++ rest =
        '[' :: '\n' :: (es.flatMap elementLine ++ ']' :: rest) := by
      delta elementLine
      simp [String.toList_join, List.flatMap_map]
    have hlength : es.length ≤ (es.flatMap elementLine).length :=
      length_le_flatMap (fun _ => List.cons_ne_nil _ _) es
    rw [htext]
    refine value_of_elements (arrayElements_lines fuel es rest _ ?_)
    simp only [List.length_cons, List.length_append]
    omega

/-- What begins as a word is read as one. -/
lemma value_eq_word {c : Char} (hc : isWordChar c = true) (fuel : Nat) (cs : List Char) :
    value (fuel + 1) (c :: cs) = word (c :: cs) := by
  have hstart : ∀ {d : Char} {t : List Char}, isWordChar d = false → c :: cs ≠ d :: t := by
    rintro d t hd heq
    rw [(List.cons.inj heq).1, hd] at hc
    cases hc
  rw [value.eq_def]
  dsimp only
  split
  · next heq => exact absurd heq (hstart (by decide))
  · next heq => exact absurd heq (hstart (by decide))
  · next heq => exact absurd heq (hstart (by decide))
  · next heq => exact absurd heq (hstart (by decide))
  · rfl

/-! ## Written values -/

/-- A value as it is written: it is read back wherever a line ends behind it. -/
structure Written where
  /-- How it is written. -/
  text : String
  /-- What is written. -/
  value : Toml
  /-- It is read back. -/
  reads : ∀ rest, Toml.value nestingLimit (text.toList ++ '\n' :: rest) = some (value, '\n' :: rest)

namespace Written

/-- A text. -/
def str (s : String) : Written where
  text := quote s
  value := .str s
  reads _ := value_quote _ s (by simp) (by simp)

/-- A list of texts. -/
def strs (es : List String) : Written where
  text := array es
  value := .arr (es.map .str)
  reads _ := value_array _ es _

/-- A truth value. -/
def bool (b : Bool) : Written where
  text := boolean b
  value := .bool b
  reads rest := by
    refine Eq.trans ?_ (word_boolean b rest)
    cases b <;> exact value_eq_word (by decide) _ _

/-- A number that is not too great. -/
def nat (n : Nat) (hn : n < 0x8000000000000000) : Written where
  text := toString n
  value := .int n
  reads rest := by
    refine Eq.trans ?_ (word_toString hn rest)
    have hlist : (toString n).toList = Nat.toDigits 10 n := Nat.toList_repr
    rw [hlist]
    cases hds : Nat.toDigits 10 n with
    | nil => exact absurd hds Nat.toDigits_ne_nil
    | cons d ds =>
      have hd : d ∈ Nat.toDigits 10 n := hds ▸ List.mem_cons_self
      exact value_eq_word (isWordChar_of_isDigit (isDigit_of_mem_toDigits hd)) _ _

end Written

/-! ## Lines -/

/-- A key that is written without quotes. -/
def Bare (k : String) : Prop := k ≠ "" ∧ k.toList.all isBareChar = true

instance (k : String) : Decidable (Bare k) := inferInstanceAs (Decidable (_ ∧ _))

/-- A character of a key is none of those that have a meaning before a key. -/
lemma ne_of_isBareChar {x y : Char} (hx : isBareChar x = true) (hy : isBareChar y = false) :
    x ≠ y := by
  rintro rfl
  rw [hx] at hy
  cases hy

/-- A character of a bare key is no space to skip. -/
lemma skipSpace_of_isBareChar {x : Char} (hx : isBareChar x = true) (cs : List Char) :
    skipSpace (x :: cs) = x :: cs := by
  have hspace : isSpace x = false := by
    simp [isSpace, ne_of_isBareChar hx (by decide : isBareChar ' ' = false),
      ne_of_isBareChar hx (by decide : isBareChar '\t' = false)]
  simp [skipSpace, hspace]

/-- No line ends before a key. -/
lemma lineEnd_of_isBareChar {x : Char} (hx : isBareChar x = true) (cs : List Char) :
    lineEnd (x :: cs) = none := by
  have hcomment := ne_of_isBareChar hx (by decide : isBareChar '#' = false)
  have hfeed := ne_of_isBareChar hx (by decide : isBareChar '\n' = false)
  have hreturn := ne_of_isBareChar hx (by decide : isBareChar '\r' = false)
  simp [lineEnd, skipSpace_of_isBareChar hx, newline?, hcomment, hfeed, hreturn]

/-- A bare key begins with a character of bare keys. -/
lemma Bare.exists_toList {k : String} (hk : Bare k) :
    ∃ x t, isBareChar x = true ∧ k.toList = x :: t := by
  cases h : k.toList with
  | nil => exact absurd (String.toList_eq_nil_iff.1 h) hk.1
  | cons x t => exact ⟨x, t, List.all_eq_true.1 hk.2 x (h ▸ List.mem_cons_self), rfl⟩

section Keys

variable {k : String} (hk : Bare k) {c : Char} (hc : isBareChar c = false) (rest : List Char)

include hk hc

/-- A key is read up to the first character that cannot stand in it. -/
lemma simpleKey_append : simpleKey (k.toList ++ c :: rest) = some (k, c :: rest) := by
  have htake : (k.toList ++ c :: rest).takeWhile isBareChar = k.toList := by
    rw [List.takeWhile_append_of_pos (List.all_eq_true.1 hk.2),
      List.takeWhile_cons_of_neg (by simp [hc]), List.append_nil]
  obtain ⟨x, t, hx, hlist⟩ := hk.exists_toList
  unfold simpleKey
  split
  · next heq =>
    rw [hlist] at heq
    exact absurd (List.cons.inj heq).1 (ne_of_isBareChar hx (by decide))
  · next heq =>
    rw [hlist] at heq
    exact absurd (List.cons.inj heq).1 (ne_of_isBareChar hx (by decide))
  · simp [htake, hk.1]

/-- A key without dots. -/
lemma key_append (fuel : Nat) (hdot : (skipSpace (c :: rest)).head? ≠ some '.') :
    key (fuel + 1) (k.toList ++ c :: rest) = some ([k], skipSpace (c :: rest)) := by
  have hskip : skipSpace (k.toList ++ c :: rest) = k.toList ++ c :: rest := by
    obtain ⟨x, t, hx, hlist⟩ := hk.exists_toList
    rw [hlist]
    exact skipSpace_of_isBareChar hx _
  rw [key, hskip, simpleKey_append hk hc]
  simp only [Option.bind_eq_bind, Option.bind_some]
  split
  · next heq =>
    rw [heq] at hdot
    exact absurd rfl hdot
  · rfl

end Keys

/-- No value begins with a blank. -/
lemma value_of_isSpace {c : Char} (hc : isSpace c = true) (fuel : Nat) (cs : List Char) :
    value (fuel + 1) (c :: cs) = none := by
  simp only [isSpace, Bool.or_eq_true, decide_eq_true_eq] at hc
  rcases hc with rfl | rfl <;> rfl

/-- No written value begins with a blank. -/
lemma Written.skipSpace_text (v : Written) (rest : List Char) :
    skipSpace (v.text.toList ++ '\n' :: rest) = v.text.toList ++ '\n' :: rest := by
  have hreads := v.reads rest
  cases h : v.text.toList with
  | nil => rfl
  | cons c cs =>
    rw [h] at hreads
    have hspace : isSpace c = false := by
      cases hc : isSpace c with
      | false => rfl
      | true =>
        rw [List.cons_append, nestingLimit, value_of_isSpace hc] at hreads
        cases hreads
    simp [skipSpace, hspace]

variable {fuel : Nat} {current : List String} {s : Section} {rest : List Char}

/-- A line that names a table. -/
lemma lines_header {name : String} (hname : Bare name) :
    lines (fuel + 1) current s ('[' :: (name.toList ++ ']' :: '\n' :: rest)) =
      (s.name Section.nameTable [name]).bind fun s => lines fuel [name] s rest := by
  obtain ⟨x, t, hx, hlist⟩ := hname.exists_toList
  have hkey := key_append hname (by decide : isBareChar ']' = false) ('\n' :: rest)
    (name.toList ++ ']' :: '\n' :: rest).length (by simp [skipSpace, isSpace])
  have hheader : header ('[' :: (name.toList ++ ']' :: '\n' :: rest)) =
      some ((false, [name]), '\n' :: rest) := by
    unfold header
    split
    · next heq =>
      rw [hlist] at heq
      exact absurd (List.cons.inj (List.cons.inj heq).2).1 (ne_of_isBareChar hx (by decide))
    · next heq =>
      rw [← (List.cons.inj heq).2, hkey]
      rfl
    · next heq => exact absurd rfl (heq _)
  have hskip : skipSpace ('[' :: (name.toList ++ ']' :: '\n' :: rest)) =
    '[' :: (name.toList ++ ']' :: '\n' :: rest) := rfl
  rw [lines, hskip]
  · simp only [hheader, Option.bind_eq_bind, Option.bind_some]
    rfl
  · exact List.cons_ne_nil _ _

/-- A line with a key and its value. -/
lemma lines_entry {k : String} (hk : Bare k) (v : Written) :
    lines (fuel + 1) current s (k.toList ++ ' ' :: '=' :: ' ' :: (v.text.toList ++ '\n' :: rest)) =
      (s.assign current [k] v.value).bind fun s => lines fuel current s rest := by
  have hpair : pairWith (value nestingLimit)
      (k.toList ++ ' ' :: '=' :: ' ' :: (v.text.toList ++ '\n' :: rest)) =
      some (([k], v.value), '\n' :: rest) := by
    have hkey := key_append hk (by decide : isBareChar ' ' = false)
      ('=' :: ' ' :: (v.text.toList ++ '\n' :: rest))
      (k.toList ++ ' ' :: '=' :: ' ' :: (v.text.toList ++ '\n' :: rest)).length
        (by simp [skipSpace, isSpace])
    have hvalue : value nestingLimit (skipSpace (' ' :: (v.text.toList ++ '\n' :: rest))) =
        some (v.value, '\n' :: rest) :=
      (congrArg _ (v.skipSpace_text rest)).trans (v.reads rest)
    simp only [pairWith, hkey, Option.bind_eq_bind, Option.bind_some]
    change Option.bind
      (value nestingLimit (skipSpace (' ' :: (v.text.toList ++ '\n' :: rest)))) _ = _
    rw [hvalue]
    rfl
  obtain ⟨x, t, hx, hlist⟩ := hk.exists_toList
  rw [hlist, List.cons_append] at hpair ⊢
  rw [lines, skipSpace_of_isBareChar hx]
  · split
    · next heq => cases heq
    · next heq => exact absurd (List.cons.inj heq).1 (ne_of_isBareChar hx (by decide))
    · simp only [lineEnd_of_isBareChar hx, hpair, Option.bind_eq_bind, Option.bind_some]
      rfl
  · exact List.cons_ne_nil _ _

/-- A line without anything. -/
lemma lines_blank : lines (fuel + 1) current s ('\n' :: rest) = lines fuel current s rest := by
  rfl

/-! ## Tables -/

/-- A table of written values. -/
structure Table where
  name : String
  entries : List (String × Written)
  /-- The name can be written without quotes. -/
  bare_name : Bare name
  /-- So can the keys. -/
  bare_keys : ∀ k ∈ entries.map (·.1), Bare k
  /-- No key has two values. -/
  nodup_keys : (entries.map (·.1)).Nodup

namespace Table

/-- A table with its keys. -/
def ofKeys (name : String) (keys : List String) (entries : List (String × Written))
    (hentries : entries.map (·.1) = keys) (hkeys : Bare name ∧ (∀ k ∈ keys, Bare k) ∧ keys.Nodup) :
    Table where
  name := name
  entries := entries
  bare_name := hkeys.1
  bare_keys := hentries ▸ hkeys.2.1
  nodup_keys := hentries ▸ hkeys.2.2

/-- How a table is written. -/
def text (t : Table) : String := tableText t.name (t.entries.map fun e => (e.1, e.2.text))

/-- The lines of entries. -/
def entryChars (entries : List (String × Written)) : List Char :=
  entries.flatMap fun e => e.1.toList ++ ' ' :: '=' :: ' ' :: (e.2.text.toList ++ ['\n'])

/-- The characters of a table are its name in brackets and its entries. -/
lemma toList_text (t : Table) :
    t.text.toList = '[' :: (t.name.toList ++ ']' :: '\n' :: entryChars t.entries) := by
  simp [text, tableText, entryChars, String.toList_join, List.flatMap_map]

/-- The value of a table. -/
def value (t : Table) : Toml := .table (t.entries.map fun e => (e.1, e.2.value))

/-- What is read of entries. -/
def sections (entries : List (String × Written)) : List (String × Section) :=
  entries.map fun e => (e.1, .value e.2.value)

end Table

namespace Section

variable {done es : List (String × Section)} {n k : String}

/-- The entries of a table are turned into values one by one. -/
lemma entriesToToml_eq_map (es : List (String × Section)) :
    entriesToToml es = es.map fun e => (e.1, e.2.toToml) := by
  induction es with
  | nil => rfl
  | cons e es ih => rw [entriesToToml, ih, entryToToml, List.map_cons]

/-- The last entry is replaced. -/
lemma replace_concat (h : n ∉ done.map (·.1)) (x y : Section) :
    replace n y (done ++ [(n, x)]) = done ++ [(n, y)] := by
  induction done with
  | nil => simp [replace]
  | cons e done ih =>
    rw [List.map_cons, List.mem_cons, not_or] at h
    rw [List.cons_append, replace, if_neg (Ne.symm h.1), ih h.2, List.cons_append]

/-- A table with a new name comes last. -/
lemma name_nameTable (h : n ∉ done.map (·.1)) :
    (table false false done).name nameTable [n] =
      some (.table false false (done ++ [(n, .table false false [])])) := by
  simp [name, alter, nameTable, lookup_eq_none h, blank]

/-- A new key comes last in the table that was named last. -/
lemma assign_concat (hn : n ∉ done.map (·.1)) (hk : k ∉ es.map (·.1)) (v : Toml) :
    (table false false (done ++ [(n, .table false false es)])).assign [n] [k] v =
      some (.table false false (done ++ [(n, .table false false (es ++ [(k, .value v)]))])) := by
  have hlookup : (done ++ [(n, table false false es)]).lookup n = some (.table false false es) := by
    simp [List.lookup_append, lookup_eq_none hn]
  simp [assign, alter, hlookup, insertPath, insert, lookup_eq_none hk, replace_concat hn]

end Section

/-- The lines of the entries of a table. -/
lemma lines_entries {done : List (String × Section)} {n : String} (hn : n ∉ done.map (·.1))
    {es : List (String × Written)} (hbare : ∀ k ∈ es.map (·.1), Bare k)
    {before : List (String × Section)} (hkeys : (before.map (·.1) ++ es.map (·.1)).Nodup)
    (fuel : Nat) (rest : List Char) :
    lines (fuel + es.length) [n] (.table false false (done ++ [(n, .table false false before)]))
        (Table.entryChars es ++ rest) =
      lines fuel [n] (.table false false
        (done ++ [(n, .table false false (before ++ Table.sections es))])) rest := by
  induction es generalizing before with
  | nil => simp [Table.entryChars, Table.sections]
  | cons e es ih =>
    have hk : e.1 ∉ before.map (·.1) := fun h =>
      (List.nodup_append.1 hkeys).2.2 e.1 h e.1 List.mem_cons_self rfl
    have hkeys' :
        ((before ++ [(e.1, Section.value e.2.value)]).map (·.1) ++ es.map (·.1)).Nodup := by
      simpa using hkeys
    have hrest := ih (fun k hk => hbare k (List.mem_cons_of_mem _ hk)) hkeys'
    have hchars : Table.entryChars (e :: es) ++ rest =
        e.1.toList ++ ' ' :: '=' :: ' ' ::
          (e.2.text.toList ++ '\n' :: (Table.entryChars es ++ rest)) := by
      simp [Table.entryChars]
    rw [hchars, List.length_cons, ← Nat.add_assoc, lines_entry (hbare e.1 List.mem_cons_self),
      Section.assign_concat hn hk, Option.bind_some, hrest]
    simp [Table.sections]

/-- The lines of a table. -/
theorem lines_table {done : List (String × Section)} (t : Table)
    (ht : t.name ∉ done.map (·.1)) (fuel : Nat) (current : List String) (rest : List Char) :
    lines (fuel + t.entries.length + 1) current (.table false false done) (t.text.toList ++ rest) =
      lines fuel [t.name]
        (.table false false (done ++ [(t.name, .table false false (Table.sections t.entries))]))
          rest := by
  have hchars : t.text.toList ++ rest =
      '[' :: (t.name.toList ++ ']' :: '\n' :: (Table.entryChars t.entries ++ rest)) := by
    simp [Table.toList_text]
  rw [hchars, lines_header t.bare_name, Section.name_nameTable ht, Option.bind_some]
  exact lines_entries ht t.bare_keys (by simpa using t.nodup_keys) fuel rest

/-! ## Documents -/

/-- How tables are written. -/
def document (ts : List Table) : String := Text.joinWith "\n" (ts.map Table.text)

/-- The characters of a document of one table are those of the table. -/
lemma toList_document_singleton (t : Table) : (document [t]).toList = t.text.toList ++ [] := by
  simp [document, Text.joinWith]

/-- The tables of a document are divided by an empty line. -/
lemma toList_document_cons_cons (t u : Table) (ts : List Table) :
    (document (t :: u :: ts)).toList = t.text.toList ++ '\n' :: (document (u :: ts)).toList := by
  simp [document, Text.joinWith, String.intercalate_cons_cons]

/-- A table has at least as many characters as lines. -/
lemma Table.length_lt (t : Table) : t.entries.length + 1 < t.text.toList.length := by
  have hentries : t.entries.length ≤ (entryChars t.entries).length :=
    length_le_flatMap (fun _ => by simp) t.entries
  rw [toList_text]
  simp only [List.length_cons, List.length_append]
  omega

/-- The lines of all tables. -/
lemma lines_document (ts : List Table) {done : List (String × Section)}
    (hnames : (done.map (·.1) ++ ts.map Table.name).Nodup) (fuel : Nat)
    (hfuel : (document ts).toList.length < fuel) (current : List String) :
    lines fuel current (.table false false done) (document ts).toList =
      some (.table false false
        (done ++ ts.map fun t => (t.name, .table false false (Table.sections t.entries)))) := by
  induction ts generalizing done fuel current with
  | nil => cases fuel <;> simp [document, Text.joinWith, lines]
  | cons t ts ih =>
    have ht : t.name ∉ done.map (·.1) := fun h =>
      (List.nodup_append.1 hnames).2.2 t.name h t.name List.mem_cons_self rfl
    have hlength := t.length_lt
    have hnames' :
        ((done ++ [(t.name, Section.table false false (Table.sections t.entries))]).map (·.1) ++
        ts.map Table.name).Nodup := by simpa using hnames
    -- the lines of the first table, and a blank one unless it is the last
    cases ts with
    | nil =>
      rw [toList_document_singleton] at hfuel ⊢
      obtain ⟨m, rfl⟩ : ∃ m, fuel = m + t.entries.length + 1 :=
        ⟨fuel - (t.entries.length + 1), by simp at hfuel; omega⟩
      rw [lines_table t ht]
      cases m <;> simp [lines]
    | cons u ts =>
      rw [toList_document_cons_cons, List.length_append, List.length_cons] at hfuel
      obtain ⟨m, rfl⟩ : ∃ m, fuel = m + 1 + t.entries.length + 1 :=
        ⟨fuel - (t.entries.length + 2), by omega⟩
      rw [toList_document_cons_cons, lines_table t ht, lines_blank, ih hnames' m (by omega)]
      simp

/-- A document is read back. -/
theorem parse_document {ts : List Table} (hnames : (ts.map Table.name).Nodup) :
    parse (document ts) = some (.table (ts.map fun t => (t.name, t.value))) := by
  have hhead : (document ts).toList.head? ≠ some (Char.ofNat 0xFEFF) := by
    rcases ts with _ | ⟨t, _ | ⟨u, ts⟩⟩
    · simp [document, Text.joinWith]
    · rw [toList_document_singleton, Table.toList_text, List.cons_append, List.head?_cons]
      decide
    · rw [toList_document_cons_cons, Table.toList_text, List.cons_append, List.head?_cons]
      decide
  have hlines := @lines_document ts [] hnames _ (Nat.lt_succ_self _) []
  have hvalue :
      ∀ t : Table, (Section.table false false (Table.sections t.entries)).toToml = t.value := by
    intro t
    simp [Section.toToml, Section.entriesToToml_eq_map, Table.sections, Table.value,
      Function.comp_def]
  simp only [parse, if_neg hhead, Section.blank, hlines, List.nil_append, Option.bind_eq_bind,
    Option.bind_some, Option.pure_def]
  rw [Section.toToml, Section.entriesToToml_eq_map, List.map_map]
  simp only [Function.comp_def, hvalue]

end PhpCalls.Toml
