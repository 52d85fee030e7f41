import PhpCalls.Json.Reader
import PhpCalls.Json.Writer
import Mathlib.Data.List.Induction

set_option autoImplicit false

/-!
# Reading back written JSON

A JSON value that is written in one of the two layouts is read back as it was. The only value that
is not is `Json.other`, which stands for what no record holds and has no written form of its own.

## Main definitions

* `Json.Known`: a value without `Json.other`.
* `Json.Layout.Blank`: a layout that puts only blanks between the parts.
* `Json.Reads`: wherever a value stands in a text, it is read.

## Main results

* `Json.number_toDigits`, `Json.text_quote`: numerals and texts are read back.
* `Json.Known.reads`: known values are read back, whatever follows them.
* `Json.parse_compact`, `Json.parse_pretty`: the two layouts are read back.
-/

namespace PhpCalls.Json

/-! ## Blanks -/

/-- Blanks before a text are passed over. -/
lemma skip_append {sp : List Char} (hsp : ∀ c ∈ sp, isSpace c = true) (cs : List Char) :
    skip (sp ++ cs) = skip cs := by
  induction sp with
  | nil => rfl
  | cons c sp ih =>
    have hc : isSpace c = true := hsp c List.mem_cons_self
    have hrest := ih fun c hc => hsp c (List.mem_cons_of_mem _ hc)
    simpa [skip, hc] using hrest

/-- A text that begins with no blank stays. -/
lemma skip_cons {c : Char} (hc : isSpace c = false) (cs : List Char) :
    skip (c :: cs) = c :: cs := by
  simp [skip, hc]

/-! ## Numerals -/

/-- The text goes on with nothing that could belong to a numeral. -/
def Stops (rest : List Char) : Prop :=
  ∀ c ∈ rest.head?, c.isDigit = false ∧ c ≠ '.' ∧ c ≠ 'e' ∧ c ≠ 'E'

/-- At the end of a text a numeral stops. -/
lemma stops_nil : Stops [] := by
  intro c hc
  cases hc

/-- A numeral stops before a character that could not belong to it. -/
lemma stops_cons {c : Char} (h : c.isDigit = false ∧ c ≠ '.' ∧ c ≠ 'e' ∧ c ≠ 'E')
    (rest : List Char) : Stops (c :: rest) := by
  intro d hd
  obtain rfl : c = d := by simpa using hd
  exact h

/-- A blank is no part of a numeral. -/
lemma not_numeral_of_isSpace {c : Char} (h : isSpace c = true) :
    c.isDigit = false ∧ c ≠ '.' ∧ c ≠ 'e' ∧ c ≠ 'E' := by
  simp only [isSpace, Bool.or_eq_true, decide_eq_true_eq] at h
  rcases h with ((rfl | rfl) | rfl) | rfl <;> decide

/-- The digits of a number have its value. -/
lemma natOf_toDigits (n : Nat) : natOf (Nat.toDigits 10 n) = n := by
  have h : ∀ ds : List Char, natOf ds = Nat.ofDigitChars 10 ds 0 := by
    intro ds
    rw [natOf, Nat.ofDigitChars_eq_foldl]
    refine congrArg (fun f => List.foldl f 0 ds) ?_
    funext sum d
    rw [Nat.mul_comm]
    rfl
  rw [h, Nat.ofDigitChars_ten_toDigits]

/-- Digits are read up to what is no digit. -/
lemma someDigits_append {ds rest : List Char} (hds : ∀ c ∈ ds, c.isDigit = true) (hne : ds ≠ [])
    (hrest : ∀ c ∈ rest.head?, c.isDigit = false) : someDigits (ds ++ rest) = some (ds, rest) := by
  have htake : (ds ++ rest).takeWhile Char.isDigit = ds := by
    rw [List.takeWhile_append_of_pos hds]
    cases rest with
    | nil => simp
    | cons c rest => simp [hrest c rfl]
  have hdrop : (ds ++ rest).dropWhile Char.isDigit = rest := by
    rw [List.dropWhile_append_of_pos hds]
    cases rest with
    | nil => rfl
    | cons c rest => simp [hrest c rfl]
  unfold someDigits
  rw [htake, hdrop]
  cases ds with
  | nil => exact absurd rfl hne
  | cons d ds => rfl

/-- A numeral begins with a digit. -/
lemma exists_toDigits_eq_cons (n : Nat) :
    ∃ d ds, Nat.toDigits 10 n = d :: ds ∧ d.isDigit = true := by
  obtain ⟨d, ds, hds⟩ := List.exists_cons_of_ne_nil (Nat.toDigits_ne_nil (b := 10) (n := n))
  refine ⟨d, ds, hds, Nat.isDigit_of_mem_toDigits (b := 10) (n := n) (by decide) (by decide) ?_⟩
  rw [hds]
  exact List.mem_cons_self

/-- A numeral of several digits does not begin with zero. -/
lemma head_toDigits_ne_zero {n : Nat} (hn : 0 < n) : (Nat.toDigits 10 n).head? ≠ some '0' := by
  induction n using Nat.base_induction 10 (by decide) with
  | single m hm =>
    have hdigit : ∀ m < 10, 0 < m → [Nat.digitChar m].head? ≠ some '0' := by decide
    rw [Nat.toDigits_of_lt_base hm]
    exact hdigit m hm hn
  | digit m k hk hm ih =>
    have hhead := ih hm
    rw [← Nat.toDigits_append_toDigits (by decide) hm hk]
    cases hds : Nat.toDigits 10 m with
    | nil => exact absurd hds Nat.toDigits_ne_nil
    | cons d ds =>
      rw [hds] at hhead
      simpa using hhead

/-- The digits of a number are read as the whole part of a numeral. -/
lemma wholePart_toDigits (n : Nat) {rest : List Char} (hrest : Stops rest) :
    wholePart (Nat.toDigits 10 n ++ rest) = some (Nat.toDigits 10 n, rest) := by
  have hdigits : someDigits (Nat.toDigits 10 n ++ rest) = some (Nat.toDigits 10 n, rest) :=
    someDigits_append (fun c hc => Nat.isDigit_of_mem_toDigits (by decide) (by decide) hc)
      Nat.toDigits_ne_nil fun c hc => (hrest c hc).1
  unfold wholePart
  rw [hdigits]
  split
  · rename_i d ds rest' heq
    exfalso
    obtain ⟨hzero, -⟩ := Prod.mk.inj (Option.some.inj heq)
    rcases Nat.eq_zero_or_pos n with rfl | hn
    · rw [Nat.toDigits_zero] at hzero
      cases hzero
    · exact head_toDigits_ne_zero hn (by rw [hzero]; rfl)
  · rfl

/-- A written number is read back, if the text does not go on as a numeral. -/
theorem number_toDigits (n : Nat) {rest : List Char} (hrest : Stops rest) :
    number (Nat.toDigits 10 n ++ rest) = some (.nat n, rest) := by
  have hpoint : fraction rest = some (false, rest) := by
    unfold fraction
    split
    · exact absurd rfl (hrest '.' rfl).2.1
    · rfl
  have hmark : exponent rest = some (false, rest) := by
    unfold exponent
    split
    · exact absurd rfl (hrest 'e' rfl).2.2.1
    · exact absurd rfl (hrest 'E' rfl).2.2.2
    · rfl
  have hsign : ∀ tail : List Char, Nat.toDigits 10 n ++ rest ≠ '-' :: tail := by
    intro tail h
    obtain ⟨d, ds, hds, hd⟩ := exists_toDigits_eq_cons n
    rw [hds, List.cons_append] at h
    obtain ⟨rfl, -⟩ := List.cons.inj h
    exact absurd hd (by decide)
  unfold number
  split
  · rename_i tail heq
    exact absurd heq (hsign tail)
  · simp only [wholePart_toDigits n hrest, hpoint, hmark, Option.bind_eq_bind, Option.bind_some,
      Bool.or_self, Bool.false_eq_true, if_false, natOf_toDigits]

/-! ## Texts -/

/-- The two hexadecimal digits of a control character are read as its number. -/
lemma fourHex_hexPair {n : Nat} (hn : n < 0x20) (rest : List Char) :
    fourHex ('0' :: '0' :: hexPair n ++ rest) = some (n, rest) := by
  have hpair : ∀ n < 0x20, hexValue (Nat.digitChar (n / 16)) = some (n / 16) ∧
      hexValue (Nat.digitChar (n % 16)) = some (n % 16) := by decide
  obtain ⟨hhigh, hlow⟩ := hpair n hn
  have hzero : hexValue '0' = some 0 := by decide
  simp only [hexPair, List.cons_append, List.nil_append, fourHex, hzero, hhigh, hlow,
    Option.bind_eq_bind, Option.bind_some]
  congr 2
  omega

/-- A written character is read back. -/
lemma piece_escape (c : Char) (rest : List Char) :
    piece (escape c ++ rest) = some (.char c, rest) := by
  unfold escape
  split_ifs with h₁ h₂ h₃ h₄ h₅ h₆ h₇ h₈
  · subst h₁; rfl
  · subst h₂; rfl
  · subst h₃; rfl
  · subst h₄; rfl
  · subst h₅; rfl
  · subst h₆; rfl
  · subst h₇; rfl
  · have hfour := fourHex_hexPair h₈ rest
    have hplain : ¬ (0xD800 ≤ c.toNat ∧ c.toNat < 0xE000) := by omega
    simp only [List.cons_append] at hfour ⊢
    simp [piece, escaped, hfour, Char.ofNat_toNat]
    omega
  · simp [piece, h₁, h₂, h₈]

/-- Pieces that are written one after the other are read back. -/
lemma pieces_escape (cs rest : List Char) {n : Nat} (hn : cs.length < n) :
    pieces n (cs.flatMap escape ++ '"' :: rest) = some (cs.map .char, rest) := by
  induction cs generalizing n with
  | nil =>
    cases n with
    | zero => omega
    | succ m => rfl
  | cons c cs ih =>
    obtain ⟨m, rfl⟩ : ∃ m, n = m + 1 := ⟨n - 1, by omega⟩
    have hm : cs.length < m := by simpa using hn
    rw [List.flatMap_cons, List.append_assoc, pieces, piece_escape]
    simp only [Option.bind_eq_bind, Option.bind_some, ih hm]
    rfl

/-- Characters that stand for themselves are assembled as they are. -/
lemma assemble_map_char (cs : List Char) : assemble (cs.map .char) = some cs := by
  induction cs with
  | nil => rfl
  | cons c cs ih => simp [assemble, ih]

/-- Escapes make no text shorter. -/
lemma length_le_flatMap_escape (cs : List Char) : cs.length ≤ (cs.flatMap escape).length := by
  have hone : ∀ c, 1 ≤ (escape c).length := by
    intro c
    unfold escape
    split_ifs <;> simp
  induction cs with
  | nil => simp
  | cons c cs ih =>
    have hc := hone c
    simp only [List.flatMap_cons, List.length_append, List.length_cons]
    omega

/-- A text in quotes is read back. -/
theorem text_quote (s : String) (rest : List Char) :
    text (s.toList.flatMap escape ++ '"' :: rest) = some (some s, rest) := by
  have hlen := length_le_flatMap_escape s.toList
  unfold text
  rw [pieces_escape s.toList rest (by simp only [List.length_append, List.length_cons]; omega)]
  simp [assemble_map_char]

/-! ## Values -/

/-- The value does not hold `Json.other`. -/
inductive Known : Json → Prop where
  | null : Known .null
  | bool (b : Bool) : Known (.bool b)
  | nat (n : Nat) : Known (.nat n)
  | str (s : String) : Known (.str s)
  | arr {es : List Json} (h : ∀ e ∈ es, Known e) : Known (.arr es)
  | obj {ms : List (String × Json)} (h : ∀ m ∈ ms, Known m.2) : Known (.obj ms)

/-- The layout puts only blanks between the parts of a value. -/
structure Layout.Blank (l : Layout) : Prop where
  inner : ∀ d, ∀ c ∈ l.inner d, isSpace c = true
  outer : ∀ d, ∀ c ∈ l.outer d, isSpace c = true
  colon : ∃ sp, l.colon = ':' :: sp ∧ ∀ c ∈ sp, isSpace c = true

/-- A new line with its indentation is blank. -/
lemma blank_newline (d : Nat) : ∀ c ∈ newline d, isSpace c = true := by
  intro c hc
  rcases List.mem_cons.1 hc with rfl | hc
  · decide
  · rw [List.eq_of_mem_replicate hc]
    decide

/-- The layout on one line has only blanks between the parts. -/
lemma Layout.blank_compact : Layout.compact.Blank := by
  refine ⟨?_, ?_, [], rfl, ?_⟩ <;> simp [Layout.compact]

/-- The layout in lines has only blanks between the parts. -/
lemma Layout.blank_pretty : Layout.pretty.Blank := by
  refine ⟨fun d => blank_newline (d + 1), blank_newline, [' '], rfl, ?_⟩
  intro c hc
  obtain rfl := List.mem_singleton.1 hc
  decide

/-- The text goes on with blanks and then with a mark that is no part of a numeral. -/
lemma stops_append {sp : List Char} (hsp : ∀ c ∈ sp, isSpace c = true) {rest : List Char}
    (hrest : Stops rest) : Stops (sp ++ rest) := by
  cases sp with
  | nil => exact hrest
  | cons c sp => exact stops_cons (not_numeral_of_isSpace (hsp c List.mem_cons_self)) _

/-- Wherever the value stands, after blanks and before what does not go on as a numeral, it is read.
The bound on the depth grows with the length of its written form. -/
def Reads (l : Layout) (j : Json) : Prop :=
  ∀ (depth n : Nat) (sp rest : List Char), (∀ c ∈ sp, isSpace c = true) → Stops rest →
    2 * (render l depth j).length ≤ n → value n (sp ++ render l depth j ++ rest) = some (j, rest)

/-- Elements are read up to the closing bracket. -/
lemma elements_render {l : Layout} (hl : l.Blank) (depth : Nat) (rest : List Char) {e : Json}
    {es : List Json} (hreads : ∀ j ∈ e :: es, Reads l j) {n : Nat}
    (hn : 2 * ((render l (depth + 1) e).length + (renderElements l depth es).length) < n) :
    elements n (l.inner depth ++ render l (depth + 1) e ++
      (renderElements l depth es ++ (l.outer depth ++ ']' :: rest))) = some (e :: es, rest) := by
  -- on the elements behind the first; each element takes one off the bound
  induction es generalizing e n with
  | nil =>
    obtain ⟨m, rfl⟩ : ∃ m, n = m + 1 := ⟨n - 1, by omega⟩
    have hbracket : Stops (']' :: rest) := stops_cons (by decide) rest
    have he := hreads e List.mem_cons_self (depth + 1) m (l.inner depth)
      (renderElements l depth [] ++ (l.outer depth ++ ']' :: rest)) (hl.inner depth)
      (by simpa [renderElements] using stops_append (hl.outer depth) hbracket) (by omega)
    have hskip :
        skip (renderElements l depth [] ++ (l.outer depth ++ ']' :: rest)) = ']' :: rest := by
      rw [renderElements, List.nil_append, skip_append (hl.outer depth), skip_cons (by decide)]
    rw [elements, he]
    simp only [Option.bind_eq_bind, Option.bind_some, hskip]
  | cons f es ih =>
    obtain ⟨m, rfl⟩ : ∃ m, n = m + 1 := ⟨n - 1, by omega⟩
    have htail : renderElements l depth (f :: es) ++ (l.outer depth ++ ']' :: rest) =
        ',' :: (l.inner depth ++ render l (depth + 1) f ++
          (renderElements l depth es ++ (l.outer depth ++ ']' :: rest))) := by
      simp [renderElements]
    have hlen : (renderElements l depth (f :: es)).length =
        (l.inner depth).length + (render l (depth + 1) f).length +
          (renderElements l depth es).length + 1 := by
      simp [renderElements]
      omega
    have he := hreads e List.mem_cons_self (depth + 1) m (l.inner depth)
      (',' :: (l.inner depth ++ render l (depth + 1) f ++
        (renderElements l depth es ++ (l.outer depth ++ ']' :: rest)))) (hl.inner depth)
      (stops_cons (by decide) _) (by omega)
    have hes := ih (n := m) (fun j hj => hreads j (List.mem_cons_of_mem _ hj)) (by omega)
    rw [htail, elements, he]
    simp only [Option.bind_eq_bind, Option.bind_some,
      skip_cons (show isSpace ',' = false by decide)]
    rw [hes]
    rfl

/-- A member is read up to the end of its value. -/
lemma value_renderMember {l : Layout} (hl : l.Blank) (depth : Nat) (key : String) {v : Json}
    (hv : Reads l v) (rest : List Char) (hrest : Stops rest) {n : Nat}
    (hn : 2 * (renderMember l depth (key, v)).length ≤ n) :
    ∃ tail, renderMember l depth (key, v) ++ rest =
        '"' :: (key.toList.flatMap escape ++ '"' :: ':' :: tail) ∧
      value n tail = some (v, rest) := by
  obtain ⟨sp, hcolon, hsp⟩ := hl.colon
  refine ⟨_, ?_, hv (depth + 1) n sp rest hsp hrest ?_⟩
  · simp [renderMember, quote, hcolon]
  · simp only [renderMember, List.length_append] at hn
    omega

/-- Members are read up to the closing brace. -/
lemma members_render {l : Layout} (hl : l.Blank) (depth : Nat) (rest : List Char)
    {m : String × Json} {ms : List (String × Json)} (hreads : ∀ e ∈ m :: ms, Reads l e.2) {n : Nat}
    (hn : 2 * ((renderMember l depth m).length + (renderMembers l depth ms).length) < n) :
    members n (l.inner depth ++ renderMember l depth m ++
      (renderMembers l depth ms ++ (l.outer depth ++ '\x7d' :: rest))) =
      some ((m :: ms).map fun e => (some e.1, e.2), rest) := by
  -- on the members behind the first, as for elements
  induction ms generalizing m n with
  | nil =>
    obtain ⟨key, v⟩ := m
    have hv : Reads l v := hreads (key, v) List.mem_cons_self
    obtain ⟨k, rfl⟩ : ∃ k, n = k + 1 := ⟨n - 1, by omega⟩
    have hbrace : Stops ('\x7d' :: rest) := stops_cons (by decide) rest
    obtain ⟨tail, hsplit, hvalue⟩ := value_renderMember hl depth key hv
      (l.outer depth ++ '\x7d' :: rest)
      (stops_append (hl.outer depth) hbrace) (n := k) (by omega)
    have hskip : skip (l.outer depth ++ '\x7d' :: rest) = '\x7d' :: rest := by
      rw [skip_append (hl.outer depth), skip_cons (by decide)]
    rw [renderMembers, List.nil_append, List.append_assoc, hsplit, members,
      skip_append (hl.inner depth), skip_cons (by decide)]
    simp only [text_quote, skip_cons (show isSpace ':' = false by decide), Option.bind_eq_bind,
      Option.bind_some, hvalue, hskip]
    rfl
  | cons m' ms ih =>
    obtain ⟨key, v⟩ := m
    have hv : Reads l v := hreads (key, v) List.mem_cons_self
    obtain ⟨k, rfl⟩ : ∃ k, n = k + 1 := ⟨n - 1, by omega⟩
    have htail : renderMembers l depth (m' :: ms) ++ (l.outer depth ++ '\x7d' :: rest) =
        ',' :: (l.inner depth ++ renderMember l depth m' ++
          (renderMembers l depth ms ++ (l.outer depth ++ '\x7d' :: rest))) := by
      simp [renderMembers]
    have hlen : (renderMembers l depth (m' :: ms)).length =
        (l.inner depth).length + (renderMember l depth m').length +
          (renderMembers l depth ms).length + 1 := by
      simp [renderMembers]
      omega
    obtain ⟨tail, hsplit, hvalue⟩ := value_renderMember hl depth key hv
      (',' :: (l.inner depth ++ renderMember l depth m' ++
        (renderMembers l depth ms ++ (l.outer depth ++ '\x7d' :: rest))))
      (stops_cons (by decide) _) (n := k) (by omega)
    have hms := ih (n := k) (fun e he => hreads e (List.mem_cons_of_mem _ he)) (by omega)
    rw [htail, List.append_assoc, hsplit, members, skip_append (hl.inner depth),
      skip_cons (by decide)]
    simp only [text_quote, skip_cons (show isSpace ':' = false by decide), Option.bind_eq_bind,
      Option.bind_some, hvalue, skip_cons (show isSpace ',' = false by decide)]
    rw [hms]
    rfl

/-- Members whose keys could be read make an object. -/
lemma objectOf_map (ms : List (String × Json)) :
    objectOf (ms.map fun e => (some e.1, e.2)) = .obj ms := by
  have h : (ms.map fun e => (some e.1, e.2)).mapM
      (fun m : Option String × Json => m.1.map fun key => (key, m.2)) = some ms := by
    induction ms with
    | nil => rfl
    | cons m ms ih => simp [ih]
  rw [objectOf, h]

/-- After the blanks are skipped, there are none to skip. -/
lemma skip_skip (cs : List Char) : skip (skip cs) = skip cs := by
  induction cs with
  | nil => rfl
  | cons c cs ih =>
    cases hc : isSpace c with
    | true => simpa [skip, hc] using ih
    | false => rw [skip_cons hc, skip_cons hc]

/-- A value is read the same with or without the blanks before it. -/
lemma value_skip (n : Nat) (cs : List Char) : value n (skip cs) = value n cs := by
  cases n with
  | zero => rfl
  | succ n => rw [value, value, skip_skip]

/-- Elements are read the same with or without the blanks before them. -/
lemma elements_skip (n : Nat) (cs : List Char) : elements n (skip cs) = elements n cs := by
  cases n with
  | zero => rfl
  | succ n => rw [elements, elements, value_skip]

/-- Members are read the same with or without the blanks before them. -/
lemma members_skip (n : Nat) (cs : List Char) : members n (skip cs) = members n cs := by
  cases n with
  | zero => rfl
  | succ n => rw [members, members, skip_skip]

/-- A bracket that is not closed at once opens an array of elements. -/
lemma value_bracket {n : Nat} {c : Char} {cs rest : List Char} (hskip : skip cs = c :: rest)
    (hc : c ≠ ']') : value (n + 1) ('[' :: cs) = (elements n cs).map fun r => (.arr r.1, r.2) := by
  rw [← elements_skip n cs, value, skip_cons (by decide)]
  simp only [show ¬ '[' = 'n' by decide, show ¬ '[' = 't' by decide, show ¬ '[' = 'f' by decide,
    show ¬ '[' = '"' by decide, if_false, if_true, hskip]
  split
  · rename_i heq
    exact absurd (List.cons.inj heq).1 hc
  · rfl

/-- A brace that is not closed at once opens an object of members. -/
lemma value_brace {n : Nat} {c : Char} {cs rest : List Char} (hskip : skip cs = c :: rest)
    (hc : c ≠ '\x7d') :
    value (n + 1) ('\x7b' :: cs) = (members n cs).map fun r => (objectOf r.1, r.2) := by
  rw [← members_skip n cs, value, skip_cons (by decide)]
  simp only [show ¬ '\x7b' = 'n' by decide, show ¬ '\x7b' = 't' by decide,
    show ¬ '\x7b' = 'f' by decide, show ¬ '\x7b' = '"' by decide,
    show ¬ '\x7b' = '[' by decide, if_false, if_true, hskip]
  split
  · rename_i heq
    exact absurd (List.cons.inj heq).1 hc
  · rfl

/-- A written value begins with a character that is neither a blank nor a closing bracket. -/
lemma exists_render_eq_cons (l : Layout) (depth : Nat) (j : Json) :
    ∃ c cs, render l depth j = c :: cs ∧ isSpace c = false ∧ c ≠ ']' := by
  cases j with
  | null | other => exact ⟨_, _, rfl, by decide, by decide⟩
  | bool b => cases b <;> exact ⟨_, _, rfl, by decide, by decide⟩
  | nat n =>
    obtain ⟨d, ds, hds, hd⟩ := exists_toDigits_eq_cons n
    refine ⟨d, ds, by rw [render, hds], ?_, ?_⟩
    · rw [Bool.eq_false_iff]
      intro hsp
      rw [(not_numeral_of_isSpace hsp).1] at hd
      cases hd
    · rintro rfl
      cases hd
  | str s => exact ⟨'"', _, rfl, by decide, by decide⟩
  | arr es => cases es <;> exact ⟨'[', _, rfl, by decide, by decide⟩
  | obj ms => cases ms <;> exact ⟨'\x7b', _, rfl, by decide, by decide⟩

/-! ## One sort of value after the other -/

section Reads

variable {l : Layout}

/-- A value is read wherever it stands if it is read where no blanks stand before it. -/
lemma reads_of_value {j : Json} (h : ∀ (depth m : Nat) (rest : List Char), Stops rest →
    2 * (render l depth j).length ≤ m + 1 →
      value (m + 1) (render l depth j ++ rest) = some (j, rest)) :
    Reads l j := by
  intro depth n sp rest hsp hrest hn
  obtain ⟨c, cs, hcs, -⟩ := exists_render_eq_cons l depth j
  obtain ⟨m, rfl⟩ : ∃ m, n = m + 1 := ⟨n - 1, by rw [hcs, List.length_cons] at hn; omega⟩
  rw [List.append_assoc, ← value_skip, skip_append hsp, value_skip]
  exact h depth m rest hrest hn

/-- Null is read wherever it stands. -/
lemma reads_null : Reads l .null := by
  refine reads_of_value fun depth m rest _ _ => ?_
  rw [value, render, List.cons_append, skip_cons (by decide)]
  rfl

/-- A truth value is read wherever it stands. -/
lemma reads_bool (b : Bool) : Reads l (.bool b) := by
  refine reads_of_value fun depth m rest _ _ => ?_
  cases b <;>
  · rw [value, render, List.cons_append, skip_cons (by decide)]
    rfl

/-- A digit opens no other sort of value, so that a numeral is read as a number. -/
lemma reads_nat (k : Nat) : Reads l (.nat k) := by
  refine reads_of_value fun depth m rest hrest _ => ?_
  obtain ⟨c, cs, hcs, hspace, -⟩ := exists_render_eq_cons l depth (.nat k)
  obtain ⟨d, ds, hds, hdigit⟩ := exists_toDigits_eq_cons k
  obtain ⟨rfl, rfl⟩ : c = d ∧ cs = ds := List.cons.inj (hcs.symm.trans hds)
  have hne : ∀ d : Char, d.isDigit = false → c ≠ d := by
    rintro d hd rfl
    rw [hdigit] at hd
    cases hd
  have hnumber := number_toDigits k hrest
  rw [hds] at hnumber
  rw [hcs, value, List.cons_append, skip_cons hspace]
  simpa [hne 'n' (by decide), hne 't' (by decide), hne 'f' (by decide), hne '"' (by decide),
    hne '[' (by decide), hne '\x7b' (by decide)] using hnumber

/-- A text is read wherever it stands. -/
lemma reads_str (s : String) : Reads l (.str s) := by
  refine reads_of_value fun depth m rest _ _ => ?_
  have htext : render l depth (.str s) ++ rest =
      '"' :: (s.toList.flatMap escape ++ '"' :: rest) := by simp [render, quote]
  rw [htext, value, skip_cons (by decide)]
  simp [text_quote]

/-- An array is read wherever it stands if its elements are. -/
lemma reads_arr (hl : l.Blank) {es : List Json} (hes : ∀ e ∈ es, Reads l e) :
    Reads l (.arr es) := by
  refine reads_of_value fun depth m rest _ hm => ?_
  cases es with
  | nil =>
    rw [value, render, List.cons_append, skip_cons (by decide)]
    rfl
  | cons e es =>
    have hrender : render l depth (.arr (e :: es)) ++ rest =
        '[' :: (l.inner depth ++ render l (depth + 1) e ++
          (renderElements l depth es ++ (l.outer depth ++ ']' :: rest))) := by simp [render]
    obtain ⟨c, cs, hcs, hspace, hbracket⟩ := exists_render_eq_cons l (depth + 1) e
    have hskip : skip (l.inner depth ++ render l (depth + 1) e ++
        (renderElements l depth es ++ (l.outer depth ++ ']' :: rest))) =
        c :: (cs ++ (renderElements l depth es ++ (l.outer depth ++ ']' :: rest))) := by
      rw [List.append_assoc, skip_append (hl.inner depth), hcs, List.cons_append, skip_cons hspace]
    have helements := elements_render hl depth rest hes (n := m)
      (by simp only [render, List.length_cons, List.length_append] at hm; omega)
    rw [hrender, value_bracket hskip hbracket, helements]
    rfl

/-- An object is read wherever it stands if its values are. -/
lemma reads_obj (hl : l.Blank) {ms : List (String × Json)} (hms : ∀ m ∈ ms, Reads l m.2) :
    Reads l (.obj ms) := by
  refine reads_of_value fun depth n rest _ hn => ?_
  cases ms with
  | nil =>
    rw [value, render, List.cons_append, skip_cons (by decide)]
    rfl
  | cons m ms =>
    have hrender : render l depth (.obj (m :: ms)) ++ rest =
        '\x7b' :: (l.inner depth ++ renderMember l depth m ++
          (renderMembers l depth ms ++ (l.outer depth ++ '\x7d' :: rest))) := by simp [render]
    obtain ⟨cs, hcs⟩ : ∃ cs, renderMember l depth m = '"' :: cs := by
      obtain ⟨key, v⟩ := m
      exact ⟨_, by rw [renderMember, quote, List.cons_append, List.cons_append]⟩
    have hskip : skip (l.inner depth ++ renderMember l depth m ++
        (renderMembers l depth ms ++ (l.outer depth ++ '\x7d' :: rest))) =
        '"' :: (cs ++ (renderMembers l depth ms ++ (l.outer depth ++ '\x7d' :: rest))) := by
      rw [List.append_assoc, skip_append (hl.inner depth), hcs, List.cons_append,
        skip_cons (by decide)]
    have hmembers := members_render hl depth rest hms (n := n)
      (by simp only [render, List.length_cons, List.length_append] at hn; omega)
    rw [hrender, value_brace hskip (by decide), hmembers]
    simp only [Option.map_some, objectOf_map]

end Reads

/-- Known values are read back: a numeral ends where the text does not go on as one, and inside
containers the parts are followed by commas, brackets or blanks. -/
theorem Known.reads {l : Layout} (hl : l.Blank) {j : Json} (hj : j.Known) : Reads l j := by
  induction hj with
  | null => exact reads_null
  | bool b => exact reads_bool b
  | nat k => exact reads_nat k
  | str s => exact reads_str s
  | arr _ ih => exact reads_arr hl ih
  | obj _ ih => exact reads_obj hl ih

/-! ## Whole texts -/

/-- A known value in a layout of blanks is the value of the whole text. -/
lemma parse_render {l : Layout} (hl : l.Blank) {j : Json} (hj : j.Known) :
    parse (String.ofList (render l 0 j)) = some j := by
  have hvalue := hj.reads hl 0 (2 * (render l 0 j).length + 2) [] [] (by simp) stops_nil (by omega)
  rw [List.nil_append, List.append_nil] at hvalue
  simp [parse, hvalue, skip]

/-- What is written without blanks is read back. -/
theorem parse_compact {j : Json} (hj : j.Known) : parse j.compact = some j :=
  parse_render Layout.blank_compact hj

/-- What is written in lines is read back. -/
theorem parse_pretty {j : Json} (hj : j.Known) : parse j.pretty = some j :=
  parse_render Layout.blank_pretty hj

/-- What is written in either layout is read back. -/
theorem parse_write {j : Json} (hj : j.Known) (inLines : Bool) :
    parse (j.write inLines) = some j := by
  cases inLines with
  | false => exact parse_compact hj
  | true => exact parse_pretty hj

end PhpCalls.Json
