import PhpCalls.CommandLine.Args
import Mathlib.Tactic.Lemma
import Mathlib.Tactic.SplitIfs

set_option autoImplicit false

/-!
# Asking for an analysis with and without its name

An analysis is what a command line asks for that names no command, and `analyze` names it. The words
are read on two levels: one knows a flag more, which asks for the version, and calls a stray word by
other faults. Neither can be told where the words are read to the end, so both ways of asking come
to the same arguments.

## Main definitions

* `CommandLine.SameResult`: two readings give one result, or faults that may differ.

## Main results

* `CommandLine.sameResult_step`: the two levels read one word alike.
* `CommandLine.sameResult_readWords`: they read all words alike.
* `parse_analyze_iff`: the two ways of asking come to the same arguments.
-/

namespace PhpCalls

namespace CommandLine

variable {α β : Type}

/-! ## Readings with one result -/

/-- Both readings give the same result, or both are at fault. -/
def SameResult (x y : Except ArgFault α) : Prop := ∀ a, x = .ok a ↔ y = .ok a

namespace SameResult

/-- An outcome has the same result as itself. -/
lemma refl (x : Except ArgFault α) : SameResult x x := fun _ => Iff.rfl

/-- Two faults have the same result, whatever they say. -/
lemma of_error (e e' : ArgFault) : SameResult (.error e : Except ArgFault α) (.error e') :=
  fun _ => iff_of_false (fun h => by cases h) fun h => by cases h

/-- Readings that go on alike from one result have one result. -/
lemma bind {x y : Except ArgFault α} {f g : α → Except ArgFault β} (h : SameResult x y)
    (hfg : ∀ a, SameResult (f a) (g a)) : SameResult (x >>= f) (y >>= g) := by
  cases x with
  | ok a =>
    rw [(h a).1 rfl]
    exact hfg a
  | error e =>
    cases y with
    | ok a => cases (h a).2 rfl
    | error e' => exact of_error e e'

/-- Readings that take every word alike take all words alike. -/
lemma foldlM {σ : Type} {f g : σ → α → Except ArgFault σ}
    (h : ∀ s a, SameResult (f s a) (g s a)) (s : σ) (as : List α) :
    SameResult (as.foldlM f s) (as.foldlM g s) := by
  induction as generalizing s with
  | nil => exact refl _
  | cons a as ih =>
    rw [List.foldlM_cons, List.foldlM_cons]
    exact (h s a).bind ih

end SameResult

/-! ## Words on the two levels -/

/-- Without a command there is one flag more, which asks for the version. -/
lemma find?_flags_top (wanted : Flag → Bool) : Level.top.flags.find? wanted =
    (Level.analyze.flags.find? wanted <|> if wanted .version then some .version else none) := by
  change (Flag.ofAnalyze ++ [Flag.version]).find? wanted = (Flag.ofAnalyze.find? wanted <|> _)
  rw [List.find?_append, List.find?_singleton]
  cases Flag.ofAnalyze.find? wanted <;> rfl

/-- Where the version is asked for, there is no command line. -/
lemma exists_switch_version_eq (s : State) : ∃ e, switch s .version = .error e := by
  unfold switch
  cases settle { s with awaiting := none, found := true } with
  | error e => exact ⟨e, rfl⟩
  | ok s' => exact ⟨.displayVersion, rfl⟩

/-- A long flag does the same at both entries. -/
lemma sameResult_longFlag (s : State) (body : List Char) :
    SameResult (longFlag .top s body) (longFlag .analyze s body) := by
  simp only [longFlag, find?_flags_top]
  generalize hfind : Level.analyze.flags.find? _ = found
  cases found with
  | some flag => exact .refl _
  | none =>
    split_ifs
    · -- the version is asked for, perhaps with a value
      obtain ⟨e, he⟩ := exists_switch_version_eq s
      cases (body.drop _).tail? with
      | none =>
        change SameResult (switch s .version) _
        rw [he]
        exact .of_error e _
      | some v => exact .of_error _ _
    · exact .of_error _ _

/-- Flags with one hyphen are read alike, one after the other. -/
lemma sameResult_shortFlags (s : State) (cs : List Char) :
    SameResult (shortFlags .top s cs) (shortFlags .analyze s cs) := by
  induction cs generalizing s with
  | nil => exact .refl _
  | cons c cs ih =>
    rw [shortFlags, shortFlags, find?_flags_top]
    generalize hfind : Level.analyze.flags.find? _ = found
    cases found with
    | some flag =>
      change SameResult (if flag.takesValue then _ else _) (if flag.takesValue then _ else _)
      split_ifs
      · exact .refl _
      · exact (SameResult.refl _).bind ih
    | none =>
      split_ifs
      · obtain ⟨e, he⟩ := exists_switch_version_eq s
        change SameResult (switch s .version >>= _) _
        rw [he]
        exact .of_error e _
      · exact .of_error _ _

/-- A word that is no flag and no value has no place on either level. -/
lemma sameResult_plainWord (s : State) (w : String) :
    SameResult (plainWord .top s w) (plainWord .analyze s w) := .of_error _ _

/-- The two levels read one word alike. -/
theorem sameResult_step (s : State) (w : String) :
    SameResult (step .top s w) (step .analyze s w) := by
  unfold step
  split_ifs
  · exact sameResult_plainWord s w
  · split
    · exact .refl _
    · exact sameResult_longFlag s _
    · exact sameResult_shortFlags s _
    · split
      · exact .refl _
      · exact sameResult_plainWord s w

/-- The two levels read all words alike. -/
theorem sameResult_readWords (s : State) (ws : List String) :
    SameResult (readWords .top s ws) (readWords .analyze s ws) :=
  (SameResult.foldlM sameResult_step s ws).bind fun s => .refl (settle s)

/-! ## Command lines -/

/-- What a command line asks for is told by what was read of its words. -/
lemma asks_iff {x : Except ArgFault State} {ask : State → CommandLine} {c : CommandLine} :
    (do let s ← x; return ask s) = .ok c ↔ ∃ s, x = .ok s ∧ ask s = c := by
  cases x with
  | error e => simp [bind, Except.bind]
  | ok s => simp [bind, Except.bind, pure, Except.pure]

/-- A command is no word of an analysis. -/
lemma readWords_analyze_ne_ok {w : String} (hw : w ∈ commandNames) (ws : List String) (s : State) :
    readWords .analyze {} (w :: ws) ≠ .ok s := by
  simp only [commandNames, List.mem_cons, List.not_mem_nil, or_false] at hw
  rcases hw with rfl | rfl | rfl <;> exact fun h => by cases h

/-- Words ask for an analysis without its name just if they can be read as the words of one: the
name of a command, which would ask for something else, cannot be the first of them. -/
lemma parse_eq_unnamed_iff {ws : List String} {args : AnalyzeArgs} {verbose : Nat} :
    parse ws = .ok { command := .analyze false args, verbose } ↔
      ∃ s, readWords .analyze {} ws = .ok s ∧ s.args = args ∧ s.verbose = verbose := by
  have hcommand {w : String} (hw : w ∈ commandNames) (rest : List String) :
      ¬ ∃ s, readWords .analyze {} (w :: rest) = .ok s ∧ s.args = args ∧ s.verbose = verbose :=
    fun ⟨s, hs, _⟩ => readWords_analyze_ne_ok hw rest s hs
  unfold parse
  split
  · rw [asks_iff]
    exact iff_of_false (by simp) (hcommand (by decide) _)
  · rw [asks_iff]
    exact iff_of_false (by simp) (hcommand (by decide) _)
  · exact iff_of_false (by simp) (hcommand (by decide) _)
  · rw [asks_iff]
    refine exists_congr fun s => and_congr (sameResult_readWords {} ws s) ?_
    simp

end CommandLine

open CommandLine in
/-- **Both ways of asking for an analysis come to the same.** Words after `analyze` ask for an
analysis with some arguments just if the words alone, which name no command, ask for one with these
arguments. -/
theorem parse_analyze_iff (ws : List String) (args : AnalyzeArgs) (verbose : Nat) :
    parse ("analyze" :: ws) = .ok { command := .analyze true args, verbose } ↔
      parse ws = .ok { command := .analyze false args, verbose } := by
  rw [parse_eq_unnamed_iff, parse, asks_iff]
  simp

end PhpCalls
