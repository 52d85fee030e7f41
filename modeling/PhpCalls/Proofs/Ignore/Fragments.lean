import PhpCalls.Ignore.Discovery
import PhpCalls.Proofs.Files.Path

set_option autoImplicit false

/-!
# Fragments of paths

A directory is left out if a fragment, with slashes around it, stands in its path, with slashes
around it. As no name holds a slash, each slash of the fragment meets one between two names, and the
fragment is found exactly if its own pieces are names of the path, one behind the other.

## Main definitions

* `padded`: names with slashes before, between and behind them.

## Main results

* `padded_infix_iff`: names stand in other names exactly if their padded texts do.
* `hasFragment_joinWith`: a fragment is found in a path exactly if its pieces are a run of names of
  the path.
* `forall_prefix_iff`: the directories on the way to a place have no fragment exactly if the last of
  them has none.
-/

namespace PhpCalls

/-- Names with slashes before, between and behind them. -/
def padded (names : List String) : List Char := names.flatMap (fun n => '/' :: n.toList) ++ ['/']

/-- The first name stands between the first slash and the other names. -/
lemma padded_cons (n : String) (names : List String) :
    padded (n :: names) = '/' :: (n.toList ++ padded names) := by
  simp [padded]

/-- Padded names begin with a slash. -/
lemma exists_padded_eq_cons (names : List String) : ∃ rest, padded names = '/' :: rest := by
  cases names with
  | nil => exact ⟨[], rfl⟩
  | cons n names => exact ⟨_, padded_cons n names⟩

/-- Joined names with a slash before and behind are the padded names. -/
lemma toList_joinWith_padded {names : List String} (hne : names ≠ []) :
    ("/" ++ Text.joinWith "/" names ++ "/").toList = padded names := by
  induction names with
  | nil => exact absurd rfl hne
  | cons n names ih =>
    cases names with
    | nil => simp [Text.joinWith, padded]
    | cons m names =>
      have hrest := ih (List.cons_ne_nil _ _)
      rw [padded_cons, ← hrest]
      simp [Text.joinWith, String.intercalate_cons_cons]

/-! ## Runs of names -/

/-- The first slash of a text can be found again. -/
lemma prefix_of_prefix_append {l m u v : List Char} (hl : '/' ∉ l) (hm : '/' ∉ m)
    (h : l ++ '/' :: u <+: m ++ '/' :: v) : l = m ∧ u <+: v := by
  induction l generalizing m with
  | nil =>
    cases m with
    | nil => exact ⟨rfl, (List.cons_prefix_cons.1 h).2⟩
    | cons c m => exact absurd ((List.cons_prefix_cons.1 h).1 ▸ List.mem_cons_self) hm
  | cons c l ih =>
    cases m with
    | nil => exact absurd ((List.cons_prefix_cons.1 h).1 ▸ List.mem_cons_self) hl
    | cons c' m =>
      obtain ⟨rfl, hrest⟩ := List.cons_prefix_cons.1 h
      obtain ⟨rfl, huv⟩ :=
        ih (fun hc => hl (List.mem_cons_of_mem _ hc))
          (fun hc => hm (List.mem_cons_of_mem _ hc)) hrest
      exact ⟨rfl, huv⟩

/-- A text that begins with a slash does not begin inside of a name. -/
lemma infix_of_infix_append {l m u : List Char} (hm : '/' ∉ m) (h : '/' :: l <:+: m ++ u) :
    '/' :: l <:+: u := by
  induction m with
  | nil => exact h
  | cons c m ih =>
    rw [List.mem_cons, not_or] at hm
    rw [List.cons_append, List.infix_cons_iff] at h
    rcases h with hbegins | h
    · exact absurd (List.cons_prefix_cons.1 hbegins).1 hm.1
    · exact ih hm.2 h

/-- Names whose padded form begins another one begin the names of that. -/
lemma begins_of_padded_begins {g names : List String} (hg : ∀ n ∈ g, '/' ∉ n.toList)
    (hnames : ∀ n ∈ names, '/' ∉ n.toList) (h : padded g <+: padded names) : g <+: names := by
  induction g generalizing names with
  | nil => exact List.nil_prefix
  | cons m g ih =>
    obtain ⟨hm, hg⟩ := List.forall_mem_cons.1 hg
    obtain ⟨u, hu⟩ := exists_padded_eq_cons g
    cases names with
    | nil =>
      have hlength := h.length_le
      rw [padded_cons, hu] at hlength
      simp [padded] at hlength
    | cons n names =>
      obtain ⟨hn, hrest⟩ := List.forall_mem_cons.1 hnames
      obtain ⟨v, hv⟩ := exists_padded_eq_cons names
      rw [padded_cons, padded_cons, List.cons_prefix_cons, hu, hv] at h
      obtain ⟨heq, huv⟩ := prefix_of_prefix_append hm hn h.2
      obtain rfl := String.toList_inj.1 heq
      refine List.cons_prefix_cons.2 ⟨rfl, ih hg hrest ?_⟩
      rw [hu, hv]
      exact List.cons_prefix_cons.2 ⟨rfl, huv⟩

/-- Names stand in other names, one behind the other, exactly if their padded texts do. -/
theorem padded_infix_iff {g names : List String} (hne : g ≠ []) (hg : ∀ n ∈ g, '/' ∉ n.toList)
    (hnames : ∀ n ∈ names, '/' ∉ n.toList) : padded g <:+: padded names ↔ g <:+: names := by
  constructor
  · intro h
    induction names with
    | nil =>
      obtain ⟨m, g, rfl⟩ := List.exists_cons_of_ne_nil hne
      obtain ⟨u, hu⟩ := exists_padded_eq_cons g
      have hlength := h.length_le
      rw [padded_cons, hu] at hlength
      simp [padded] at hlength
    | cons n names ih =>
      obtain ⟨hn, hrest⟩ := List.forall_mem_cons.1 hnames
      have hcases := h
      rw [padded_cons, List.infix_cons_iff] at hcases
      rcases hcases with hbegins | hinside
      · rw [← padded_cons] at hbegins
        exact (begins_of_padded_begins hg hnames hbegins).isInfix
      · obtain ⟨u, hu⟩ := exists_padded_eq_cons g
        rw [hu] at hinside
        have hbehind := infix_of_infix_append hn hinside
        rw [← hu] at hbehind
        exact List.infix_cons_iff.2 (.inr (ih hrest hbehind))
  · rintro ⟨before, after, rfl⟩
    -- behind the run there is a slash, of the next name or of the end
    obtain ⟨u, hu⟩ := exists_padded_eq_cons after
    refine ⟨before.flatMap fun n => '/' :: n.toList, u, ?_⟩
    have hend : padded (before ++ g ++ after) =
        (before.flatMap fun n => '/' :: n.toList) ++ (g.flatMap fun n => '/' :: n.toList) ++
          padded after := by
      simp [padded]
    rw [hend, hu, padded]
    simp

/-! ## Fragments -/

/-- A fragment is found in a path exactly if its pieces are a run of names of the path. -/
theorem hasFragment_joinWith {fragments names : List String} (hne : names ≠ [])
    (hnames : ∀ n ∈ names, '/' ∉ n.toList) :
    hasFragment fragments (Text.joinWith "/" names) = true ↔
      ∃ f ∈ fragments, Text.splitAt '/' f <:+: names := by
  rw [hasFragment, List.any_eq_true]
  refine exists_congr fun f => and_congr_right fun _ => ?_
  have hpieces := Text.splitAt_ne_nil '/' f
  rw [Text.contains_iff, toList_joinWith_padded hne]
  conv_lhs => rw [← Path.joinWith_splitAt f]
  rw [toList_joinWith_padded hpieces]
  exact padded_infix_iff hpieces (fun n hn => Text.not_mem_of_mem_splitAt hn) hnames

/-- The directories on the way to a place have no run of names exactly if the last of them has
none. -/
lemma forall_prefix_iff {g names : List String} (hne : g ≠ []) :
    (∀ p, p ≠ [] → p <+: names → ¬ g <:+: p) ↔ ¬ g <:+: names := by
  constructor
  · intro h hg
    refine h names (fun hnil => ?_) (List.prefix_refl _) hg
    rw [hnil, List.infix_nil] at hg
    exact hne hg
  · intro h p _ hp hg
    exact h (hg.trans hp.isInfix)

end PhpCalls
