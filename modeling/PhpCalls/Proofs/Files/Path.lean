import PhpCalls.Files.Path
import PhpCalls.Proofs.Text

set_option autoImplicit false

/-!
# The names in a path

What a path says is in those of its pieces between slashes that are neither empty nor `.`, and in
whether it begins at the root. Here joining paths and taking the path above are described by these
names: a join puts names together, and the path above has all names but the last.

## Main definitions

* `Path.names`: the pieces of a path that say something.
* `Path.steps`: how many times one can take the path above.

## Main results

* `Path.exists_splitAt_join`: the pieces of a path below another.
* `Path.names_of_parent?`: the path above has all names but the last.
* `Path.names_of_parent?_eq_none`: only a path without names has no path above it.
-/

namespace PhpCalls.Path

variable {path q s t : String} {body : List String}

/-! ## Pieces -/

/-- A slash divides the pieces before it from those behind it. -/
lemma splitAt_append_slash (s t : String) :
    Text.splitAt '/' (s ++ "/" ++ t) = Text.splitAt '/' s ++ Text.splitAt '/' t :=
  Text.splitAt_append_cons (by simp)

/-- The pieces of a path, joined by slashes, are the path. -/
lemma joinWith_splitAt (path : String) : Text.joinWith "/" (Text.splitAt '/' path) = path := by
  rw [← String.toList_inj, Text.joinWith, String.toList_intercalate]
  exact (Text.toList_eq_intercalate_splitAt '/' path).symm

/-- Where a path begins does not depend on its end. -/
lemma isAbsolute_append_eq (hs : s ≠ "") : isAbsolute (s ++ t) = isAbsolute s := by
  obtain ⟨c, cs, hcs⟩ := List.exists_cons_of_ne_nil (mt String.toList_eq_nil_iff.1 hs)
  simp [isAbsolute, hcs]

/-- A text without a slash is not an absolute path. -/
lemma isAbsolute_of_noSlash (h : '/' ∉ t.toList) : isAbsolute t = false := by
  rw [isAbsolute, decide_eq_false_iff_not]
  exact fun hhead => h (List.mem_of_head? hhead)

/-- Pieces of which only a single one may be empty make a relative path. -/
lemma isAbsolute_joinWith (hslash : '/' ∉ s.toList) (hempty : s = "" → body = []) :
    isAbsolute (Text.joinWith "/" (s :: body)) = false := by
  rw [Text.joinWith, ← isAbsolute_of_noSlash hslash]
  cases body with
  | nil => rw [String.intercalate_singleton]
  | cons p body =>
    have hs : s ≠ "" := fun h => absurd (hempty h) (List.cons_ne_nil _ _)
    rw [String.intercalate_cons_cons, String.append_assoc, isAbsolute_append_eq hs]

/-! ## Names -/

/-- The pieces of a path that say something. -/
def names (path : String) : List String := (Text.splitAt '/' path).filter fun p => !isSilent p

/-- A slash divides the names before it from those behind it. -/
lemma names_append_slash (s t : String) : names (s ++ "/" ++ t) = names s ++ names t := by
  rw [names, splitAt_append_slash, List.filter_append]
  rfl

/-- The names of joined parts are the parts that say something. -/
lemma names_joinWith (hbody : ∀ p ∈ body, '/' ∉ p.toList) :
    names (Text.joinWith "/" body) = body.filter fun p => !isSilent p := by
  induction body with
  | nil => rfl
  | cons p body ih =>
    obtain ⟨hp, hbody⟩ := List.forall_mem_cons.1 hbody
    have hfirst : names p = [p].filter fun p => !isSilent p := by
      rw [names, Text.splitAt_of_not_mem hp]
    cases body with
    | nil =>
      rw [Text.joinWith, String.intercalate_singleton]
      exact hfirst
    | cons p' body =>
      have hrest := ih hbody
      rw [Text.joinWith] at hrest
      rw [Text.joinWith, String.intercalate_cons_cons, names_append_slash, hfirst, hrest,
        ← List.filter_append, List.singleton_append]

/-- A name that is put below a path becomes its last piece, and the path keeps its names and its
beginning. -/
theorem exists_splitAt_join {name : String} (hslash : '/' ∉ name.toList) (q : String) :
    ∃ pieces, Text.splitAt '/' (join q name) = pieces ++ [name] ∧
      (pieces.filter fun p => !isSilent p) = names q ∧ isAbsolute (join q name) = isAbsolute q := by
  have hname := Text.splitAt_of_not_mem hslash
  have hrelative := isAbsolute_of_noSlash hslash
  rw [join, hrelative, Bool.false_or]
  split_ifs with hempty hlast
  · obtain rfl : q = "" := by simpa using hempty
    exact ⟨[], hname, rfl, hrelative⟩
  · -- the slash at the end of the path divides it from the name
    have hempty : q ≠ "" := by simpa using hempty
    obtain ⟨cs, hcs⟩ := List.getLast?_eq_some_iff.1 hlast
    have hq : q = String.ofList cs ++ "/" := by rw [← String.toList_inj, hcs]; simp
    have hnames : names q = names (String.ofList cs) := by
      have h := names_append_slash (String.ofList cs) ""
      rwa [String.append_empty, ← hq, show names "" = [] from rfl, List.append_nil] at h
    refine ⟨Text.splitAt '/' (String.ofList cs), ?_, hnames.symm, isAbsolute_append_eq hempty⟩
    rw [hq, splitAt_append_slash, hname]
  · have hempty : q ≠ "" := by simpa using hempty
    refine ⟨Text.splitAt '/' q, by rw [splitAt_append_slash, hname], rfl, ?_⟩
    rw [String.append_assoc, isAbsolute_append_eq hempty]

/-- A path that ends in a name is not empty. -/
lemma join_ne_empty {name : String} (hname : name ≠ "") (q : String) : join q name ≠ "" := by
  rw [join]
  split_ifs
  · exact hname
  · simp [hname]
  · simp

/-! ## The path above -/

/-- A path is cut in one of three ways: behind its root, behind a `.` at its beginning, or not at
all. -/
lemma split_cases (path : String) :
    (∃ body, Text.splitAt '/' path = "" :: body ∧ split path = (["/"], body) ∧
      isAbsolute path = true) ∨
    (∃ body, Text.splitAt '/' path = "." :: body ∧ split path = (["."], body) ∧
      isAbsolute path = false) ∨
    ∃ first rest, Text.splitAt '/' path = first :: rest ∧ first ≠ "." ∧ (first = "" → rest = []) ∧
      split path = ([], first :: rest) ∧ isAbsolute path = false := by
  obtain ⟨first, rest, hpieces⟩ : ∃ first rest, Text.splitAt '/' path = first :: rest :=
    List.exists_cons_of_ne_nil (by simp [Text.splitAt])
  have hpath := joinWith_splitAt path
  have hslash : '/' ∉ first.toList := Text.not_mem_of_mem_splitAt (hpieces ▸ List.mem_cons_self)
  rw [hpieces] at hpath
  by_cases hempty : first = ""
  -- an empty first piece stands before the root, unless the path is empty
  · subst hempty
    cases rest with
    | nil =>
      obtain rfl : path = "" := by rw [← hpath]; rfl
      exact .inr (.inr ⟨"", [], hpieces, by decide, fun _ => rfl, by rw [split, hpieces]; rfl, rfl⟩)
    | cons p rest =>
      have habsolute : isAbsolute path = true := by
        rw [← hpath, Text.joinWith, String.intercalate_cons_cons]
        simp [isAbsolute]
      exact .inl ⟨_, hpieces, by rw [split, hpieces, habsolute]; rfl, habsolute⟩
  · have hrelative : isAbsolute path = false := by
      rw [← hpath]
      exact isAbsolute_joinWith hslash fun h => absurd h hempty
    by_cases hdot : first = "."
    · subst hdot
      exact .inr (.inl ⟨rest, hpieces, by rw [split, hpieces]; rfl, hrelative⟩)
    · refine .inr (.inr ⟨first, rest, hpieces, hdot, fun h => absurd h hempty, ?_, hrelative⟩)
      rw [split, hpieces]
      split
      · next h => exact absurd (List.cons.inj h).1 hempty
      · next h => exact absurd (List.cons.inj h).1 hdot
      · rfl

/-- A path with a dot before its body begins with the part `.`, so it is relative. -/
lemma of_split_dot (h : split path = (["."], body)) :
    (Text.splitAt '/' path).head? = some "." ∧ isAbsolute path = false := by
  obtain ⟨_, -, hcut, -⟩ | ⟨_, hpieces, -, hrelative⟩ | ⟨_, _, -, -, -, hcut, -⟩ := split_cases path
  · exact absurd (Prod.mk.inj (h.symm.trans hcut)).1 (by decide)
  · exact ⟨by rw [hpieces]; rfl, hrelative⟩
  · exact absurd (Prod.mk.inj (h.symm.trans hcut)).1 (by decide)

/-- A path is cut into something that says nothing more than where it begins, and its names. -/
lemma names_eq_filter (path : String) :
    names path = (split path).2.filter fun p => !isSilent p := by
  obtain ⟨body, hpieces, hsplit, -⟩ | ⟨body, hpieces, hsplit, -⟩ |
    ⟨first, rest, hpieces, -, -, hsplit, -⟩ :=
    split_cases path
  · rw [names, hpieces, hsplit, List.filter_cons_of_neg (by decide)]
  · rw [names, hpieces, hsplit, List.filter_cons_of_neg (by decide)]
  · rw [names, hpieces, hsplit]

/-- A part of the body of a path holds no slash. -/
lemma noSlash_of_mem_split {p : String} (hp : p ∈ (split path).2) : '/' ∉ p.toList := by
  refine Text.not_mem_of_mem_splitAt (s := path) ?_
  obtain ⟨body, hpieces, hsplit, -⟩ | ⟨body, hpieces, hsplit, -⟩ |
    ⟨first, rest, hpieces, -, -, hsplit, -⟩ :=
    split_cases path
  · rw [hsplit] at hp
    exact hpieces ▸ List.mem_cons_of_mem _ hp
  · rw [hsplit] at hp
    exact hpieces ▸ List.mem_cons_of_mem _ hp
  · rw [hsplit] at hp
    exact hpieces ▸ hp

/-- Trimming takes away no part that says something. -/
lemma filter_trimEnd (body : List String) :
    ((trimEnd body).filter fun p => !isSilent p) = body.filter fun p => !isSilent p := by
  have hend : ((body.rtakeWhile isSilent).filter fun p => !isSilent p) = [] := by
    rw [List.filter_eq_nil_iff]
    intro p hp
    simp [List.mem_rtakeWhile_imp hp]
  calc ((trimEnd body).filter fun p => !isSilent p)
      = (body.rdropWhile isSilent ++ body.rtakeWhile isSilent).filter fun p => !isSilent p := by
        rw [List.filter_append, hend, List.append_nil]
        rfl
    _ = body.filter fun p => !isSilent p := by rw [List.rdropWhile_append_rtakeWhile]

/-- What is left of pieces behind which nothing is said ends with a name. -/
lemma exists_of_trimEnd_ne_nil (h : trimEnd body ≠ []) :
    ∃ front last, trimEnd body = front ++ [last] ∧ isSilent last = false ∧ trimEnd front <+: body ∧
      (body.filter fun p => !isSilent p) =
        ((trimEnd front).filter fun p => !isSilent p) ++ [last] := by
  have hlast : isSilent ((trimEnd body).getLast h) = false :=
    Bool.of_not_eq_true (List.rdropWhile_last_not isSilent body h)
  have hsplit := (List.dropLast_append_getLast h).symm
  have hfront : trimEnd (trimEnd body).dropLast <+: body :=
    (List.rdropWhile_prefix isSilent _).trans
      ((List.dropLast_prefix _).trans (List.rdropWhile_prefix isSilent body))
  refine ⟨_, _, hsplit, hlast, hfront, ?_⟩
  rw [filter_trimEnd, ← filter_trimEnd body]
  conv_lhs => rw [hsplit]
  rw [List.filter_append, List.filter_cons_of_pos (by simp [hlast]), List.filter_nil]

/-- How many times one can take the path above. -/
def steps (path : String) : Nat :=
  (names path).length + if (Text.splitAt '/' path).head? = some "." then 1 else 0

/-- A path has at most one path above it for each of its characters, and one more. -/
lemma steps_le_length (path : String) : steps path ≤ path.length + 1 := by
  have hpieces : ∀ cs : List Char, (cs.splitOnP (· == '/')).length ≤ cs.length + 1 := by
    intro cs
    induction cs with
    | nil => simp
    | cons c cs ih =>
      rw [List.splitOnP_cons_eq_if_modifyHead]
      split <;> simp <;> omega
  have hlength : (Text.splitAt '/' path).length ≤ path.length + 1 := by
    rw [Text.splitAt, List.length_map, ← String.length_toList]
    exact hpieces _
  refine Nat.le_trans ?_ hlength
  rw [steps, names]
  generalize Text.splitAt '/' path = pieces
  split
  case isTrue hdot =>
    -- the piece at the beginning is no name
    obtain ⟨rest, rfl⟩ : ∃ rest, pieces = "." :: rest := by
      cases pieces with
      | nil => cases hdot
      | cons p rest => exact ⟨rest, by simpa using hdot⟩
    rw [List.filter_cons_of_neg (by decide), List.length_cons]
    exact Nat.succ_le_succ (List.length_filter_le _ _)
  case isFalse => exact List.length_filter_le _ _

/-- The path above, by the way in which the path is cut. -/
lemma parent?_of_split {head : List String} (hsplit : split path = (head, body)) :
    parent? path =
      if trimEnd body = [] then if head = ["."] then some "" else none
      else some (unsplit head (trimEnd (trimEnd body).dropLast)) := by
  rw [parent?, hsplit]
  dsimp only
  split
  · next hnil =>
    rw [if_pos hnil]
    split
    · rfl
    · next hdot => rw [if_neg hdot]
  · next hne => rw [if_neg hne]

/-- Only a path without names has no path above it. -/
theorem names_of_parent?_eq_none (h : parent? path = none) : names path = [] := by
  obtain ⟨head, body, hsplit⟩ : ∃ head body, split path = (head, body) := ⟨_, _, rfl⟩
  rw [parent?_of_split hsplit] at h
  split_ifs at h with hnil
  rw [names_eq_filter, hsplit, ← filter_trimEnd, hnil]
  rfl

/-- A path put together from the pieces behind its beginning. -/
lemma names_unsplit {head : List String} (hhead : head = ["/"] ∨ head = ["."] ∨ head = [])
    (hbody : ∀ p ∈ body, '/' ∉ p.toList) :
    names (unsplit head body) = body.filter fun p => !isSilent p := by
  rcases hhead with rfl | rfl | rfl
  · have h := names_append_slash "" (Text.joinWith "/" body)
    rw [String.empty_append, names_joinWith hbody] at h
    exact h
  · have hdot : ∀ p ∈ "." :: body, '/' ∉ p.toList := List.forall_mem_cons.2 ⟨by decide, hbody⟩
    exact (names_joinWith hdot).trans (List.filter_cons_of_neg (by decide))
  · exact names_joinWith hbody

/-- Parts without slashes, joined by slashes, are divided again into the same parts. -/
lemma splitAt_joinWith (hbody : ∀ p ∈ body, '/' ∉ p.toList) (hne : body ≠ []) :
    Text.splitAt '/' (Text.joinWith "/" body) = body :=
  Text.splitAt_intercalate hbody hne String.toList_intercalate

/-- Some of the pieces of a path, put together again, begin as the path does. -/
lemma begins_unsplit {head front : List String}
    (hsplit : split path = (head, body)) (hfront : front <+: body) :
    names (unsplit head front) = (front.filter fun p => !isSilent p) ∧
      isAbsolute (unsplit head front) = isAbsolute path ∧
      ((Text.splitAt '/' (unsplit head front)).head? = some "." →
        (Text.splitAt '/' path).head? = some ".") := by
  have hslash : ∀ p ∈ front, '/' ∉ p.toList := by
    intro p hp
    have hmem : p ∈ (split path).2 := by
      rw [hsplit]
      exact hfront.subset hp
    exact noSlash_of_mem_split hmem
  obtain ⟨_, hpieces, hcut, habsolute⟩ | ⟨_, hpieces, hcut, habsolute⟩ |
    ⟨first, rest, hpieces, hdot, hempty, hcut, habsolute⟩ := split_cases path
  all_goals
    obtain ⟨rfl, rfl⟩ := Prod.mk.inj (hsplit.symm.trans hcut)
  -- behind the root: the first piece is empty, so it is no dot
  · refine ⟨names_unsplit (.inl rfl) hslash, ?_, fun h => ?_⟩
    · rw [habsolute]
      simp [isAbsolute, unsplit]
    · have hroot := splitAt_append_slash "" (Text.joinWith "/" front)
      rw [String.empty_append] at hroot
      rw [unsplit, hroot] at h
      exact absurd h (by simp [Text.splitAt])
  · refine ⟨names_unsplit (.inr (.inl rfl)) hslash, ?_, fun _ => by rw [hpieces]; rfl⟩
    rw [habsolute]
    exact isAbsolute_joinWith (by decide) fun h => absurd h (by decide)
  -- without either, the first piece of the path is kept or nothing is
  · refine ⟨names_unsplit (.inr (.inr rfl)) hslash, ?_, fun h => ?_⟩
    · rw [habsolute]
      cases front with
      | nil => rfl
      | cons p front =>
        obtain ⟨rfl, hrest⟩ := List.cons_prefix_cons.1 hfront
        refine isAbsolute_joinWith (hslash p List.mem_cons_self) fun hp => ?_
        rw [hempty hp] at hrest
        exact List.prefix_nil.1 hrest
    · cases front with
      | nil => exact absurd h (by decide)
      | cons p front =>
        obtain ⟨rfl, -⟩ := List.cons_prefix_cons.1 hfront
        have hq : unsplit [] (p :: front) = Text.joinWith "/" (p :: front) := rfl
        rw [hq, splitAt_joinWith hslash (List.cons_ne_nil _ _)] at h
        exact absurd (Option.some.inj h) hdot

/-- The path above a path has all its names but the last, and begins where it does. -/
theorem names_of_parent? (h : parent? path = some q) :
    names q = (names path).dropLast ∧ isAbsolute q = isAbsolute path ∧ steps q < steps path := by
  have hnames := names_eq_filter path
  obtain ⟨head, body, hsplit⟩ : ∃ head body, split path = (head, body) := ⟨_, _, rfl⟩
  rw [parent?_of_split hsplit] at h
  rw [hsplit] at hnames
  by_cases hnil : trimEnd body = []
  · -- only the `.` at the beginning is left
    rw [if_pos hnil] at h
    split_ifs at h with hdot
    obtain rfl : "" = q := Option.some.inj h
    obtain ⟨hpieces, hrelative⟩ := of_split_dot (hsplit.trans (congrArg (·, body) hdot))
    have hnone : names path = [] := by rw [hnames, ← filter_trimEnd, hnil]; rfl
    refine ⟨by rw [hnone]; rfl, by rw [hrelative]; rfl, ?_⟩
    rw [show steps "" = 0 from rfl, steps, hpieces]
    exact Nat.lt_of_lt_of_le Nat.zero_lt_one (Nat.le_add_left _ _)
  · rw [if_neg hnil] at h
    obtain ⟨front, last, htrim, -, hfront, hfilter⟩ := exists_of_trimEnd_ne_nil hnil
    rw [htrim, List.dropLast_concat] at h
    obtain rfl := Option.some.inj h
    obtain ⟨hfrontNames, habsolute, hdot⟩ := begins_unsplit hsplit hfront
    have hcut : names path = names (unsplit head (trimEnd front)) ++ [last] := by
      rw [hfrontNames, hnames, hfilter]
    refine ⟨by rw [hcut, List.dropLast_concat], habsolute, ?_⟩
    rw [steps, steps, hcut, List.length_append, List.length_singleton]
    split_ifs with hq hpath
    · omega
    · exact absurd (hdot hq) hpath
    · omega
    · omega

end PhpCalls.Path
