import Mathlib.Data.List.Nodup
import PhpCalls.Proofs.Ignore.Found
import PhpCalls.Proofs.Ignore.Fragments

set_option autoImplicit false

/-!
# Discovery as a filter

A walk decides at every directory whether to enter it, by the path up to there. Without ignore files
this comes to the same as looking at each file by itself: a file is found exactly if none of the
names below the start is hidden, its extension is wanted and no excluded fragment is a run of the
directories above it.

## Main definitions

* `FileTree.Unruled`, `Disk.UnruledAround`: a directory has no ignore files, and none counts for a
  directory.
* `DiscoverOptions.Keeps`: what is asked of a file by itself.

## Main results

* `Walk.mem_visit_iff`: a walk without rules finds the files to which an open way leads.
* `Path.extension?_eq_some_iff`: the extension of a name.
* `Path.pairwise_sort`: sorted paths are in the order of their parts.
* `discover_eq_filter`: what is found are the files that are kept, in the order of paths and each
  once.
-/

namespace PhpCalls

/-! ## No ignore files -/

/-- The places of the ignore files of a directory. -/
def IgnoreLayer.places : List (List String) :=
  [[".ignore"], [".gitignore"], [".git", "info", "exclude"]]

/-- The tree has no ignore files of its own. -/
def FileTree.Unruled (t : FileTree) : Prop :=
  ∀ place ∈ IgnoreLayer.places, ∀ b, t.get? place ≠ some (.file b)

/-- No ignore file counts for the directory at a position or for what is below it. -/
def Disk.UnruledAround (d : Disk) (base : List String) : Prop :=
  ∀ position t, d.tree.get? position = some t → position <+: base ∨ base <+: position → t.Unruled

namespace IgnoreLayer

/-- The layer has no rules. -/
structure IsBlank (l : IgnoreLayer) : Prop where
  own : l.own = []
  git : l.git = []
  exclude : l.exclude = []

/-- A tree without ignore files has no rules at their places. -/
lemma rulesAt_eq_nil {t : FileTree} (ht : t.Unruled) {place : List String}
    (hplace : place ∈ places) : rulesAt t place = [] := by
  rw [rulesAt]
  split
  · next b hb => exact absurd hb (ht place hplace b)
  · rfl

/-- The layer of a tree without ignore files is blank. -/
lemma isBlank_ofDir {t : FileTree} (ht : t.Unruled) (base : List String) : (ofDir base t).IsBlank :=
  ⟨rulesAt_eq_nil ht (by simp [places]), rulesAt_eq_nil ht (by simp [places]),
    rulesAt_eq_nil ht (by simp [places])⟩

/-- If no layer says anything, nothing is said by all of them. -/
lemma foldl_orElse_nothing {verdictOf : IgnoreLayer → Verdict} {layers : List IgnoreLayer}
    (h : ∀ l ∈ layers, verdictOf l = .nothing) :
    layers.foldl (fun (v : Verdict) l => v.orElse (verdictOf l)) .nothing = .nothing := by
  induction layers with
  | nil => rfl
  | cons l layers ih =>
    obtain ⟨hl, hlayers⟩ := List.forall_mem_cons.1 h
    rw [List.foldl_cons, hl]
    exact ih hlayers

/-- The layers inside a repository are among all layers. -/
lemma mem_of_mem_inRepository {layers : List IgnoreLayer} {l : IgnoreLayer}
    (hl : l ∈ inRepository layers) : l ∈ layers := by
  induction layers with
  | nil => cases hl
  | cons k layers ih =>
    rw [inRepository] at hl
    split at hl
    · exact List.mem_singleton.1 hl ▸ List.mem_cons_self
    · rcases List.mem_cons.1 hl with rfl | hl
      · exact List.mem_cons_self
      · exact List.mem_cons_of_mem _ (ih hl)

/-- Layers without rules say nothing. -/
lemma verdict_eq_nothing {layers : List IgnoreLayer} (h : ∀ l ∈ layers, l.IsBlank)
    (position : List String) (isDir : Bool) : verdict layers position isDir = .nothing := by
  have hrepository : ∀ l ∈ (if layers.any hasGit then inRepository layers else []), l.IsBlank := by
    intro l hl
    split at hl
    · exact h l (mem_of_mem_inRepository hl)
    · cases hl
  have hask : ∀ (l : IgnoreLayer) (rules : List IgnoreRule), rules = [] →
      l.ask rules position isDir = .nothing := by
    rintro l rules rfl
    rfl
  rw [verdict, ownVerdict, foldl_orElse_nothing fun l hl => hask l l.own (h l hl).own]
  dsimp only
  rw [foldl_orElse_nothing fun l hl => hask l l.git (hrepository l hl).git,
    foldl_orElse_nothing fun l hl => hask l l.exclude (hrepository l hl).exclude]
  rfl

end IgnoreLayer

/-! ## Walking without rules -/

namespace Walk

variable {w : Walk} {layers : List IgnoreLayer} {position q : List String}

/-- Without rules only the names are looked at. -/
lemma isIgnored_eq (hw : w.overrides = []) (hlayers : ∀ l ∈ layers, l.IsBlank)
    (position : List String) (name : String) (isDir : Bool) :
    w.isIgnored layers position name isDir = isHidden name := by
  rw [isIgnored, IgnoreLayer.verdict_eq_nothing hlayers, hw]
  rfl

/-- The way from a position to a file below it is open: no name on it is hidden, and no directory is
left out. -/
structure Open (w : Walk) (position r : List String) : Prop where
  visible : ∀ n ∈ r, isHidden n = false
  entered : ∀ p, p ≠ [] → p <+: r.dropLast → w.isExcluded (position ++ p) = false

/-- The empty way is open. -/
lemma open_nil : w.Open position [] := by
  refine ⟨fun n hn => ?_, fun p hne hp => ?_⟩
  · cases hn
  · exact absurd (List.prefix_nil.1 hp) hne

/-- The way to a file is open exactly if its name is not hidden, as no directory lies on it. -/
lemma open_singleton {n : String} : w.Open position [n] ↔ isHidden n = false := by
  refine ⟨fun h => h.visible n (List.mem_singleton_self n), fun h => ⟨?_, ?_⟩⟩
  · intro m hm
    rwa [List.mem_singleton.1 hm]
  · intro p hne hp
    exact absurd (List.prefix_nil.1 hp) hne

/-- The way through a directory is open if the directory is entered and the rest of the way is
open. -/
lemma open_cons {n : String} {r : List String} (hr : r ≠ []) :
    w.Open position (n :: r) ↔
      isHidden n = false ∧ w.isExcluded (position ++ [n]) = false ∧ w.Open (position ++ [n]) r := by
  have hdrop : (n :: r).dropLast = n :: r.dropLast := List.dropLast_cons_of_ne_nil hr
  constructor
  · intro h
    obtain ⟨hn, hvisible⟩ := List.forall_mem_cons.1 h.visible
    refine ⟨hn, h.entered [n] (List.cons_ne_nil _ _) ?_, hvisible, fun p _ hp => ?_⟩
    · rw [hdrop]
      exact List.cons_prefix_cons.2 ⟨rfl, List.nil_prefix⟩
    · rw [List.append_assoc]
      refine h.entered (n :: p) (List.cons_ne_nil _ _) ?_
      rw [hdrop]
      exact List.cons_prefix_cons.2 ⟨rfl, hp⟩
  · rintro ⟨hn, hfirst, hvisible, hentered⟩
    refine ⟨List.forall_mem_cons.2 ⟨hn, hvisible⟩, fun p hne hp => ?_⟩
    rw [hdrop] at hp
    obtain ⟨m, p, rfl⟩ := List.exists_cons_of_ne_nil hne
    obtain ⟨rfl, hrest⟩ := List.cons_prefix_cons.1 hp
    by_cases hnil : p = []
    · rw [hnil]
      exact hfirst
    · have hnext := hentered p hnil hrest
      rwa [List.append_assoc] at hnext

/-- What a walk finds at an entry lies behind its name. -/
lemma mem_visitEntry_iff {e : String × FileTree} (hw : w.overrides = [])
    (hlayers : ∀ l ∈ layers, l.IsBlank)
    (hbelow : q ∈ w.visit layers (position ++ [e.1]) e.2 ↔
      ∃ r b, q = position ++ [e.1] ++ r ∧ e.2.get? r = some (.file b) ∧
        w.Open (position ++ [e.1]) r) :
    q ∈ w.visitEntry layers position e ↔
      ∃ r b, q = position ++ e.1 :: r ∧ e.2.get? r = some (.file b) ∧
        w.Open position (e.1 :: r) := by
  have hway : ∀ r b, e.2.get? r = some (.file b) → (w.Open position (e.1 :: r) ↔
      (isHidden e.1 || (e.2.isDir && w.isExcluded (position ++ [e.1]))) = false ∧
      w.Open (position ++ [e.1]) r) := by
    intro r b hr
    rw [Bool.or_eq_false_iff]
    cases hkind : e.2 with
    | file b' =>
      -- there is nothing below a file
      obtain rfl : r = [] := by
        rw [hkind] at hr
        cases r with
        | nil => rfl
        | cons n r => cases hr
      rw [open_singleton]
      exact ⟨fun h => ⟨⟨h, rfl⟩, open_nil⟩, fun h => h.1.1⟩
    | dir es =>
      have hne : r ≠ [] := by
        rintro rfl
        rw [hkind] at hr
        cases hr
      rw [open_cons hne]
      exact ⟨fun h => ⟨⟨h.1, h.2.1⟩, h.2.2⟩, fun h => ⟨h.1.1, h.1.2, h.2⟩⟩
  rw [visitEntry, isIgnored_eq hw hlayers]
  constructor
  · intro hq
    split_ifs at hq with hskip
    · cases hq
    · obtain ⟨r, b, rfl, hr, hopen⟩ := hbelow.1 hq
      exact ⟨r, b, (List.append_cons _ _ _).symm, hr,
        (hway r b hr).2 ⟨Bool.of_not_eq_true hskip, hopen⟩⟩
  · rintro ⟨r, b, rfl, hr, hopen⟩
    obtain ⟨hskip, hopen⟩ := (hway r b hr).1 hopen
    rw [hskip, if_neg Bool.false_ne_true]
    exact hbelow.2 ⟨r, b, List.append_cons _ _ _, hr, hopen⟩

/-- A directory is visited entry by entry. -/
lemma visitAll_eq_flatMap (w : Walk) (layers : List IgnoreLayer) (position : List String)
    (es : List (String × FileTree)) :
    w.visitAll layers position es = es.flatMap (w.visitEntry layers position) := by
  induction es with
  | nil => rw [visitAll, List.flatMap_nil]
  | cons e es ih => rw [visitAll, ih, List.flatMap_cons]

/-- A walk without rules finds the files to which an open way leads.

**Proof sketch.** By induction on the tree. The first name of a way belongs to one entry; if this is
a file, the way ends, and if it is a directory, the walk goes on below it. -/
theorem mem_visit_iff {t : FileTree} (hw : w.overrides = []) (ht : t.WellNamed)
    (hunruled : ∀ r u, t.get? r = some u → u.Unruled) (hlayers : ∀ l ∈ layers, l.IsBlank) :
    q ∈ w.visit layers position t ↔
      ∃ r b, q = position ++ r ∧ t.get? r = some (.file b) ∧ w.Open position r := by
  induction t using FileTree.descend generalizing layers position with
  | step t ih =>
    cases ht with
    | file b =>
      rw [visit, List.mem_singleton]
      constructor
      · rintro rfl
        exact ⟨[], b, (List.append_nil _).symm, rfl, open_nil⟩
      · rintro ⟨r, b', rfl, hr, -⟩
        cases r with
        | nil => exact List.append_nil _
        | cons n r => cases hr
    | @dir es hnames hnodup hentries =>
      set inner := IgnoreLayer.ofDir position (.dir es) :: layers with hinner
      have hinnerBlank : ∀ l ∈ inner, l.IsBlank :=
        List.forall_mem_cons.2 ⟨IgnoreLayer.isBlank_ofDir (hunruled [] _ rfl) position, hlayers⟩
      have hbelow : ∀ e ∈ es, (q ∈ w.visitEntry inner position e ↔
          ∃ r b, q = position ++ e.1 :: r ∧ e.2.get? r = some (.file b) ∧
            w.Open position (e.1 :: r)) := by
        intro e he
        refine mem_visitEntry_iff hw hinnerBlank
          (ih e he (hentries e he) (fun r u hu => ?_) hinnerBlank)
        refine hunruled (e.1 :: r) u ?_
        rw [FileTree.get?_dir_cons, lookup_of_mem hnodup he]
        exact hu
      rw [visit, visitAll_eq_flatMap, List.mem_flatMap]
      constructor
      · rintro ⟨e, he, hq⟩
        obtain ⟨r, b, rfl, hr, hopen⟩ := (hbelow e he).1 hq
        refine ⟨e.1 :: r, b, rfl, ?_, hopen⟩
        rw [FileTree.get?_dir_cons, lookup_of_mem hnodup he]
        exact hr
      · rintro ⟨r, b, rfl, hr, hopen⟩
        cases r with
        | nil => cases hr
        | cons n r =>
          obtain ⟨c, hc, hr⟩ := Option.bind_eq_some_iff.1 hr
          have he := mem_of_lookup hc
          exact ⟨(n, c), he, (hbelow _ he).2 ⟨r, b, rfl, hr, hopen⟩⟩

/-- A walk finds no file twice. -/
theorem nodup_visit {t : FileTree} (ht : t.WellNamed) : (w.visit layers position t).Nodup := by
  induction t using FileTree.descend generalizing layers position with
  | step t ih =>
    cases ht with
    | file b =>
      rw [visit]
      exact List.nodup_singleton _
    | @dir es hnames hnodup hentries =>
      rw [visit, visitAll_eq_flatMap, List.nodup_flatMap]
      have hbelow :
          ∀ e ∈ es, ∀ q ∈ w.visitEntry (IgnoreLayer.ofDir position (.dir es) :: layers) position e,
          ∃ r, q = position ++ e.1 :: r := by
        intro e he q hq
        rw [visitEntry] at hq
        split_ifs at hq
        · cases hq
        · obtain ⟨r, -, rfl, -⟩ := exists_of_mem_visit (hentries e he) hq
          exact ⟨r, (List.append_cons _ _ _).symm⟩
      refine ⟨fun e he => ?_,
        (List.pairwise_map.1 hnodup).imp_of_mem fun {e f} he hf hne q hq hq' => ?_⟩
      · rw [visitEntry]
        split_ifs
        · exact List.nodup_nil
        · exact ih e he (hentries e he)
      · obtain ⟨r, hr⟩ := hbelow e he q hq
        obtain ⟨r', hr'⟩ := hbelow f hf q hq'
        exact hne (List.cons.inj (List.append_cancel_left (hr.symm.trans hr'))).1

end Walk

/-! ## Extensions -/

namespace Path

/-- Pieces between dots, put together, are empty only if there is nothing but one empty piece. -/
lemma intercalate_dot_eq_empty {front : List String} (h : ".".intercalate front = "") :
    front = [] ∨ front = [""] := by
  cases front with
  | nil => exact .inl rfl
  | cons p front =>
    cases front with
    | nil =>
      rw [String.intercalate_singleton] at h
      exact .inr (h ▸ rfl)
    | cons p' front =>
      rw [String.intercalate_cons_cons] at h
      have hlength := congrArg String.length h
      simp at hlength

/-- The extension of a name stands behind its last dot, and something stands before the dot. -/
theorem extension?_eq_some_iff {path name e : String} (hname : name? path = some name) :
    extension? path = some e ↔ ∃ stem, stem ≠ "" ∧ name = stem ++ "." ++ e ∧ '.' ∉ e.toList := by
  obtain ⟨front, last, hpieces⟩ : ∃ front last, Text.splitAt '.' name = front ++ [last] :=
    ⟨_, _, (List.dropLast_append_getLast (Text.splitAt_ne_nil '.' name)).symm⟩
  have hlast : '.' ∉ last.toList :=
    Text.not_mem_of_mem_splitAt (s := name)
      (hpieces ▸ List.mem_append_right _ (List.mem_singleton_self _))
  have hjoined : name = ".".intercalate (front ++ [last]) := by
    rw [← String.toList_inj, String.toList_intercalate, ← hpieces]
    exact Text.toList_eq_intercalate_splitAt '.' name
  -- the last piece between dots counts, unless nothing stands before it
  have hextension : extension? path = if front = [] ∨ front = [""] then none else some last := by
    rw [extension?, hname, Option.bind_eq_bind, Option.bind_some, hpieces]
    cases front with
    | nil => rfl
    | cons p front =>
      cases front with
      | nil =>
        by_cases hp : p = ""
        · subst hp
          rfl
        · simp [hp]
      | cons p' front => simp [List.getLast?_cons]
  rw [hextension]
  constructor
  · intro h
    split_ifs at h with hfront
    obtain rfl := Option.some.inj h
    refine ⟨".".intercalate front, fun hempty => hfront (intercalate_dot_eq_empty hempty),
      ?_, hlast⟩
    have hne : front ≠ [] := fun hnil => hfront (.inl hnil)
    rw [hjoined, String.intercalate_append_of_ne_nil hne (by simp), String.intercalate_singleton]
  · rintro ⟨stem, hstem, hsplit, he⟩
    have hcut : front ++ [last] = Text.splitAt '.' stem ++ [e] := by
      have hchars : name.toList = stem.toList ++ '.' :: e.toList := by rw [hsplit]; simp
      rw [← hpieces, Text.splitAt_append_cons hchars, Text.splitAt_of_not_mem he]
    obtain ⟨rfl, hlasts⟩ := List.append_inj' hcut rfl
    obtain rfl : last = e := by simpa using hlasts
    rw [if_neg]
    rintro (hnil | hblank)
    · exact Text.splitAt_ne_nil '.' stem hnil
    · have hempty := Text.toList_eq_intercalate_splitAt '.' stem
      rw [hblank] at hempty
      exact hstem (String.toList_inj.1 hempty)

/-! ## The order of paths -/

/-- Of two rows of parts, one is not behind the other. -/
lemma partsLe_total (a b : List String) : (partsLe a b || partsLe b a) = true := by
  induction a generalizing b with
  | nil => simp [partsLe]
  | cons x a ih =>
    cases b with
    | nil => simp [partsLe]
    | cons y b =>
      have hrest := ih b
      rw [Bool.or_eq_true] at hrest
      simp only [partsLe, Bool.or_eq_true, Bool.and_eq_true, decide_eq_true_eq]
      by_cases hxy : x < y
      · exact .inl (.inl hxy)
      by_cases hyx : y < x
      · exact .inr (.inl hyx)
      have heq : x = y := String.le_antisymm (String.not_lt.1 hyx) (String.not_lt.1 hxy)
      exact hrest.imp (fun h => .inr ⟨heq, h⟩) fun h => .inr ⟨heq.symm, h⟩

/-- The order of rows of parts is transitive. -/
lemma partsLe_trans (a b c : List String) (hab : partsLe a b = true) (hbc : partsLe b c = true) :
    partsLe a c = true := by
  induction a generalizing b c with
  | nil => rfl
  | cons x a ih =>
    cases b with
    | nil => cases hab
    | cons y b =>
      cases c with
      | nil => cases hbc
      | cons z c =>
        simp only [partsLe, Bool.or_eq_true, Bool.and_eq_true, decide_eq_true_eq] at hab hbc ⊢
        rcases hab with hxy | ⟨rfl, hab⟩
        · rcases hbc with hyz | ⟨rfl, -⟩
          · exact .inl (String.lt_trans hxy hyz)
          · exact .inl hxy
        · exact hbc.imp id fun h => ⟨h.1, ih b c hab h.2⟩

/-- Rows of parts that differ are in the order of their first difference. -/
lemma lex_of_partsLe {a b : List String} (h : partsLe a b = true) (hne : a ≠ b) :
    List.Lex (· < ·) a b := by
  induction a generalizing b with
  | nil =>
    cases b with
    | nil => exact absurd rfl hne
    | cons y b => exact .nil
  | cons x a ih =>
    cases b with
    | nil => cases h
    | cons y b =>
      simp only [partsLe, Bool.or_eq_true, Bool.and_eq_true, decide_eq_true_eq] at h
      rcases h with hxy | ⟨rfl, h⟩
      · exact .rel hxy
      · exact .cons (ih h fun heq => hne (heq ▸ rfl))

/-- Different paths, sorted, are in strict order of their parts. -/
theorem pairwise_sort {paths : List String} (hnodup : (paths.map parts).Nodup) :
    (sort paths).Pairwise fun a b => List.Lex (· < ·) (parts a) (parts b) := by
  have hsorted : (sort paths).Pairwise fun a b => le a b = true :=
    List.pairwise_mergeSort (fun a b c => partsLe_trans (parts a) (parts b) (parts c))
      (fun a b => partsLe_total (parts a) (parts b)) paths
  have hdistinct : ((sort paths).map parts).Nodup :=
    (((List.mergeSort_perm paths le).map parts).nodup_iff).2 hnodup
  refine (hsorted.and (List.pairwise_map.1 hdistinct)).imp fun h => ?_
  exact lex_of_partsLe h.1 h.2

end Path

/-! ## Each file by itself -/

namespace DiscoverOptions

/-- An excluded directory without slashes around it, with slashes only. -/
def fragmentOf (directory : String) : String :=
  Text.slashed (Text.trimBoth (fun c => c = '/' || c = '\\') directory)

/-- What is asked of a file by itself: it is there, no name on the way to it begins with a dot, its
extension is wanted, and the pieces of no excluded fragment are a run of the directories above
it. -/
structure Keeps (o : DiscoverOptions) (t : FileTree) (r : List String) : Prop where
  isFile : ∃ b, t.get? r = some (.file b)
  visible : ∀ n ∈ r, n.toList.head? ≠ some '.'
  wanted : ∃ front stem e, r = front ++ [stem ++ "." ++ e] ∧ stem ≠ "" ∧ '.' ∉ e.toList ∧
    "." ++ Text.foldCase e ∈ o.extensions
  entered : ∀ directory ∈ o.excludeDirs, fragmentOf directory ≠ "" →
    ¬ Text.splitAt '/' (fragmentOf directory) <:+: r.dropLast

/-- Without ignore patterns nothing is overridden. -/
lemma overrides_eq_nil {o : DiscoverOptions} (h : o.ignorePaths = []) : o.overrides = .ok [] := by
  rw [overrides, h]
  rfl

/-- The fragments are those of the excluded directories that are not empty. -/
lemma mem_fragments_iff {o : DiscoverOptions} {f : String} :
    f ∈ o.fragments ↔ ∃ directory ∈ o.excludeDirs, fragmentOf directory ≠ "" ∧
      fragmentOf directory = f := by
  rw [fragments, List.mem_filter, List.mem_map]
  constructor
  · rintro ⟨⟨directory, hdirectory, rfl⟩, hne⟩
    exact ⟨directory, hdirectory, of_decide_eq_true hne, rfl⟩
  · rintro ⟨directory, hdirectory, hne, rfl⟩
    exact ⟨⟨directory, hdirectory, rfl⟩, decide_eq_true hne⟩

end DiscoverOptions

namespace Walk

/-- A name is hidden exactly if it begins with a dot. -/
lemma isHidden_eq_false_iff {name : String} :
    isHidden name = false ↔ name.toList.head? ≠ some '.' := by
  rw [isHidden, decide_eq_false_iff_not]

/-- Names without backslashes have nothing that is turned into a slash. -/
lemma slashed_joinWith {names : List String} (h : ∀ n ∈ names, '\\' ∉ n.toList) :
    Text.slashed (Text.joinWith "/" names) = Text.joinWith "/" names := by
  have hchars : ∀ c ∈ (Text.joinWith "/" names).toList, c ≠ '\\' := by
    induction names with
    | nil => simp [Text.joinWith]
    | cons n names ih =>
      obtain ⟨hn, hnames⟩ := List.forall_mem_cons.1 h
      have hfirst : ∀ c ∈ n.toList, c ≠ '\\' := fun c hc heq => hn (heq ▸ hc)
      cases names with
      | nil =>
        rw [Text.joinWith, String.intercalate_singleton]
        exact hfirst
      | cons m names =>
        have hrest := ih hnames
        rw [Text.joinWith] at hrest ⊢
        rw [String.intercalate_cons_cons, String.toList_append, String.toList_append]
        intro c hc
        rcases List.mem_append.1 hc with hc | hc
        · rcases List.mem_append.1 hc with hc | hc
          · exact hfirst c hc
          · obtain rfl : c = '/' := by simpa using hc
            decide
        · exact hrest c hc
  rw [← String.toList_inj, Text.slashed, String.toList_ofList]
  refine (List.map_congr_left fun c hc => ?_).trans (List.map_id _)
  rw [if_neg (hchars c hc)]
  rfl

/-- A directory below the start is left out exactly if the pieces of a fragment are a run of its
names. -/
lemma isExcluded_append_iff {w : Walk} {names : List String} (hne : names ≠ [])
    (hslash : ∀ n ∈ names, '/' ∉ n.toList) (hback : ∀ n ∈ names, '\\' ∉ n.toList) :
    w.isExcluded (w.base ++ names) = true ↔ ∃ f ∈ w.fragments, Text.splitAt '/' f <:+: names := by
  rw [isExcluded, below, List.drop_left, slashed_joinWith hback, hasFragment_joinWith hne hslash]

/-- All directories on the way are entered exactly if no fragment is a run of them. -/
lemma entered_iff {w : Walk} {directories : List String}
    (hslash : ∀ n ∈ directories, '/' ∉ n.toList) (hback : ∀ n ∈ directories, '\\' ∉ n.toList) :
    (∀ p, p ≠ [] → p <+: directories → w.isExcluded (w.base ++ p) = false) ↔
      ∀ f ∈ w.fragments, ¬ Text.splitAt '/' f <:+: directories := by
  have hstep : ∀ p, p ≠ [] → p <+: directories →
      (w.isExcluded (w.base ++ p) = false ↔ ∀ f ∈ w.fragments, ¬ Text.splitAt '/' f <:+: p) := by
    intro p hne hp
    rw [← Bool.not_eq_true, isExcluded_append_iff hne (fun n hn => hslash n (hp.subset hn))
      (fun n hn => hback n (hp.subset hn))]
    simp
  constructor
  · intro h f hf
    rw [← forall_prefix_iff (Text.splitAt_ne_nil '/' f)]
    exact fun p hne hp => (hstep p hne hp).1 (h p hne hp) f hf
  · intro h p hne hp
    refine (hstep p hne hp).2 fun f hf => ?_
    exact (forall_prefix_iff (Text.splitAt_ne_nil '/' f)).2 (h f hf) p hne hp

end Walk

namespace Disk

variable {d : Disk} {base r : List String} {o : DiscoverOptions}

/-- The parts of an absolute path of names are the root and the names. -/
lemma parts_absolute {q : List String} (hnames : ∀ n ∈ q, Path.IsName n) (hne : q ≠ []) :
    Path.parts (absolute q) = "/" :: q := by
  have hspeak : (q.filter fun p => !Path.isSilent p) = q :=
    List.filter_eq_self.2 fun n hn => by rw [(hnames n hn).speaks]; rfl
  rw [Path.parts, split_absolute hnames hne]
  exact congrArg (["/"] ++ ·) hspeak

/-- The extension of a file below a directory is that of its name. -/
lemma hasExtension_absolute_iff (hnames : ∀ n ∈ base ++ r, Path.IsName n) (hne : r ≠ []) :
    hasExtension o.extensions (absolute (base ++ r)) = true ↔
      ∃ front stem e, r = front ++ [stem ++ "." ++ e] ∧ stem ≠ "" ∧ '.' ∉ e.toList ∧
        "." ++ Text.foldCase e ∈ o.extensions := by
  obtain ⟨front, name, rfl⟩ : ∃ front name, r = front ++ [name] :=
    ⟨_, _, (List.dropLast_append_getLast hne).symm⟩
  rw [← List.append_assoc] at hnames ⊢
  have hextension := fun e => Path.extension?_eq_some_iff (e := e) (name?_absolute hnames)
  simp only [hasExtension, Option.any_eq_true, hextension, List.contains_iff_mem]
  constructor
  · rintro ⟨e, ⟨stem, hstem, rfl, he⟩, hwanted⟩
    exact ⟨front, stem, e, rfl, hstem, he, hwanted⟩
  · rintro ⟨front', stem, e, heq, hstem, he, hwanted⟩
    obtain ⟨-, hlast⟩ := List.append_inj' heq rfl
    exact ⟨e, ⟨stem, hstem, List.head_eq_of_cons_eq hlast, he⟩, hwanted⟩

/-- The layers above a directory for which no ignore files count have no rules. -/
lemma isBlank_of_mem_above (hrules : d.UnruledAround base) :
    ∀ l ∈ (d.tree.above base).map fun (p, t) => IgnoreLayer.ofDir p t, l.IsBlank := by
  intro l hl
  obtain ⟨⟨p, t⟩, hp, rfl⟩ := List.mem_map.1 hl
  rw [FileTree.above, List.mem_filterMap] at hp
  obtain ⟨q, hq, hget⟩ := hp
  obtain ⟨n, -, rfl⟩ := List.mem_map.1 hq
  obtain ⟨u, hu, heq⟩ := Option.map_eq_some_iff.1 hget
  obtain ⟨rfl, rfl⟩ := Prod.mk.inj heq
  exact IgnoreLayer.isBlank_ofDir (hrules _ _ hu (.inl (List.take_prefix n base))) _

end Disk

/-- A file is kept exactly if the way to it is open and its extension is wanted. -/
lemma DiscoverOptions.keeps_iff {o : DiscoverOptions} {t : FileTree} {base r : List String}
    {b : ByteArray} (hr : t.get? r = some (.file b)) (hnames : ∀ n ∈ base ++ r, Path.IsName n)
    (hne : r ≠ []) (hback : ∀ n ∈ r, '\\' ∉ n.toList) :
    o.Keeps t r ↔ ({ base, overrides := [], fragments := o.fragments } : Walk).Open base r ∧
      hasExtension o.extensions (Disk.absolute (base ++ r)) = true := by
  have hdirectories : ∀ n ∈ r.dropLast, n ∈ r := fun n hn => (List.dropLast_prefix r).subset hn
  have hentered := Walk.entered_iff (w := { base, overrides := [], fragments := o.fragments })
    (fun n hn => (hnames n (List.mem_append_right _ (hdirectories n hn))).noSlash)
    (fun n hn => hback n (hdirectories n hn))
  rw [Disk.hasExtension_absolute_iff hnames hne]
  constructor
  · intro h
    refine ⟨⟨fun n hn => Walk.isHidden_eq_false_iff.2 (h.visible n hn), hentered.2 fun f hf => ?_⟩,
      h.wanted⟩
    obtain ⟨directory, hdirectory, hspeaks, rfl⟩ := mem_fragments_iff.1 hf
    exact h.entered directory hdirectory hspeaks
  · rintro ⟨hopen, hwanted⟩
    refine ⟨⟨b, hr⟩, fun n hn => Walk.isHidden_eq_false_iff.1 (hopen.visible n hn), hwanted, ?_⟩
    intro directory hdirectory hspeaks
    exact hentered.1 hopen.entered _ (mem_fragments_iff.2 ⟨directory, hdirectory, hspeaks, rfl⟩)

/-- **Discovery is a filter.** In a directory for which no ignore files count and below which no
name holds a backslash, what is found without ignore patterns are the files that are kept, each
looked at by itself. They stand in the order of their paths, part by part, and each stands once. -/
theorem discover_eq_filter {d : Disk} {path : String} {o : DiscoverOptions} {base : List String}
    {es : List (String × FileTree)} (hnames : d.tree.WellNamed) (hlocate : d.locate path = .ok base)
    (hdir : d.tree.get? base = some (.dir es)) (hrules : d.UnruledAround base)
    (hback : ∀ r u, (FileTree.dir es).get? r = some u → ∀ n ∈ r, '\\' ∉ n.toList)
    (hpatterns : o.ignorePaths = []) :
    ∃ paths, d.discover path o = .ok paths ∧
      paths.Pairwise (fun a b => List.Lex (· < ·) (Path.parts a) (Path.parts b)) ∧
      ∀ p, p ∈ paths ↔ ∃ r, o.Keeps (.dir es) r ∧ p = Disk.absolute (base ++ r) := by
  set layers := (d.tree.above base).map fun (p, t) => IgnoreLayer.ofDir p t with hlayers
  set w : Walk := { base, overrides := [], fragments := o.fragments } with hw
  set found := w.visit layers base (.dir es) with hfound
  have hdiscover : d.discover path o =
      .ok (Path.sort ((found.map Disk.absolute).filter (hasExtension o.extensions))) := by
    simp only [Disk.discover, hlocate, Disk.find_of_locate hlocate hdir,
      DiscoverOptions.overrides_eq_nil hpatterns]
    rfl
  have ht : (FileTree.dir es).WellNamed := (hnames.isName_of_get? hdir).2
  have hbelow : ∀ r u, (FileTree.dir es).get? r = some u → d.tree.get? (base ++ r) = some u := by
    intro r u hu
    rw [FileTree.get?_append, hdir]
    exact hu
  have hmem : ∀ q, q ∈ found ↔
      ∃ r b, q = base ++ r ∧ (FileTree.dir es).get? r = some (.file b) ∧ w.Open base r := by
    intro q
    refine Walk.mem_visit_iff rfl ht (fun r u hu => ?_) (Disk.isBlank_of_mem_above hrules)
    exact hrules _ _ (hbelow r u hu) (.inr (List.prefix_append _ _))
  -- the names of what is found
  have hfile : ∀ r b, (FileTree.dir es).get? r = some (.file b) →
      (∀ n ∈ base ++ r, Path.IsName n) ∧ r ≠ [] := by
    intro r b hr
    refine ⟨(hnames.isName_of_get? (hbelow r _ hr)).1, ?_⟩
    rintro rfl
    cases hr
  have hkept : ∀ r b, (FileTree.dir es).get? r = some (.file b) → (o.Keeps (.dir es) r ↔
      w.Open base r ∧ hasExtension o.extensions (Disk.absolute (base ++ r)) = true) :=
    fun r b hr => DiscoverOptions.keeps_iff hr (hfile r b hr).1 (hfile r b hr).2 (hback r _ hr)
  refine ⟨_, hdiscover, Path.pairwise_sort ?_, fun p => ?_⟩
  · have hparts : (found.map Disk.absolute).map Path.parts = found.map fun q => "/" :: q := by
      rw [List.map_map]
      refine List.map_congr_left fun q hq => ?_
      obtain ⟨r, b, rfl, hr, -⟩ := (hmem q).1 hq
      obtain ⟨hr, hne⟩ := hfile r b hr
      exact Disk.parts_absolute hr (List.append_ne_nil_of_right_ne_nil _ hne)
    have hnodup : ((found.map Disk.absolute).map Path.parts).Nodup := by
      rw [hparts]
      exact (Walk.nodup_visit ht).map fun q q' heq => (List.cons.inj heq).2
    exact hnodup.sublist (List.filter_sublist.map _)
  · rw [Path.sort, List.mem_mergeSort, List.mem_filter, List.mem_map]
    constructor
    · rintro ⟨⟨q, hq, rfl⟩, hextension⟩
      obtain ⟨r, b, rfl, hr, hopen⟩ := (hmem q).1 hq
      exact ⟨r, (hkept r b hr).2 ⟨hopen, hextension⟩, rfl⟩
    · rintro ⟨r, hkeeps, rfl⟩
      obtain ⟨b, hr⟩ := hkeeps.isFile
      obtain ⟨hopen, hextension⟩ := (hkept r b hr).1 hkeeps
      exact ⟨⟨_, (hmem _).2 ⟨r, b, rfl, hr, hopen⟩, rfl⟩, hextension⟩

/-- What holds of a directory and of all that stands below its entries holds of all that stands in
it. -/
lemma FileTree.forall_get?_dir {P : List String → FileTree → Prop} {es : List (String × FileTree)}
    (hself : P [] (.dir es)) (hentries : ∀ e ∈ es, ∀ r u, e.2.get? r = some u → P (e.1 :: r) u) :
    ∀ q u, (FileTree.dir es).get? q = some u → P q u := by
  intro q u h
  cases q with
  | nil => exact Option.some.inj h ▸ hself
  | cons n r =>
    obtain ⟨c, hc, hr⟩ := Option.bind_eq_some_iff.1 h
    exact hentries (n, c) (mem_of_lookup hc) r u hr

/-- What holds of a file holds of all that stands in it, which is the file alone. -/
lemma FileTree.forall_get?_file {P : List String → FileTree → Prop} {b : ByteArray}
    (hself : P [] (.file b)) : ∀ q u, (FileTree.file b).get? q = some u → P q u := by
  intro q u h
  cases q with
  | nil => exact Option.some.inj h ▸ hself
  | cons n r => cases h

/-- A file has no ignore files. -/
lemma FileTree.unruled_file (b : ByteArray) : (FileTree.file b).Unruled := by
  intro place hplace b' h
  cases place with
  | nil => simp [IgnoreLayer.places] at hplace
  | cons n place => cases h

/-- A directory without entries of certain names has no ignore files. -/
lemma FileTree.unruled_dir {es : List (String × FileTree)}
    (h : ∀ e ∈ es, e.1 ∉ [".ignore", ".gitignore", ".git"]) : (FileTree.dir es).Unruled := by
  intro place hplace b hb
  cases place with
  | nil => cases hb
  | cons n place =>
    obtain ⟨c, hc, -⟩ := Option.bind_eq_some_iff.1 hb
    refine h (n, c) (mem_of_lookup hc) ?_
    simp only [IgnoreLayer.places, List.mem_cons, List.cons.injEq, List.not_mem_nil,
      or_false] at hplace
    rcases hplace with ⟨rfl, -⟩ | ⟨rfl, -⟩ | ⟨rfl, -⟩ <;> simp

/-- A directory with a directory to be left out. -/
def compiledTree : List (String × FileTree) :=
  [("lib", .dir [("b.PHP", .file .empty), ("temp", .dir [("x.php", .file .empty)])])]

/-- Options that leave out the directory `temp` of `lib`. -/
def compiledOptions : DiscoverOptions := { excludeDirs := ["/lib\\temp/"] }

/-- The file of `lib` is found, and the one of its directory `temp` is not kept. -/
theorem discover_eq_filter_compiled :
    ∃ paths, (⟨.dir compiledTree, []⟩ : Disk).discover "/" compiledOptions = .ok paths ∧
      paths.Pairwise (fun a b => List.Lex (· < ·) (Path.parts a) (Path.parts b)) ∧
      Disk.absolute ["lib", "b.PHP"] ∈ paths ∧
      ¬ compiledOptions.Keeps (.dir compiledTree) ["lib", "temp", "x.php"] := by
  have hnames : (FileTree.dir compiledTree).WellNamed := by
    refine .dir (by decide) (by decide) (List.forall_mem_singleton.2 ?_)
    refine .dir (by decide) (by decide)
      (List.forall_mem_cons.2 ⟨.file _, List.forall_mem_singleton.2 ?_⟩)
    exact .dir (by decide) (by decide) (List.forall_mem_singleton.2 (.file _))
  have hplain : ∀ q u, (FileTree.dir compiledTree).get? q = some u →
      u.Unruled ∧ ∀ n ∈ q, '\\' ∉ n.toList := by
    refine FileTree.forall_get?_dir ⟨FileTree.unruled_dir (by decide), by simp⟩
      (List.forall_mem_singleton.2 ?_)
    refine FileTree.forall_get?_dir ⟨FileTree.unruled_dir (by decide), by simp⟩
      (List.forall_mem_cons.2 ⟨FileTree.forall_get?_file ⟨FileTree.unruled_file _, by simp⟩,
        List.forall_mem_singleton.2 ?_⟩)
    refine FileTree.forall_get?_dir ⟨FileTree.unruled_dir (by decide), by simp⟩
      (List.forall_mem_singleton.2 ?_)
    exact FileTree.forall_get?_file ⟨FileTree.unruled_file _, by simp⟩
  have hlocate : (⟨.dir compiledTree, []⟩ : Disk).locate "/" = .ok [] := by
    have hstart : (⟨.dir compiledTree, []⟩ : Disk).start "/" = ([], [""]) := by decide +kernel
    rw [Disk.locate, if_neg (by decide), hstart]
    rfl
  obtain ⟨paths, hpaths, hsorted, hmem⟩ :=
    discover_eq_filter (o := compiledOptions) hnames hlocate rfl
      (fun q u hu _ => (hplain q u hu).1) (fun q u hu => (hplain q u hu).2) rfl
  refine ⟨paths, hpaths, hsorted, (hmem _).2 ⟨["lib", "b.PHP"], ?_, rfl⟩, fun h => ?_⟩
  · refine ⟨⟨.empty, ?_⟩, by decide,
      ⟨["lib"], "b", "PHP", by decide, by decide, by decide, by decide⟩, ?_⟩
    · simp [compiledTree]
    · decide +kernel
  · refine h.entered "/lib\\temp/" (by decide) ?_ ?_ <;> decide +kernel

end PhpCalls
