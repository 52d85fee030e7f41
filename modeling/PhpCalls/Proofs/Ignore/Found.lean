import PhpCalls.Ignore.Discovery
import PhpCalls.Proofs.Files.Survival
import PhpCalls.Proofs.List
import PhpCalls.Proofs.Text

set_option autoImplicit false

/-!
# Where found files lie

A walk finds positions of files, and writes them as paths. Where the names in a tree are such as can
stand in paths, each path leads back to its position, so that every file that was found can be read;
and its name tells by its ending that it is none of another sort.

## Main definitions

* `Path.IsName`: a text that can stand in a path as the name of a file.
* `FileTree.WellNamed`: all entries of a tree have such names, different ones in each directory.

## Main results

* `Disk.read_absolute`: the file at a position is read through the path of the position.
* `Disk.exists_of_mem_discover`: what is found are files of the tree.
* `Disk.hasExtension_absolute_append`: names with other endings are not among what is found.
-/

namespace PhpCalls

/-! ## Names -/

/-- The text can stand in a path as the name of a file. -/
structure Path.IsName (name : String) : Prop where
  speaks : isSilent name = false
  ne_up : name ≠ ".."
  noSlash : '/' ∉ name.toList

instance Path.decidableIsName (name : String) : Decidable (IsName name) :=
  decidable_of_iff (isSilent name = false ∧ name ≠ ".." ∧ '/' ∉ name.toList)
    ⟨fun ⟨hspeaks, hup, hslash⟩ => ⟨hspeaks, hup, hslash⟩, fun h => ⟨h.speaks, h.ne_up, h.noSlash⟩⟩

namespace Disk

variable {d : Disk} {q : List String}

/-- The path of a position is absolute. -/
lemma isAbsolute_absolute (q : List String) : Path.isAbsolute (absolute q) := by
  simp [Path.isAbsolute, absolute]

/-- The path of a position is divided into the names, with an empty piece before the first slash. -/
lemma splitAt_absolute (hnames : ∀ n ∈ q, Path.IsName n) (hne : q ≠ []) :
    Text.splitAt '/' (absolute q) = "" :: q := by
  refine Text.splitAt_intercalate ?_ (by simp) ?_
  · exact List.forall_mem_cons.2 ⟨by decide, fun n hn => (hnames n hn).noSlash⟩
  · obtain ⟨n, q, rfl⟩ := List.exists_cons_of_ne_nil hne
    simp [absolute, Text.joinWith, List.intercalate_cons_cons]

/-- Names are followed where something stands at the end. -/
lemma follow_names {position parts : List String} (hnames : ∀ n ∈ parts, Path.IsName n)
    (h : (d.tree.get? (position ++ parts)).isSome) :
    d.follow position parts = .ok (position ++ parts) := by
  induction parts generalizing position with
  | nil => rw [List.append_nil, follow]
  | cons n parts ih =>
    obtain ⟨hn, hnames⟩ := List.forall_mem_cons.1 hnames
    rw [List.append_cons] at h ⊢
    have hnext : (d.tree.get? (position ++ [n])).isSome := by
      rw [FileTree.get?_append] at h
      exact Option.isSome_of_isSome_bind h
    refine follow_cons_eq_ok_iff.2 ⟨FileTree.isDirAt_of_isSome_get? hnext, fun _ _ => hnext, ?_⟩
    rw [advance, hn.speaks, if_neg Bool.false_ne_true, if_neg hn.ne_up]
    exact ih hnames h

/-- The file at a position is read through the path of the position. -/
theorem read_absolute (hnames : ∀ n ∈ q, Path.IsName n) (hne : q ≠ []) {b : ByteArray}
    (h : d.tree.get? q = some (.file b)) : d.read (absolute q) = .ok b := by
  have hfollow : d.follow [] q = .ok q := follow_names hnames (Option.isSome_of_eq_some h)
  have hpath : absolute q ≠ "" := by
    intro hempty
    have habsolute := isAbsolute_absolute q
    rw [hempty] at habsolute
    exact absurd habsolute (by decide)
  have hlocate : d.locate (absolute q) = .ok q := by
    rw [locate, if_neg hpath, start, if_pos (isAbsolute_absolute q), splitAt_absolute hnames hne]
    exact hfollow
  simp only [read, find_of_locate hlocate h, bind, Except.bind]

end Disk

/-! ## Trees with names -/

namespace FileTree

/-- In every directory the entries have different names that can stand in paths. -/
inductive WellNamed : FileTree → Prop
  | file (b : ByteArray) : WellNamed (.file b)
  | dir {es : List (String × FileTree)} (hnames : ∀ e ∈ es, Path.IsName e.1)
      (hnodup : (es.map Prod.fst).Nodup) (hentries : ∀ e ∈ es, WellNamed e.2) : WellNamed (.dir es)

/-- What holds of a tree as soon as it holds of its entries holds of every tree. -/
theorem descend {motive : FileTree → Prop} (step : ∀ t, (∀ e ∈ t.entries, motive e.2) → motive t)
    (t : FileTree) : motive t :=
  step t fun e _ => descend step e.2
termination_by sizeOf t
decreasing_by
  obtain ⟨n, c⟩ := e
  cases t with
  | file b => cases ‹_ ∈ _›
  | dir es =>
    have hlt := List.sizeOf_lt_of_mem (show (n, c) ∈ es from ‹_›)
    simp only [Prod.mk.sizeOf_spec, dir.sizeOf_spec] at hlt ⊢
    omega

/-- The positions in a well named tree are rows of names. -/
lemma WellNamed.isName_of_get? {t u : FileTree} (h : t.WellNamed) {q : List String}
    (hq : t.get? q = some u) : (∀ n ∈ q, Path.IsName n) ∧ u.WellNamed := by
  induction q generalizing t with
  | nil =>
    obtain rfl : t = u := by simpa using hq
    exact ⟨fun n hn => (by cases hn), h⟩
  | cons n q ih =>
    cases h with
    | file b => cases hq
    | dir hnames hnodup hentries =>
      obtain ⟨c, hc, hq⟩ := Option.bind_eq_some_iff.1 hq
      have hmem := mem_of_lookup hc
      obtain ⟨hq, hu⟩ := ih (hentries _ hmem) hq
      exact ⟨List.forall_mem_cons.2 ⟨hnames _ hmem, hq⟩, hu⟩

end FileTree

/-! ## Walks -/

namespace Walk

variable {w : Walk} {layers : List IgnoreLayer} {position q : List String}

/-- What is found in a directory is found at one of its entries. -/
lemma exists_of_mem_visitAll {es : List (String × FileTree)}
    (hq : q ∈ w.visitAll layers position es) : ∃ e ∈ es, q ∈ w.visitEntry layers position e := by
  induction es with
  | nil => rw [visitAll] at hq; cases hq
  | cons e es ih =>
    rw [visitAll] at hq
    rcases List.mem_append.1 hq with hq | hq
    · exact ⟨e, List.mem_cons_self, hq⟩
    · obtain ⟨f, hf, hq⟩ := ih hq
      exact ⟨f, List.mem_cons_of_mem _ hf, hq⟩

/-- A walk through a well named tree finds positions of files. -/
theorem exists_of_mem_visit {t : FileTree} (ht : t.WellNamed) (hq : q ∈ w.visit layers position t) :
    ∃ r b, q = position ++ r ∧ t.get? r = some (.file b) := by
  induction t using FileTree.descend generalizing layers position with
  | step t ih =>
    cases ht with
    | file b =>
      rw [visit, List.mem_singleton] at hq
      exact ⟨[], b, by rw [hq, List.append_nil], rfl⟩
    | @dir es hnames hnodup hentries =>
      rw [visit] at hq
      obtain ⟨e, he, hq⟩ := exists_of_mem_visitAll hq
      rw [visitEntry] at hq
      split_ifs at hq
      · cases hq
      obtain ⟨r, b, rfl, hr⟩ := ih e he (hentries e he) hq
      refine ⟨e.1 :: r, b, (List.append_cons _ _ _).symm, ?_⟩
      rw [FileTree.get?_dir_cons, lookup_of_mem hnodup he]
      exact hr

end Walk

namespace Disk

variable {d : Disk} {q : List String}

/-- What is found below a path are files of the tree with a wanted extension. -/
theorem exists_of_mem_discover (hd : d.tree.WellNamed) {path : String} {o : DiscoverOptions}
    {paths : List String} (h : d.discover path o = .ok paths) {found : String}
    (hfound : found ∈ paths) :
    ∃ q b, found = absolute q ∧ d.tree.get? q = some (.file b) ∧ (∀ n ∈ q, Path.IsName n) ∧
      hasExtension o.extensions found = true := by
  rw [discover] at h
  split at h
  · next base t hlocate hfind =>
    split at h
    · cases h
    next overrides hoverrides =>
    cases h
    obtain ⟨hfound, hextension⟩ := List.mem_filter.1 (List.mem_mergeSort.1 hfound)
    obtain ⟨q, hq, rfl⟩ := List.mem_map.1 hfound
    -- the walk starts from what stands at the position of the path
    have hget : d.tree.get? base = some t := by
      cases hfind' : d.find path with
      | error e =>
        rw [hfind'] at hfind
        cases hfind
      | ok u =>
        rw [hfind'] at hfind
        obtain rfl := Option.some.inj hfind
        rw [locate_eq_ok hlocate]
        exact find_eq_ok hfind'
    obtain ⟨r, b, rfl, hr⟩ := Walk.exists_of_mem_visit (hd.isName_of_get? hget).2 hq
    have hfile : d.tree.get? (base ++ r) = some (.file b) := by
      rw [FileTree.get?_append, hget]
      exact hr
    exact ⟨_, b, rfl, hfile, (hd.isName_of_get? hfile).1, hextension⟩
  · cases h

/-! ## Extensions -/

/-- The body of the path of a position are its names. -/
lemma split_absolute (hnames : ∀ n ∈ q, Path.IsName n) (hne : q ≠ []) :
    Path.split (absolute q) = (["/"], q) := by
  rw [Path.split, splitAt_absolute hnames hne]
  simp [isAbsolute_absolute]

/-- The path of a position has the last name as its name. -/
lemma name?_absolute {base : List String} {name : String}
    (hnames : ∀ n ∈ base ++ [name], Path.IsName n) :
    Path.name? (absolute (base ++ [name])) = some name := by
  have hname := hnames name (List.mem_append_right _ (List.mem_singleton_self _))
  simp [Path.name?, split_absolute hnames, Path.trimEnd, hname.speaks, hname.ne_up]

/-- The extension of a name that ends in `.json` is no other. -/
lemma extension?_absolute_append {base : List String} {stem e : String}
    (hnames : ∀ n ∈ base ++ [stem ++ ".json"], Path.IsName n)
    (h : Path.extension? (absolute (base ++ [stem ++ ".json"])) = some e) : e = "json" := by
  have hpieces : Text.splitAt '.' (stem ++ ".json") = Text.splitAt '.' stem ++ ["json"] := by
    have hchars : (stem ++ ".json").toList = stem.toList ++ '.' :: "json".toList := by simp
    rw [Text.splitAt, hchars, List.splitOnP_append_cons _ _ (by decide), List.map_append]
    rfl
  rw [Path.extension?, name?_absolute hnames, Option.bind_eq_bind, Option.bind_some] at h
  generalize Text.splitAt '.' (stem ++ ".json") = pieces at h hpieces
  split at h
  · cases h
  · cases h
  · cases h
  · rw [hpieces, List.getLast?_concat] at h
    exact (Option.some.inj h).symm

/-- A file whose name ends in `.json` does not have the extension `.php`. -/
lemma hasExtension_absolute_append {base : List String} {stem : String}
    (hnames : ∀ n ∈ base ++ [stem ++ ".json"], Path.IsName n) :
    hasExtension [".php"] (absolute (base ++ [stem ++ ".json"])) = false := by
  rw [hasExtension]
  cases h : Path.extension? (absolute (base ++ [stem ++ ".json"])) with
  | none => rfl
  | some e =>
    rw [extension?_absolute_append hnames h]
    decide

end Disk

end PhpCalls
