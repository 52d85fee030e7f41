import PhpCalls.Analysis
import PhpCalls.Proofs.Files.Disk
import PhpCalls.Proofs.Files.Path

set_option autoImplicit false

/-!
# Where the files of a cache lie

The two files of a cache lie side by side, and their names differ in the ending alone. So two caches
share both of their files or none, and the facts of one never lie where the stamp of another does,
whatever the names of the projects are.

## Main definitions

* `Path.position`: the position of an absolute path.
* `Cache.position`: the position of a file of a cache.

## Main results

* `Project.exists_cache_position`: the two files lie side by side.
* `Project.eq_of_position_eq`: where files of two caches lie at one position, they are files of one
  sort, and the other files lie at one position too.
-/

namespace PhpCalls

/-! ## Positions of absolute paths -/

/-- What is put behind a list, without a separator in it, comes to the last piece. **Proof sketch.**
By induction on the list: a separator begins a new first piece, and any other element goes to the
first piece, which is the last one only if there is no other. -/
lemma exists_splitOnP_append {α : Type} (p : α → Bool) (xs : List α) :
    ∃ init last, ∀ ys, (∀ y ∈ ys, p y = false) → (xs ++ ys).splitOnP p = init ++ [last ++ ys] := by
  induction xs with
  | nil => exact ⟨[], [], fun ys hys => List.splitOnP_eq_singleton hys⟩
  | cons x xs ih =>
    obtain ⟨init, last, ih⟩ := ih
    by_cases hx : p x
    · refine ⟨[] :: init, last, fun ys hys => ?_⟩
      rw [List.cons_append, List.splitOnP_cons_eq_if_modifyHead, if_pos hx, ih ys hys]
      rfl
    · cases init with
      | nil =>
        refine ⟨[], x :: last, fun ys hys => ?_⟩
        rw [List.cons_append, List.splitOnP_cons_eq_if_modifyHead, if_neg hx, ih ys hys]
        rfl
      | cons piece init =>
        refine ⟨(x :: piece) :: init, last, fun ys hys => ?_⟩
        rw [List.cons_append, List.splitOnP_cons_eq_if_modifyHead, if_neg hx, ih ys hys]
        rfl

namespace Path

/-- The position of an absolute path. -/
def position (path : String) : List String :=
  ((Text.splitAt '/' path).drop 1).foldl Disk.advance []

/-- An absolute path spells the same position on every disk. -/
lemma intended_eq_position {path : String} (h : isAbsolute path) (d : Disk) :
    d.intended path = position path := by
  simp [Disk.intended_eq_foldl, Disk.start, h, position]

/-- An ending that is put behind a path comes to the last name of what its parts lead to. -/
lemma exists_foldl_advance_append (position : List String) (path : String) :
    ∃ base name, ∀ ending : String, '/' ∉ ending.toList → 2 < ending.length →
      (Text.splitAt '/' (path ++ ending)).foldl Disk.advance position =
        base ++ [name ++ ending] := by
  obtain ⟨init, last, hsplit⟩ := exists_splitOnP_append (· == '/') path.toList
  refine ⟨(init.map String.ofList).foldl Disk.advance position, String.ofList last,
    fun e he hlen => ?_⟩
  have hpieces := hsplit e.toList fun c hc => beq_eq_false_iff_ne.2 fun heq => he (heq ▸ hc)
  have hname : String.ofList (last ++ e.toList) = String.ofList last ++ e := by
    rw [String.ofList_append, String.ofList_toList]
  have hlong : 2 < (String.ofList last ++ e).length := by
    rw [String.length_append]
    omega
  have hadvance (base : List String) :
      Disk.advance base (String.ofList last ++ e) = base ++ [String.ofList last ++ e] := by
    have hne (t : String) (ht : t.length ≤ 2) : String.ofList last ++ e ≠ t := by
      rintro rfl
      omega
    simp [Disk.advance, isSilent, hne "" (by decide), hne "." (by decide), hne ".." (by decide)]
  rw [Text.splitAt, String.toList_append, hpieces]
  simp [hname, hadvance]

/-- An ending that is put behind an absolute path comes to the last name of its position. -/
lemma exists_position_append {path : String} (h : isAbsolute path) :
    ∃ base name, ∀ ending : String, '/' ∉ ending.toList → 2 < ending.length →
      position (path ++ ending) = base ++ [name ++ ending] := by
  obtain ⟨cs, hcs⟩ : ∃ cs, path.toList = '/' :: cs := by
    rw [isAbsolute, decide_eq_true_iff] at h
    exact List.head?_eq_some_iff.1 h
  obtain ⟨base, name, hposition⟩ := exists_foldl_advance_append [] (String.ofList cs)
  refine ⟨base, name, fun e he hlen => ?_⟩
  rw [← hposition e he hlen, position, Text.splitAt, Text.splitAt, String.toList_append, hcs,
    List.cons_append, List.splitOnP_cons_eq_if_modifyHead, if_pos (by decide)]
  simp

/-- An absolute path stays absolute when something is written behind it. -/
lemma isAbsolute_append {path : String} (h : isAbsolute path) (rest : String) :
    isAbsolute (path ++ rest) := by
  rw [isAbsolute, decide_eq_true_iff] at h ⊢
  obtain ⟨cs, hcs⟩ := List.head?_eq_some_iff.1 h
  rw [String.toList_append, hcs]
  rfl

/-- What is seen from an absolute path is an absolute path. -/
lemma isAbsolute_join {base : String} (h : isAbsolute base) (rest : String) :
    isAbsolute (join base rest) := by
  rw [join]
  split_ifs with hrest
  · rcases Bool.or_eq_true_iff.1 hrest with hrest | hbase
    · exact hrest
    · obtain rfl := of_decide_eq_true hbase
      exact absurd h (by decide)
  · exact isAbsolute_append h rest
  · exact isAbsolute_append (isAbsolute_append h "/") rest

/-- An ending may be put behind a path before or after it is seen from another one. -/
lemma join_append (base : String) {rest : String} (h : rest ≠ "") (ending : String) :
    join base (rest ++ ending) = join base rest ++ ending := by
  rw [join, join, isAbsolute_append_eq h]
  split_ifs <;> simp [String.append_assoc]

end Path

/-! ## The two files of a cache -/

/-- The position of a file of a cache. -/
def Cache.position (c : Cache) (file : CacheFile) : List String := Path.position (c.path file)

/-- The ending of the name of a file of a cache. -/
def CacheFile.ending : CacheFile → String
  | .data => ".parse.json"
  | .stamp => ".meta.json"

/-- A name tells its ending. -/
lemma CacheFile.append_ending_inj {n n' : String} {f f' : CacheFile}
    (h : n ++ f.ending = n' ++ f'.ending) : n = n' ∧ f = f' := by
  have hlast :
      ((n ++ f.ending).toList.reverse).take 6 = ((n' ++ f'.ending).toList.reverse).take 6 := by
    rw [h]
  have hf : f = f' := by
    cases f <;> cases f' <;> simp [ending] at hlast ⊢
  subst hf
  exact ⟨String.append_left_inj _ |>.1 h, rfl⟩

namespace Project

variable {p p' : Project}

/-- What the names of both files of the cache begin with. -/
def cacheStem (p : Project) : String :=
  p.settings.projectName ++ "." ++ Cache.key p.root p.settings.excludeDirs

/-- The path of a cache file is its stem with an ending, in the cache directory below the root. -/
lemma cache_path (p : Project) (file : CacheFile) :
    p.cache.path file =
      Path.join (Path.join p.root p.settings.cacheDir) (p.cacheStem ++ file.ending) := by
  cases file <;> rfl

/-- The stem of the cache files is never empty: it has a dot. -/
lemma cacheStem_ne_empty (p : Project) : p.cacheStem ≠ "" := by
  intro h
  have hlength := congrArg String.length h
  simp [cacheStem] at hlength

/-- The cache files of a project with an absolute root have absolute paths. -/
lemma isAbsolute_cache_path (h : Path.isAbsolute p.root) (file : CacheFile) :
    Path.isAbsolute (p.cache.path file) := by
  rw [cache_path]
  exact Path.isAbsolute_join (Path.isAbsolute_join h _) _

/-- The two files lie side by side. -/
lemma exists_cache_position (h : Path.isAbsolute p.root) :
    ∃ base name, ∀ file, p.cache.position file = base ++ [name ++ file.ending] := by
  obtain ⟨base, name, hposition⟩ := Path.exists_position_append
    (Path.isAbsolute_join (Path.isAbsolute_join h p.settings.cacheDir) p.cacheStem)
  refine ⟨base, name, fun file => ?_⟩
  rw [Cache.position, cache_path, Path.join_append _ p.cacheStem_ne_empty]
  exact hposition file.ending (by cases file <;> decide) (by cases file <;> decide)

/-- Where files of two caches lie at one position, they are files of one sort, and the other files
lie at one position too. -/
theorem eq_of_position_eq (h : Path.isAbsolute p.root) (h' : Path.isAbsolute p'.root)
    {file file' : CacheFile} (heq : p.cache.position file = p'.cache.position file') :
    file = file' ∧ ∀ other, p.cache.position other = p'.cache.position other := by
  obtain ⟨base, name, hp⟩ := exists_cache_position h
  obtain ⟨base', name', hp'⟩ := exists_cache_position h'
  rw [hp, hp'] at heq
  obtain ⟨rfl, hlast⟩ := List.append_inj' heq rfl
  obtain ⟨rfl, rfl⟩ := CacheFile.append_ending_inj (List.singleton_inj.1 hlast)
  exact ⟨rfl, fun other => by rw [hp, hp']⟩

end Project

end PhpCalls
