import PhpCalls.Proofs.Files.Disk

set_option autoImplicit false

/-!
# What paths lead to after a change of a disk

A file that was written is found at its path. Every other path that led to a file still leads to
that file, since writing a file and making directories leave a directory or a file wherever one was.

## Main definitions

* `FileTree.KindsWithin`: wherever a file or a directory stands in a tree, one stands in another
  tree too.

## Main results

* `Disk.find_of_write`: a file that was written is found.
* `Disk.find_of_write_of_ne`: files at other positions are still found.
* `Disk.find_of_makeDirs`: all files are still found after directories were made.
-/

namespace PhpCalls

namespace FileTree

variable {t t' new : FileTree} {p q : List String}

/-! ## Trees -/

/-- What is put at a position stands there, unless a file stands above it. -/
lemma get?_put_self (h : ∀ r b, t.get? r = some (file b) → r <+: p → r = p) :
    (put new t p).get? p = some new := by
  induction p generalizing t with
  | nil => simp [put]
  | cons n p ih =>
    cases t with
    | file b => cases h [] b rfl List.nil_prefix
    | dir es =>
      rw [put, get?_dir_cons, lookup_putEntry, if_pos rfl, Option.bind_some]
      refine ih fun r b hr hrp => ?_
      cases hlookup : es.lookup n with
      | none =>
        -- the directory made on the way holds nothing
        rw [hlookup] at hr
        cases r <;> simp [emptyDir] at hr
      | some c =>
        rw [hlookup] at hr
        have hlong :=
          h (n :: r) b (by simpa [hlookup] using hr) (List.cons_prefix_cons.2 ⟨rfl, hrp⟩)
        exact (List.cons.inj hlong).2

/-- Outside of the position, a file of the old tree stands in the new one. -/
lemma get?_put_of_get? {b : ByteArray} (hq : ¬ p <+: q) (h : t.get? q = some (file b)) :
    (put new t p).get? q = some (file b) := by
  induction p generalizing t q with
  | nil => exact absurd List.nil_prefix hq
  | cons n p ih =>
    cases t with
    | file c => exact h
    | dir es =>
      cases q with
      | nil => simp at h
      | cons m q =>
        simp only [put, get?_dir_cons, lookup_putEntry] at h ⊢
        by_cases hm : m = n
        · subst hm
          obtain ⟨c, hlookup, hc⟩ := Option.bind_eq_some_iff.1 h
          have hpq : ¬ p <+: q := fun hp => hq (List.cons_prefix_cons.2 ⟨rfl, hp⟩)
          simpa [hlookup] using ih hpq hc
        · rwa [if_neg hm]

/-- What stands below something stands in a directory. -/
lemma eq_of_prefix_of_get? (hp : ¬ t.IsDirAt p) (hq : (t.get? q).isSome) (hpq : p <+: q) :
    q = p := by
  obtain ⟨r, rfl⟩ := hpq
  obtain ⟨u, hu⟩ := Option.isSome_iff_exists.1 hq
  rw [get?_append] at hu
  obtain ⟨c, hc, hr⟩ := Option.bind_eq_some_iff.1 hu
  cases c with
  | dir es => exact absurd ⟨es, hc⟩ hp
  | file b =>
    cases r with
    | nil => exact List.append_nil p
    | cons n r => cases hr

/-- Wherever a directory stands in the tree, one stands in the other tree, and wherever a file
stands, a file stands there, with any bytes. -/
def KindsWithin (old new : FileTree) : Prop :=
  ∀ q t, old.get? q = some t → ∃ t', new.get? q = some t' ∧ t'.isDir = t.isDir

/-- A tree has the kinds of its own positions. -/
lemma KindsWithin.refl (t : FileTree) : t.KindsWithin t := fun _ u h => ⟨u, h, rfl⟩

/-- Kinds that stay from the first tree to the second and from there to the third stay. -/
lemma KindsWithin.trans {t₁ t₂ t₃ : FileTree} (h₁ : t₁.KindsWithin t₂) (h₂ : t₂.KindsWithin t₃) :
    t₁.KindsWithin t₃ := by
  intro q u h
  obtain ⟨u₂, h, hkind⟩ := h₁ q u h
  obtain ⟨u₃, h, hkind'⟩ := h₂ q u₂ h
  exact ⟨u₃, h, hkind'.trans hkind⟩

/-- A directory stays a directory where kinds stay. -/
lemma KindsWithin.isDirAt (h : t.KindsWithin t') (hq : t.IsDirAt q) : t'.IsDirAt q := by
  obtain ⟨es, hes⟩ := hq
  obtain ⟨u, hu, hkind⟩ := h q _ hes
  cases u with
  | dir es' => exact ⟨es', hu⟩
  | file b => cases hkind

/-- Outside of the position everything keeps its kind. -/
lemma exists_get?_put {u : FileTree} (hq : ¬ p <+: q) (h : t.get? q = some u) :
    ∃ u', (put new t p).get? q = some u' ∧ u'.isDir = u.isDir := by
  cases u with
  | file b => exact ⟨_, get?_put_of_get? hq h, rfl⟩
  | dir es =>
    obtain ⟨es', h'⟩ : (put new t p).IsDirAt q := isDirAt_put hq ⟨es, h⟩
    exact ⟨_, h', rfl⟩

/-- A file that is put where no directory is changes no kind. -/
lemma kindsWithin_put_file (c : ByteArray) (hp : ¬ t.IsDirAt p) :
    t.KindsWithin (put (file c) t p) := by
  intro q u hq
  by_cases hpq : p <+: q
  · obtain rfl := eq_of_prefix_of_get? hp (Option.isSome_of_eq_some hq) hpq
    cases u with
    | dir es => exact absurd ⟨es, hq⟩ hp
    | file b =>
      refine ⟨file c, get?_put_self fun r b' hr hrq => ?_, rfl⟩
      have hfile : ¬ t.IsDirAt r := by
        rintro ⟨es, hes⟩
        rw [hr] at hes
        cases hes
      exact (eq_of_prefix_of_get? hfile (Option.isSome_of_eq_some hq) hrq).symm
  · exact exists_get?_put hpq hq

end FileTree

namespace Disk

variable {d d' : Disk}

/-! ## Paths -/

/-- Parts that could be followed can still be followed if everything keeps its kind. -/
lemma follow_of_kindsWithin (hkinds : d.tree.KindsWithin d'.tree) {position parts r : List String}
    (h : d.follow position parts = .ok r) : d'.follow position parts = .ok r := by
  induction parts generalizing position with
  | nil => exact h
  | cons p parts ih =>
    obtain ⟨hdir, hname, hrest⟩ := follow_cons_eq_ok_iff.1 h
    refine follow_cons_eq_ok_iff.2 ⟨hkinds.isDirAt hdir, fun hsilent hup => ?_, ih hrest⟩
    obtain ⟨t, ht⟩ := Option.isSome_iff_exists.1 (hname hsilent hup)
    obtain ⟨t', ht', -⟩ := hkinds _ _ ht
    exact Option.isSome_of_eq_some ht'

/-- A name behind parts is followed last. -/
lemma follow_append_name {position parts above : List String} {name : String}
    (habove : d.follow position parts = .ok above) (hsilent : Path.isSilent name = false)
    (hup : name ≠ "..") (h : (d.tree.get? (above ++ [name])).isSome) :
    d.follow position (parts ++ [name]) = .ok (above ++ [name]) := by
  induction parts generalizing position with
  | nil =>
    cases habove
    refine follow_cons_eq_ok_iff.2 ⟨FileTree.isDirAt_of_isSome_get? h, fun _ _ => h, ?_⟩
    simp [follow, advance, hsilent, hup]
  | cons p parts ih =>
    obtain ⟨hdir, hname, hrest⟩ := follow_cons_eq_ok_iff.1 habove
    exact follow_cons_eq_ok_iff.2 ⟨hdir, hname, ih hrest⟩

/-- The start of a path depends on the working directory alone. -/
lemma start_of_here (h : d'.here = d.here) (path : String) : d'.start path = d.start path := by
  rw [start, start, h]

/-- What stands at the position of a path is found at the path. -/
lemma find_of_locate {path : String} {r : List String} {t : FileTree} (h : d.locate path = .ok r)
    (ht : d.tree.get? r = some t) : d.find path = .ok t := by
  simp [find, h, ht, bind, Except.bind]

/-- A path that led to something leads to what now stands at its position. -/
lemma find_of_kindsWithin (hkinds : d.tree.KindsWithin d'.tree) (hhere : d'.here = d.here)
    {path : String} {t t' : FileTree} (h : d.find path = .ok t)
    (ht' : d'.tree.get? (d.intended path) = some t') : d'.find path = .ok t' := by
  obtain ⟨r, hlocate, -⟩ := exists_of_bind_eq_ok h
  have hlocate' : d'.locate path = .ok r := by
    rw [locate] at hlocate ⊢
    split_ifs at hlocate ⊢
    rw [start_of_here hhere]
    exact follow_of_kindsWithin hkinds hlocate
  rw [← locate_eq_ok hlocate] at ht'
  exact find_of_locate hlocate' ht'

/-! ## Writing -/

/-- Writing changes no kind. -/
lemma kindsWithin_of_write {path : String} {c : ByteArray} (h : d.write path c = .ok d') :
    d'.here = d.here ∧ d.tree.KindsWithin d'.tree := by
  obtain ⟨hdir, rfl⟩ := write_eq_ok h
  exact ⟨rfl, FileTree.kindsWithin_put_file c hdir⟩

/-- Files at other positions are still found after a file was written. -/
theorem find_of_write_of_ne {path other : String} {b c : ByteArray} (h : d.write path c = .ok d')
    (hne : d.intended other ≠ d.intended path) (hfind : d.find other = .ok (.file b)) :
    d'.find other = .ok (.file b) := by
  obtain ⟨hhere, hkinds⟩ := kindsWithin_of_write h
  obtain ⟨hdir, rfl⟩ := write_eq_ok h
  have hget := find_eq_ok hfind
  refine find_of_kindsWithin hkinds hhere hfind
    (FileTree.get?_put_of_get? (fun hprefix => hne ?_) hget)
  exact FileTree.eq_of_prefix_of_get? hdir (Option.isSome_of_eq_some hget) hprefix

/-- A file that was written is found. -/
theorem find_of_write {path : String} {c : ByteArray} (h : d.write path c = .ok d') :
    d'.find path = .ok (.file c) := by
  obtain ⟨-, hkinds⟩ := kindsWithin_of_write h
  rw [write] at h
  split_ifs at h with hempty
  obtain ⟨r, hnew, h⟩ := exists_of_bind_eq_ok h
  cases h
  obtain ⟨parts, above, name, hparts, hfollow, habove, hsilent, hup, rfl, -⟩ := locateNew_eq_ok hnew
  have hget : (FileTree.put (.file c) d.tree (above ++ [name])).get? (above ++ [name]) =
      some (.file c) := by
    refine FileTree.get?_put_self fun r b hr hrname => ?_
    rcases List.prefix_concat_iff.1 hrname with rfl | hrabove
    · rfl
    · -- above the new file there are directories only
      obtain ⟨es, hes⟩ := habove.of_prefix hrabove
      rw [hr] at hes
      cases hes
  refine find_of_locate (r := above ++ [name]) ?_ hget
  rw [locate, if_neg hempty]
  change follow _ (d.start path).1 (d.start path).2 = _
  rw [hparts]
  exact follow_append_name (follow_of_kindsWithin hkinds hfollow) hsilent hup
    (Option.isSome_of_eq_some hget)

/-! ## Making directories -/

/-- Making directories keeps the kind of every position and every file. -/
lemma makeAlong_keeps {t t' : FileTree} {position parts : List String}
    (h : makeAlong t position parts = .ok t') : t.KindsWithin t' ∧ t.FilesWithin t' := by
  induction parts generalizing t position with
  | nil =>
    cases h
    exact ⟨.refl _, .refl _⟩
  | cons p parts ih =>
    rw [makeAlong] at h
    split_ifs at h
    · exact ih h
    · exact ih h
    · dsimp only at h
      split at h
      · exact ih h
      · cases h
      · next hnone =>
        obtain ⟨hkinds, hfiles⟩ := ih h
        -- below what was missing there was nothing
        have hapart (q : List String) (u : FileTree) (hq : t.get? q = some u) :
            ¬ position ++ [p] <+: q := by
          rintro ⟨r, rfl⟩
          rw [FileTree.get?_append, hnone] at hq
          cases hq
        exact ⟨.trans (fun q u hq => FileTree.exists_get?_put (hapart q u hq) hq) hkinds,
          .trans (fun q b hq => FileTree.get?_put_of_get? (hapart q _ hq) hq) hfiles⟩

/-- Making directories changes no kind and no file. -/
lemma kindsWithin_of_makeDirs {path : String} (h : d.makeDirs path = .ok d') :
    d'.here = d.here ∧ d.tree.KindsWithin d'.tree ∧ d.tree.FilesWithin d'.tree := by
  obtain ⟨t, ht, h⟩ := exists_of_bind_eq_ok h
  cases h
  exact ⟨rfl, makeAlong_keeps ht⟩

/-- All files are still found after directories were made. -/
theorem find_of_makeDirs {path other : String} {b : ByteArray} (h : d.makeDirs path = .ok d')
    (hfind : d.find other = .ok (.file b)) : d'.find other = .ok (.file b) := by
  obtain ⟨hhere, hkinds, hfiles⟩ := kindsWithin_of_makeDirs h
  exact find_of_kindsWithin hkinds hhere hfind (hfiles _ _ (find_eq_ok hfind))

end Disk

end PhpCalls
