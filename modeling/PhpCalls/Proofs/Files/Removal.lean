import PhpCalls.Proofs.Files.Survival

set_option autoImplicit false

/-!
# Disks without some of their files

Taking files away leaves all directories of a disk and brings nothing to it. On such a disk whatever
could be written can still be written, with these or other bytes: directories are made along the
same parts, and paths lead through directories alone to where a new file comes.

## Main definitions

* `FileTree.bareAt?`: what stands at a position, without what is in it.
* `Disk.Thinned`: a disk from which files were taken.

## Main results

* `FileTree.bareAt?_put_of_not_prefix`, `FileTree.bareAt?_remove_of_not_prefix`: putting into a
  directory and taking out of it change nothing elsewhere.
* `Disk.Thinned.exists_makeDirs`, `Disk.Thinned.exists_write`: what can be written on the thinned
  disk.
* `Disk.exists_removeFile`: a file that is found can be removed.
-/

namespace PhpCalls

namespace FileTree

variable {t new : FileTree} {position q r : List String} {n : String}

/-! ## Trees by their positions -/

/-- A tree without what is in it. -/
def bare : FileTree → FileTree
  | file b => file b
  | dir _ => emptyDir

/-- What stands at a position, without what is in it. -/
def bareAt? (t : FileTree) (q : List String) : Option FileTree := (t.get? q).map bare

/-- There is a directory at a position exactly if an empty one is there when its entries are left
out. -/
lemma isDirAt_iff_bareAt? : t.IsDirAt q ↔ t.bareAt? q = some emptyDir := by
  rw [IsDirAt, bareAt?]
  cases h : t.get? q with
  | none => simp
  | some u => cases u <;> simp [bare, emptyDir]

/-- A file has nothing in it that could be left out. -/
lemma get?_eq_file_iff_bareAt? {b : ByteArray} :
    t.get? q = some (file b) ↔ t.bareAt? q = some (file b) := by
  rw [bareAt?]
  cases h : t.get? q with
  | none => simp
  | some u => cases u <;> simp [bare, emptyDir]

/-- Something stands at a position, whether or not one looks at what is in it. -/
lemma isSome_bareAt? : (t.bareAt? q).isSome = (t.get? q).isSome := Option.isSome_map

/-- At the top of a tree there is a directory exactly if the tree is one. -/
lemma isDirAt_nil_iff : t.IsDirAt [] ↔ ∃ es, t = dir es := by
  simp [IsDirAt]

/-- A directory below the first name of a position. -/
lemma exists_of_isDirAt_cons {m : String} (h : t.IsDirAt (m :: position)) :
    ∃ es c, t = dir es ∧ es.lookup m = some c ∧ c.IsDirAt position := by
  obtain ⟨es', h⟩ := h
  cases t with
  | file b => cases h
  | dir es =>
    obtain ⟨c, hc, h⟩ := Option.bind_eq_some_iff.1 h
    exact ⟨es, c, rfl, hc, es', h⟩

/-- What is put into a directory stands there. -/
lemma get?_put_of_isDirAt (h : t.IsDirAt position) :
    (put new t (position ++ [n])).get? (position ++ n :: r) = new.get? r := by
  induction position generalizing t with
  | nil =>
    obtain ⟨es, rfl⟩ := isDirAt_nil_iff.1 h
    simp [put, lookup_putEntry]
  | cons m position ih =>
    obtain ⟨es, c, rfl, hc, hbelow⟩ := exists_of_isDirAt_cons h
    simpa [put, lookup_putEntry, hc] using ih hbelow

/-- Putting something into a directory changes nothing elsewhere. -/
lemma bareAt?_put_of_not_prefix (h : t.IsDirAt position) (hq : ¬ position ++ [n] <+: q) :
    (put new t (position ++ [n])).bareAt? q = t.bareAt? q := by
  induction position generalizing t q with
  | nil =>
    obtain ⟨es, rfl⟩ := isDirAt_nil_iff.1 h
    cases q with
    | nil => rfl
    | cons m q =>
      have hm : m ≠ n := fun heq => hq (List.cons_prefix_cons.2 ⟨heq.symm, List.nil_prefix⟩)
      simp [bareAt?, put, lookup_putEntry, hm]
  | cons m position ih =>
    obtain ⟨es, c, rfl, hc, hbelow⟩ := exists_of_isDirAt_cons h
    cases q with
    | nil => rfl
    | cons k q =>
      by_cases hk : k = m
      · subst hk
        have hq : ¬ position ++ [n] <+: q := fun hpq => hq (List.cons_prefix_cons.2 ⟨rfl, hpq⟩)
        simpa [bareAt?, put, lookup_putEntry, hc] using ih hbelow hq
      · simp [bareAt?, put, lookup_putEntry, hk]

/-- A removal below an entry of a directory changes that entry alone. -/
lemma remove_cons_append {es : List (String × FileTree)} {m : String} {c : FileTree}
    (hc : es.lookup m = some c) :
    (dir es).remove (m :: (position ++ [n])) =
      dir (putEntry m (c.remove (position ++ [n])) es) := by
  cases position with
  | nil => simp [remove, hc]
  | cons k position => simp [remove, hc]

/-- What is taken out of a directory is gone, with all that is below it. -/
lemma get?_remove_of_isDirAt (h : t.IsDirAt position) :
    (t.remove (position ++ [n])).get? (position ++ n :: r) = none := by
  induction position generalizing t with
  | nil =>
    obtain ⟨es, rfl⟩ := isDirAt_nil_iff.1 h
    rw [List.nil_append, List.nil_append, remove, get?_dir_cons, lookup_filter_ne, if_pos rfl,
      Option.bind_none]
  | cons m position ih =>
    obtain ⟨es, c, rfl, hc, hbelow⟩ := exists_of_isDirAt_cons h
    rw [List.cons_append, remove_cons_append hc]
    simpa [lookup_putEntry] using ih hbelow

/-- Taking something out of a directory changes nothing elsewhere. -/
lemma bareAt?_remove_of_not_prefix (h : t.IsDirAt position) (hq : ¬ position ++ [n] <+: q) :
    (t.remove (position ++ [n])).bareAt? q = t.bareAt? q := by
  induction position generalizing t q with
  | nil =>
    obtain ⟨es, rfl⟩ := isDirAt_nil_iff.1 h
    cases q with
    | nil => rfl
    | cons m q =>
      have hm : m ≠ n := fun heq => hq (List.cons_prefix_cons.2 ⟨heq.symm, List.nil_prefix⟩)
      rw [bareAt?, List.nil_append, remove, get?_dir_cons, lookup_filter_ne, if_neg hm]
      rfl
  | cons m position ih =>
    obtain ⟨es, c, rfl, hc, hbelow⟩ := exists_of_isDirAt_cons h
    rw [List.cons_append, remove_cons_append hc]
    cases q with
    | nil => rfl
    | cons k q =>
      by_cases hk : k = m
      · subst hk
        have hq : ¬ position ++ [n] <+: q := fun hpq => hq (List.cons_prefix_cons.2 ⟨rfl, hpq⟩)
        simpa [bareAt?, lookup_putEntry, hc] using ih hbelow hq
      · simp [bareAt?, lookup_putEntry, hk]

/-! ## Trees without some of their files -/

/-- The new tree has the directories of the old one, and something only where something was. -/
structure Thinned (old new : FileTree) : Prop where
  dirs : ∀ q, new.IsDirAt q ↔ old.IsDirAt q
  within : ∀ q, (new.get? q).isSome → (old.get? q).isSome

variable {old : FileTree}

/-- A tree is itself without any file taken. -/
lemma Thinned.refl (t : FileTree) : t.Thinned t := ⟨fun _ => .rfl, fun _ h => h⟩

/-- Files may be taken from a tree in two turns. -/
lemma Thinned.trans {t₁ t₂ t₃ : FileTree} (h₁ : t₁.Thinned t₂) (h₂ : t₂.Thinned t₃) :
    t₁.Thinned t₃ :=
  ⟨fun q => (h₂.dirs q).trans (h₁.dirs q), fun q h => h₁.within q (h₂.within q h)⟩

/-- Two files are alike but for their bytes. -/
lemma thinned_file (b c : ByteArray) : (file b).Thinned (file c) := by
  constructor
  · rintro (_ | ⟨m, q⟩)
    · simp [isDirAt_nil_iff]
    · exact .rfl
  · rintro (_ | ⟨m, q⟩)
    · exact fun _ => rfl
    · exact id

/-- Trees that are alike but for files stay so when the same is put into a directory of both. -/
lemma Thinned.put (h : old.Thinned new) (hdir : old.IsDirAt position) {u v : FileTree}
    (huv : u.Thinned v) : (put u old (position ++ [n])).Thinned (put v new (position ++ [n])) := by
  have hdir' := (h.dirs position).2 hdir
  constructor
  · intro q
    by_cases hq : position ++ [n] <+: q
    · obtain ⟨r, rfl⟩ := hq
      rw [List.append_assoc, List.singleton_append]
      simpa only [IsDirAt, get?_put_of_isDirAt hdir, get?_put_of_isDirAt hdir'] using huv.dirs r
    · rw [isDirAt_iff_bareAt?, isDirAt_iff_bareAt?, bareAt?_put_of_not_prefix hdir hq,
        bareAt?_put_of_not_prefix hdir' hq, ← isDirAt_iff_bareAt?, ← isDirAt_iff_bareAt?]
      exact h.dirs q
  · intro q
    by_cases hq : position ++ [n] <+: q
    · obtain ⟨r, rfl⟩ := hq
      rw [List.append_assoc, List.singleton_append, get?_put_of_isDirAt hdir,
        get?_put_of_isDirAt hdir']
      exact huv.within r
    · rw [← isSome_bareAt?, ← isSome_bareAt?, bareAt?_put_of_not_prefix hdir hq,
        bareAt?_put_of_not_prefix hdir' hq, isSome_bareAt?, isSome_bareAt?]
      exact h.within q

/-- Below a file nothing stands. -/
lemma get?_append_of_file {b : ByteArray} (h : t.get? q = some (file b)) (hr : r ≠ []) :
    t.get? (q ++ r) = none := by
  obtain ⟨m, r, rfl⟩ := List.exists_cons_of_ne_nil hr
  rw [get?_append, h]
  rfl

/-- Taking a file out of a directory thins a tree. -/
lemma thinned_remove (hdir : t.IsDirAt position) {b : ByteArray}
    (hfile : t.get? (position ++ [n]) = some (file b)) :
    t.Thinned (t.remove (position ++ [n])) := by
  constructor
  · intro q
    by_cases hq : position ++ [n] <+: q
    · obtain ⟨r, rfl⟩ := hq
      have hgone : ¬ (t.remove (position ++ [n])).IsDirAt (position ++ [n] ++ r) := by
        rintro ⟨es, hes⟩
        rw [List.append_assoc, List.singleton_append, get?_remove_of_isDirAt hdir] at hes
        cases hes
      refine iff_of_false hgone fun hdir' => ?_
      obtain ⟨es, hes⟩ := hdir'.of_prefix (List.prefix_append _ r)
      rw [hfile] at hes
      cases hes
    · rw [isDirAt_iff_bareAt?, bareAt?_remove_of_not_prefix hdir hq, ← isDirAt_iff_bareAt?]
  · intro q hq
    by_cases hpq : position ++ [n] <+: q
    · obtain ⟨r, rfl⟩ := hpq
      rw [List.append_assoc, List.singleton_append, get?_remove_of_isDirAt hdir] at hq
      cases hq
    · rwa [← isSome_bareAt?, bareAt?_remove_of_not_prefix hdir hpq, isSome_bareAt?] at hq

end FileTree

namespace Disk

variable {d d' : Disk}

/-! ## Disks without some of their files -/

/-- Files were taken from a disk. -/
structure Thinned (old new : Disk) : Prop where
  here : new.here = old.here
  tree : old.tree.Thinned new.tree

/-- A disk is itself without any file taken. -/
lemma Thinned.refl (d : Disk) : d.Thinned d := ⟨rfl, .refl _⟩

/-- Files may be taken from a disk in two turns. -/
lemma Thinned.trans {d₁ d₂ d₃ : Disk} (h₁ : d₁.Thinned d₂) (h₂ : d₂.Thinned d₃) : d₁.Thinned d₃ :=
  ⟨h₂.here.trans h₁.here, h₁.tree.trans h₂.tree⟩

/-- Directories that can be made in a tree can be made after files were taken from it. -/
lemma exists_makeAlong_of_thinned {t new t' : FileTree} {position parts : List String}
    (h : t.Thinned new) (hdir : t.IsDirAt position) (hmake : makeAlong t position parts = .ok t') :
    ∃ new', makeAlong new position parts = .ok new' ∧ t'.Thinned new' := by
  induction parts generalizing t new position with
  | nil =>
    cases hmake
    exact ⟨new, rfl, h⟩
  | cons p parts ih =>
    rw [makeAlong] at hmake ⊢
    split_ifs at hmake ⊢
    · exact ih h hdir hmake
    · exact ih h (hdir.of_prefix (List.dropLast_prefix position)) hmake
    · dsimp only at hmake ⊢
      split at hmake
      · next es hes =>
        obtain ⟨es', hes'⟩ := (h.dirs _).2 ⟨es, hes⟩
        rw [hes']
        exact ih h ⟨es, hes⟩ hmake
      · cases hmake
      · next hnone =>
        have hnone' : new.get? (position ++ [p]) = none := by
          have hwithin := h.within (position ++ [p])
          rw [hnone] at hwithin
          simpa using hwithin
        rw [hnone']
        refine ih (h.put hdir (.refl _)) ⟨[], ?_⟩ hmake
        exact FileTree.get?_put_of_isDirAt hdir

/-- Directories that could be made can be made. -/
theorem Thinned.exists_makeDirs (h : d.Thinned d') {path : String} {e : Disk}
    (hdir : d.tree.IsDirAt (d.start path).1) (hmake : d.makeDirs path = .ok e) :
    ∃ e', d'.makeDirs path = .ok e' ∧ e.Thinned e' := by
  obtain ⟨t, ht, hmade⟩ : ∃ t, makeAlong d.tree (d.start path).1 (d.start path).2 = .ok t ∧
      pure { d with tree := t } = Except.ok e := exists_of_bind_eq_ok hmake
  cases hmade
  obtain ⟨t', ht', hthin⟩ := exists_makeAlong_of_thinned h.tree hdir ht
  refine ⟨{ d' with tree := t' }, ?_, h.here, hthin⟩
  simp only [makeDirs, start_of_here h.here, ht', bind, Except.bind, pure, Except.pure]

/-- Parts that lead to a directory start from one. -/
lemma isDirAt_of_follow {position parts r : List String} (h : d.follow position parts = .ok r)
    (hr : d.tree.IsDirAt r) : d.tree.IsDirAt position := by
  cases parts with
  | nil =>
    cases h
    exact hr
  | cons p parts => exact (follow_cons_eq_ok_iff.1 h).1

/-- Parts that led to a directory still lead to it: on the way there are directories alone. -/
lemma Thinned.follow (h : d.Thinned d') {position parts r : List String}
    (hfollow : d.follow position parts = .ok r) (hr : d.tree.IsDirAt r) :
    d'.follow position parts = .ok r := by
  induction parts generalizing position with
  | nil => exact hfollow
  | cons p parts ih =>
    obtain ⟨hdir, -, hrest⟩ := follow_cons_eq_ok_iff.1 hfollow
    refine follow_cons_eq_ok_iff.2 ⟨(h.tree.dirs _).2 hdir, fun hsilent hup => ?_, ih hrest⟩
    have hnext : d.tree.IsDirAt (position ++ [p]) := by
      simpa [advance, hsilent, hup] using isDirAt_of_follow hrest hr
    obtain ⟨es, hes⟩ := (h.tree.dirs _).2 hnext
    exact Option.isSome_of_eq_some hes

/-- Parts that can be followed after files were taken could be followed before. -/
lemma Thinned.follow_of_follow (h : d.Thinned d') {position parts r : List String}
    (hfollow : d'.follow position parts = .ok r) : d.follow position parts = .ok r := by
  induction parts generalizing position with
  | nil => exact hfollow
  | cons p parts ih =>
    obtain ⟨hdir, hname, hrest⟩ := follow_cons_eq_ok_iff.1 hfollow
    refine follow_cons_eq_ok_iff.2 ⟨(h.tree.dirs _).1 hdir, fun hsilent hup => ?_, ih hrest⟩
    exact h.tree.within _ (hname hsilent hup)

/-- What a path has can be found. -/
lemma exists_find_of_has {path : String} (h : d.has path = true) : ∃ t, d.find path = .ok t := by
  rw [has] at h
  cases hfind : d.find path with
  | error e =>
    rw [hfind] at h
    cases h
  | ok t => exact ⟨t, rfl⟩

/-- A path has nothing if nothing stands at the position it spells. -/
lemma has_eq_false_of_get? {path : String} (h : d.tree.get? (d.intended path) = none) :
    d.has path = false := by
  rw [Bool.eq_false_iff]
  intro hhas
  obtain ⟨t, hfind⟩ := exists_find_of_has hhas
  rw [find_eq_ok hfind] at h
  cases h

/-- A path that led nowhere leads nowhere after files were taken. -/
lemma Thinned.has_eq_false (h : d.Thinned d') {path : String} (hhas : d.has path = false) :
    d'.has path = false := by
  rw [Bool.eq_false_iff] at hhas ⊢
  intro hhas'
  obtain ⟨t', hfind'⟩ := exists_find_of_has hhas'
  obtain ⟨r, hlocate', -⟩ := exists_of_bind_eq_ok hfind'
  have hlocate : d.locate path = .ok r := by
    rw [locate] at hlocate' ⊢
    split_ifs at hlocate' ⊢
    rw [start_of_here h.here] at hlocate'
    exact h.follow_of_follow hlocate'
  have hget' := find_eq_ok hfind'
  rw [← locate_eq_ok hlocate'] at hget'
  obtain ⟨t, hget⟩ := Option.isSome_iff_exists.1 (h.tree.within r (Option.isSome_of_eq_some hget'))
  refine hhas ?_
  rw [has, find_of_locate hlocate hget]
  rfl

/-- A new file may come where the parts before its name lead to a directory without a directory of
the name. -/
lemma locateNew_of_follow {path : String} {parts above : List String} {name : String}
    (hparts : (d.start path).2 = parts ++ [name])
    (hfollow : d.follow (d.start path).1 parts = .ok above) (hdir : d.tree.IsDirAt above)
    (hsilent : Path.isSilent name = false) (hup : name ≠ "..")
    (hnew : ¬ d.tree.IsDirAt (above ++ [name])) : d.locateNew path = .ok (above ++ [name]) := by
  obtain ⟨es, hes, hat⟩ := exists_directoryAt hdir
  have hchild : ((FileTree.dir es).child? name).any FileTree.isDir = false := by
    cases hc : (FileTree.dir es).child? name with
    | none => rfl
    | some c =>
      cases c with
      | file b => rfl
      | dir es' =>
        refine absurd ⟨es', ?_⟩ hnew
        simp [FileTree.get?_append, hes, FileTree.get?, hc]
  rw [locateNew]
  simp only [hparts, List.getLast?_concat, List.dropLast_concat, hfollow, hat, bind, Except.bind,
    hsilent, hup, hchild, Bool.or_false, decide_false, Bool.false_eq_true, if_false]

/-- A file that could be written can be written, with any bytes. -/
theorem Thinned.exists_write (h : d.Thinned d') {path : String} {b : ByteArray} {e : Disk}
    (hwrite : d.write path b = .ok e) (c : ByteArray) :
    ∃ e', d'.write path c = .ok e' ∧ e.Thinned e' := by
  rw [write] at hwrite
  split_ifs at hwrite with hempty
  obtain ⟨r, hr, hmade⟩ := exists_of_bind_eq_ok hwrite
  cases hmade
  obtain ⟨parts, above, name, hparts, hfollow, hdir, hsilent, hup, rfl, hnew⟩ := locateNew_eq_ok hr
  have hstart := start_of_here h.here path
  have hr' : d'.locateNew path = .ok (above ++ [name]) := by
    refine locateNew_of_follow (by rw [hstart, hparts]) ?_ ((h.tree.dirs _).2 hdir) hsilent hup ?_
    · rw [hstart]
      exact h.follow hfollow hdir
    · exact fun hdir' => hnew ((h.tree.dirs _).1 hdir')
  refine ⟨{ d' with tree := FileTree.put (.file c) d'.tree (above ++ [name]) }, ?_, h.here, ?_⟩
  · rw [write, if_neg hempty, hr']
    rfl
  · exact h.tree.put hdir (FileTree.thinned_file b c)

/-! ## Removing files -/

/-- A file that is found in a directory can be removed. It is gone then, and no other file is. -/
theorem exists_removeFile {path : String} {base : List String} {name : String} {b : ByteArray}
    (hposition : d.intended path = base ++ [name]) (hfind : d.find path = .ok (.file b)) :
    ∃ d', d.removeFile path = .ok d' ∧ d.Thinned d' ∧ d'.tree.get? (d.intended path) = none ∧
      ∀ q c, q ≠ d.intended path → d.tree.get? q = some (.file c) →
        d'.tree.get? q = some (.file c) := by
  have hfile := find_eq_ok hfind
  obtain ⟨r, hlocate, -⟩ := exists_of_bind_eq_ok hfind
  obtain rfl := locate_eq_ok hlocate
  have hdir : d.tree.IsDirAt base :=
    FileTree.isDirAt_of_isSome_get? (Option.isSome_of_eq_some (hposition ▸ hfile))
  refine ⟨{ d with tree := d.tree.remove (d.intended path) }, ?_, ⟨rfl, ?_⟩, ?_,
    fun q c hq hc => ?_⟩
  · simp only [removeFile, hlocate, bind, Except.bind, hfile]
    rfl
  · rw [hposition] at hfile ⊢
    exact FileTree.thinned_remove hdir hfile
  · rw [hposition]
    exact FileTree.get?_remove_of_isDirAt hdir
  · rw [FileTree.get?_eq_file_iff_bareAt?] at hc ⊢
    rw [hposition] at hfile hq ⊢
    rw [FileTree.bareAt?_remove_of_not_prefix hdir, hc]
    rintro ⟨r, rfl⟩
    have hr : r ≠ [] := by
      rintro rfl
      exact hq (List.append_nil _)
    rw [FileTree.bareAt?, FileTree.get?_append_of_file hfile hr] at hc
    cases hc

end Disk

end PhpCalls
