import PhpCalls.Files.Disk
import PhpCalls.Proofs.Files.Tree

set_option autoImplicit false

/-!
# Where operations on a disk take place

A path that can be followed leads to the position that its parts spell, whatever else is on the
disk. So every operation reads or changes the tree at that position, and the lemmas on trees say
what becomes of the others.

## Main results

* `Disk.follow_cons_eq_ok_iff`: when a part of a path can be followed.
* `Disk.find_eq_ok`: what a path leads to stands at its position.
* `Disk.readText_eq_ok`: the text of a file is spelled by the bytes at the position of its path.
* `Disk.write_eq_ok`: writing puts the file at the position of its path, where no directory was.
* `Disk.makeDirs_eq_ok`: making directories brings no file and takes no directory away.
* `Disk.removeFile_eq_ok`: removing a file brings no file.
-/

namespace PhpCalls

/-- A text is read back from its bytes. -/
lemma Text.ofBytes?_toBytes (s : String) : ofBytes? (toBytes s) = some s :=
  dif_pos s.isValidUTF8

/-- Bytes that spell a text are the bytes of that text. -/
lemma Text.toBytes_of_ofBytes? {b : ByteArray} {s : String} (h : ofBytes? b = some s) :
    toBytes s = b := by
  rw [ofBytes?, String.fromUTF8?] at h
  split_ifs at h
  cases h
  rfl

/-- Different texts have different bytes. -/
lemma Text.toBytes_injective : Function.Injective toBytes := by
  intro s t h
  have hread := congrArg ofBytes? h
  rw [ofBytes?_toBytes, ofBytes?_toBytes] at hread
  exact Option.some.inj hread

/-- A step after another is reached only through a result of the first. -/
lemma exists_of_bind_eq_ok {ε α β : Type} {x : Except ε α} {f : α → Except ε β} {b : β}
    (h : x >>= f = .ok b) : ∃ a, x = .ok a ∧ f a = .ok b := by
  cases x with
  | error e => cases h
  | ok a => exact ⟨a, rfl, h⟩

namespace Disk

/-! ## Following paths -/

/-- The position after one more part of a path. -/
def advance (position : List String) (part : String) : List String :=
  if Path.isSilent part then position
  else if part = ".." then position.dropLast
  else position ++ [part]

/-- A path spells the position that its parts lead to, one after the other. -/
lemma intended_eq_foldl (d : Disk) (path : String) :
    d.intended path = (d.start path).2.foldl advance (d.start path).1 := rfl

/-- What is found as a directory at a position stands there. -/
lemma directoryAt_eq_ok {d : Disk} {position : List String} {t : FileTree}
    (h : d.directoryAt position = .ok t) : d.tree.get? position = some t := by
  rw [directoryAt] at h
  split at h
  · next es hes =>
    cases h
    exact hes
  all_goals cases h

/-- Where a directory is found, there is one. -/
lemma isDirAt_of_directoryAt {d : Disk} {position : List String} {t : FileTree}
    (h : d.directoryAt position = .ok t) : d.tree.IsDirAt position := by
  have hget := directoryAt_eq_ok h
  rw [directoryAt, hget] at h
  cases t with
  | dir es => exact ⟨es, hget⟩
  | file b => cases h

/-- Where there is a directory, it is found with its entries. -/
lemma exists_directoryAt {d : Disk} {position : List String} (h : d.tree.IsDirAt position) :
    ∃ es, d.tree.get? position = some (.dir es) ∧ d.directoryAt position = .ok (.dir es) := by
  obtain ⟨es, hes⟩ := h
  exact ⟨es, hes, by rw [directoryAt, hes]⟩

/-- A part can be followed from a directory, if it is a name only to something that is there. -/
lemma follow_cons_eq_ok_iff {d : Disk} {position parts r : List String} {p : String} :
    d.follow position (p :: parts) = .ok r ↔ d.tree.IsDirAt position ∧
      (Path.isSilent p = false → p ≠ ".." → (d.tree.get? (position ++ [p])).isSome) ∧
      d.follow (advance position p) parts = .ok r := by
  rw [follow, advance]
  cases hat : d.directoryAt position with
  | error e =>
    constructor
    · intro h
      cases h
    · rintro ⟨hdir, -⟩
      obtain ⟨es, -, hok⟩ := exists_directoryAt hdir
      rw [hat] at hok
      cases hok
  | ok t =>
    have hdir := isDirAt_of_directoryAt hat
    have hchild : (d.tree.get? (position ++ [p])).isSome = (t.child? p).isSome := by
      rw [FileTree.get?_append, directoryAt_eq_ok hat, Option.bind_some, FileTree.get?]
      cases t.child? p <;> simp
    change (if _ then _ else _) = _ ↔ _
    rw [hchild]
    split_ifs with hsilent hup hsome
    · simp [hdir, hsilent]
    · simp [hdir, hup]
    · simp [hdir, hsome]
    · simp [hup, hsilent, hsome]

/-- Parts that can be followed lead where they are meant to. -/
lemma follow_eq_ok {d : Disk} {position parts r : List String}
    (h : d.follow position parts = .ok r) : r = parts.foldl advance position := by
  induction parts generalizing position with
  | nil =>
    cases h
    rfl
  | cons p parts ih => exact ih (follow_cons_eq_ok_iff.1 h).2.2

/-- A path that can be followed leads to its position. -/
lemma locate_eq_ok {d : Disk} {path : String} {r : List String} (h : d.locate path = .ok r) :
    r = d.intended path := by
  rw [locate] at h
  split_ifs at h
  exact follow_eq_ok h

/-- What a path leads to stands at its position. -/
lemma find_eq_ok {d : Disk} {path : String} {t : FileTree} (h : d.find path = .ok t) :
    d.tree.get? (d.intended path) = some t := by
  obtain ⟨r, hlocate, h⟩ := exists_of_bind_eq_ok h
  obtain rfl := locate_eq_ok hlocate
  split at h
  · next t' ht =>
    cases h
    exact ht
  · cases h

/-- The bytes of a file are those at the position of its path. -/
lemma read_eq_ok {d : Disk} {path : String} {b : ByteArray} (h : d.read path = .ok b) :
    d.tree.get? (d.intended path) = some (.file b) := by
  obtain ⟨t, hfind, h⟩ := exists_of_bind_eq_ok h
  cases t with
  | dir es => cases h
  | file c =>
    cases h
    exact find_eq_ok hfind

/-- The text of a file is spelled by the bytes at the position of its path. -/
lemma readText_eq_ok {d : Disk} {path text : String} (h : d.readText path = .ok text) :
    d.tree.get? (d.intended path) = some (.file (Text.toBytes text)) := by
  obtain ⟨b, hread, h⟩ := exists_of_bind_eq_ok h
  split at h
  · next s hs =>
    cases h
    rw [read_eq_ok hread, Text.toBytes_of_ofBytes? hs]
  · cases h

/-- A file with the bytes of a text is read as that text. -/
lemma readText_of_find {d : Disk} {path text : String}
    (h : d.find path = .ok (.file (Text.toBytes text))) : d.readText path = .ok text := by
  simp [readText, read, h, Text.ofBytes?_toBytes, bind, Except.bind]

/-! ## Writing -/

/-- A file may be made at a path only if the path ends in a name, the parts before it lead to a
directory, and this one has no directory of that name. -/
lemma locateNew_eq_ok {d : Disk} {path : String} {r : List String} (h : d.locateNew path = .ok r) :
    ∃ parts above name, (d.start path).2 = parts ++ [name] ∧
      d.follow (d.start path).1 parts = .ok above ∧ d.tree.IsDirAt above ∧
      Path.isSilent name = false ∧ name ≠ ".." ∧ r = above ++ [name] ∧ ¬ d.tree.IsDirAt r := by
  rw [locateNew] at h
  cases hlast : (d.start path).2.getLast? with
  | none =>
    simp only [hlast] at h
    cases h
  | some name =>
    simp only [hlast] at h
    obtain ⟨above, hfollow, h⟩ := exists_of_bind_eq_ok h
    obtain ⟨t, hdir, h⟩ := exists_of_bind_eq_ok h
    split_ifs at h with hname hchild
    cases h
    obtain ⟨hsilent, hup⟩ : Path.isSilent name = false ∧ name ≠ ".." := by simpa using hname
    refine ⟨_, above, name, (List.dropLast_append_getLast? name hlast).symm, hfollow,
      isDirAt_of_directoryAt hdir, hsilent, hup, rfl, ?_⟩
    rintro ⟨es, hes⟩
    rw [FileTree.get?_append, directoryAt_eq_ok hdir, Option.bind_some, FileTree.get?] at hes
    obtain ⟨c, hc, hcd⟩ := Option.bind_eq_some_iff.1 hes
    obtain rfl : c = .dir es := by simpa using hcd
    simp [hc, FileTree.isDir] at hchild

/-- The position of a new file is that of its path. -/
lemma eq_intended_of_locateNew {d : Disk} {path : String} {r : List String}
    (h : d.locateNew path = .ok r) : r = d.intended path := by
  obtain ⟨parts, above, name, hparts, hfollow, -, hsilent, hup, rfl, -⟩ := locateNew_eq_ok h
  rw [intended_eq_foldl, hparts, List.foldl_append, ← follow_eq_ok hfollow]
  simp [advance, hsilent, hup]

/-- Writing puts the file at the position of its path, where no directory was. -/
lemma write_eq_ok {d d' : Disk} {path : String} {c : ByteArray} (h : d.write path c = .ok d') :
    ¬ d.tree.IsDirAt (d.intended path) ∧
      d' = { d with tree := FileTree.put (.file c) d.tree (d.intended path) } := by
  rw [write] at h
  split_ifs at h
  obtain ⟨r, hr, h⟩ := exists_of_bind_eq_ok h
  obtain ⟨-, -, -, -, -, -, -, -, -, hdir⟩ := locateNew_eq_ok hr
  obtain rfl := eq_intended_of_locateNew hr
  cases h
  exact ⟨hdir, rfl⟩

/-! ## Making directories and removing files -/

/-- Making directories adds no file and keeps every directory. -/
lemma makeAlong_eq_ok {t t' : FileTree} {position parts : List String}
    (h : makeAlong t position parts = .ok t') :
    t'.FilesWithin t ∧ ∀ q, t.IsDirAt q → t'.IsDirAt q := by
  induction parts generalizing t position with
  | nil =>
    cases h
    exact ⟨.refl _, fun _ hq => hq⟩
  | cons p parts ih =>
    rw [makeAlong] at h
    split_ifs at h
    · exact ih h
    · exact ih h
    · dsimp only at h
      split at h
      · exact ih h
      · cases h
      · next hnone =>
        obtain ⟨hfiles, hdirs⟩ := ih h
        refine ⟨hfiles.trans (FileTree.filesWithin_put_emptyDir t _), fun q hq => hdirs q ?_⟩
        -- what was missing cannot be above a directory
        refine FileTree.isDirAt_put (fun hprefix => ?_) hq
        obtain ⟨es, hes⟩ := hq.of_prefix hprefix
        rw [hnone] at hes
        cases hes

/-- Making directories brings no file and takes no directory away. -/
lemma makeDirs_eq_ok {d d' : Disk} {path : String} (h : d.makeDirs path = .ok d') :
    d'.tree.FilesWithin d.tree ∧ ∀ q, d.tree.IsDirAt q → d'.tree.IsDirAt q := by
  obtain ⟨t, ht, h⟩ := exists_of_bind_eq_ok h
  cases h
  exact makeAlong_eq_ok ht

/-- Removing a file brings no file. -/
lemma removeFile_eq_ok {d d' : Disk} {path : String} (h : d.removeFile path = .ok d') :
    d'.tree.FilesWithin d.tree := by
  obtain ⟨r, -, h⟩ := exists_of_bind_eq_ok h
  split at h
  · cases h
    exact FileTree.filesWithin_remove d.tree r
  all_goals cases h

end Disk

end PhpCalls
