import PhpCalls.Proofs.Cache.Places
import PhpCalls.Proofs.Job
import PhpCalls.Proofs.Record.RoundTrip

set_option autoImplicit false

/-!
# Loading, saving and clearing a cache

What the operations of a cache do to the files of a disk. Saving puts two files at their positions
and brings no other; clearing brings none; loading gives back what was saved.

## Main definitions

* `Cache.Stands`: a file of a cache stands in a tree.

## Main results

* `Cache.exists_yields_load`: loading succeeds where the two files, if they are there, are written
  records.
* `Cache.stands_of_yields_load`: what is loaded is what the two files say.
* `Cache.stands_of_yields_save`: what stands after saving.
* `Cache.filesWithin_of_yields_clear`: clearing brings no file.
-/

namespace PhpCalls.Cache

variable {c : Cache} {d d' : Disk}

/-- The file of the cache stands in the tree with the given bytes. -/
def Stands (c : Cache) (file : CacheFile) (t : FileTree) (b : ByteArray) : Prop :=
  t.get? (c.position file) = some (.file b)

/-! ## Loading -/

/-- The text of a file can be had where the file, if it is there, is a text. -/
lemma exists_yields_textOf {file : CacheFile} (hpath : Path.isAbsolute (c.path file))
    (hdir : ¬ d.tree.IsDirAt (c.position file))
    (htext : ∀ b, c.Stands file d.tree b → ∃ text, b = Text.toBytes text) :
    ∃ r, (c.textOf file).Yields d r d := by
  cases hfind : d.find (c.path file) with
  | error e =>
    refine ⟨none, Job.yields_bind_iff.2 ⟨d, d, Job.yields_get_iff.2 ⟨rfl, rfl⟩, ?_⟩⟩
    rw [if_neg (by simp [Disk.has, hfind, Except.toOption])]
    exact Job.yields_pure_iff.2 ⟨rfl, rfl⟩
  | ok t =>
    have hget := Disk.find_eq_ok hfind
    rw [Path.intended_eq_position hpath] at hget
    cases t with
    | dir es => exact absurd ⟨es, hget⟩ hdir
    | file b =>
      obtain ⟨text, rfl⟩ := htext b hget
      have hread : d.readText (c.path file) = .ok text := Disk.readText_of_find hfind
      refine ⟨if Text.trim text = "" then none else some text,
        Job.yields_bind_iff.2 ⟨d, d, Job.yields_get_iff.2 ⟨rfl, rfl⟩, ?_⟩⟩
      rw [if_pos (by simp [Disk.has, hfind, Except.toOption])]
      refine Job.yields_bind_iff.2 ⟨text, d, Job.yields_look_iff.2 ⟨hread, rfl⟩, ?_⟩
      exact Job.yields_pure_iff.2 ⟨rfl, rfl⟩

/-- The text of a file is that of the file that stands at its position. -/
lemma stands_of_yields_textOf {file : CacheFile} (hpath : Path.isAbsolute (c.path file))
    {r : Option String} (h : (c.textOf file).Yields d r d') :
    d' = d ∧ ∀ text ∈ r, c.Stands file d.tree (Text.toBytes text) := by
  obtain ⟨_, _, hget, h⟩ := Job.yields_bind_iff.1 h
  obtain ⟨rfl, rfl⟩ := Job.yields_get_iff.1 hget
  split_ifs at h
  · obtain ⟨text, _, hlook, hpure⟩ := Job.yields_bind_iff.1 h
    obtain ⟨hread, rfl⟩ := Job.yields_look_iff.1 hlook
    obtain ⟨rfl, rfl⟩ := Job.yields_pure_iff.1 hpure
    refine ⟨rfl, fun text' htext => ?_⟩
    have hstands := Disk.readText_eq_ok hread
    rw [Path.intended_eq_position hpath] at hstands
    split_ifs at htext
    · cases htext
    · cases htext
      exact hstands
  · obtain ⟨rfl, rfl⟩ := Job.yields_pure_iff.1 h
    exact ⟨rfl, fun text htext => by cases htext⟩

/-- Decoding gives what the reader makes of the document, and changes nothing. -/
lemma yields_decode_iff {α : Type} {file : CacheFile} {read : Decoder α} {text : String} {a : α} :
    (decode c file read text).Yields d a d' ↔ (Json.parse text).bind read = some a ∧ d = d' := by
  rw [decode]
  cases (Json.parse text).bind read with
  | none =>
    constructor
    · intro h
      cases h
    · rintro ⟨h, -⟩
      cases h
  | some b => simp

/-- Loading succeeds where the two files, if they are there, are written records. -/
theorem exists_yields_load (hpath : ∀ file, Path.isAbsolute (c.path file))
    (hdir : ∀ file, ¬ d.tree.IsDirAt (c.position file))
    (hdata : ∀ b, c.Stands .data d.tree b → ∃ files : ProjectFacts,
      (∀ e ∈ files.entries, e.2.InRange) ∧ b = Text.toBytes files.toJson.compact)
    (hstamp : ∀ b, c.Stands .stamp d.tree b → ∃ stamp : CacheStamp,
      b = Text.toBytes stamp.toJson.pretty) :
    ∃ kept, c.load.Yields d kept d := by
  have hdataText : ∀ b, c.Stands .data d.tree b → ∃ text, b = Text.toBytes text := by
    intro b hb
    obtain ⟨files, -, rfl⟩ := hdata b hb
    exact ⟨_, rfl⟩
  have hstampText : ∀ b, c.Stands .stamp d.tree b → ∃ text, b = Text.toBytes text := by
    intro b hb
    obtain ⟨stamp, rfl⟩ := hstamp b hb
    exact ⟨_, rfl⟩
  -- both files can be read as texts; only if both are there are they decoded
  obtain ⟨data, hdataYields⟩ := exists_yields_textOf (hpath .data) (hdir .data) hdataText
  obtain ⟨stamp, hstampYields⟩ := exists_yields_textOf (hpath .stamp) (hdir .stamp) hstampText
  cases data with
  | none =>
    exact ⟨none, Job.yields_bind_iff.2 ⟨none, d, hdataYields, Job.yields_pure_iff.2 ⟨rfl, rfl⟩⟩⟩
  | some data =>
    cases stamp with
    | none =>
      refine ⟨none, Job.yields_bind_iff.2 ⟨some data, d, hdataYields, ?_⟩⟩
      exact Job.yields_bind_iff.2 ⟨none, d, hstampYields, Job.yields_pure_iff.2 ⟨rfl, rfl⟩⟩
    | some stamp =>
      have hdataStands := (stands_of_yields_textOf (hpath .data) hdataYields).2 data rfl
      have hstampStands := (stands_of_yields_textOf (hpath .stamp) hstampYields).2 stamp rfl
      obtain ⟨files, hrange, hfiles⟩ := hdata _ hdataStands
      obtain ⟨mark, hmark⟩ := hstamp _ hstampStands
      obtain rfl := Text.toBytes_injective hfiles
      obtain rfl := Text.toBytes_injective hmark
      refine ⟨some (files, mark), Job.yields_bind_iff.2 ⟨_, d, hdataYields, ?_⟩⟩
      refine Job.yields_bind_iff.2 ⟨_, d, hstampYields, ?_⟩
      refine Job.yields_bind_iff.2
        ⟨files, d, yields_decode_iff.2 ⟨files.parse_compact hrange, rfl⟩, ?_⟩
      refine Job.yields_bind_iff.2 ⟨mark, d, yields_decode_iff.2 ⟨mark.parse_pretty, rfl⟩, ?_⟩
      exact Job.yields_pure_iff.2 ⟨rfl, rfl⟩

/-- What is loaded is what the texts of the two files say, and the disk stays as it is. -/
theorem stands_of_yields_load (hpath : ∀ file, Path.isAbsolute (c.path file))
    {kept : Option (ProjectFacts × CacheStamp)} (h : c.load.Yields d kept d') :
    d' = d ∧ ∀ k ∈ kept, ∃ data stamp,
      c.Stands .data d.tree (Text.toBytes data) ∧
      (Json.parse data).bind ProjectFacts.ofJson? = some k.1 ∧
      c.Stands .stamp d.tree (Text.toBytes stamp) ∧
      (Json.parse stamp).bind CacheStamp.ofJson? = some k.2 := by
  obtain ⟨data, _, hdata, hrest⟩ := Job.yields_bind_iff.1 h
  obtain ⟨rfl, hdataStands⟩ := stands_of_yields_textOf (hpath .data) hdata
  cases data with
  | none =>
    obtain ⟨rfl, rfl⟩ := Job.yields_pure_iff.1 hrest
    exact ⟨rfl, fun k hk => by cases hk⟩
  | some data =>
    obtain ⟨stamp, _, hstamp, hread⟩ := Job.yields_bind_iff.1 hrest
    obtain ⟨rfl, hstampStands⟩ := stands_of_yields_textOf (hpath .stamp) hstamp
    cases stamp with
    | none =>
      obtain ⟨rfl, rfl⟩ := Job.yields_pure_iff.1 hread
      exact ⟨rfl, fun k hk => by cases hk⟩
    | some stamp =>
      obtain ⟨files, _, hfiles, hdecode⟩ := Job.yields_bind_iff.1 hread
      obtain ⟨hparse, rfl⟩ := yields_decode_iff.1 hfiles
      obtain ⟨mark, _, hmark, hpure⟩ := Job.yields_bind_iff.1 hdecode
      obtain ⟨hparse', rfl⟩ := yields_decode_iff.1 hmark
      obtain ⟨rfl, rfl⟩ := Job.yields_pure_iff.1 hpure
      refine ⟨rfl, fun k hk => ?_⟩
      cases hk
      exact ⟨data, stamp, hdataStands data rfl, hparse, hstampStands stamp rfl, hparse'⟩

/-! ## Saving and clearing -/

/-- Writing a text succeeds where its bytes can be written. -/
lemma yields_writeText_iff {path text : String} :
    (Job.writeText path text).Yields d () d' ↔ d.write path (Text.toBytes text) = .ok d' :=
  Job.yields_change_iff

/-- Saving is possible only where no directory stands at the position of a file. Afterwards every
file of the disk is one of the two that were saved, or stood there before. -/
theorem stands_of_yields_save {files : ProjectFacts} {stamp : CacheStamp}
    (hpath : ∀ file, Path.isAbsolute (c.path file)) (h : (c.save files stamp).Yields d () d') :
    (∀ file, ¬ d.tree.IsDirAt (c.position file)) ∧
      ∀ q b, d'.tree.get? q = some (.file b) →
        q = c.position .data ∧ b = Text.toBytes files.toJson.compact ∨
        q ≠ c.position .data ∧ q = c.position .stamp ∧ b = Text.toBytes stamp.toJson.pretty ∨
        q ≠ c.position .data ∧ q ≠ c.position .stamp ∧ d.tree.get? q = some (.file b) := by
  obtain ⟨_, d₁, hmake, h⟩ := Job.yields_bind_iff.1 h
  obtain ⟨_, d₂, hstamp, hdata⟩ := Job.yields_bind_iff.1 h
  obtain ⟨hfiles, hdirs⟩ := Disk.makeDirs_eq_ok (Job.yields_change_iff.1 hmake)
  obtain ⟨hnostamp, rfl⟩ := Disk.write_eq_ok (yields_writeText_iff.1 hstamp)
  obtain ⟨hnodata, rfl⟩ := Disk.write_eq_ok (yields_writeText_iff.1 hdata)
  have hstampAt (d : Disk) : d.intended c.stampPath = c.position .stamp :=
    Path.intended_eq_position (hpath .stamp) d
  have hdataAt (d : Disk) : d.intended c.dataPath = c.position .data :=
    Path.intended_eq_position (hpath .data) d
  rw [hstampAt] at hnostamp
  rw [hdataAt, hstampAt] at hnodata
  constructor
  · intro file hdir
    have hdir₁ := hdirs _ hdir
    cases file with
    | stamp => exact hnostamp hdir₁
    | data =>
      -- the stamp was not written above the facts, or a directory would have been in its place
      exact hnodata (FileTree.isDirAt_put (fun hprefix => hnostamp (hdir₁.of_prefix hprefix)) hdir₁)
  · intro q b hq
    rw [hdataAt, hstampAt] at hq
    rcases FileTree.get?_put_file hq with hdata | ⟨hne, hq⟩
    · exact .inl hdata
    rcases FileTree.get?_put_file hq with hstamp | ⟨hne', hq⟩
    · exact .inr (.inl ⟨hne, hstamp⟩)
    · exact .inr (.inr ⟨hne, hne', hfiles q b hq⟩)

/-- Clearing a file makes no new one. -/
lemma filesWithin_of_yields_clearFile {path : String} (h : (clearFile path).Yields d () d') :
    d'.tree.FilesWithin d.tree := by
  obtain ⟨_, _, hget, h⟩ := Job.yields_bind_iff.1 h
  obtain ⟨rfl, rfl⟩ := Job.yields_get_iff.1 hget
  split_ifs at h
  · exact Disk.removeFile_eq_ok (Job.yields_change_iff.1 h)
  · obtain ⟨-, rfl⟩ := Job.yields_pure_iff.1 h
    exact .refl _

/-- Clearing brings no file. -/
theorem filesWithin_of_yields_clear (h : c.clear.Yields d () d') : d'.tree.FilesWithin d.tree := by
  obtain ⟨_, d₁, hdata, hstamp⟩ := Job.yields_bind_iff.1 h
  exact (filesWithin_of_yields_clearFile hstamp).trans (filesWithin_of_yields_clearFile hdata)

end PhpCalls.Cache
