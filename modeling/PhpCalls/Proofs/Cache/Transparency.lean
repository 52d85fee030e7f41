import PhpCalls.Proofs.Cache.Operations
import PhpCalls.Proofs.Facts.Range
import Mathlib.Data.Set.Function
import Mathlib.Data.Set.Insert

set_option autoImplicit false

/-!
# A cache that cannot be told from none

Projects are read again and again, while files come, change and go. Whatever their names, excluded
directories and lists of files are, and though they may share the files of one cache, each of them
is given the facts that are in its files now.

What is kept carries the argument: the facts that a cache holds are those of sources whose checksums
its stamp holds (`Cache.Keeps`). Saving keeps that for every cache at once, since caches share both
of their files or none; and no other work writes the files of a cache.

## Main definitions

* `Disk.sources`: the bytes of files by their paths below a root; facts and checksums are read off
  them.
* `Cache.Keeps`: the invariant.
* `History`: the disks that edits, readings and clearings lead to.

## Main results

* `History.keeps`: the invariant holds in every history.
* `read_files_eq_uncached`: reading with the cache gives the facts that reading without it gives,
  and an analysis the same records, tally and graph.
-/

namespace PhpCalls

/-! ## Sources -/

/-- The facts in the bytes of a file. -/
def FileFacts.ofBytes (b : ByteArray) : FileFacts := FileFacts.ofSource (Text.ofBytesLossy b)

/-- The bytes of files by their paths. -/
abbrev Sources := Dict ByteArray

namespace Sources

/-- The facts in the files. -/
def facts (s : Sources) : ProjectFacts := s.map fun _ => FileFacts.ofBytes

/-- The checksums of the files. -/
def checksums (s : Sources) : Dict String := s.map fun _ => checksum

/-- Every file is one of the given contents. -/
def Within (contents : Set ByteArray) (s : Sources) : Prop := ∀ e ∈ s.entries, e.2 ∈ contents

/-- The facts of files whose sizes are numbers in range can be written and read back. -/
lemma inRange_facts {contents : Set ByteArray} {s : Sources} (hs : s.Within contents)
    (hsize : ∀ b ∈ contents, b.size + 1 < Decoder.natBound) :
    ∀ e ∈ s.facts.entries, e.2.InRange := by
  intro e he
  obtain ⟨source, hsource, rfl⟩ := List.mem_map.1 he
  have hbytes := hsize source.2 (hs source hsource)
  have htext := Text.length_ofBytesLossy_le source.2
  exact FileFacts.inRange_ofSource (by omega)

/-- Files with equal checksums are equal where the checksums tell contents apart. -/
lemma eq_of_checksums_eq {contents : Set ByteArray} (hinj : Set.InjOn checksum contents)
    {s s' : Sources} (hs : s.Within contents) (hs' : s'.Within contents)
    (h : s.checksums = s'.checksums) : s = s' := by
  apply Dict.ext_get?
  intro k
  have hk : (s.get? k).map checksum = (s'.get? k).map checksum := by
    simpa [checksums] using congrArg (Dict.get? · k) h
  cases hb : s.get? k with
  | none =>
    rw [hb] at hk
    exact (Option.map_eq_none_iff.1 hk.symm).symm
  | some b =>
    rw [hb, Option.map_some] at hk
    obtain ⟨b', hb', hsum⟩ := Option.map_eq_some_iff.1 hk.symm
    have hmem : b ∈ contents := hs _ (Dict.get?_eq_some_iff.1 hb)
    have hmem' : b' ∈ contents := hs' _ (Dict.get?_eq_some_iff.1 hb')
    rw [hb', hinj hmem' hmem hsum]

end Sources

namespace Disk

/-- The bytes of the files that can be read, by their paths below a root. -/
def sources (d : Disk) (root : String) (paths : List String) : Sources :=
  .ofList (paths.filterMap fun p => (d.read p).toOption.map fun b => (Path.relative root p, b))

/-- What can be read at the paths is one of the given contents. -/
def ReadsWithin (d : Disk) (contents : Set ByteArray) (paths : List String) : Prop :=
  ∀ path ∈ paths, ∀ b, d.read path = .ok b → b ∈ contents

variable {d : Disk} {root : String} {paths : List String}

/-- If the files read as some contents, so do the sources that are kept of them. -/
lemma ReadsWithin.sources {contents : Set ByteArray} (h : d.ReadsWithin contents paths) :
    (d.sources root paths).Within contents := by
  rintro ⟨k, b⟩ he
  have hmem := Dict.mem_of_get?_ofList (Dict.get?_eq_some_iff.2 he)
  obtain ⟨path, hpath, hread⟩ := List.mem_filterMap.1 hmem
  obtain ⟨b', hb', heq⟩ := Option.map_eq_some_iff.1 hread
  cases hr : d.read path with
  | error e =>
    rw [hr] at hb'
    cases hb'
  | ok b'' =>
    rw [hr] at hb'
    obtain rfl := Option.some.inj hb'
    obtain ⟨-, rfl⟩ := Prod.mk.inj heq
    exact h path hpath _ hr

/-- The facts that are read are those of the sources. -/
lemma readAll_fst : (d.readAll root paths).1 = (d.sources root paths).facts := by
  rw [Sources.facts, sources, ← Dict.ofList_map]
  refine congrArg Dict.ofList ?_
  rw [List.filterMap_map, List.map_filterMap]
  refine List.filterMap_congr fun path _ => ?_
  cases h : d.read path with
  | error e => simp [readFacts, h, Except.map, Except.toOption]
  | ok b => simp [readFacts, h, Except.map, Except.toOption, FileFacts.ofBytes]

/-- The checksums that are compared are those of the sources. -/
lemma checksums_eq : d.checksums root paths = (d.sources root paths).checksums := by
  rw [Sources.checksums, sources, ← Dict.ofList_map, checksums]
  congr 1
  rw [List.map_filterMap]
  refine List.filterMap_congr fun path _ => ?_
  cases h : d.read path <;> simp [checksum?, h, Except.toOption]

end Disk

/-! ## What is kept -/

namespace Cache

/-- The facts in the cache are those of sources, and the stamp beside them holds the checksums of
these sources. A stamp may also stand alone. -/
structure Keeps (c : Cache) (contents : Set ByteArray) (t : FileTree) : Prop where
  data : ∀ b, c.Stands .data t b → ∃ s : Sources, s.Within contents ∧
    b = Text.toBytes s.facts.toJson.compact ∧
    ∀ b', c.Stands .stamp t b' →
      ∃ failures, b' = Text.toBytes (CacheStamp.now s.checksums failures).toJson.pretty
  stamp : ∀ b, c.Stands .stamp t b → ∃ stamp : CacheStamp, b = Text.toBytes stamp.toJson.pretty

variable {c : Cache} {contents : Set ByteArray}

/-- The invariant stays where no file is written. -/
lemma Keeps.mono {t t' : FileTree} (h : c.Keeps contents t)
    (hfiles : ∀ file b, c.Stands file t' b → c.Stands file t b) : c.Keeps contents t' where
  data b hb := by
    obtain ⟨s, hs, hdata, hstamp⟩ := h.data b (hfiles .data b hb)
    exact ⟨s, hs, hdata, fun b' hb' => hstamp b' (hfiles .stamp b' hb')⟩
  stamp b hb := h.stamp b (hfiles .stamp b hb)

/-- Loading from a cache that keeps the invariant succeeds. -/
lemma Keeps.exists_yields_load {d : Disk} (h : c.Keeps contents d.tree)
    (hsize : ∀ b ∈ contents, b.size + 1 < Decoder.natBound)
    (hpath : ∀ file, Path.isAbsolute (c.path file))
    (hdir : ∀ file, ¬ d.tree.IsDirAt (c.position file)) : ∃ kept, c.load.Yields d kept d := by
  refine Cache.exists_yields_load hpath hdir (fun b hb => ?_) h.stamp
  obtain ⟨s, hs, rfl, -⟩ := h.data b hb
  exact ⟨s.facts, s.inRange_facts hs hsize, rfl⟩

/-- What is loaded from a cache that keeps the invariant are facts of sources with their
checksums. -/
lemma Keeps.of_yields_load {d d' : Disk} (h : c.Keeps contents d.tree)
    (hsize : ∀ b ∈ contents, b.size + 1 < Decoder.natBound)
    (hpath : ∀ file, Path.isAbsolute (c.path file))
    {kept : Option (ProjectFacts × CacheStamp)} (hload : c.load.Yields d kept d')
    {k : ProjectFacts × CacheStamp} (hk : k ∈ kept) :
    ∃ s : Sources, s.Within contents ∧ k.1 = s.facts ∧ k.2.checksums = s.checksums := by
  obtain ⟨data, stamp, hdataStands, hdata, hstampStands, hstamp⟩ :=
    (stands_of_yields_load hpath hload).2 k hk
  obtain ⟨s, hs, hcompact, hpretty⟩ := h.data _ hdataStands
  obtain ⟨failures, hpretty⟩ := hpretty _ hstampStands
  rw [Text.toBytes_injective hcompact,
    ProjectFacts.parse_compact (s.inRange_facts hs hsize)] at hdata
  rw [Text.toBytes_injective hpretty, CacheStamp.parse_pretty] at hstamp
  refine ⟨s, hs, (Option.some.inj hdata).symm, ?_⟩
  rw [← Option.some.inj hstamp]
  rfl

end Cache

namespace Project

variable {p p' : Project} {contents : Set ByteArray} {d d' : Disk} {paths : List String}

/-- Saving the facts and checksums of sources keeps the invariant of every cache. **Proof sketch.**
If the other cache lies at other positions, its files are what they were. Otherwise both of its
files are those that were just saved, and they belong together. -/
lemma keeps_of_yields_save (hp : Path.isAbsolute p.root) (hp' : Path.isAbsolute p'.root)
    {s : Sources} (hs : s.Within contents) {failures : List ReadFailure}
    (hsave : (p.cache.save s.facts (.now s.checksums failures)).Yields d () d')
    (h : p'.cache.Keeps contents d.tree) : p'.cache.Keeps contents d'.tree := by
  obtain ⟨-, hstands⟩ := Cache.stands_of_yields_save (isAbsolute_cache_path hp) hsave
  by_cases hshared : p'.cache.position .data = p.cache.position .data
  · have hsharedStamp := (eq_of_position_eq hp' hp hshared).2 .stamp
    have hne : p'.cache.position .stamp ≠ p.cache.position .data := fun heq =>
      absurd (eq_of_position_eq hp' hp heq).1 (by decide)
    have hdata : ∀ b, p'.cache.Stands .data d'.tree b →
        b = Text.toBytes s.facts.toJson.compact := by
      intro b hb
      rcases hstands _ _ hb with ⟨-, hb⟩ | ⟨hne, -⟩ | ⟨hne, -⟩
      · exact hb
      · exact absurd hshared hne
      · exact absurd hshared hne
    have hstamp : ∀ b, p'.cache.Stands .stamp d'.tree b →
        b = Text.toBytes (CacheStamp.now s.checksums failures).toJson.pretty := by
      intro b hb
      rcases hstands _ _ hb with ⟨heq, -⟩ | ⟨-, -, hb⟩ | ⟨-, hne, -⟩
      · exact absurd heq hne
      · exact hb
      · exact absurd hsharedStamp hne
    exact ⟨fun b hb => ⟨s, hs, hdata b hb, fun b' hb' => ⟨failures, hstamp b' hb'⟩⟩,
      fun b hb => ⟨_, hstamp b hb⟩⟩
  · refine h.mono fun file b hb => ?_
    rcases hstands _ _ hb with ⟨heq, -⟩ | ⟨-, heq, -⟩ | ⟨-, -, hb⟩
    · exact absurd ((eq_of_position_eq hp' hp heq).2 .data) hshared
    · exact absurd ((eq_of_position_eq hp' hp heq).2 .data) hshared
    · exact hb

/-! ## Reading -/

/-- The project without its cache. -/
def uncached (p : Project) : Project := { p with settings := { p.settings with useCache := false } }

/-- The facts that are read now can be kept. -/
def CanKeep (p : Project) (d : Disk) (paths : List String) : Prop :=
  ∃ d', (p.cache.save (d.readAll p.root paths).1
    (.now (d.checksums p.root paths) (d.readAll p.root paths).2)).Yields d () d'

/-- Reading anew gives the facts and failures of the files on the disk, and changes nothing. -/
lemma yields_readAnew_iff {out : ReadOutcome} :
    (p.readAnew paths).Yields d out d' ↔
      out = ⟨(d.readAll p.root paths).1, (d.readAll p.root paths).2, false⟩ ∧ d' = d := by
  rw [readAnew, Job.yields_bind_iff]
  constructor
  · rintro ⟨_, _, hget, h⟩
    obtain ⟨rfl, rfl⟩ := Job.yields_get_iff.1 hget
    obtain ⟨rfl, rfl⟩ := Job.yields_pure_iff.1 h
    exact ⟨rfl, rfl⟩
  · rintro ⟨rfl, rfl⟩
    exact ⟨d', d', Job.yields_get_iff.2 ⟨rfl, rfl⟩, Job.yields_pure_iff.2 ⟨rfl, rfl⟩⟩

/-- Without the cache, reading gives what the files hold and leaves the disk as it is. -/
lemma yields_read_uncached (p : Project) (d : Disk) (paths : List String) :
    (p.uncached.read paths).Yields d
      ⟨(d.sources p.root paths).facts, (d.readAll p.root paths).2, false⟩ d := by
  rw [← Disk.readAll_fst]
  exact yields_readAnew_iff.2 ⟨rfl, rfl⟩

/-- What a reading with the cache does. What is loaded and agrees with the files is the result;
otherwise the files are read and their facts saved. -/
lemma yields_read_iff (hp : Path.isAbsolute p.root) (huse : p.settings.useCache)
    {out : ReadOutcome} :
    (p.read paths).Yields d out d' ↔ ∃ kept, p.cache.load.Yields d kept d ∧
      ((∃ k, kept.filter (fun k => k.2.agrees (d.checksums p.root paths)) = some k ∧
        out = ⟨k.1, k.2.failures, true⟩ ∧ d' = d) ∨
      (kept.filter (fun k => k.2.agrees (d.checksums p.root paths)) = none ∧
        out = ⟨(d.readAll p.root paths).1, (d.readAll p.root paths).2, false⟩ ∧
        (p.cache.save (d.readAll p.root paths).1
          (.now (d.checksums p.root paths) (d.readAll p.root paths).2)).Yields d () d')) := by
  rw [read, if_pos huse]
  constructor
  · intro h
    obtain ⟨_, _, hget, hrest⟩ := Job.yields_bind_iff.1 h
    obtain ⟨rfl, rfl⟩ := Job.yields_get_iff.1 hget
    obtain ⟨kept, _, hload, hrest⟩ := Job.yields_bind_iff.1 hrest
    obtain ⟨rfl, -⟩ := Cache.stands_of_yields_load (isAbsolute_cache_path hp) hload
    refine ⟨kept, hload, ?_⟩
    split at hrest
    · next files stamp hk =>
      obtain ⟨rfl, rfl⟩ := Job.yields_pure_iff.1 hrest
      exact .inl ⟨_, hk, rfl, rfl⟩
    · next hk =>
      obtain ⟨fresh, _, hfresh, hkeep⟩ := Job.yields_bind_iff.1 hrest
      obtain ⟨rfl, rfl⟩ := yields_readAnew_iff.1 hfresh
      obtain ⟨_, _, hsave, hpure⟩ := Job.yields_bind_iff.1 hkeep
      obtain ⟨rfl, rfl⟩ := Job.yields_pure_iff.1 hpure
      exact .inr ⟨hk, rfl, hsave⟩
  · rintro ⟨kept, hload, hcases⟩
    refine Job.yields_bind_iff.2 ⟨d, d, Job.yields_get_iff.2 ⟨rfl, rfl⟩, ?_⟩
    refine Job.yields_bind_iff.2 ⟨kept, d, hload, ?_⟩
    rcases hcases with ⟨k, hk, rfl, rfl⟩ | ⟨hk, rfl, hsave⟩
    · rw [hk]
      exact Job.yields_pure_iff.2 ⟨rfl, rfl⟩
    · rw [hk]
      refine Job.yields_bind_iff.2 ⟨_, d, yields_readAnew_iff.2 ⟨rfl, rfl⟩, ?_⟩
      exact Job.yields_bind_iff.2 ⟨(), d', hsave, Job.yields_pure_iff.2 ⟨rfl, rfl⟩⟩

/-- Where the cache is not used, reading is reading anew. -/
lemma yields_read_iff_of_not_useCache (huse : ¬ p.settings.useCache) {out : ReadOutcome} :
    (p.read paths).Yields d out d' ↔
      out = ⟨(d.readAll p.root paths).1, (d.readAll p.root paths).2, false⟩ ∧ d' = d := by
  rw [read, if_neg huse, yields_readAnew_iff]

/-- Reading leaves the disk as it is, or saves what it read. -/
lemma disk_of_yields_read (hp : Path.isAbsolute p.root) {out : ReadOutcome}
    (h : (p.read paths).Yields d out d') :
    d' = d ∨ out.fromCache = false ∧ (p.cache.save (d.sources p.root paths).facts
      (.now (d.sources p.root paths).checksums (d.readAll p.root paths).2)).Yields d () d' := by
  by_cases huse : p.settings.useCache
  · obtain ⟨kept, -, ⟨-, -, -, rfl⟩ | ⟨-, rfl, hsave⟩⟩ := (yields_read_iff hp huse).1 h
    · exact .inl rfl
    · rw [Disk.readAll_fst, Disk.checksums_eq] at hsave
      exact .inr ⟨rfl, hsave⟩
  · exact .inl ((yields_read_iff_of_not_useCache huse).1 h).2

section Kept

variable (hp : Path.isAbsolute p.root) (h : p.cache.Keeps contents d.tree)
  (hsize : ∀ b ∈ contents, b.size + 1 < Decoder.natBound)

include hp h hsize

/-- Where the invariant holds, a reading gives what the files hold.
**Proof sketch.** What is loaded are facts of sources with their checksums. If these agree with the
checksums of the files, the sources are the files. Otherwise the files are read. -/
theorem files_of_yields_read (hinj : Set.InjOn checksum contents)
    (hpaths : d.ReadsWithin contents paths) {out : ReadOutcome}
    (hread : (p.read paths).Yields d out d') : out.files = (d.sources p.root paths).facts := by
  by_cases huse : p.settings.useCache
  · obtain ⟨kept, hload, ⟨k, hk, rfl, -⟩ | ⟨-, rfl, -⟩⟩ := (yields_read_iff hp huse).1 hread
    · obtain ⟨hmem, hagrees⟩ := Option.filter_eq_some_iff.1 hk
      obtain ⟨s, hs, hfacts, hsums⟩ :=
        h.of_yields_load hsize (isAbsolute_cache_path hp) hload hmem
      have hsame : k.2.checksums = d.checksums p.root paths := by
        rw [CacheStamp.agrees, Bool.and_eq_true] at hagrees
        exact of_decide_eq_true hagrees.2
      have heq : s = d.sources p.root paths :=
        Sources.eq_of_checksums_eq hinj hs hpaths.sources
          (by rw [← hsums, hsame, Disk.checksums_eq])
      rw [hfacts, heq]
    · exact Disk.readAll_fst
  · obtain ⟨rfl, -⟩ := (yields_read_iff_of_not_useCache huse).1 hread
    exact Disk.readAll_fst

/-- Where the invariant holds and the facts can be kept, a reading succeeds. -/
theorem exists_yields_read (hkeep : p.CanKeep d paths) :
    ∃ out d', (p.read paths).Yields d out d' := by
  by_cases huse : p.settings.useCache
  · obtain ⟨d', hsave⟩ := hkeep
    have hdir := (Cache.stands_of_yields_save (isAbsolute_cache_path hp) hsave).1
    obtain ⟨kept, hload⟩ := h.exists_yields_load hsize (isAbsolute_cache_path hp) hdir
    cases hk : kept.filter (fun k => k.2.agrees (d.checksums p.root paths)) with
    | none => exact ⟨_, d', (yields_read_iff hp huse).2 ⟨kept, hload, .inr ⟨hk, rfl, hsave⟩⟩⟩
    | some k => exact ⟨_, d, (yields_read_iff hp huse).2 ⟨kept, hload, .inl ⟨k, hk, rfl, rfl⟩⟩⟩
  · exact ⟨_, d, (yields_read_iff_of_not_useCache huse).2 ⟨rfl, rfl⟩⟩

end Kept

/-- A project is made for a path that leads to a directory. -/
lemma yields_ofPath_iff {path : String} {settings : Settings} :
    (ofPath path settings).Yields d p d' ↔
      d.canonical? path = some p.root ∧ d.isDir p.root = true ∧ p.settings = settings ∧ d' = d := by
  rw [ofPath, Job.yields_bind_iff]
  constructor
  · rintro ⟨_, _, hget, h⟩
    obtain ⟨rfl, rfl⟩ := Job.yields_get_iff.1 hget
    cases hroot : d.canonical? path with
    | none =>
      rw [hroot] at h
      cases h
    | some root =>
      simp only [hroot] at h
      split_ifs at h with hdir
      · obtain ⟨rfl, rfl⟩ := Job.yields_pure_iff.1 h
        exact ⟨rfl, hdir, rfl, rfl⟩
      · cases h
  · rintro ⟨hroot, hdir, rfl, rfl⟩
    refine ⟨d', d', Job.yields_get_iff.2 ⟨rfl, rfl⟩, ?_⟩
    simp only [hroot, hdir, if_true]
    exact Job.yields_pure_iff.2 ⟨rfl, rfl⟩

/-- The project that is made for a path lies at an absolute path. -/
theorem isAbsolute_root_of_yields_ofPath {path : String} {settings : Settings}
    (h : (ofPath path settings).Yields d p d') : Path.isAbsolute p.root := by
  obtain ⟨position, -, hposition⟩ := Option.map_eq_some_iff.1 (yields_ofPath_iff.1 h).1
  rw [← hposition]
  exact Path.isAbsolute_append (by decide) _

/-- An analysis follows from the files that were found and the facts that were read. -/
lemma yields_analyse_iff (hfound : p.discover.Yields d paths d) {found : Analysis} :
    p.analyse.Yields d found d' ↔
      ∃ out, (p.read paths).Yields d out d' ∧ found = p.conclude paths.length out := by
  constructor
  · intro h
    obtain ⟨paths', d₁, hfound', hrest⟩ := Job.yields_bind_iff.1 h
    obtain ⟨rfl, rfl⟩ := hfound.unique hfound'
    obtain ⟨out, _, hread, hpure⟩ := Job.yields_bind_iff.1 hrest
    obtain ⟨rfl, rfl⟩ := Job.yields_pure_iff.1 hpure
    exact ⟨out, hread, rfl⟩
  · rintro ⟨out, hread, rfl⟩
    refine Job.yields_bind_iff.2 ⟨paths, d, hfound, ?_⟩
    exact Job.yields_bind_iff.2 ⟨out, d', hread, Job.yields_pure_iff.2 ⟨rfl, rfl⟩⟩

end Project

/-! ## Histories -/

/-- The disks that edits, readings of projects of a family, and clearings of their caches lead to.
At the beginning no file of a cache of the family is there, and edits write none. What the readings
find in the files that they are given is one of the given contents. -/
inductive History (family : Project → Prop) (contents : Set ByteArray) : Disk → Prop
  | start {d : Disk} (hnone : ∀ p, family p → ∀ file b, ¬ p.cache.Stands file d.tree b) :
      History family contents d
  | edit {d d' : Disk} (h : History family contents d)
      (hsame : ∀ p, family p → ∀ file b, p.cache.Stands file d'.tree b →
        p.cache.Stands file d.tree b) :
      History family contents d'
  | read {d d' : Disk} (h : History family contents d) {p : Project} (hp : family p)
      {paths : List String} (hpaths : d.ReadsWithin contents paths) {out : ReadOutcome}
      (hread : (p.read paths).Yields d out d') : History family contents d'
  | clear {d d' : Disk} (h : History family contents d) {p : Project} (hp : family p)
      (hclear : p.cache.clear.Yields d () d') : History family contents d'

variable {family : Project → Prop} {contents : Set ByteArray} {d : Disk}

/-- In every history every cache keeps the invariant. -/
theorem History.keeps (hroot : ∀ p, family p → Path.isAbsolute p.root)
    (h : History family contents d) {p : Project} (hp : family p) :
    p.cache.Keeps contents d.tree := by
  induction h with
  | start hnone =>
    exact ⟨fun b hb => absurd hb (hnone p hp _ b), fun b hb => absurd hb (hnone p hp _ b)⟩
  | edit _ hsame ih => exact ih.mono (hsame p hp)
  | read _ hreader hpaths hread ih =>
    rcases Project.disk_of_yields_read (hroot _ hreader) hread with rfl | ⟨-, hsave⟩
    · exact ih
    · exact Project.keeps_of_yields_save (hroot _ hreader) (hroot p hp) hpaths.sources hsave ih
  | clear _ _ hclear ih =>
    exact ih.mono fun file b => Cache.filesWithin_of_yields_clear hclear _ b

/-- In every history, a reading of a project of the family gives the facts that it gives without the
cache, and it succeeds where the facts can be kept. So an analysis finds the same records, tally and
graph.

Checksums tell the contents that occur apart, and the sizes of files are numbers in range. Projects
lie at absolute paths, as all that are made for a path do
(`Project.isAbsolute_root_of_yields_ofPath`). -/
theorem read_files_eq_uncached (hroot : ∀ p, family p → Path.isAbsolute p.root)
    (hinj : Set.InjOn checksum contents) (hsize : ∀ b ∈ contents, b.size + 1 < Decoder.natBound)
    (h : History family contents d) {p : Project} (hp : family p) {paths : List String}
    (hpaths : d.ReadsWithin contents paths) :
    ∃ fresh, (p.uncached.read paths).Yields d fresh d ∧
      (∀ out d', (p.read paths).Yields d out d' → out.files = fresh.files) ∧
      (p.CanKeep d paths → ∃ out d', (p.read paths).Yields d out d') ∧
      (p.discover.Yields d paths d → ∃ plain, p.uncached.analyse.Yields d plain d ∧
        (∀ found d', p.analyse.Yields d found d' → found.files = plain.files ∧
          found.tally = plain.tally ∧ found.graph = plain.graph) ∧
        (p.CanKeep d paths → ∃ found d', p.analyse.Yields d found d')) := by
  have hkeeps := h.keeps hroot hp
  have hfiles {out : ReadOutcome} {d' : Disk} (hread : (p.read paths).Yields d out d') :=
    Project.files_of_yields_read (hroot p hp) hkeeps hsize hinj hpaths hread
  have hreads : p.CanKeep d paths → ∃ out d', (p.read paths).Yields d out d' :=
    Project.exists_yields_read (hroot p hp) hkeeps hsize
  have hfresh := p.yields_read_uncached d paths
  refine ⟨_, hfresh, fun out d' => hfiles, hreads, fun hfound => ?_⟩
  have hfound' : p.uncached.discover.Yields d paths d := hfound
  refine ⟨_, (Project.yields_analyse_iff hfound').2 ⟨_, hfresh, rfl⟩, fun found d' h => ?_, ?_⟩
  · obtain ⟨out, hread, rfl⟩ := (Project.yields_analyse_iff hfound).1 h
    simp [Project.conclude, Project.uncached, hfiles hread]
  · intro hkeep
    obtain ⟨out, d', hread⟩ := hreads hkeep
    exact ⟨_, d', (Project.yields_analyse_iff hfound).2 ⟨out, hread, rfl⟩⟩

/-- A project in the directory `/shop`. What it ignores does not tell its cache from others. -/
def shop (ignorePaths : List String) : Project where
  root := "/shop"
  settings :=
    { projectName := "shop", workers := 1, excludeDirs := [], ignorePaths, useCache := true,
      cacheDir := ".cache", resolve := { importFilter := true, ambiguityCap := 10 } }

/-- The disk with one source in the directory `/shop`. -/
def shopDisk (source : String) : Disk where
  tree := .dir [("shop", .dir [("a.php", .file (Text.toBytes source))])]
  here := []

/-- The disk after the source was read by one project and then changed. -/
def shopDiskEdited : Disk :=
  let read := (((shop []).read ["/shop/a.php"]).run.run (shopDisk "<?php f();")).2
  { read with tree := FileTree.put (.file (Text.toBytes "<?php g();")) read.tree ["shop", "a.php"] }

/-- What stands in the source at one time or another. -/
def shopSources : Set ByteArray := {Text.toBytes "<?php f();", Text.toBytes "<?php g();"}

/-- One project read the source, it was changed, and another project that shares the cache reads
it. -/
theorem read_files_eq_uncached_shop :
    ∃ fresh,
      ((shop ["vendor"]).uncached.read ["/shop/a.php"]).Yields shopDiskEdited fresh shopDiskEdited ∧
      (∀ out d', ((shop ["vendor"]).read ["/shop/a.php"]).Yields shopDiskEdited out d' →
        out.files = fresh.files) ∧
      ∃ out d', ((shop ["vendor"]).read ["/shop/a.php"]).Yields shopDiskEdited out d' := by
  have hroot : ∀ p, (∃ ignored, p = shop ignored) → Path.isAbsolute p.root := by
    rintro p ⟨ignored, rfl⟩
    exact (by decide : Path.isAbsolute "/shop" = true)
  have hinj : Set.InjOn checksum shopSources := by
    have hne : checksum (Text.toBytes "<?php f();") ≠ checksum (Text.toBytes "<?php g();") := by
      decide +kernel
    rintro b (rfl | rfl) b' (rfl | rfl) heq
    · rfl
    · exact absurd heq hne
    · exact absurd heq.symm hne
    · rfl
  have hsize : ∀ b ∈ shopSources, b.size + 1 < Decoder.natBound := by
    rintro b (rfl | rfl) <;> decide +kernel
  have hcache (ignored : List String) : (shop ignored).cache = (shop []).cache := rfl
  have hplace : ∀ file, (shop []).cache.position file ≠ ["shop", "a.php"] ∧
      ((shopDisk "<?php f();").tree.get? ((shop []).cache.position file)).isNone
    | .data => by decide +kernel
    | .stamp => by decide +kernel
  have hread {d : Disk} {source : String} (h : d.read "/shop/a.php" = .ok (Text.toBytes source))
      (hsource : Text.toBytes source ∈ shopSources) :
      d.ReadsWithin shopSources ["/shop/a.php"] := by
    intro path hpath b hb
    obtain rfl : path = "/shop/a.php" := by simpa using hpath
    rw [h] at hb
    obtain rfl := Except.ok.inj hb
    exact hsource
  obtain ⟨out, hout⟩ := Job.exists_yields_of_isOk
    (x := (shop []).read ["/shop/a.php"]) (d := shopDisk "<?php f();") (by decide +kernel)
  have hstart :
      History (fun p => ∃ ignored, p = shop ignored) shopSources (shopDisk "<?php f();") := by
    refine .start ?_
    rintro p ⟨ignored, rfl⟩ file b hb
    have hnone := (hplace file).2
    rw [← hcache ignored, hb] at hnone
    exact Bool.false_ne_true hnone
  have hafter := hstart.read ⟨[], rfl⟩ (hread (by decide +kernel) (.inl rfl)) hout
  have hedited : History (fun p => ∃ ignored, p = shop ignored) shopSources shopDiskEdited := by
    refine hafter.edit ?_
    rintro p ⟨ignored, rfl⟩ file b hb
    rcases FileTree.get?_put_file hb with ⟨heq, -⟩ | ⟨-, hb⟩
    · exact absurd heq (hplace file).1
    · exact hb
  obtain ⟨fresh, hfresh, hfiles, hexists, -⟩ := read_files_eq_uncached hroot hinj hsize hedited
    (p := shop ["vendor"]) ⟨_, rfl⟩ (hread (by decide +kernel) (.inr rfl))
  refine ⟨fresh, hfresh, hfiles, hexists ?_⟩
  obtain ⟨⟨⟩, hsave⟩ := Job.exists_yields_of_isOk
    (x := (shop ["vendor"]).cache.save (shopDiskEdited.readAll "/shop" ["/shop/a.php"]).1
      (.now (shopDiskEdited.checksums "/shop" ["/shop/a.php"])
        (shopDiskEdited.readAll "/shop" ["/shop/a.php"]).2))
    (d := shopDiskEdited) (by decide +kernel)
  exact ⟨_, hsave⟩

end PhpCalls
