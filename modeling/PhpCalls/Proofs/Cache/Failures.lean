import PhpCalls.Proofs.Cache.Reload
import PhpCalls.Proofs.Cache.Transparency
import Mathlib.Logic.Relation

set_option autoImplicit false

/-!
# Failures that are reported from a cache

Files that cannot be read have no checksum, so they do not count when the stamp of a cache is
compared with the sources. The failures that a reading takes from the cache are those of the reading
that filled it: the sources of the two are the same, but the files that one of them could not read
need not be the files that the other cannot read.

As in `History.keeps` the argument is an invariant over histories. Here it is about the stamp: it
was written by an earlier reading, with the failures of that reading (`Cache.Filled`).

## Main definitions

* `HistoryStep`: one step of a history.
* `FilledBy`: a reading that saved what it read, and after which steps have led to a disk.
* `Cache.Filled`: the invariant.

## Main results

* `Disk.map_path_readAll_snd`: the files that are reported are those that are not among the sources.
* `History.filled`: the invariant holds in every history.
* `failures_of_yields_read`: where the failures that a reading reports come from.
-/

namespace PhpCalls

/-! ## Files that cannot be read -/

/-- A reading of one file fails where the file cannot be read. -/
lemma Disk.readAll_snd (d : Disk) (root : String) (paths : List String) :
    (d.readAll root paths).2 = paths.filterMap fun path =>
      match d.read path with
      | .ok _ => none
      | .error e => some ⟨Path.relative root path, e.readMessage⟩ := by
  change List.filterMap _ (List.map _ paths) = _
  rw [List.filterMap_map]
  refine List.filterMap_congr fun path _ => ?_
  cases h : d.read path <;> simp [readFacts, h, Except.map]

/-- A file has no source where it cannot be read, if the paths below the root tell the files
apart. -/
lemma Disk.get?_sources_eq_none_iff {d : Disk} {root : String} {paths : List String}
    (hinj : Set.InjOn (Path.relative root) {path | path ∈ paths}) {path : String}
    (hpath : path ∈ paths) :
    (d.sources root paths).get? (Path.relative root path) = none ↔
      (d.read path).toOption = none := by
  rw [sources, Dict.get?_ofList_eq_none_iff]
  constructor
  · intro h
    cases hread : d.read path with
    | error e => rfl
    | ok b =>
      refine absurd rfl (h (Path.relative root path, b) (List.mem_filterMap.2 ⟨path, hpath, ?_⟩))
      rw [hread]
      rfl
  · intro h e he heq
    obtain ⟨path', hpath', hread⟩ := List.mem_filterMap.1 he
    obtain ⟨b, hb, rfl⟩ := Option.map_eq_some_iff.1 hread
    obtain rfl := hinj hpath' hpath heq
    rw [h] at hb
    cases hb

/-- The files that are reported are those that are not among the sources, if the paths below the
root tell the files apart. -/
lemma Disk.map_path_readAll_snd {d : Disk} {root : String} {paths : List String}
    (hinj : Set.InjOn (Path.relative root) {path | path ∈ paths}) :
    (d.readAll root paths).2.map ReadFailure.path =
      (paths.map (Path.relative root)).filter fun k => (d.sources root paths).get? k = none := by
  rw [readAll_snd, List.map_filterMap, List.filter_map, ← List.filterMap_eq_map,
    List.filterMap_filter]
  refine List.filterMap_congr fun path hpath => ?_
  simp only [Function.comp_apply, get?_sources_eq_none_iff hinj hpath]
  cases d.read path <;> simp [Except.toOption]

/-! ## Steps of a history -/

/-- One step of a history: an edit, a reading of a project of the family, or a clearing of its
cache. -/
inductive HistoryStep (family : Project → Prop) (contents : Set ByteArray) : Disk → Disk → Prop
  | edit {d d' : Disk}
      (hsame : ∀ p, family p → ∀ file b, p.cache.Stands file d'.tree b →
        p.cache.Stands file d.tree b) :
      HistoryStep family contents d d'
  | read {d d' : Disk} {p : Project} (hp : family p) {paths : List String}
      (hpaths : d.ReadsWithin contents paths) {out : ReadOutcome}
      (hread : (p.read paths).Yields d out d') : HistoryStep family contents d d'
  | clear {d d' : Disk} {p : Project} (hp : family p) (hclear : p.cache.clear.Yields d () d') :
      HistoryStep family contents d d'

/-- A project of the family was read on the disk `before`. Nothing was taken from the cache, so what
was read was saved, and steps have led from there to the disk `d`. -/
structure FilledBy (family : Project → Prop) (contents : Set ByteArray) (p : Project)
    (paths : List String) (before d : Disk) : Prop where
  member : family p
  history : History family contents before
  within : before.ReadsWithin contents paths
  filled : ∃ out after, (p.read paths).Yields before out after ∧ out.fromCache = false ∧
    Relation.ReflTransGen (HistoryStep family contents) after d

variable {family : Project → Prop} {contents : Set ByteArray} {d d' : Disk}

/-- A cache that was filled by a reading stays filled by it through every step that comes after. -/
lemma FilledBy.step {p : Project} {paths : List String} {before : Disk}
    (h : FilledBy family contents p paths before d) (hstep : HistoryStep family contents d d') :
    FilledBy family contents p paths before d' := by
  obtain ⟨out, after, hread, hfresh, hsteps⟩ := h.filled
  exact ⟨h.member, h.history, h.within, out, after, hread, hfresh, hsteps.tail hstep⟩

/-- If the cache has a stamp, it is that of a reading that filled a cache in the same place. -/
def Cache.Filled (family : Project → Prop) (contents : Set ByteArray) (c : Cache)
    (d : Disk) : Prop :=
  ∀ b, c.Stands .stamp d.tree b → ∃ p paths before, FilledBy family contents p paths before d ∧
    (∀ file, p.cache.position file = c.position file) ∧
    b = Text.toBytes (CacheStamp.now (before.sources p.root paths).checksums
      (before.readAll p.root paths).2).toJson.pretty

/-- The invariant stays where no file is written. -/
lemma Cache.Filled.step {c : Cache} (h : c.Filled family contents d)
    (hstep : HistoryStep family contents d d')
    (hstands : ∀ b, c.Stands .stamp d'.tree b → c.Stands .stamp d.tree b) :
    c.Filled family contents d' := by
  intro b hb
  obtain ⟨p, paths, before, hfilled, hplace, hstamp⟩ := h b (hstands b hb)
  exact ⟨p, paths, before, hfilled.step hstep, hplace, hstamp⟩

/-- A step of a history keeps the invariant of every cache of the family. -/
lemma Cache.Filled.of_historyStep (hroot : ∀ p, family p → Path.isAbsolute p.root) {p : Project}
    (hp : family p) (hd : History family contents d) (h : p.cache.Filled family contents d)
    (hstep : HistoryStep family contents d d') : p.cache.Filled family contents d' := by
  cases hstep with
  | edit hsame => exact h.step (.edit hsame) (hsame p hp .stamp)
  | clear hreader hclear =>
    exact h.step (.clear hreader hclear) (Cache.filesWithin_of_yields_clear hclear _)
  | @read reader hreader paths hpaths out hread =>
    have hstep : HistoryStep family contents d d' := .read hreader hpaths hread
    rcases Project.disk_of_yields_read (hroot _ hreader) hread with rfl | ⟨hfresh, hsave⟩
    · exact h
    obtain ⟨-, hstands⟩ :=
      Cache.stands_of_yields_save (Project.isAbsolute_cache_path (hroot _ hreader)) hsave
    intro b hb
    rcases hstands _ _ hb with ⟨heq, -⟩ | ⟨-, heq, hstamp⟩ | ⟨-, -, hb⟩
    · -- a stamp does not lie where the facts of another cache do
      cases (Project.eq_of_position_eq (hroot p hp) (hroot _ hreader) heq).1
    · have hplace := (Project.eq_of_position_eq (hroot p hp) (hroot _ hreader) heq).2
      exact ⟨reader, paths, d, ⟨hreader, hd, hpaths, out, d', hread, hfresh, .refl⟩,
        fun file => (hplace file).symm, hstamp⟩
    · obtain ⟨p₀, paths₀, before, hfilled, hplace, hstamp⟩ := h b hb
      exact ⟨p₀, paths₀, before, hfilled.step hstep, hplace, hstamp⟩

/-- In every history the stamp of a cache is that of a reading that filled it. -/
theorem History.filled (hroot : ∀ p, family p → Path.isAbsolute p.root)
    (h : History family contents d) {p : Project} (hp : family p) :
    p.cache.Filled family contents d := by
  induction h with
  | start hnone => exact fun b hb => absurd hb (hnone p hp _ b)
  | edit h hsame ih => exact ih.of_historyStep hroot hp h (.edit hsame)
  | read h hreader hpaths hread ih =>
    exact ih.of_historyStep hroot hp h (.read hreader hpaths hread)
  | clear h hreader hclear ih => exact ih.of_historyStep hroot hp h (.clear hreader hclear)

/-! ## Reading -/

/-- What is loaded from a cache that keeps the invariant is stamped by a reading that filled it. -/
lemma Cache.Filled.of_yields_load {c : Cache} (h : c.Filled family contents d)
    (hpath : ∀ file, Path.isAbsolute (c.path file)) {kept : Option (ProjectFacts × CacheStamp)}
    (hload : c.load.Yields d kept d') {k : ProjectFacts × CacheStamp} (hk : k ∈ kept) :
    ∃ p paths before, FilledBy family contents p paths before d ∧
      (∀ file, p.cache.position file = c.position file) ∧
      k.2 = CacheStamp.now (before.sources p.root paths).checksums
        (before.readAll p.root paths).2 := by
  obtain ⟨-, stamp, -, -, hstands, hparse⟩ := (stands_of_yields_load hpath hload).2 k hk
  obtain ⟨p, paths, before, hfilled, hplace, hstamp⟩ := h _ hstands
  obtain rfl := Text.toBytes_injective hstamp
  rw [CacheStamp.parse_pretty] at hparse
  exact ⟨p, paths, before, hfilled, hplace, (Option.some.inj hparse).symm⟩

/-- **Failures of a reading.** In every history, a reading that is not taken from the cache reports
what a reading without the cache reports. A reading that is taken from the cache reports what the
reading that filled the cache reported. That one read the same sources; if it was given the same
files, the same files are reported, and otherwise they need not be.

**Proof sketch.** The stamp that was loaded is that of a reading that filled the cache
(`History.filled`). It agrees with the checksums of the sources, hence with the sources, and a file
is reported just if it is not among them. -/
theorem failures_of_yields_read (hroot : ∀ p, family p → Path.isAbsolute p.root)
    (hinj : Set.InjOn checksum contents) (h : History family contents d) {p : Project}
    (hp : family p) {paths : List String} (hpaths : d.ReadsWithin contents paths)
    {out : ReadOutcome} (hread : (p.read paths).Yields d out d') :
    ∃ fresh, (p.uncached.read paths).Yields d fresh d ∧
      (out.fromCache = false → out.failures = fresh.failures) ∧
      (out.fromCache = true → ∃ p₀ paths₀ d₀ fresh₀, FilledBy family contents p₀ paths₀ d₀ d ∧
        (∀ file, p₀.cache.position file = p.cache.position file) ∧
        (p₀.uncached.read paths₀).Yields d₀ fresh₀ d₀ ∧ out.failures = fresh₀.failures ∧
        d₀.sources p₀.root paths₀ = d.sources p.root paths ∧
        (p₀.root = p.root → paths₀ = paths →
          Set.InjOn (Path.relative p.root) {path | path ∈ paths} →
          out.failures.map ReadFailure.path = fresh.failures.map ReadFailure.path)) := by
  refine ⟨_, p.yields_read_uncached d paths, ?_⟩
  by_cases huse : p.settings.useCache
  · obtain ⟨kept, hload, ⟨k, hk, rfl, -⟩ | ⟨-, rfl, -⟩⟩ :=
      (Project.yields_read_iff (hroot p hp) huse).1 hread
    · refine ⟨fun h => (by cases h), fun _ => ?_⟩
      obtain ⟨hmem, hagrees⟩ := Option.filter_eq_some_iff.1 hk
      obtain ⟨p₀, paths₀, d₀, hfilled, hplace, hstamp⟩ := (h.filled hroot hp).of_yields_load
        (Project.isAbsolute_cache_path (hroot p hp)) hload hmem
      rw [hstamp, CacheStamp.agrees, Bool.and_eq_true] at hagrees
      have hsources : d₀.sources p₀.root paths₀ = d.sources p.root paths := by
        refine Sources.eq_of_checksums_eq hinj hfilled.within.sources hpaths.sources ?_
        exact (of_decide_eq_true hagrees.2).trans Disk.checksums_eq
      have hfailures : k.2.failures = (d₀.readAll p₀.root paths₀).2 := by rw [hstamp]; rfl
      refine ⟨p₀, paths₀, d₀, _, hfilled, hplace, p₀.yields_read_uncached d₀ paths₀,
        hfailures, hsources,
        fun hsame hlist hdistinct => ?_⟩
      subst hlist
      rw [hsame] at hsources hfailures
      change k.2.failures.map _ = (d.readAll p.root paths₀).2.map _
      rw [hfailures, Disk.map_path_readAll_snd hdistinct,
        Disk.map_path_readAll_snd hdistinct, hsources]
    · exact ⟨fun _ => rfl, fun h => by cases h⟩
  · obtain ⟨rfl, -⟩ := (Project.yields_read_iff_of_not_useCache huse).1 hread
    exact ⟨fun _ => rfl, fun h => by cases h⟩

/-- The source was read together with a file that is not there, and then alone. The second reading
is taken from the cache, with the failure of the first. -/
theorem failures_of_yields_read_shop : ∃ first d out fresh,
    ((shop []).read ["/shop/a.php", "/shop/gone.php"]).Yields (shopDisk "<?php f();") first d ∧
    ((shop []).read ["/shop/a.php"]).Yields d out d ∧ out.fromCache = true ∧
    ((shop []).uncached.read ["/shop/a.php"]).Yields d fresh d ∧
    out.failures = [⟨"gone.php", FileFault.missing.readMessage⟩] ∧ fresh.failures = [] ∧
    ∃ p₀ paths₀ d₀ fresh₀, FilledBy (· = shop []) {Text.toBytes "<?php f();"} p₀ paths₀ d₀ d ∧
      (p₀.uncached.read paths₀).Yields d₀ fresh₀ d₀ ∧ out.failures = fresh₀.failures := by
  have hroot : ∀ p, p = shop [] → Path.isAbsolute p.root := by
    rintro p rfl
    decide
  have hwithin {d : Disk} {paths : List String}
      (hread : ∀ path ∈ paths, (d.read path).toOption.all (· = Text.toBytes "<?php f();")) :
      d.ReadsWithin {Text.toBytes "<?php f();"} paths := by
    intro path hpath b hb
    simpa [hb, Except.toOption] using hread path hpath
  have hstart : History (· = shop []) {Text.toBytes "<?php f();"} (shopDisk "<?php f();") := by
    refine .start ?_
    rintro p rfl file b hb
    have hnone : ((shopDisk "<?php f();").tree.get? ((shop []).cache.position file)).isNone := by
      cases file <;> decide +kernel
    rw [hb] at hnone
    cases hnone
  -- the first reading finds no cache and saves what it read
  obtain ⟨first, hfirst⟩ := Job.exists_yields_of_isOk
    (x := (shop []).read ["/shop/a.php", "/shop/gone.php"]) (d := shopDisk "<?php f();")
    (by decide +kernel)
  have hfirstWithin : (shopDisk "<?php f();").ReadsWithin {Text.toBytes "<?php f();"}
    ["/shop/a.php", "/shop/gone.php"] := hwithin (by decide +kernel)
  have hsave := (Project.disk_of_yields_read (hroot _ rfl) hfirst).resolve_left fun hsame =>
    absurd (congrArg (Disk.has · (shop []).cache.stampPath) hsame) (by decide +kernel)
  have hholds := Cache.holds_of_yields_save (Cache.apart_ofProject _ _ _ _) hsave.2
  have hsize :
      ∀ b ∈ ({Text.toBytes "<?php f();"} : Set ByteArray), b.size + 1 < Decoder.natBound := by
    rintro b rfl
    decide +kernel
  have hout : ((shop []).read ["/shop/a.php"]).Yields _ _ _ :=
    Project.yields_read_of_holds rfl hholds (Sources.inRange_facts hfirstWithin.sources hsize)
      (by decide +kernel)
  obtain ⟨fresh, hfresh, -, hcached⟩ := failures_of_yields_read hroot (Set.injOn_singleton _ _)
    (hstart.read rfl hfirstWithin hfirst) rfl (hwithin (by decide +kernel)) hout
  obtain ⟨p₀, paths₀, d₀, fresh₀, hfilled, -, hfresh₀, heq, -⟩ := hcached rfl
  obtain ⟨rfl, -⟩ := hfresh.unique (Project.yields_read_uncached _ _ _)
  exact ⟨first, _, _, _, hfirst, hout, rfl, hfresh, by decide +kernel, by decide +kernel, p₀,
    paths₀, d₀,
    fresh₀, hfilled, hfresh₀, heq⟩

end PhpCalls
