import PhpCalls.CommandLine.Run
import PhpCalls.Proofs.Cache.Reload
import PhpCalls.Proofs.Cache.Transparency
import PhpCalls.Proofs.Files.Removal
import PhpCalls.Proofs.Ignore.Found

set_option autoImplicit false

/-!
# Recovery from a cache that cannot be read

A command that finds a cache which it cannot read removes the two files and reads its sources again.
Whatever stands in the files, missing, blank, no text, no JSON, or JSON of another shape, the
command ends with what a fitting cache says, or with what it would have read without a cache; and
then the cache holds just that.

The removal disturbs neither the sources, whose names end differently, nor the writing of the new
files: on a disk that lacks files whatever could be written before can be written.

## Main definitions

* `Cache.Writable`: something can be saved in the cache.

## Main results

* `Cache.settles_load`: loading changes nothing, and all its faults are those of a cache.
* `Cache.exists_yields_clear`: clearing succeeds, and removes no other file.
* `Cache.Writable.exists_yields_save`: what can be saved on a disk from which files were taken.
* `Project.exists_yields_read_anew`: reading past a cache that does not fit.
* `readRecovering_settles`: what a command reads, whatever stands in the cache.
-/

namespace PhpCalls

/-! ## Loading -/

namespace Cache

variable {c : Cache} {d d' : Disk}

/-- Reading a cache file leaves the disk as it is and fails only by a fault of the cache. -/
lemma settles_textOf (c : Cache) (file : CacheFile) (d : Disk) :
    (c.textOf file).Settles (fun e => e.isOfCache = true) d := by
  refine (Job.settles_get _ d).bind fun d₁ => ?_
  split_ifs
  · have hfault (reason : FileFault) :
        (@Fault.cacheUnreadable file (c.path file) reason).isOfCache = true := rfl
    exact (Job.settles_look hfault _ d).bind fun text => Job.settles_pure _ _ d
  · exact Job.settles_pure _ _ d

/-- Decoding a cache file leaves the disk as it is and fails only by a fault of the cache. -/
lemma settles_decode {α : Type} (c : Cache) (file : CacheFile) (read : Decoder α) (text : String)
    (d : Disk) : (c.decode file read text).Settles (fun e => e.isOfCache = true) d := by
  rw [decode]
  cases (Json.parse text).bind read with
  | some a => exact Job.settles_pure a _ d
  | none => exact .inr ⟨@Fault.cacheCorrupt file (c.path file), rfl, rfl⟩

/-- Loading changes nothing, and all its faults are those of a cache. -/
theorem settles_load (c : Cache) (d : Disk) : c.load.Settles (fun e => e.isOfCache = true) d := by
  refine (c.settles_textOf .data d).bind fun data => ?_
  cases data with
  | none => exact Job.settles_pure _ _ d
  | some data =>
    refine (c.settles_textOf .stamp d).bind fun stamp => ?_
    cases stamp with
    | none => exact Job.settles_pure _ _ d
    | some stamp =>
      refine (c.settles_decode .data _ data d).bind fun files => ?_
      exact (c.settles_decode .stamp _ stamp d).bind fun mark => Job.settles_pure _ _ d

/-- From a cache without its facts nothing is loaded. -/
lemma yields_load_none (h : d.has (c.path .data) = false) : c.load.Yields d none d := by
  have htext : (c.textOf .data).Yields d none d := by
    refine Job.yields_bind_iff.2 ⟨d, d, Job.yields_get_iff.2 ⟨rfl, rfl⟩, ?_⟩
    rw [if_neg (Bool.eq_false_iff.1 h)]
    exact Job.yields_pure_iff.2 ⟨rfl, rfl⟩
  exact Job.yields_bind_iff.2 ⟨none, d, htext, Job.yields_pure_iff.2 ⟨rfl, rfl⟩⟩

/-! ## Clearing -/

/-- Clearing a file where no directory stands in its place succeeds and removes no other file. -/
lemma exists_yields_clearFile {file : CacheFile} (hpath : Path.isAbsolute (c.path file))
    (hposition : ∃ base name, c.position file = base ++ [name])
    (hdir : ¬ d.tree.IsDirAt (c.position file)) :
    ∃ d', (clearFile (c.path file)).Yields d () d' ∧ d.Thinned d' ∧ d'.has (c.path file) = false ∧
      ∀ q b, q ≠ c.position file → d.tree.get? q = some (.file b) →
        d'.tree.get? q = some (.file b) := by
  have hat (d : Disk) : d.intended (c.path file) = c.position file :=
    Path.intended_eq_position hpath d
  cases hhas : d.has (c.path file) with
  | false =>
    refine ⟨d, Job.yields_bind_iff.2 ⟨d, d, Job.yields_get_iff.2 ⟨rfl, rfl⟩, ?_⟩, .refl d, hhas,
      fun q b _ hq => hq⟩
    rw [if_neg (Bool.eq_false_iff.1 hhas)]
    exact Job.yields_pure_iff.2 ⟨rfl, rfl⟩
  | true =>
    obtain ⟨b, hfind⟩ : ∃ b, d.find (c.path file) = .ok (.file b) := by
      obtain ⟨t, hfind⟩ := Disk.exists_find_of_has hhas
      cases t with
      | file b => exact ⟨b, hfind⟩
      | dir es => exact absurd ⟨es, hat d ▸ Disk.find_eq_ok hfind⟩ hdir
    obtain ⟨base, name, hposition⟩ := hposition
    obtain ⟨d', hremove, hthin, hgone, hkept⟩ :=
      Disk.exists_removeFile ((hat d).trans hposition) hfind
    rw [hat d] at hgone hkept
    refine ⟨d', Job.yields_bind_iff.2 ⟨d, d, Job.yields_get_iff.2 ⟨rfl, rfl⟩, ?_⟩, hthin, ?_, hkept⟩
    · rw [if_pos hhas]
      exact Job.yields_change_iff.2 hremove
    · exact Disk.has_eq_false_of_get? (by rw [hat d', hgone])

/-- Where no directories stand in place of its files, a cache can be cleared. No other file is
removed. -/
theorem exists_yields_clear (hpath : ∀ file, Path.isAbsolute (c.path file))
    (hposition : ∀ file, ∃ base name, c.position file = base ++ [name])
    (hdir : ∀ file, ¬ d.tree.IsDirAt (c.position file)) :
    ∃ d', c.clear.Yields d () d' ∧ d.Thinned d' ∧ d'.has (c.path .data) = false ∧
      ∀ q b, (∀ file, q ≠ c.position file) → d.tree.get? q = some (.file b) →
        d'.tree.get? q = some (.file b) := by
  obtain ⟨d₁, hclear₁, hthin₁, hhas₁, hkept₁⟩ :=
    exists_yields_clearFile (hpath .data) (hposition .data) (hdir .data)
  have hdir₁ : ¬ d₁.tree.IsDirAt (c.position .stamp) := by
    rw [hthin₁.tree.dirs]
    exact hdir .stamp
  obtain ⟨d₂, hclear₂, hthin₂, -, hkept₂⟩ :=
    exists_yields_clearFile (hpath .stamp) (hposition .stamp) hdir₁
  refine ⟨d₂, Job.yields_bind_iff.2 ⟨(), d₁, hclear₁, hclear₂⟩, hthin₁.trans hthin₂,
    hthin₂.has_eq_false hhas₁, fun q b hq hfile => ?_⟩
  exact hkept₂ q b (hq .stamp) (hkept₁ q b (hq .data) hfile)

/-! ## Saving -/

/-- Something can be saved in the cache. -/
def Writable (c : Cache) (d : Disk) : Prop := ∃ files stamp d', (c.save files stamp).Yields d () d'

/-- Where something can be saved, anything can be saved, also after files were taken away. -/
theorem Writable.exists_yields_save (h : c.Writable d) (hdir : d.tree.IsDirAt (d.start c.dir).1)
    (hthin : d.Thinned d') (files : ProjectFacts) (stamp : CacheStamp) :
    ∃ d'', (c.save files stamp).Yields d' () d'' := by
  obtain ⟨files₀, stamp₀, d₃, hsave⟩ := h
  obtain ⟨⟨⟩, d₁, hmake, hsave⟩ := Job.yields_bind_iff.1 hsave
  obtain ⟨⟨⟩, d₂, hstamp, hdata⟩ := Job.yields_bind_iff.1 hsave
  obtain ⟨e₁, hmake', hthin₁⟩ := hthin.exists_makeDirs hdir (Job.yields_change_iff.1 hmake)
  obtain ⟨e₂, hstamp', hthin₂⟩ := hthin₁.exists_write (yields_writeText_iff.1 hstamp)
    (Text.toBytes stamp.toJson.pretty)
  obtain ⟨e₃, hdata', -⟩ := hthin₂.exists_write (yields_writeText_iff.1 hdata)
    (Text.toBytes files.toJson.compact)
  refine ⟨e₃, Job.yields_bind_iff.2 ⟨(), e₁, Job.yields_change_iff.2 hmake', ?_⟩⟩
  exact Job.yields_bind_iff.2 ⟨(), e₂, yields_writeText_iff.2 hstamp',
    yields_writeText_iff.2 hdata'⟩

end Cache

/-! ## Reading -/

namespace Disk

variable {d d' : Disk} {root : String} {paths : List String}

/-- The facts of files are the same on two disks on which the files read the same. -/
lemma readAll_congr (h : ∀ path ∈ paths, d'.read path = d.read path) :
    d'.readAll root paths = d.readAll root paths := by
  have hfacts : paths.map (fun p => (Path.relative root p, d'.readFacts p)) =
      paths.map fun p => (Path.relative root p, d.readFacts p) :=
    List.map_congr_left fun path hpath => by rw [readFacts, readFacts, h path hpath]
  rw [readAll, readAll, hfacts]

/-- The checksums of files are the same on two disks on which the files read the same. -/
lemma checksums_congr (h : ∀ path ∈ paths, d'.read path = d.read path) :
    d'.checksums root paths = d.checksums root paths := by
  rw [checksums, checksums]
  congr 1
  exact List.filterMap_congr fun path hpath => by rw [checksum?, checksum?, h path hpath]

end Disk

namespace Project

variable {p : Project} {d d' : Disk} {paths : List String}

/-- The tree of a disk on which a project lies is a directory. -/
lemma isDirAt_nil_of_yields_ofPath {path : String} {settings : Settings}
    (h : (ofPath path settings).Yields d p d') : d.tree.IsDirAt [] := by
  obtain ⟨-, hdir, -, -⟩ := yields_ofPath_iff.1 h
  rw [Disk.isDir] at hdir
  cases hfind : d.find p.root with
  | error e =>
    rw [hfind] at hdir
    cases hdir
  | ok t =>
    cases t with
    | file b =>
      rw [hfind] at hdir
      cases hdir
    | dir es => exact FileTree.IsDirAt.of_prefix ⟨es, Disk.find_eq_ok hfind⟩ List.nil_prefix

/-- Discovery of a project's files gives what the disk finds by the project's patterns, and changes
nothing. -/
lemma yields_discover_iff : p.discover.Yields d paths d' ↔
    d.discover p.root
        { ignorePaths := p.settings.ignorePaths, excludeDirs := p.settings.excludeDirs } =
      .ok paths ∧ d' = d := by
  rw [discover, Job.yields_bind_iff]
  constructor
  · rintro ⟨_, _, hget, h⟩
    obtain ⟨rfl, rfl⟩ := Job.yields_get_iff.1 hget
    split at h
    · next found hfound =>
      obtain ⟨rfl, rfl⟩ := Job.yields_pure_iff.1 h
      exact ⟨hfound, rfl⟩
    · cases h
    · cases h
  · rintro ⟨hfound, rfl⟩
    refine ⟨d', d', Job.yields_get_iff.2 ⟨rfl, rfl⟩, ?_⟩
    rw [hfound]
    exact Job.yields_pure_iff.2 ⟨rfl, rfl⟩

/-- The sources of a project are read as before after its cache was cleared: none of them is a file
of it. -/
lemma read_of_discover (hp : Path.isAbsolute p.root) (hnames : d.tree.WellNamed)
    (hfound : p.discover.Yields d paths d)
    (hkept : ∀ q b, (∀ file, q ≠ p.cache.position file) → d.tree.get? q = some (.file b) →
      d'.tree.get? q = some (.file b)) : ∀ path ∈ paths, d'.read path = d.read path := by
  intro path hpath
  obtain ⟨q, b, rfl, hfile, hq, hphp⟩ :=
    Disk.exists_of_mem_discover hnames (yields_discover_iff.1 hfound).1 hpath
  have hne : q ≠ [] := by
    rintro rfl
    exact absurd hphp (by decide : ¬ hasExtension [".php"] (Disk.absolute []) = true)
  have hother : ∀ file, q ≠ p.cache.position file := by
    rintro file rfl
    obtain ⟨base, name, hposition⟩ := exists_cache_position hp
    obtain ⟨stem, hstem⟩ : ∃ stem, name ++ file.ending = stem ++ ".json" := by
      cases file with
      | data => exact ⟨name ++ ".parse", by simp [CacheFile.ending, String.append_assoc]⟩
      | stamp => exact ⟨name ++ ".meta", by simp [CacheFile.ending, String.append_assoc]⟩
    rw [hposition, hstem] at hq hphp
    rw [Disk.hasExtension_absolute_append hq] at hphp
    cases hphp
  rw [Disk.read_absolute hq hne hfile, Disk.read_absolute hq hne (hkept q b hother hfile)]

/-- Reading past a cache that does not fit, on a disk from which files may have been taken that are
none of the sources: the sources are read, and the cache holds what was read. -/
theorem exists_yields_read_anew (hp : Path.isAbsolute p.root) (huse : p.settings.useCache)
    (htop : d.tree.IsDirAt []) (hwrite : p.cache.Writable d)
    (hsize : ∀ path ∈ paths, ∀ b, d.read path = .ok b → b.size + 1 < Decoder.natBound)
    (hthin : d.Thinned d') (hreads : ∀ path ∈ paths, d'.read path = d.read path)
    {kept : Option (ProjectFacts × CacheStamp)} (hload : p.cache.load.Yields d' kept d')
    (hkept : kept.filter (fun k => k.2.agrees (d.checksums p.root paths)) = none) :
    ∃ out d'', (p.read paths).Yields d' out d'' ∧ out.fromCache = false ∧
      (p.uncached.read paths).Yields d out d ∧
      p.cache.load.Yields d''
        (some (out.files, .now (d.checksums p.root paths) out.failures)) d'' := by
  have hdir : d.tree.IsDirAt (d.start p.cache.dir).1 := by
    have habsolute : Path.isAbsolute p.cache.dir := Path.isAbsolute_join hp _
    rw [Disk.start, if_pos habsolute]
    exact htop
  have hrange : ProjectFacts.InRange (d.readAll p.root paths).1 := by
    rw [Disk.readAll_fst]
    have hwithin : d.ReadsWithin { b | b.size + 1 < Decoder.natBound } paths := hsize
    exact Sources.inRange_facts hwithin.sources fun b hb => hb
  obtain ⟨d'', hsave⟩ := hwrite.exists_yields_save hdir hthin (d.readAll p.root paths).1
    (.now (d.checksums p.root paths) (d.readAll p.root paths).2)
  refine ⟨⟨(d.readAll p.root paths).1, (d.readAll p.root paths).2, false⟩, d'', ?_, rfl, ?_, ?_⟩
  · refine (yields_read_iff hp huse).2 ⟨kept, hload, .inr ?_⟩
    rw [Disk.readAll_congr hreads, Disk.checksums_congr hreads]
    exact ⟨hkept, rfl, hsave⟩
  · exact yields_readAnew_iff.2 ⟨rfl, rfl⟩
  · exact (Cache.holds_of_yields_save (Cache.apart_ofProject _ _ _ _) hsave).yields_load hrange

/-- Where the cache cannot be loaded, reading ends with that fault. -/
lemma faults_read (huse : p.settings.useCache) {e : Fault} (h : p.cache.load.Faults d e d) :
    (p.read paths).Faults d e d := by
  rw [read, if_pos huse]
  exact (Job.yields_get_iff.2 ⟨rfl, rfl⟩).bind_faults (h.bind _)

end Project

/-- **A command recovers from any contents of its cache.** Where something could be saved in the
cache of a project, its sources are read whatever stands in the two files of the cache. If the cache
is loaded with a stamp that agrees with the sources, its contents are the result and the disk stays
as it is. Otherwise the result is that of reading without the cache, and is what is loaded from the
cache afterwards, with the checksums of the sources.

Files have names that can stand in paths, different ones in each directory, and their sizes are
numbers in range. -/
theorem readRecovering_settles {path : String} {settings : Settings} {p : Project} {d : Disk}
    {paths : List String} (hproject : (Project.ofPath path settings).Yields d p d)
    (huse : settings.useCache = true) (hnames : d.tree.WellNamed)
    (hfound : p.discover.Yields d paths d)
    (hsize : ∀ path ∈ paths, ∀ b, d.read path = .ok b → b.size + 1 < Decoder.natBound)
    (hwrite : p.cache.Writable d) :
    ∃ out d', (AnalyzeArgs.readRecovering p paths).Yields d out d' ∧
      ((∃ files stamp, p.cache.load.Yields d (some (files, stamp)) d ∧
          stamp.agrees (d.checksums p.root paths) = true ∧
          out = ⟨files, stamp.failures, true⟩ ∧ d' = d) ∨
        (∀ files stamp, p.cache.load.Yields d (some (files, stamp)) d →
          stamp.agrees (d.checksums p.root paths) = false) ∧
        out.fromCache = false ∧ (p.uncached.read paths).Yields d out d ∧
        p.cache.load.Yields d'
          (some (out.files, .now (d.checksums p.root paths) out.failures)) d') := by
  have hp := Project.isAbsolute_root_of_yields_ofPath hproject
  have htop := Project.isDirAt_nil_of_yields_ofPath hproject
  have huse : p.settings.useCache := by rwa [(Project.yields_ofPath_iff.1 hproject).2.2.1]
  rcases p.cache.settles_load d with ⟨kept, hload⟩ | ⟨e, hofCache, hfault⟩
  -- the files of the cache can be read, and agree with the sources or not
  · cases hk : kept.filter (fun k => k.2.agrees (d.checksums p.root paths)) with
    | some k =>
      obtain ⟨rfl, hagrees⟩ := Option.filter_eq_some_iff.1 hk
      have hread := (Project.yields_read_iff hp huse).2 ⟨_, hload, .inl ⟨k, hk, rfl, rfl⟩⟩
      exact ⟨_, d, hread.yields_tryCatch _, .inl ⟨k.1, k.2, hload, hagrees, rfl, rfl⟩⟩
    | none =>
      obtain ⟨out, d', hread, hanew⟩ :=
        Project.exists_yields_read_anew hp huse htop hwrite hsize (.refl d)
          (fun _ _ => rfl) hload hk
      refine ⟨out, d', hread.yields_tryCatch _, .inr ⟨fun files stamp hload' => ?_, hanew⟩⟩
      obtain ⟨rfl, -⟩ := hload.unique hload'
      simpa [Option.filter] using hk
  -- the cache is cleared; its files are no sources, so the second reading finds the same sources
  · have hdir : ∀ file, ¬ d.tree.IsDirAt (p.cache.position file) := by
      obtain ⟨files, stamp, d', hsave⟩ := hwrite
      exact (Cache.stands_of_yields_save (Project.isAbsolute_cache_path hp) hsave).1
    have hposition : ∀ file, ∃ base name, p.cache.position file = base ++ [name] := by
      obtain ⟨base, name, hposition⟩ := Project.exists_cache_position hp
      exact fun file => ⟨base, _, hposition file⟩
    obtain ⟨d₁, hclear, hthin, hhas, hkept⟩ :=
      Cache.exists_yields_clear (Project.isAbsolute_cache_path hp) hposition hdir
    have hreads := Project.read_of_discover hp hnames hfound hkept
    obtain ⟨out, d', hread, hanew⟩ :=
      Project.exists_yields_read_anew hp huse htop hwrite hsize hthin hreads
        (Cache.yields_load_none hhas) rfl
    refine ⟨out, d', (Project.faults_read huse hfault).yields_tryCatch ?_, .inr ⟨?_, hanew⟩⟩
    · rw [if_pos hofCache]
      exact Job.yields_bind_iff.2 ⟨(), d₁, hclear, hread⟩
    · exact fun files stamp hload => absurd hload hfault.not_yields

/-- A disk with one source in the directory `/shop`, and what is no JSON in place of the facts in
its cache. -/
def spoiledDisk : Disk where
  tree := .dir [("shop", .dir
    [(".cache", .dir [((shop []).cacheStem ++ ".parse.json", .file (Text.toBytes "x"))]),
     ("a.php", .file (Text.toBytes "<?php f();"))])]
  here := []

/-- The source is read, and the cache holds its facts afterwards. -/
theorem readRecovering_settles_spoiled :
    spoiledDisk.tree.WellNamed ∧ (shop []).cache.Writable spoiledDisk ∧
    ∃ out d', (AnalyzeArgs.readRecovering (shop []) ["/shop/a.php"]).Yields spoiledDisk out d' ∧
      out.fromCache = false ∧
      ((shop []).uncached.read ["/shop/a.php"]).Yields spoiledDisk out spoiledDisk ∧
      (shop []).cache.load.Yields d' (some (out.files,
        .now (spoiledDisk.checksums "/shop" ["/shop/a.php"]) out.failures)) d' := by
  have hproject :
      (Project.ofPath "/shop" (shop []).settings).Yields spoiledDisk (shop []) spoiledDisk :=
    Project.yields_ofPath_iff.2 ⟨by decide +kernel, by decide +kernel, rfl, rfl⟩
  have hnames : spoiledDisk.tree.WellNamed := by
    have hcache : FileTree.WellNamed
        (.dir [((shop []).cacheStem ++ ".parse.json", .file (Text.toBytes "x"))]) :=
      .dir (by decide +kernel) (by decide +kernel) (List.forall_mem_singleton.2 (.file _))
    have hshop : FileTree.WellNamed (.dir
        [(".cache", .dir [((shop []).cacheStem ++ ".parse.json", .file (Text.toBytes "x"))]),
         ("a.php", .file (Text.toBytes "<?php f();"))]) :=
      .dir (by decide +kernel) (by decide +kernel)
        (List.forall_mem_cons.2 ⟨hcache, List.forall_mem_singleton.2 (.file _)⟩)
    exact .dir (by decide +kernel) (by decide +kernel) (List.forall_mem_singleton.2 hshop)
  have hfound : (shop []).discover.Yields spoiledDisk ["/shop/a.php"] spoiledDisk := by
    have hpaths : (spoiledDisk.discover "/shop" {}).toOption = some ["/shop/a.php"] := by
      decide +kernel
    refine Project.yields_discover_iff.2 ⟨?_, rfl⟩
    change spoiledDisk.discover "/shop" {} = _
    cases h : spoiledDisk.discover "/shop" {} with
    | error e =>
      rw [h] at hpaths
      cases hpaths
    | ok paths =>
      rw [h] at hpaths
      rw [Option.some.inj hpaths]
  have hread : spoiledDisk.read "/shop/a.php" = .ok (Text.toBytes "<?php f();") ∧
      spoiledDisk.read ((shop []).cache.path .data) = .ok (Text.toBytes "x") := by
    decide +kernel
  have hsize : ∀ path ∈ ["/shop/a.php"], ∀ b, spoiledDisk.read path = .ok b →
      b.size + 1 < Decoder.natBound := by
    refine List.forall_mem_singleton.2 fun b hb => ?_
    rw [hread.1] at hb
    obtain rfl := Except.ok.inj hb
    decide +kernel
  have hwrite : (shop []).cache.Writable spoiledDisk := by
    obtain ⟨⟨⟩, hsave⟩ :=
      Job.exists_yields_of_isOk (x := (shop []).cache.save .empty (.now .empty []))
        (d := spoiledDisk) (by decide +kernel)
    exact ⟨_, _, _, hsave⟩
  obtain ⟨out, d', hout, ⟨files, stamp, hload, -⟩ | ⟨-, hanew⟩⟩ :=
    readRecovering_settles hproject rfl hnames hfound hsize hwrite
  · -- what stands in place of the facts cannot be loaded
    have hpath := Project.isAbsolute_cache_path (Project.isAbsolute_root_of_yields_ofPath hproject)
    obtain ⟨data, -, hdata, hparse, -⟩ := (Cache.stands_of_yields_load hpath hload).2 _ rfl
    have hstands := Disk.read_eq_ok hread.2
    rw [Path.intended_eq_position (hpath .data)] at hstands
    obtain rfl : data = "x" := by
      have hfile := Option.some.inj (hdata.symm.trans hstands)
      exact Text.toBytes_injective (FileTree.file.inj hfile)
    exact absurd (Option.isSome_of_eq_some hparse) (by decide +kernel)
  · exact ⟨hnames, hwrite, out, d', hout, hanew⟩

end PhpCalls
