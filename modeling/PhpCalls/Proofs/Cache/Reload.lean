import PhpCalls.Proofs.Cache.Operations
import PhpCalls.Proofs.Files.Survival
import Mathlib.Data.List.TakeWhile

set_option autoImplicit false

/-!
# Loading what was saved

A disk holds facts and a stamp in a cache if the two texts are found at the two paths. Each write of
a save replaces one of them, and loading gives both back. The cache may lie anywhere, also at a path
that starts from the working directory.

## Main definitions

* `Cache.Holds`: a disk holds facts and a stamp in a cache.

## Main results

* `Cache.exists_intended_ofProject`: the two files of a cache lie side by side.
* `Cache.Holds.yields_load`: what is held is loaded.
* `Cache.holds_of_yields_save`: what was saved is held.
* `Project.yields_read_of_holds`: what is held is read, if the files agree with its stamp.
-/

namespace PhpCalls

/-! ## Positions -/

/-- An ending that is put behind a path comes to the last name of the position it leads to. -/
lemma Disk.exists_intended_append (d : Disk) (path : String) :
    ∃ base name, ∀ ending : String, '/' ∉ ending.toList → 2 < ending.length →
      d.intended (path ++ ending) = base ++ [name ++ ending] := by
  by_cases hpath : Path.isAbsolute path
  · obtain ⟨base, name, hposition⟩ := Path.exists_position_append hpath
    refine ⟨base, name, fun e he hlen => ?_⟩
    rw [Path.intended_eq_position (Path.isAbsolute_append hpath e)]
    exact hposition e he hlen
  · obtain ⟨base, name, hfold⟩ := Path.exists_foldl_advance_append d.here path
    refine ⟨base, name, fun e he hlen => ?_⟩
    have hrelative : ¬ Path.isAbsolute (path ++ e) := by
      rw [Path.isAbsolute, decide_eq_true_iff] at hpath ⊢
      rw [String.toList_append]
      cases hcs : path.toList with
      | nil => exact fun hhead => he (List.mem_of_head? hhead)
      | cons c cs => simpa [hcs] using hpath
    rw [intended_eq_foldl, start, if_neg hrelative]
    exact hfold e he hlen

namespace Cache

variable {c : Cache} {d d' : Disk} {files : ProjectFacts} {stamp : CacheStamp}

/-- The two files of a cache lie side by side. -/
lemma exists_intended_ofProject (d : Disk) (dir projectName root : String)
    (excludeDirs : List String) :
    ∃ base name, ∀ file, d.intended ((ofProject dir projectName root excludeDirs).path file) =
      base ++ [name ++ file.ending] := by
  have hstem : projectName ++ "." ++ key root excludeDirs ≠ "" := by
    intro h
    have hlength := congrArg String.length h
    simp at hlength
  obtain ⟨base, name, hposition⟩ := d.exists_intended_append
    (Path.join dir (projectName ++ "." ++ key root excludeDirs))
  refine ⟨base, name, fun file => ?_⟩
  have hpath : (ofProject dir projectName root excludeDirs).path file =
      Path.join dir (projectName ++ "." ++ key root excludeDirs ++ file.ending) := by
    cases file <;> rfl
  rw [hpath, Path.join_append _ hstem]
  exact hposition file.ending (by cases file <;> decide) (by cases file <;> decide)

/-- The two files of the cache lie at two positions, from every working directory. -/
def Apart (c : Cache) : Prop := ∀ d : Disk, d.intended c.dataPath ≠ d.intended c.stampPath

/-- The two cache files of a project have different paths. -/
lemma apart_ofProject (dir projectName root : String) (excludeDirs : List String) :
    (ofProject dir projectName root excludeDirs).Apart := by
  intro d h
  obtain ⟨base, name, hposition⟩ := exists_intended_ofProject d dir projectName root excludeDirs
  have hlast :=
    List.append_inj_right' (((hposition .data).symm.trans h).trans (hposition .stamp)) rfl
  have hfile := (CacheFile.append_ending_inj (List.singleton_inj.1 hlast)).2
  cases hfile

/-! ## Holding and loading -/

/-- The disk holds the facts and the stamp in the files of the cache. -/
structure Holds (c : Cache) (d : Disk) (files : ProjectFacts) (stamp : CacheStamp) : Prop where
  data : d.find c.dataPath = .ok (.file (Text.toBytes files.toJson.compact))
  stamp : d.find c.stampPath = .ok (.file (Text.toBytes stamp.toJson.pretty))

/-- The text of an object is not blank. -/
lemma trim_obj_ne_empty (l : Json.Layout) (ms : List (String × Json)) :
    Text.trim (String.ofList (Json.render l 0 (.obj ms))) ≠ "" := by
  obtain ⟨cs, hcs⟩ : ∃ cs, Json.render l 0 (.obj ms) = '\x7b' :: cs := by
    cases ms <;> exact ⟨_, rfl⟩
  have hblank : Text.isBlank '\x7b' = false := by decide
  simp only [Text.trim, Text.dropAround, Text.dropEndWhile, String.toList_ofList, hcs,
    List.dropWhile_cons, hblank]
  simp [List.dropWhile_eq_nil_iff, hblank]

/-- The text of a cache file that is there and not blank is read. -/
lemma yields_textOf (file : CacheFile) {text : String}
    (hfind : d.find (c.path file) = .ok (.file (Text.toBytes text))) (htext : Text.trim text ≠ "") :
    (c.textOf file).Yields d (some text) d := by
  have hread : d.readText (c.path file) = .ok text := Disk.readText_of_find hfind
  refine Job.yields_bind_iff.2 ⟨d, d, Job.yields_get_iff.2 ⟨rfl, rfl⟩, ?_⟩
  rw [if_pos (by simp [Disk.has, hfind, Except.toOption])]
  refine Job.yields_bind_iff.2 ⟨text, d, Job.yields_look_iff.2 ⟨hread, rfl⟩, ?_⟩
  rw [if_neg htext]
  exact Job.yields_pure_iff.2 ⟨rfl, rfl⟩

/-- What is held is loaded. -/
theorem Holds.yields_load (h : c.Holds d files stamp) (hrange : files.InRange) :
    c.load.Yields d (some (files, stamp)) d := by
  have hdata := yields_textOf .data h.data (trim_obj_ne_empty _ _)
  have hstamp := yields_textOf .stamp h.stamp (trim_obj_ne_empty _ _)
  refine Job.yields_bind_iff.2 ⟨_, d, hdata, ?_⟩
  refine Job.yields_bind_iff.2 ⟨_, d, hstamp, ?_⟩
  refine Job.yields_bind_iff.2
    ⟨files, d, yields_decode_iff.2 ⟨ProjectFacts.parse_compact hrange, rfl⟩, ?_⟩
  refine Job.yields_bind_iff.2 ⟨stamp, d, yields_decode_iff.2 ⟨stamp.parse_pretty, rfl⟩, ?_⟩
  exact Job.yields_pure_iff.2 ⟨rfl, rfl⟩

/-! ## Saving -/

/-- Making directories takes nothing out of the cache. -/
lemma Holds.of_makeDirs (h : c.Holds d files stamp) {path : String}
    (hmake : d.makeDirs path = .ok d') : c.Holds d' files stamp :=
  ⟨Disk.find_of_makeDirs hmake h.data, Disk.find_of_makeDirs hmake h.stamp⟩

/-- Writing a stamp replaces the stamp. -/
lemma Holds.of_writeStamp (hc : c.Apart) (h : c.Holds d files stamp) {stamp' : CacheStamp}
    (hwrite : d.write c.stampPath (Text.toBytes stamp'.toJson.pretty) = .ok d') :
    c.Holds d' files stamp' :=
  ⟨Disk.find_of_write_of_ne hwrite (hc d) h.data, Disk.find_of_write hwrite⟩

/-- Writing facts beside a stamp completes what the cache holds. -/
lemma holds_of_writeData (hc : c.Apart)
    (hstamp : d.find c.stampPath = .ok (.file (Text.toBytes stamp.toJson.pretty)))
    (hwrite : d.write c.dataPath (Text.toBytes files.toJson.compact) = .ok d') :
    c.Holds d' files stamp :=
  ⟨Disk.find_of_write hwrite, Disk.find_of_write_of_ne hwrite (hc d).symm hstamp⟩

/-- What was saved is held. -/
theorem holds_of_yields_save (hc : c.Apart) (h : (c.save files stamp).Yields d () d') :
    c.Holds d' files stamp := by
  obtain ⟨_, d₁, -, hrest⟩ := Job.yields_bind_iff.1 h
  obtain ⟨_, d₂, hstamp, hdata⟩ := Job.yields_bind_iff.1 hrest
  have hfound := Disk.find_of_write (yields_writeText_iff.1 hstamp)
  exact holds_of_writeData hc hfound (yields_writeText_iff.1 hdata)

end Cache

/-- A reading takes what a cache holds if the files agree with the stamp, whatever the facts are. -/
lemma Project.yields_read_of_holds {p : Project} {d : Disk} {files : ProjectFacts}
    {stamp : CacheStamp} {paths : List String} (huse : p.settings.useCache)
    (h : p.cache.Holds d files stamp) (hrange : files.InRange)
    (hagrees : stamp.agrees (d.checksums p.root paths)) :
    (p.read paths).Yields d ⟨files, stamp.failures, true⟩ d := by
  rw [read, if_pos huse]
  refine Job.yields_bind_iff.2 ⟨d, d, Job.yields_get_iff.2 ⟨rfl, rfl⟩, ?_⟩
  refine Job.yields_bind_iff.2 ⟨_, d, h.yields_load hrange, ?_⟩
  simp [Option.filter, hagrees]

end PhpCalls
