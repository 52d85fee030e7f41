import PhpCalls.Proofs.Cache.Reload
import PhpCalls.Proofs.Cache.Transparency

set_option autoImplicit false

/-!
# A save that stops midway

A save makes its directory, writes the stamp and then the facts. If it stops before its last step,
or if a step fails, the files of an earlier save are still there, except that the stamp may be the
new one. What is loaded then are the facts of the earlier save under the stamp of the later one, and
if the sources agree with that stamp, a reading takes them for the facts of the sources.

## Main definitions

* `Cache.saveSteps`: the steps of a save.
* `Cache.SaveReaches`: the disks that the first steps of a save lead to.

## Main results

* `Cache.exists_saveReaches_of_error`: a save that fails has done some of its steps and nothing
  else.
* `load_of_stopped_save`: what is loaded and read after a save that stopped.
-/

namespace PhpCalls

namespace Job

/-- Pieces of work, one after the other. -/
def inTurn : List (Job Unit) → Job Unit
  | [] => pure ()
  | x :: xs => do
    x
    inTurn xs

/-- A change that fails leaves the disk as it was. -/
lemma run_change_of_error {fault : Fault} {f : Disk → Except FileFault Disk} {d : Disk}
    {e : FileFault} (h : f d = .error e) : (change fault f).run.run d = (.error fault, d) := by
  have hget : (get : Job Disk).run.run d = (.ok d, d) := rfl
  have hlook : (look (fun _ => fault) f).run.run d = (.error fault, d) := by
    rw [look, run_bind, hget]
    simp only [h]
    rfl
  rw [change, run_bind, hlook]

/-- A change that fails leaves the disk as it is. -/
lemma disk_of_change_error {fault e : Fault} {f : Disk → Except FileFault Disk} {d d' : Disk}
    (h : (change fault f).run.run d = (.error e, d')) : d' = d := by
  cases hf : f d with
  | error e' =>
    rw [run_change_of_error hf] at h
    exact (Prod.mk.inj h).2.symm
  | ok d₁ =>
    have hyields : (change fault f).Yields d () d₁ := yields_change_iff.2 hf
    rw [Yields, h] at hyields
    cases hyields

/-- Work in turn that fails has done some of its pieces, if a piece that fails does nothing. -/
lemma exists_take_of_error {xs : List (Job Unit)}
    (hclean : ∀ x ∈ xs, ∀ d e d', x.run.run d = (.error e, d') → d' = d) {d d' : Disk} {e : Fault}
    (h : (inTurn xs).run.run d = (.error e, d')) :
    ∃ n < xs.length, (inTurn (xs.take n)).Yields d () d' := by
  induction xs generalizing d with
  | nil => cases h
  | cons x xs ih =>
    rw [inTurn, run_bind] at h
    rcases hx : x.run.run d with ⟨e' | ⟨⟩, d₁⟩
    · -- the first piece failed
      obtain rfl := hclean x List.mem_cons_self d e' d₁ hx
      rw [hx] at h
      obtain rfl := (Prod.mk.inj h).2
      exact ⟨0, Nat.succ_pos _, yields_pure_iff.2 ⟨rfl, rfl⟩⟩
    · rw [hx] at h
      obtain ⟨n, hn, hyields⟩ := ih (fun y hy => hclean y (List.mem_cons_of_mem _ hy)) h
      exact ⟨n + 1, Nat.succ_lt_succ hn, yields_bind_iff.2 ⟨(), d₁, hx, hyields⟩⟩

end Job

namespace Cache

variable {c : Cache} {d d' : Disk} {files files₀ files₁ : ProjectFacts}
  {stamp stamp₀ stamp₁ : CacheStamp} {n : Nat}

/-- The steps of a save, in their order. -/
def saveSteps (c : Cache) (files : ProjectFacts) (stamp : CacheStamp) : List (Job Unit) :=
  [Job.change .cacheDirectory fun d => d.makeDirs c.dir,
   Job.writeText c.stampPath stamp.toJson.pretty,
   Job.writeText c.dataPath files.toJson.compact]

/-- Saving is its steps in turn. -/
lemma save_eq_inTurn (c : Cache) (files : ProjectFacts) (stamp : CacheStamp) :
    c.save files stamp = Job.inTurn (c.saveSteps files stamp) := by
  simp [save, saveSteps, Job.inTurn]

/-- The first `n` steps of a save lead from one disk to another. -/
def SaveReaches (c : Cache) (files : ProjectFacts) (stamp : CacheStamp) (n : Nat)
    (d d' : Disk) : Prop :=
  (Job.inTurn ((c.saveSteps files stamp).take n)).Yields d () d'

/-- A save that fails has done some of its steps and nothing else. -/
lemma exists_saveReaches_of_error {e : Fault}
    (h : (c.save files stamp).run.run d = (.error e, d')) :
    ∃ n < 3, c.SaveReaches files stamp n d d' := by
  rw [save_eq_inTurn] at h
  refine Job.exists_take_of_error (fun x hx d e d' hfail => ?_) h
  -- every step is a change of the disk
  simp only [saveSteps, List.mem_cons, List.not_mem_nil, or_false] at hx
  rcases hx with rfl | rfl | rfl <;> exact Job.disk_of_change_error hfail

/-- What a cache holds after the first steps of a save: the new stamp from the second step on, and
the new facts from the third step on. -/
lemma Holds.of_saveReaches (hc : c.Apart) (h : c.Holds d files₀ stamp₀)
    (hreach : c.SaveReaches files₁ stamp₁ n d d') :
    c.Holds d' (if n < 3 then files₀ else files₁) (if n < 2 then stamp₀ else stamp₁) := by
  match n with
  | 0 =>
    obtain ⟨-, rfl⟩ := Job.yields_pure_iff.1 hreach
    exact h
  | 1 =>
    obtain ⟨_, d₁, hmake, hrest⟩ := Job.yields_bind_iff.1 hreach
    obtain ⟨-, rfl⟩ := Job.yields_pure_iff.1 hrest
    exact h.of_makeDirs (Job.yields_change_iff.1 hmake)
  | 2 =>
    obtain ⟨_, d₁, hmake, hrest⟩ := Job.yields_bind_iff.1 hreach
    obtain ⟨_, d₂, hstamp, hrest⟩ := Job.yields_bind_iff.1 hrest
    obtain ⟨-, rfl⟩ := Job.yields_pure_iff.1 hrest
    exact (h.of_makeDirs (Job.yields_change_iff.1 hmake)).of_writeStamp hc
      (yields_writeText_iff.1 hstamp)
  | n + 3 =>
    rw [SaveReaches, List.take_of_length_le (Nat.le_add_left 3 n), ← save_eq_inTurn] at hreach
    rw [if_neg (by omega), if_neg (by omega)]
    exact holds_of_yields_save hc hreach

end Cache

/-- **A save that stops midway.** After a complete save, whatever was done to other files, another
save stops after some of its steps. What is loaded then are facts and stamp of the first save, or
the facts of the first under the stamp of the second if this one is written and its facts are not,
or facts and stamp of the second. A save in which a step fails is one that stops before it. Where
the stamp of the second save agrees with the files, a reading takes the facts of the first save for
theirs.

**Proof sketch.** Each step of a save replaces at most one of the two texts that the cache holds
(`Cache.Holds.of_saveReaches`), and what is held is what is loaded. -/
theorem load_of_stopped_save {p : Project} {files₀ files₁ : ProjectFacts}
    {stamp₀ stamp₁ : CacheStamp} {d₀ d₁ d : Disk} (hrange₀ : files₀.InRange)
    (hrange₁ : files₁.InRange) (hsave : (p.cache.save files₀ stamp₀).Yields d₀ () d₁)
    (hkept : ∀ file, d.find (p.cache.path file) = d₁.find (p.cache.path file)) :
    (∀ n d', p.cache.SaveReaches files₁ stamp₁ n d d' →
      p.cache.load.Yields d' (some (if n < 3 then files₀ else files₁,
        if n < 2 then stamp₀ else stamp₁)) d') ∧
    (∀ e d', (p.cache.save files₁ stamp₁).run.run d = (.error e, d') →
      ∃ n < 3, p.cache.SaveReaches files₁ stamp₁ n d d') ∧
    (∀ d' paths, p.settings.useCache → p.cache.SaveReaches files₁ stamp₁ 2 d d' →
      stamp₁.agrees (d'.checksums p.root paths) →
      (p.read paths).Yields d' ⟨files₀, stamp₁.failures, true⟩ d') := by
  have hapart : p.cache.Apart := Cache.apart_ofProject _ _ _ _
  have hsaved := Cache.holds_of_yields_save hapart hsave
  have hholds : p.cache.Holds d files₀ stamp₀ :=
    ⟨(hkept .data).trans hsaved.data, (hkept .stamp).trans hsaved.stamp⟩
  refine ⟨fun n d' hreach => ?_, fun e d' => Cache.exists_saveReaches_of_error,
    fun d' paths huse hreach hagrees => ?_⟩
  · refine (hholds.of_saveReaches hapart hreach).yields_load ?_
    split_ifs
    · exact hrange₀
    · exact hrange₁
  · exact Project.yields_read_of_holds huse (hholds.of_saveReaches hapart hreach) hrange₀ hagrees

/-- The facts of the source in `/shop`. -/
def shopFacts (source : String) : ProjectFacts :=
  ((shopDisk source).readAll "/shop" ["/shop/a.php"]).1

/-- The stamp of the facts of the source in `/shop`. -/
def shopStamp (source : String) : CacheStamp :=
  .now ((shopDisk source).checksums "/shop" ["/shop/a.php"]) []

/-- The file of the example can be read, whatever its source is. -/
lemma read_shopDisk (source : String) :
    (shopDisk source).read "/shop/a.php" = .ok (Text.toBytes source) := rfl

/-- A disk with the source in its place holds its facts. -/
lemma readAll_eq_shopFacts {d : Disk} {source : String}
    (h : d.read "/shop/a.php" = .ok (Text.toBytes source)) :
    (d.readAll "/shop" ["/shop/a.php"]).1 = shopFacts source := by
  simp only [shopFacts, Disk.readAll, Disk.readFacts, List.map_cons, List.map_nil, h, read_shopDisk]

/-- The facts of the example can be stored if its source is not too long. -/
lemma inRange_shopFacts {source : String} (h : (Text.toBytes source).size + 1 < Decoder.natBound) :
    (shopFacts source).InRange := by
  have hread := read_shopDisk source
  have hwithin : (shopDisk source).ReadsWithin {Text.toBytes source} ["/shop/a.php"] := by
    intro path hpath b hb
    obtain rfl := List.mem_singleton.1 hpath
    rw [hread] at hb
    exact (Except.ok.inj hb).symm
  rw [shopFacts, Disk.readAll_fst]
  refine Sources.inRange_facts hwithin.sources fun b hb => ?_
  rw [Set.mem_singleton_iff.1 hb]
  exact h

/-- The source was read and then changed, and the save after the next reading stopped before its
last step. What is read from then on is not what the source holds. -/
theorem load_of_stopped_save_shop : ∃ d₁ d d',
    ((shop []).cache.save (shopFacts "<?php f();") (shopStamp "<?php f();")).Yields
      (shopDisk "<?php f();") () d₁ ∧
    d₁.write "/shop/a.php" (Text.toBytes "<?php g();") = .ok d ∧
    (shop []).cache.SaveReaches (shopFacts "<?php g();") (shopStamp "<?php g();") 2 d d' ∧
    (shop []).cache.load.Yields d' (some (shopFacts "<?php f();", shopStamp "<?php g();")) d' ∧
    ((shop []).read ["/shop/a.php"]).Yields d' ⟨shopFacts "<?php f();", [], true⟩ d' ∧
    (d'.readAll "/shop" ["/shop/a.php"]).1 = shopFacts "<?php g();" ∧
    shopFacts "<?php f();" ≠ shopFacts "<?php g();" := by
  have hplace : ∀ file, (shop []).cache.position file ≠ Path.position "/shop/a.php"
    | .data => by decide +kernel
    | .stamp => by decide +kernel
  obtain ⟨⟨⟩, hrun⟩ := Job.exists_yields_of_isOk
    (x := do
      (shop []).cache.save (shopFacts "<?php f();") (shopStamp "<?php f();")
      Job.writeText "/shop/a.php" "<?php g();"
      Job.inTurn
        (((shop []).cache.saveSteps (shopFacts "<?php g();") (shopStamp "<?php g();")).take 2))
    (d := shopDisk "<?php f();") (by decide +kernel)
  obtain ⟨_, d₁, hsave, hrest⟩ := Job.yields_bind_iff.1 hrun
  obtain ⟨_, d, hwrite, hreach⟩ := Job.yields_bind_iff.1 hrest
  have hwritten := Cache.yields_writeText_iff.1 hwrite
  have hapart : (shop []).cache.Apart := Cache.apart_ofProject _ _ _ _
  have hholds := Cache.holds_of_yields_save hapart hsave
  have hkept :
      ∀ file, d.find ((shop []).cache.path file) = d₁.find ((shop []).cache.path file) := by
    intro file
    have hne : d₁.intended ((shop []).cache.path file) ≠ d₁.intended "/shop/a.php" := by
      rw [Path.intended_eq_position (Project.isAbsolute_cache_path (by decide) file),
        Path.intended_eq_position (by decide)]
      exact hplace file
    cases file with
    | data => exact (Disk.find_of_write_of_ne hwritten hne hholds.data).trans hholds.data.symm
    | stamp => exact (Disk.find_of_write_of_ne hwritten hne hholds.stamp).trans hholds.stamp.symm
  have hrange : (shopFacts "<?php g();").InRange := inRange_shopFacts (by decide +kernel)
  obtain ⟨hload, -, hread⟩ :=
    load_of_stopped_save (inRange_shopFacts (by decide +kernel)) hrange hsave hkept
  refine ⟨d₁, d, _, hsave, hwritten, hreach, hload 2 _ hreach,
    hread _ _ rfl hreach (by decide +kernel), ?_, fun hsame => ?_⟩
  · refine readAll_eq_shopFacts ?_
    decide +kernel
  · -- the calls in the two sources have different names
    have hnames := congrArg (fun files : ProjectFacts =>
      files.entries.map fun e => e.2.methods.map fun r => r.calls.map Call.name) hsame
    exact absurd hnames (by decide +kernel)

end PhpCalls
