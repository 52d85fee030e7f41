import Mathlib.Data.List.Find
import PhpCalls.CommandLine.Run
import PhpCalls.Proofs.Files.Trail
import PhpCalls.Proofs.Job

set_option autoImplicit false

/-!
# Which choices count for a directory

The file with the choices of a project is looked for along the path of its directory, from its end
back to its beginning. So it is the file of the last directory on the way of the path that holds
one, and this is the nearest directory around the project that holds one unless the search strays:
the way may have gone up again out of a directory that holds a file, and the way of a relative path
begins in the working directory, below which it may stay.

## Main definitions

* `Config.isHeldAt`, `Config.heldAt?`: a directory holds a file with choices, and the choices in it.
* `Config.inForce?`: the choices in the first file that directories hold, or the defaults.
* `Config.Strays`: the search finds another file than the nearest one around a directory, or misses
  it.

## Main results

* `Config.search_eq`: the search goes back along the way of the path.
* `Config.find?_trail_eq_iff`: it finds the nearest file around the directory exactly if it does not
  stray.
* `config_found_on_trail`: the choices that count for a directory.
-/

namespace PhpCalls

namespace Config

variable {d d' : Disk} {path : String} {c : Config}

/-! ## Files with choices -/

/-- The directory at the position holds something with the name of a file of choices. -/
def isHeldAt (d : Disk) (position : List String) : Bool :=
  (d.tree.get? (position ++ [fileName])).isSome

/-- The choices in the file that the directory at the position holds, if they can be read. -/
def heldAt? (d : Disk) (position : List String) : Option Config :=
  match d.tree.get? (position ++ [fileName]) with
  | some (.file b) => (Text.ofBytes? b).bind ofText?
  | _ => none

/-- The choices in the first file that one of the directories holds, or else the defaults. -/
def inForce? (d : Disk) (directories : List (List String)) : Option Config :=
  match directories.find? (isHeldAt d) with
  | some position => heldAt? d position
  | none => some {}

/-- A path reads as a text exactly if there is a file whose bytes spell the text. -/
lemma readText_eq_ok_iff {text : String} :
    d.readText path = .ok text ↔
      ∃ b, d.find path = .ok (.file b) ∧ Text.ofBytes? b = some text := by
  constructor
  · intro h
    obtain ⟨b, hread, h⟩ := exists_of_bind_eq_ok h
    obtain ⟨t, hfind, hread⟩ := exists_of_bind_eq_ok hread
    cases t with
    | dir es => cases hread
    | file b' =>
      cases hread
      refine ⟨b, hfind, ?_⟩
      split at h
      · next s hs =>
        cases h
        exact hs
      · cases h
  · rintro ⟨b, hfind, hb⟩
    simp [Disk.readText, Disk.read, hfind, hb, bind, Except.bind]

/-- Choices are loaded from a file that can be read. -/
lemma yields_load_iff :
    (load path).Yields d c d' ↔
      d = d' ∧ ∃ text, d.readText path = .ok text ∧ ofText? text = some c := by
  rw [load, Job.yields_bind_iff]
  constructor
  · rintro ⟨text, d₁, hlook, h⟩
    obtain ⟨hread, rfl⟩ := Job.yields_look_iff.1 hlook
    cases htext : ofText? text with
    | none =>
      rw [htext] at h
      cases h
    | some c' =>
      rw [htext] at h
      obtain ⟨rfl, hd⟩ := Job.yields_pure_iff.1 h
      exact ⟨hd, text, hread, htext⟩
  · rintro ⟨rfl, text, hread, htext⟩
    refine ⟨text, d, Job.yields_look_iff.2 ⟨hread, rfl⟩, ?_⟩
    rw [htext]
    exact Job.yields_pure_iff.2 ⟨rfl, rfl⟩

/-! ## Searching -/

/-- The paths above a path begin where it does, and have the first of its names. -/
lemma of_mem_upwards {fuel : Nat} {q : String} (h : q ∈ upwards fuel path) :
    Path.isAbsolute q = Path.isAbsolute path ∧ Path.names q <+: Path.names path := by
  induction fuel generalizing path with
  | zero => cases h
  | succ fuel ih =>
    rw [upwards] at h
    rcases List.mem_cons.1 h with rfl | h
    · exact ⟨rfl, List.prefix_refl _⟩
    cases hparent : Path.parent? path with
    | none =>
      rw [hparent] at h
      cases h
    | some p =>
      rw [hparent] at h
      obtain ⟨hnames, habsolute, -⟩ := Path.names_of_parent? hparent
      obtain ⟨hq, hbegins⟩ := ih h
      rw [hnames] at hbegins
      exact ⟨hq.trans habsolute, hbegins.trans (List.dropLast_prefix _)⟩

/-- Of the paths from a path upwards, the first of a sort is found by the names that the path begins
with, the most names first. -/
lemma find?_upwards (sort : List String → Bool) {fuel : Nat} (hfuel : Path.steps path < fuel) :
    ((upwards fuel path).find? fun q => sort (Path.names q)).map Path.names =
      (Disk.ancestry (Path.names path)).find? sort := by
  induction fuel generalizing path with
  | zero => exact absurd hfuel (Nat.not_lt_zero _)
  | succ fuel ih =>
    rw [upwards]
    by_cases hsort : sort (Path.names path) = true
    · rw [List.find?_cons_of_pos (p := fun q => sort (Path.names q)) hsort]
      exact (Disk.find?_ancestry_eq_some hsort (List.prefix_refl _)
        fun q' hq' hle _ => hle.eq_of_length_le hq'.length_le).symm
    rw [List.find?_cons_of_neg (p := fun q => sort (Path.names q)) hsort]
    cases hparent : Path.parent? path with
    | none =>
      have hnone := Path.names_of_parent?_eq_none hparent
      rw [hnone] at hsort ⊢
      simp [Disk.ancestry, hsort]
    | some q =>
      obtain ⟨hnames, -, hsteps⟩ := Path.names_of_parent? hparent
      rw [Option.map_some, Option.getD_some, ih (by omega), hnames]
      rcases List.eq_nil_or_concat (Path.names path) with hnil | ⟨front, name, hfront⟩
      · rw [hnil]
        rfl
      · rw [hfront] at hsort ⊢
        rw [List.concat_eq_append] at hsort ⊢
        rw [List.dropLast_concat, Disk.ancestry_concat, List.find?_cons_of_neg hsort]

/-- The position that another path leads to from where a path starts. -/
def reached (d : Disk) (path q : String) : List String :=
  (Path.names q).foldl Disk.advance (d.start path).1

/-- Each of the paths above the path of a directory leads to a directory, and what is found there
under the name of a file of choices is what it holds. -/
lemma find_join_fileName (hdir : d.isDir path = true) {fuel : Nat} {q : String}
    (hq : q ∈ upwards fuel path) (t : FileTree) : d.find (Path.join q fileName) = .ok t ↔
      d.tree.get? (reached d path q ++ [fileName]) = some t := by
  obtain ⟨base, -, hfollow, hbase⟩ := Disk.exists_of_isDir hdir
  obtain ⟨habsolute, hnames⟩ := of_mem_upwards hq
  obtain ⟨m, hm, hmdir⟩ := Disk.exists_follow_of_prefix hnames hfollow hbase
  have hstart : (d.start q).1 = (d.start path).1 := by
    rw [Disk.start_fst, Disk.start_fst, habsolute]
  rw [← hstart] at hm
  rw [reached, ← hstart, ← Disk.follow_eq_ok hm]
  exact Disk.find_join (by decide) (by decide) (by decide) hm hmdir t

/-- Looking for a file of choices at a path above is looking at the position that the path
reaches. -/
lemma has_join_fileName (hdir : d.isDir path = true) {fuel : Nat} {q : String}
    (hq : q ∈ upwards fuel path) :
    d.has (Path.join q fileName) = isHeldAt d (reached d path q) := by
  have hfile := find_join_fileName hdir hq
  rw [Disk.has, isHeldAt, Bool.eq_iff_iff]
  cases hfind : d.find (Path.join q fileName) with
  | error e =>
    have hnone : d.tree.get? (reached d path q ++ [fileName]) = none := by
      refine Option.eq_none_iff_forall_ne_some.2 fun t ht => ?_
      have hok := (hfile t).2 ht
      rw [hfind] at hok
      cases hok
    rw [hnone]
    rfl
  | ok t =>
    rw [(hfile t).1 hfind]
    rfl

/-- The positions on the way of a path are those that it and the paths above it lead to. -/
lemma find?_trail (sort : List String → Bool) : (d.trail path).find? sort =
    ((upwards (path.length + 2) path).find? fun q => sort (reached d path q)).map
      (reached d path) := by
  have hsteps : Path.steps path < path.length + 2 := Nat.lt_succ_of_le (Path.steps_le_length path)
  have hfound := find?_upwards (fun ps => sort (ps.foldl Disk.advance (d.start path).1)) hsteps
  rw [Disk.trail, Disk.passed_eq_map_ancestry, List.find?_map]
  change ((Disk.ancestry (Path.names path)).find? fun ps =>
    sort (ps.foldl Disk.advance (d.start path).1)).map _ = _
  rw [← hfound, Option.map_map]
  rfl

/-- The search goes back along the way of the path, and finds the file of the first directory that
holds one. -/
theorem search_eq (hdir : d.isDir path = true) :
    (∀ position, (d.trail path).find? (isHeldAt d) = some position →
      ∃ file, search d path = some file ∧
        ∀ t, d.find file = .ok t ↔ d.tree.get? (position ++ [fileName]) = some t) ∧
    ((d.trail path).find? (isHeldAt d) = none → search d path = none) := by
  have hsearch : search d path = ((upwards (path.length + 2) path).find? fun q =>
      isHeldAt d (reached d path q)).map fun p => Path.join p fileName := by
    rw [search, List.find?_map]
    exact congrArg (Option.map _) (List.find?_congr fun q hq => has_join_fileName hdir hq)
  rw [hsearch, find?_trail]
  cases hfound : (upwards (path.length + 2) path).find? fun q => isHeldAt d (reached d path q) with
  | none =>
    refine ⟨fun position h => ?_, fun _ => rfl⟩
    cases h
  | some q =>
    refine ⟨fun position h => ?_, fun h => ?_⟩
    · obtain rfl := Option.some.inj h
      exact ⟨_, rfl, find_join_fileName hdir (List.mem_of_find?_eq_some hfound)⟩
    · cases h

/-- The file that is found is loaded. -/
lemma yields_find_of_search_some {file : String} (h : search d path = some file) :
    (find path).Yields d c d' ↔ (load file).Yields d c d' := by
  rw [find, Job.yields_bind_iff]
  constructor
  · rintro ⟨d₁, d₂, hget, hload⟩
    obtain ⟨rfl, rfl⟩ := Job.yields_get_iff.1 hget
    rwa [h] at hload
  · intro hload
    refine ⟨d, d, Job.yields_get_iff.2 ⟨rfl, rfl⟩, ?_⟩
    rwa [h]

/-- Without a file there are the defaults. -/
lemma yields_find_of_search_none (h : search d path = none) :
    (find path).Yields d c d' ↔ {} = c ∧ d = d' := by
  rw [find, Job.yields_bind_iff]
  constructor
  · rintro ⟨d₁, d₂, hget, hpure⟩
    obtain ⟨rfl, rfl⟩ := Job.yields_get_iff.1 hget
    rw [h] at hpure
    exact Job.yields_pure_iff.1 hpure
  · intro hpure
    refine ⟨d, d, Job.yields_get_iff.2 ⟨rfl, rfl⟩, ?_⟩
    rw [h]
    exact Job.yields_pure_iff.2 hpure

/-- The choices that count for a directory are those in force along the way of its path. -/
theorem yields_find_iff (hdir : d.isDir path = true) :
    (find path).Yields d c d' ↔ d = d' ∧ inForce? d (d.trail path) = some c := by
  obtain ⟨hsome, hnone⟩ := search_eq hdir
  rw [inForce?]
  cases htrail : (d.trail path).find? (isHeldAt d) with
  | none =>
    rw [yields_find_of_search_none (hnone htrail)]
    simp [and_comm]
  | some position =>
    obtain ⟨file, hsearch, hfile⟩ := hsome position htrail
    rw [yields_find_of_search_some hsearch, yields_load_iff]
    dsimp only
    rw [heldAt?]
    refine and_congr_right fun _ => ?_
    simp only [readText_eq_ok_iff, hfile]
    constructor
    · rintro ⟨text, ⟨b, hb, hbytes⟩, htext⟩
      rw [hb]
      simp [hbytes, htext]
    · intro h
      split at h
      · next b hb =>
        obtain ⟨text, hbytes, htext⟩ := Option.bind_eq_some_iff.1 h
        exact ⟨text, ⟨b, hb, hbytes⟩, htext⟩
      · cases h

/-! ## Straying -/

/-- The search for the choices of a directory at `base` does not find what the nearest directory
around it holds: a directory that the path has left again holds a file, or none on the way of a
relative path does, and one above the working directory does. -/
inductive Strays (d : Disk) (path : String) (base : List String) : Prop
  | aside (position : List String) (found : (d.trail path).find? (isHeldAt d) = some position)
      (outside : ¬ position <+: base) (up : ".." ∈ Path.names path)
  | above (position : List String) (found : (d.trail path).find? (isHeldAt d) = none)
      (held : isHeldAt d position = true) (around : position <+: base)
      (relative : Path.isAbsolute path = false)

/-- The search finds the nearest file around a directory exactly if it does not stray. -/
theorem find?_trail_eq_iff {base : List String}
    (hbase : base = (Path.names path).foldl Disk.advance (d.start path).1) :
    (d.trail path).find? (isHeldAt d) = (Disk.ancestry base).find? (isHeldAt d) ↔
      ¬ Strays d path base := by
  constructor
  · rintro hsame (⟨position, hfound, houtside, -⟩ | ⟨position, hfound, hheld, haround, -⟩)
    · rw [hsame] at hfound
      exact houtside (Disk.mem_ancestry_iff.1 (List.mem_of_find?_eq_some hfound))
    · rw [hsame] at hfound
      exact List.find?_eq_none.1 hfound position (Disk.mem_ancestry_iff.2 haround) hheld
  · intro hstay
    cases hfound : (d.trail path).find? (isHeldAt d) with
    | some position =>
      have haround : position <+: base := by
        by_contra houtside
        refine hstay (.aside position hfound houtside ?_)
        by_contra hup
        exact houtside (hbase ▸
          (Disk.prefix_of_mem_passed hup (List.mem_of_find?_eq_some hfound)).2)
      refine (Disk.find?_ancestry_eq_some (List.find?_some hfound) haround fun q' hle hq' hheld =>
        ?_).symm
      exact Disk.eq_of_find?_passed hfound hle (hbase ▸ hq') hheld
    | none =>
      refine (List.find?_eq_none.2 fun position hposition hheld => ?_).symm
      have haround := Disk.mem_ancestry_iff.1 hposition
      cases habsolute : Path.isAbsolute path with
      | false => exact hstay (.above position hfound hheld haround habsolute)
      | true =>
        -- the way begins at the root, so it passes through all that is around its end
        have horigin : (d.start path).1 = [] := by rw [Disk.start_fst, if_pos habsolute]
        have hself := Disk.mem_passed_self (d.start path).1 (Path.names path)
        have hmem : position ∈ d.trail path := by
          rcases Disk.mem_passed_or_prefix (hbase ▸ haround) with hmem | hall
          · exact hmem
          · have hroot := hall _ hself
            rw [horigin, List.prefix_nil] at hroot
            rw [hroot, ← horigin]
            exact hself
        exact List.find?_eq_none.1 hfound position hmem hheld

end Config

/-- **The choices of the nearest directory count, unless the search strays.** For the path of a
directory, the choices that count are those of the first directory that holds a file on the way of
the path, from its end back; the defaults, if none does. This is the nearest directory that holds
one among the directory itself and those around it, up to the root, exactly if the search does not
stray; and it does not stray on an absolute path without `..`, nor does it find anything else for
another path of the same directory, unless one of the two strays. -/
theorem config_found_on_trail {d : Disk} {path : String} (hdir : d.isDir path = true) :
    ∃ base, d.locate path = .ok base ∧
      (∀ c d', (Config.find path).Yields d c d' ↔
        d = d' ∧ Config.inForce? d (d.trail path) = some c) ∧
      ((d.trail path).find? (Config.isHeldAt d) = (Disk.ancestry base).find? (Config.isHeldAt d) ↔
        ¬ Config.Strays d path base) ∧
      (Path.isAbsolute path = true → ".." ∉ Path.names path → ¬ Config.Strays d path base) ∧
      ∀ other, d.isDir other = true → d.locate other = .ok base → ¬ Config.Strays d path base →
        ¬ Config.Strays d other base →
        ∀ c d', (Config.find path).Yields d c d' ↔ (Config.find other).Yields d c d' := by
  obtain ⟨base, hlocate, hfollow, -⟩ := Disk.exists_of_isDir hdir
  have hnearest := Config.find?_trail_eq_iff (Disk.follow_eq_ok hfollow)
  refine ⟨base, hlocate, fun c d' => Config.yields_find_iff hdir, hnearest, ?_, ?_⟩
  · rintro habsolute hdown (⟨-, -, -, hup⟩ | ⟨-, -, -, -, hrelative⟩)
    · exact hdown hup
    · exact absurd (habsolute.symm.trans hrelative) (by decide)
  · intro other hother hsame hstay hstay' c d'
    have hbase : base = (Path.names other).foldl Disk.advance (d.start other).1 := by
      rw [← Disk.intended_eq_names]
      exact Disk.locate_eq_ok hsame
    have hfound := (hnearest.2 hstay).trans ((Config.find?_trail_eq_iff hbase).2 hstay').symm
    rw [Config.yields_find_iff hdir, Config.yields_find_iff hother, Config.inForce?,
      Config.inForce?, hfound]

/-- A disk with a file of choices beside a directory. -/
def strayDisk : Disk where
  tree := .dir
    [("a", .dir [(".callmap.toml", .file (Text.toBytes "[general]\nproject_name = \"stray\"\n"))]),
      ("b", .dir [])]
  here := []

/-- For the directory `b`, the path through `a` finds what `a` holds, and the path from the root
finds nothing. -/
theorem config_found_on_trail_aside :
    strayDisk.isDir "/a/../b" = true ∧ strayDisk.isDir "/b" = true ∧
    strayDisk.locate "/a/../b" = .ok ["b"] ∧ strayDisk.locate "/b" = .ok ["b"] ∧
    Config.Strays strayDisk "/a/../b" ["b"] ∧
    (Config.find "/a/../b").Yields strayDisk { projectName := "stray" } strayDisk ∧
    (Config.find "/b").Yields strayDisk {} strayDisk := by
  have hdirs : strayDisk.isDir "/a/../b" = true ∧ strayDisk.isDir "/b" = true := by decide +kernel
  have htrails : (strayDisk.trail "/a/../b").find? (Config.isHeldAt strayDisk) = some ["a"] ∧
      (strayDisk.trail "/b").find? (Config.isHeldAt strayDisk) = none := by decide +kernel
  have hends : strayDisk.intended "/a/../b" = ["b"] ∧ strayDisk.intended "/b" = ["b"] := by
    decide +kernel
  have hup : ".." ∈ Path.names "/a/../b" := by decide +kernel
  have hfile : strayDisk.tree.get? (["a"] ++ [Config.fileName]) =
      some (.file (Text.toBytes "[general]\nproject_name = \"stray\"\n")) := by
    simp [strayDisk, Config.fileName]
  have htext :
      Config.ofText? "[general]\nproject_name = \"stray\"\n" = some { projectName := "stray" } := by
    decide +kernel
  obtain ⟨base, hbase, hfind, -⟩ := config_found_on_trail hdirs.1
  obtain ⟨base', hbase', hfind', -⟩ := config_found_on_trail hdirs.2
  obtain rfl := (Disk.locate_eq_ok hbase).trans hends.1
  obtain rfl := (Disk.locate_eq_ok hbase').trans hends.2
  refine ⟨hdirs.1, hdirs.2, hbase, hbase', .aside ["a"] htrails.1 (by decide) hup, ?_, ?_⟩
  · refine (hfind _ _).2 ⟨rfl, ?_⟩
    simp only [Config.inForce?, htrails.1, Config.heldAt?, hfile, Text.ofBytes?_toBytes,
      Option.bind_some, htext]
  · refine (hfind' _ _).2 ⟨rfl, ?_⟩
    simp only [Config.inForce?, htrails.2]

end PhpCalls
