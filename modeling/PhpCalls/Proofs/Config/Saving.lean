import PhpCalls.Proofs.Config.Search
import PhpCalls.Proofs.Files.Survival
import PhpCalls.Proofs.Toml.Document

set_option autoImplicit false

/-!
# Saving and loading choices

The choices of a project are written as a document of five tables, and read back from it as they
were.

## Main definitions

* `Config.Storable`: no number is too great for a file.
* `Config.tables`: the tables of choices.
* `Disk.Writable`: something can be written at a path.

## Main results

* `Config.toText?_eq_document`, `Config.ofToml?_tables`: choices as a document, and back.
* `Config.ofText?_of_toText?`: the text of choices is read back.
* `load_of_save`: what can be saved, and that it is loaded as it was saved.
-/

namespace PhpCalls

namespace Config

open Toml (Table Written)

/-- No number is too great for a file. -/
def Storable (c : Config) : Prop := c.workers < numberBound ∧ c.ambiguityCap < numberBound

/-! ## The five tables -/

section Tables

variable (c : Config) (h : c.Storable)

/-- The table of the project. -/
def generalTable : Table :=
  .ofKeys "general" ["project_name", "workers"]
    [("project_name", .str c.projectName), ("workers", .nat c.workers h.1)] rfl (by decide)

/-- The table of what is left out. -/
def ignoreTable : Table :=
  .ofKeys "ignore" ["dirs", "paths"]
    [("dirs", .strs c.excludeDirs), ("paths", .strs c.ignorePaths)] rfl (by decide)

/-- The table of the choice of candidates. -/
def resolveTable : Table :=
  .ofKeys "resolve" ["import_filter", "ambiguity_cap"]
    [("import_filter", .bool c.importFilter), ("ambiguity_cap", .nat c.ambiguityCap h.2)] rfl
      (by decide)

/-- The table of the cache. -/
def cacheTable : Table :=
  .ofKeys "cache" ["enabled", "dir"]
    [("enabled", .bool c.cacheEnabled), ("dir", .str c.cacheDir)] rfl (by decide)

/-- The keys of results. -/
def outputKeys : List String :=
  if c.outputStem.isSome then ["prefix", "split", "pretty"] else ["split", "pretty"]

/-- The table of results; how their names begin may be left out. -/
def outputTable : Table :=
  .ofKeys "output" c.outputKeys
    ((c.outputStem.map fun s => ("prefix", .str s)).toList ++
      [("split", .bool c.splitOutput), ("pretty", .bool c.prettyOutput)])
    (by rw [outputKeys]; cases c.outputStem <;> rfl)
    (by rw [outputKeys]; split <;> decide)

/-- The table of output choices: the stem stands in it only if there is one. -/
lemma entries_outputTable : c.outputTable.entries =
    (c.outputStem.map fun s => ("prefix", .str s)).toList ++
      [("split", .bool c.splitOutput), ("pretty", .bool c.prettyOutput)] :=
  rfl

/-- The tables of choices. -/
def tables : List Table :=
  [c.generalTable h, c.ignoreTable, c.resolveTable h, c.cacheTable, c.outputTable]

/-- The tables of a file of choices have different names. -/
lemma nodup_tables : ((c.tables h).map Table.name).Nodup :=
  (by decide : ["general", "ignore", "resolve", "cache", "output"].Nodup)

end Tables

/-! ## Writing -/

/-- The text of choices is the document of their tables. -/
lemma toText?_eq_document {c : Config} (h : c.Storable) :
    c.toText? = some (Toml.document (c.tables h)) := by
  have hbound :
      (decide (c.workers < numberBound) && decide (c.ambiguityCap < numberBound)) = true := by
    simpa [Storable] using h
  have hoptional : (c.outputTable.entries.map fun e => (e.1, e.2.text)) =
      (c.outputStem.map fun s => ("prefix", Toml.quote s)).toList ++
        [("split", Toml.boolean c.splitOutput), ("pretty", Toml.boolean c.prettyOutput)] := by
    rw [entries_outputTable]
    cases c.outputStem <;> rfl
  rw [toText?, if_pos hbound, ← hoptional]
  rfl

/-- Choices with a number that is too large have no text. -/
lemma toText?_eq_none {c : Config} (h : ¬ c.Storable) : c.toText? = none := by
  rw [toText?, if_neg]
  simpa [Storable] using h

/-! ## Reading -/

/-- The sections of a document are its tables. -/
lemma sectionOf_document {ts : List Table}
    (hnames : (ts.map Table.name).Nodup) {t : Table} (ht : t ∈ ts) (keys : List String) :
    sectionOf (.table (ts.map fun t => (t.name, t.value))) t.name keys =
      some (t.entries.map fun e => (e.1, e.2.value)) := by
  have hlookup : (ts.map fun t => (t.name, t.value)).lookup t.name = some t.value :=
    lookup_of_mem (e := (t.name, t.value)) (by simpa [Function.comp_def] using hnames)
      (List.mem_map_of_mem ht)
  rw [sectionOf, Toml.member?, hlookup]
  rfl

section Entries

variable {α : Type} (es : List (String × Toml)) {k k' : String} (v : Toml) (default : α)
  (read : Toml → Option α)

/-- A key without an entry has its default. -/
lemma entry_nil : entry [] k default read = some default := rfl

/-- A key has the value of the first entry under it. -/
lemma entry_cons_self : entry ((k, v) :: es) k default read = read v := by
  rw [entry, List.lookup_cons, beq_self_eq_true]

/-- An entry under another key is passed over. -/
lemma entry_cons_of_ne (h : k ≠ k') :
    entry ((k', v) :: es) k default read = entry es k default read := by
  rw [entry, List.lookup_cons, beq_eq_false_iff_ne.2 h, entry]

/-- The second of two entries is found under its key. -/
lemma entry_second (v' : Toml) (h : k' ≠ k) :
    entry [(k, v), (k', v')] k' default read = read v' := by
  rw [entry_cons_of_ne _ _ _ _ h, entry_cons_self]

end Entries

/-- A text is read back as itself. -/
@[simp] lemma text?_str (s : String) : text? (.str s) = some s := rfl

/-- A truth value is read back as itself. -/
@[simp] lemma boolean?_bool (b : Bool) : boolean? (.bool b) = some b := rfl

/-- A number that is not negative is read back as itself. -/
@[simp] lemma number?_int (n : Nat) : number? (.int n) = some n := by
  simp [number?]

/-- A list of texts is read back as itself. -/
@[simp] lemma texts?_map_str (es : List String) : texts? (.arr (es.map .str)) = some es := by
  have hmap : (es.map Toml.str).mapM text? = some es := by
    induction es with
    | nil => rfl
    | cons e es ih => simp [List.mapM_cons, ih]
  exact hmap

/-- What is said about results is read back, also if it is not said how their names begin. -/
lemma entry_outputTable (c : Config) {es : List (String × Toml)}
    (hes : es = c.outputTable.entries.map fun e => (e.1, e.2.value)) :
    (entry es "prefix" none fun v => (text? v).map some) = some c.outputStem ∧
      (∀ default, entry es "split" default boolean? = some c.splitOutput) ∧
      ∀ default, entry es "pretty" default boolean? = some c.prettyOutput := by
  rw [entries_outputTable] at hes
  subst hes
  cases c.outputStem with
  | none => simp [entry_nil, entry_cons_self, entry_cons_of_ne, Written.bool]
  | some s => simp [entry_cons_self, entry_cons_of_ne, Written.str, Written.bool]

/-- Choices are found in their tables. -/
lemma ofToml?_tables {c : Config} (h : c.Storable) :
    ofToml? (.table ((c.tables h).map fun t => (t.name, t.value))) = some c := by
  have hsection : ∀ t ∈ c.tables h, ∀ keys,
      sectionOf (.table ((c.tables h).map fun t => (t.name, t.value))) t.name keys =
        some (t.entries.map fun e => (e.1, e.2.value)) :=
    fun t ht => sectionOf_document (c.nodup_tables h) ht
  have hgeneral : ∀ keys, sectionOf _ "general" keys =
      some [("project_name", .str c.projectName), ("workers", .int c.workers)] :=
    hsection (c.generalTable h) (by simp [tables])
  have hignore : ∀ keys, sectionOf _ "ignore" keys =
      some [("dirs", .arr (c.excludeDirs.map .str)), ("paths", .arr (c.ignorePaths.map .str))] :=
    hsection c.ignoreTable (by simp [tables])
  have hresolve : ∀ keys, sectionOf _ "resolve" keys =
      some [("import_filter", .bool c.importFilter), ("ambiguity_cap", .int c.ambiguityCap)] :=
    hsection (c.resolveTable h) (by simp [tables])
  have hcache : ∀ keys, sectionOf _ "cache" keys =
      some [("enabled", .bool c.cacheEnabled), ("dir", .str c.cacheDir)] :=
    hsection c.cacheTable (by simp [tables])
  have houtput : ∀ keys, sectionOf _ "output" keys = _ := hsection c.outputTable (by simp [tables])
  obtain ⟨hstem, hsplit, hpretty⟩ := c.entry_outputTable rfl
  rw [ofToml?]
  dsimp only
  -- the sections first, then the entries of each; a call of `simp` would open the later ones again
  -- and again
  rw [hgeneral, Option.bind_eq_bind, Option.bind_some, hignore, Option.bind_eq_bind,
    Option.bind_some, hresolve, Option.bind_eq_bind, Option.bind_some, hcache, Option.bind_eq_bind,
    Option.bind_some, houtput, Option.bind_eq_bind, Option.bind_some]
  rw [entry_cons_self, text?_str, Option.bind_some, entry_second _ _ _ _ (by decide), number?_int,
    Option.bind_some]
  rw [entry_cons_self, texts?_map_str, Option.bind_some, entry_second _ _ _ _ (by decide),
    texts?_map_str, Option.bind_some]
  rw [entry_cons_self, boolean?_bool, Option.bind_some, entry_second _ _ _ _ (by decide),
    number?_int, Option.bind_some]
  rw [entry_cons_self, boolean?_bool, Option.bind_some, entry_second _ _ _ _ (by decide), text?_str,
    Option.bind_some]
  rw [hstem, Option.bind_eq_bind, Option.bind_some, hsplit, Option.bind_some, hpretty,
    Option.bind_some]
  rfl

/-- The text of choices is read back. -/
theorem ofText?_of_toText? {c : Config} {text : String} (h : c.toText? = some text) :
    ofText? text = some c := by
  by_cases hc : c.Storable
  · rw [toText?_eq_document hc] at h
    obtain rfl := Option.some.inj h
    rw [ofText?, Toml.parse_document (c.nodup_tables hc)]
    exact ofToml?_tables hc
  · rw [toText?_eq_none hc] at h
    cases h

/-! ## Saving and loading -/

/-- Saving writes the text of choices, if there is one. -/
lemma yields_save_iff {c : Config} {path : String} {d d' : Disk} :
    (c.save path).Yields d () d' ↔
      ∃ text, c.toText? = some text ∧ d.write path (Text.toBytes text) = .ok d' := by
  rw [save]
  cases c.toText? with
  | none =>
    refine ⟨fun h => ?_, fun ⟨_, h, _⟩ => ?_⟩
    · cases h
    · cases h
  | some text => simpa [Job.writeText] using Job.yields_change_iff

end Config

/-- Something can be written at a path. -/
def Disk.Writable (d : Disk) (path : String) : Prop := ∃ content d', d.write path content = .ok d'

/-- Where something can be written, anything can. -/
lemma Disk.Writable.exists_write {d : Disk} {path : String} (h : d.Writable path)
    (content : ByteArray) : ∃ d', d.write path content = .ok d' := by
  obtain ⟨other, d', hwrite⟩ := h
  rw [write] at hwrite ⊢
  split_ifs at hwrite ⊢
  obtain ⟨position, hnew, -⟩ := exists_of_bind_eq_ok hwrite
  exact ⟨_, by rw [hnew]; rfl⟩

/-- Choices can be saved at a path just if their numbers are below `2 ^ 63` and something can be
written there. What is loaded from the path then are the choices that were saved, whatever their
texts hold. -/
theorem load_of_save (c : Config) (d : Disk) (path : String) :
    ((∃ d', (c.save path).Yields d () d') ↔
        c.workers < 0x8000000000000000 ∧ c.ambiguityCap < 0x8000000000000000 ∧ d.Writable path) ∧
      ∀ d', (c.save path).Yields d () d' → (Config.load path).Yields d' c d' := by
  refine ⟨?_, fun d' h => ?_⟩
  · constructor
    · rintro ⟨d', h⟩
      obtain ⟨text, htext, hwrite⟩ := Config.yields_save_iff.1 h
      have hc : c.Storable := by
        by_contra hc
        rw [Config.toText?_eq_none hc] at htext
        cases htext
      exact ⟨hc.1, hc.2, _, d', hwrite⟩
    · rintro ⟨hworkers, hcap, hwritable⟩
      have hc : c.Storable := ⟨hworkers, hcap⟩
      obtain ⟨d', hwrite⟩ := hwritable.exists_write (Text.toBytes (Toml.document (c.tables hc)))
      exact ⟨d', Config.yields_save_iff.2 ⟨_, Config.toText?_eq_document hc, hwrite⟩⟩
  · obtain ⟨text, htext, hwrite⟩ := Config.yields_save_iff.1 h
    have hread : d'.readText path = .ok text := Disk.readText_of_find (Disk.find_of_write hwrite)
    exact Config.yields_load_iff.2 ⟨rfl, text, hread, Config.ofText?_of_toText? htext⟩

/-- Choices that need each of the four notations, and an escape. -/
def quotedConfig : Config where
  projectName := "O'Neill's \"shop\""
  workers := 0x7FFFFFFFFFFFFFFF
  excludeDirs := ["vendor", "C:\\temp", "it's\\''", "a\tb"]
  ignorePaths := ["\x01\n\"\"\"\"\""]
  outputStem := some ""

/-- They can be saved in an empty directory, and are loaded as they were saved. -/
theorem load_of_save_quotedConfig :
    ∃ d', (quotedConfig.save "/a.toml").Yields ⟨.dir [], []⟩ () d' ∧
      (Config.load "/a.toml").Yields d' quotedConfig d' := by
  have hwritable : (⟨.dir [], []⟩ : Disk).Writable "/a.toml" := by
    have hok : ((⟨.dir [], []⟩ : Disk).write "/a.toml" .empty).toBool = true := by decide +kernel
    cases hwrite : (⟨.dir [], []⟩ : Disk).write "/a.toml" .empty with
    | error e =>
      rw [hwrite] at hok
      cases hok
    | ok d' => exact ⟨_, d', hwrite⟩
  obtain ⟨hsaves, hloads⟩ := load_of_save quotedConfig ⟨.dir [], []⟩ "/a.toml"
  obtain ⟨d', hsave⟩ := hsaves.2 ⟨by decide, by decide, hwritable⟩
  exact ⟨d', hsave, hloads d' hsave⟩

end PhpCalls
