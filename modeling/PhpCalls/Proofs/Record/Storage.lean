import PhpCalls.Proofs.Cache.Reload
import PhpCalls.Report

set_option autoImplicit false

/-!
# Records in stored documents

Records of every sort are read back from the text they are written as, whatever texts they hold. So
the facts and the stamp that were saved in a cache are loaded again, and a report in one document
holds the facts of the analysis.

## Main results

* `Analysis.readText_of_yields_report`: what stands in a report in one document.
* `records_read_back`: records of every sort, a cache and a report are read back.
-/

namespace PhpCalls

namespace Analysis

variable {a : Analysis} {d d' : Disk} {pretty : Bool}

/-- A document that was written is found at its path. -/
lemma find_of_yields_writeDocument {path : String} {document : Json}
    (h : (writeDocument pretty path document).Yields d () d') :
    d'.find path = .ok (.file (Text.toBytes (document.write pretty))) := by
  obtain ⟨d₁, hwrite⟩ : ∃ d₁, (Job.writeText path (document.write pretty)).Yields d₁ () d' := by
    rw [writeDocument] at h
    split at h
    · obtain ⟨_, d₁, -, hwrite⟩ := Job.yields_bind_iff.1 h
      exact ⟨d₁, hwrite⟩
    · exact ⟨d, h⟩
  exact Disk.find_of_write (Cache.yields_writeText_iff.1 hwrite)

/-- A report in one document holds the facts of the analysis. -/
theorem readText_of_yields_report {stem : String} {paths : List String}
    (h : (a.report stem ⟨false, pretty⟩).Yields d paths d') :
    paths = [stem ++ ".json"] ∧
    d'.readText (stem ++ ".json") = .ok (a.files.toJson.write pretty) := by
  have hone : a.report stem ⟨false, pretty⟩ = do
      writeDocument pretty (stem ++ ".json") a.files.toJson
      return [stem ++ ".json"] := by
    simp [report, documents]
  rw [hone] at h
  obtain ⟨_, d₁, hwrite, hpure⟩ := Job.yields_bind_iff.1 h
  obtain ⟨rfl, rfl⟩ := Job.yields_pure_iff.1 hpure
  exact ⟨rfl, Disk.readText_of_find (find_of_yields_writeDocument hwrite)⟩

end Analysis

/-- **Records are read back.** Records of every sort whose numbers are in range are read back from
their texts. What was saved in a cache is loaded from it, and the one document of a report is read
as the facts of the analysis. -/
theorem records_read_back :
    ReadsBack FileFacts.toJson FileFacts.ofJson? FileFacts.InRange ∧
    ReadsBack Routine.toJson Routine.ofJson? Routine.InRange ∧
    ReadsBack ClassDecl.toJson ClassDecl.ofJson? ClassDecl.InRange ∧
    ReadsBack Call.toJson Call.ofJson? Call.InRange ∧
    ReadsBack classRefToJson classRefOfJson? (fun _ => True) ∧
    ReadsBack Property.toJson Property.ofJson? Property.InRange ∧
    ReadsBack Param.toJson Param.ofJson? Param.InRange ∧
    ReadsBack Import.toJson Import.ofJson? Import.InRange ∧
    ReadsBack NamespaceExtent.toJson NamespaceExtent.ofJson? NamespaceExtent.InRange ∧
    ReadsBack Binding.toJson Binding.ofJson? Binding.InRange ∧
    ReadsBack Variable.toJson Variable.ofJson? Variable.InRange ∧
    ReadsBack ReadFailure.toJson ReadFailure.ofJson? (fun _ => True) ∧
    ReadsBack Tally.toJson Tally.ofJson? Tally.InRange ∧
    ReadsBack CacheStamp.toJson CacheStamp.ofJson? (fun _ => True) ∧
    ReadsBack ProjectFacts.toJson ProjectFacts.ofJson? ProjectFacts.InRange ∧
    (∀ dir projectName root excludeDirs files stamp d d', files.InRange →
      ((Cache.ofProject dir projectName root excludeDirs).save files stamp).Yields d () d' →
      (Cache.ofProject dir projectName root excludeDirs).load.Yields d' (some (files, stamp)) d') ∧
    ∀ (a : Analysis) stem pretty d paths d', a.files.InRange →
      (a.report stem ⟨false, pretty⟩).Yields d paths d' → paths = [stem ++ ".json"] ∧
      ∃ text, d'.readText (stem ++ ".json") = .ok text ∧
        (Json.parse text).bind ProjectFacts.ofJson? = some a.files := by
  refine ⟨.of_known FileFacts.known_toJson fun _ => FileFacts.ofJson?_toJson,
    .of_known Routine.known_toJson fun _ => Routine.ofJson?_toJson,
    .of_known ClassDecl.known_toJson fun _ => ClassDecl.ofJson?_toJson,
    .of_known Call.known_toJson fun _ => Call.ofJson?_toJson,
    .of_known known_classRefToJson fun name _ => classRefOfJson?_classRefToJson name,
    .of_known Property.known_toJson fun _ => Property.ofJson?_toJson,
    .of_known Param.known_toJson fun _ => Param.ofJson?_toJson,
    .of_known Import.known_toJson fun _ => Import.ofJson?_toJson,
    .of_known NamespaceExtent.known_toJson fun _ => NamespaceExtent.ofJson?_toJson,
    .of_known Binding.known_toJson fun _ => Binding.ofJson?_toJson,
    .of_known Variable.known_toJson fun _ => Variable.ofJson?_toJson,
    .of_known ReadFailure.known_toJson fun r _ => ReadFailure.ofJson?_toJson r,
    .of_known Tally.known_toJson fun _ => Tally.ofJson?_toJson,
    CacheStamp.readsBack, ProjectFacts.readsBack, ?_, ?_⟩
  · intro dir projectName root excludeDirs files stamp d d' hrange hsave
    have hholds := Cache.holds_of_yields_save (Cache.apart_ofProject _ _ _ _) hsave
    exact hholds.yields_load hrange
  · intro a stem pretty d paths d' hrange hreport
    obtain ⟨hpaths, htext⟩ := Analysis.readText_of_yields_report hreport
    exact ⟨hpaths, _, htext, ProjectFacts.readsBack a.files hrange pretty⟩

/-- A call with quotes, a line break, the greatest number in range, and an empty map of
candidates. -/
def quotedCall : Call where
  name := "say \"hé\"\n"
  fullname := "\\say"
  startLine := 1
  endLine := 18446744073709551615
  kind := .general
  arguments := [{ index := 0, variadic := true }]
  mayBeSource := some .empty

/-- The facts of a file with a function that makes this call. -/
def quotedFacts : ProjectFacts where
  entries :=
    [("a.php",
      { methods :=
          [{ name := "f", fullname := "f", startLine := 1, endLine := 2, kind := .general,
             calls := [quotedCall] }] })]

/-- The call is read back, also from a cache that lies below the working directory. -/
theorem records_read_back_quotedCall :
    (∀ inLines, (Json.parse (quotedCall.toJson.write inLines)).bind Call.ofJson? =
      some quotedCall) ∧
    ∃ d', ((Cache.ofProject ".cache" "shop" "/shop" []).save quotedFacts (.now .empty [])).Yields
        ⟨.dir [("shop", .dir [])], ["shop"]⟩ () d' ∧
      (Cache.ofProject ".cache" "shop" "/shop" []).load.Yields d'
        (some (quotedFacts, .now .empty [])) d' := by
  have hcall : quotedCall.InRange := by
    refine ⟨by decide, by decide, fun p hp => ?_⟩
    obtain rfl := List.mem_singleton.1 hp
    exact (by decide : 0 < Decoder.natBound)
  have hfacts : quotedFacts.InRange := by
    intro e he
    obtain rfl := List.mem_singleton.1 he
    refine ⟨fun r hr => ?_, nofun, nofun, nofun, nofun, nofun⟩
    obtain rfl := List.mem_singleton.1 hr
    refine ⟨by decide, by decide, nofun, fun c hc => ?_⟩
    obtain rfl := List.mem_singleton.1 hc
    exact hcall
  obtain ⟨-, -, -, hcalls, -, -, -, -, -, -, -, -, -, -, -, hcache, -⟩ := records_read_back
  obtain ⟨⟨⟩, hsave⟩ := Job.exists_yields_of_isOk
    (x := (Cache.ofProject ".cache" "shop" "/shop" []).save quotedFacts (.now .empty []))
    (d := ⟨.dir [("shop", .dir [])], ["shop"]⟩) (by decide +kernel)
  exact ⟨hcalls quotedCall hcall, _, hsave, hcache _ _ _ _ _ _ _ _ hfacts hsave⟩

end PhpCalls
