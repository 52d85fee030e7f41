import Mathlib.Data.Set.Function
import PhpCalls.Ident
import PhpCalls.Proofs.Text

set_option autoImplicit false

/-!
# The text of an identifier

The text that is digested into an identifier joins file, owner, name and lines by bars. The file may
hold bars itself, so the text is taken apart from the right: decimal numerals have no bars, names
and owners without bars follow, and what is left is the file. Up to the digest an identifier thus
determines all five parts, and its first letters the sort of the declaration.

## Main results

* `Ident.key_eq_key_iff`, `Ident.key_inj`: what two equal texts have in common.
* `Ident.routine_ne_classDecl`: the two sorts of identifiers are apart.
* `ids_determine_parts`: equal identifiers are made from equal parts.
-/

namespace PhpCalls

namespace Ident

/-! ## Texts joined by bars -/

/-- What stands before the first bar is taken. -/
lemma takeWhile_bar {xs : List Char} (ys : List Char) (h : '|' ∉ xs) :
    (xs ++ '|' :: ys).takeWhile (· ≠ '|') = xs := by
  have hpass : ∀ c ∈ xs, decide (c ≠ '|') = true :=
    fun c hc => decide_eq_true fun hbar => h (hbar ▸ hc)
  rw [List.takeWhile_append_of_pos hpass]
  exact List.append_nil _

/-- The last bar of a text can be found again. -/
lemma append_bar_inj {s t u v : String} (hu : '|' ∉ u.toList) (hv : '|' ∉ v.toList) :
    s ++ "|" ++ u = t ++ "|" ++ v ↔ s = t ∧ u = v := by
  refine ⟨fun h => ?_, fun h => by rw [h.1, h.2]⟩
  have hlist : s.toList ++ '|' :: u.toList = t.toList ++ '|' :: v.toList := by
    simpa using congrArg String.toList h
  obtain ⟨hbefore, -, hbehind⟩ := Text.eq_of_append_cons hu hv hlist
  exact ⟨String.toList_inj.1 hbefore, String.toList_inj.1 hbehind⟩

/-- So can the first. -/
lemma eq_of_append_bar {s t u v : String} (hs : '|' ∉ s.toList) (ht : '|' ∉ t.toList)
    (h : s ++ "|" ++ u = t ++ "|" ++ v) : s = t := by
  have hfirst (s u : String) (hs : '|' ∉ s.toList) :
      (s ++ "|" ++ u).toList.takeWhile (· ≠ '|') = s.toList := by
    rw [String.toList_append, String.toList_append, List.append_assoc]
    exact takeWhile_bar _ hs
  rw [← String.toList_inj, ← hfirst s u hs, h, hfirst t v ht]

/-- A numeral has no bar. -/
lemma bar_notMem_toString (n : Nat) : '|' ∉ (toString n).toList := by
  intro h
  have hdigits : '|' ∈ Nat.toDigits 10 n := by simpa [Nat.toString_eq_ofList_toDigits] using h
  have hdigit := Nat.isDigit_of_mem_toDigits (by decide) (by decide) hdigits
  exact absurd hdigit (by decide)

/-- Different numbers have different numerals. -/
lemma toString_inj {m n : Nat} : toString m = toString n ↔ m = n := by
  refine ⟨fun h => ?_, congrArg toString⟩
  rw [Nat.toString_eq_ofList_toDigits, Nat.toString_eq_ofList_toDigits, String.ofList_inj] at h
  rw [← Nat.ofDigitChars_ten_toDigits (n := m), h, Nat.ofDigitChars_ten_toDigits]

variable {file file' name name' : String} {owner owner' : Option String}
  {first first' last last' : Nat}

/-- Names without bars, and lines, are told apart by the text of an identifier; file and owner only
as one text. -/
lemma key_eq_key_iff (hname : '|' ∉ name.toList) (hname' : '|' ∉ name'.toList) :
    key file owner name first last = key file' owner' name' first' last' ↔
      file ++ "|" ++ owner.getD "" = file' ++ "|" ++ owner'.getD "" ∧ name = name' ∧
        first = first' ∧ last = last' := by
  have hkey (file : String) (owner : Option String) (name : String) (first last : Nat) :
      key file owner name first last = file ++ "|" ++ owner.getD "" ++ "|" ++ name ++ "|" ++
        toString first ++ "|" ++ toString last :=
    rfl
  rw [hkey, hkey, append_bar_inj (bar_notMem_toString _) (bar_notMem_toString _),
    append_bar_inj (bar_notMem_toString _) (bar_notMem_toString _), append_bar_inj hname hname',
    toString_inj, toString_inj, and_assoc, and_assoc]

/-- Where the owner has no bars either, it is told apart from the file. -/
lemma key_inj (howner : '|' ∉ (owner.getD "").toList) (howner' : '|' ∉ (owner'.getD "").toList)
    (hname : '|' ∉ name.toList) (hname' : '|' ∉ name'.toList) :
    key file owner name first last = key file' owner' name' first' last' ↔
      file = file' ∧ owner.getD "" = owner'.getD "" ∧ name = name' ∧ first = first' ∧
      last = last' := by
  rw [key_eq_key_iff hname hname', append_bar_inj howner howner', and_assoc]

/-! ## The two sorts -/

/-- Texts that the digest tells apart give different identifiers of either sort. -/
lemma append_shortHash_inj {sort text text' : String} {texts : Set String}
    (hdigest : texts.InjOn shortHash) (htext : text ∈ texts) (htext' : text' ∈ texts) :
    sort ++ shortHash text = sort ++ shortHash text' ↔ text = text' := by
  rw [String.append_right_inj]
  exact hdigest.eq_iff htext htext'

/-- The identifier of a routine is that of no class, as they begin differently. -/
lemma routine_ne_classDecl :
    routine file owner name first last ≠ classDecl file' owner' name' first' last' := by
  intro h
  have hfirst := congrArg (fun s => s.toList.head?) h
  simp only [routine, classDecl, String.toList_append] at hfirst
  exact absurd hfirst (by simp)

end Ident

open Ident in
/-- **Identifiers determine their parts.** Let owners, which count as empty where there is none, and
names have no bars; the file may be any text. Then the texts of two identifiers are equal just if
file, owner, name and lines are. So are the identifiers of routines, and those of classes, wherever
the digest tells the texts apart: eight digits cannot do this for all texts at once, so `texts`
stands for those that are looked at. The identifier of a routine is never that of a class.

**Proof sketch.** The last bar of a text before a part without bars can be found again, which gives
the lines, the name and the owner one after the other, and numerals are read back. -/
theorem ids_determine_parts (file file' : String) (owner owner' : Option String)
    (name name' : String) (first last first' last' : Nat) (howner : '|' ∉ (owner.getD "").toList)
    (howner' : '|' ∉ (owner'.getD "").toList) (hname : '|' ∉ name.toList)
    (hname' : '|' ∉ name'.toList) :
    let same :=
      file = file' ∧ owner.getD "" = owner'.getD "" ∧ name = name' ∧ first = first' ∧ last = last'
    (key file owner name first last = key file' owner' name' first' last' ↔ same) ∧
    (∀ texts : Set String, texts.InjOn shortHash → key file owner name first last ∈ texts →
      key file' owner' name' first' last' ∈ texts →
      (routine file owner name first last = routine file' owner' name' first' last' ↔ same) ∧
      (classDecl file owner name first last = classDecl file' owner' name' first' last' ↔ same)) ∧
    ∀ f c n s e f' c' n' s' e', routine f c n s e ≠ classDecl f' c' n' s' e' := by
  intro same
  have hkey : key file owner name first last = key file' owner' name' first' last' ↔ same :=
    key_inj howner howner' hname hname'
  refine ⟨hkey, fun texts hdigest htext htext' => ⟨?_, ?_⟩, ?_⟩
  · exact (append_shortHash_inj hdigest htext htext').trans hkey
  · exact (append_shortHash_inj hdigest htext htext').trans hkey
  · intro f c n s e f' c' n' s' e'
    exact routine_ne_classDecl

/-- The path of the first file is what path and owner of the second come to with a bar in between.
Only the empty owner of the first tells the texts apart. -/
theorem ids_determine_parts_bars :
    Ident.key "lib|Dog" none "bark" 1 12 = "lib|Dog||bark|1|12" ∧
    Ident.key "lib" (some "Dog") "bark" 1 12 = "lib|Dog|bark|1|12" ∧
    Set.InjOn shortHash {"lib|Dog||bark|1|12", "lib|Dog|bark|1|12"} ∧
    Ident.routine "lib|Dog" none "bark" 1 12 ≠ Ident.routine "lib" (some "Dog") "bark" 1 12 ∧
    Ident.classDecl "lib|Dog" none "bark" 1 12 ≠
      Ident.classDecl "lib" (some "Dog") "bark" 1 12 := by
  have hdigest : Set.InjOn shortHash {"lib|Dog||bark|1|12", "lib|Dog|bark|1|12"} := by
    have hne : shortHash "lib|Dog||bark|1|12" ≠ shortHash "lib|Dog|bark|1|12" := by decide +kernel
    rintro s (rfl | rfl) t (rfl | rfl) h
    · rfl
    · exact absurd h hne
    · exact absurd h.symm hne
    · rfl
  have hkey : Ident.key "lib|Dog" none "bark" 1 12 = "lib|Dog||bark|1|12" := by decide +kernel
  have hkey' : Ident.key "lib" (some "Dog") "bark" 1 12 = "lib|Dog|bark|1|12" := by decide +kernel
  obtain ⟨-, hids, -⟩ :=
    ids_determine_parts "lib|Dog" "lib" none (some "Dog") "bark" "bark" 1 12 1 12
      (by decide) (by decide) (by decide) (by decide)
  obtain ⟨hroutine, hclass⟩ := hids _ hdigest (.inl hkey) (.inr hkey')
  refine ⟨hkey, hkey', hdigest, fun h => ?_, fun h => ?_⟩
  · exact absurd (hroutine.1 h).1 (by decide)
  · exact absurd (hclass.1 h).1 (by decide)

end PhpCalls
