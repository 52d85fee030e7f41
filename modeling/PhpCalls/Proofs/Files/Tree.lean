import PhpCalls.Files.Tree
import Mathlib.Data.List.Infix

set_option autoImplicit false

/-!
# Files and directories after a change of a tree

What stands in a tree after something was put into it or taken out of it. A change at one position
gives the other positions no file that they did not have, and takes away no directory outside of the
position.

## Main definitions

* `FileTree.IsDirAt`: a directory stands at a position.
* `FileTree.FilesWithin`: every file of a tree stands in another tree too.

## Main results

* `FileTree.get?_put_file`: after a file was put into a tree, every file of the tree is the new one
  or was there before.
* `FileTree.filesWithin_put_emptyDir`, `FileTree.filesWithin_remove`: a new directory and a removal
  bring no file.
* `FileTree.isDirAt_put`: directories outside of the position stay.
-/

namespace PhpCalls.FileTree

/-- At the empty position stands the whole tree. -/
@[simp] lemma get?_nil (t : FileTree) : t.get? [] = some t := by
  cases t <;> rfl

/-- What stands in a directory is found through the entry with the first name. -/
@[simp] lemma get?_dir_cons (es : List (String × FileTree)) (n : String) (ns : List String) :
    (dir es).get? (n :: ns) = (es.lookup n).bind fun c => c.get? ns := rfl

/-- What stands behind a position is found from there. -/
lemma get?_append (t : FileTree) (p q : List String) :
    t.get? (p ++ q) = (t.get? p).bind fun c => c.get? q := by
  induction p generalizing t with
  | nil => simp
  | cons n p ih =>
    cases t with
    | file b => rfl
    | dir es => cases h : es.lookup n <;> simp [h, ih]

/-- A directory stands at the position. -/
def IsDirAt (t : FileTree) (p : List String) : Prop := ∃ es, t.get? p = some (dir es)

/-- Above a directory there are directories only. -/
lemma IsDirAt.of_prefix {t : FileTree} {p q : List String} (h : t.IsDirAt q) (hp : p <+: q) :
    t.IsDirAt p := by
  obtain ⟨es, h⟩ := h
  obtain ⟨r, rfl⟩ := hp
  rw [get?_append] at h
  obtain ⟨c, hc, hr⟩ := Option.bind_eq_some_iff.1 h
  cases c with
  | dir es' => exact ⟨es', hc⟩
  | file b => cases r <;> cases hr

/-- What has a name stands in a directory. -/
lemma isDirAt_of_isSome_get? {t : FileTree} {p : List String} {n : String}
    (h : (t.get? (p ++ [n])).isSome) : t.IsDirAt p := by
  obtain ⟨u, hu⟩ := Option.isSome_iff_exists.1 h
  rw [get?_append] at hu
  obtain ⟨c, hc, hn⟩ := Option.bind_eq_some_iff.1 hu
  cases c with
  | dir es => exact ⟨es, hc⟩
  | file b => cases hn

/-- Every file of a tree stands in another tree too, with the same bytes. -/
def FilesWithin (new old : FileTree) : Prop :=
  ∀ q b, new.get? q = some (file b) → old.get? q = some (file b)

/-- A tree has its own files. -/
lemma FilesWithin.refl (t : FileTree) : t.FilesWithin t := fun _ _ h => h

/-- Files that stand in a second tree, all of whose files stand in a third, stand in the third. -/
lemma FilesWithin.trans {t₁ t₂ t₃ : FileTree} (h₁ : t₁.FilesWithin t₂) (h₂ : t₂.FilesWithin t₃) :
    t₁.FilesWithin t₃ := fun q b h => h₂ q b (h₁ q b h)

/-! ## Entries of a directory -/

/-- The first entry with a name is the one that is found. -/
lemma lookup_cons_eq_ite (e : String × FileTree) (es : List (String × FileTree)) (m : String) :
    (e :: es).lookup m = if m = e.1 then some e.2 else es.lookup m := by
  obtain ⟨k, c⟩ := e
  rw [List.lookup_cons]
  by_cases h : m = k
  · simp [h]
  · simp [h, beq_eq_false_iff_ne.2 h]

/-- The entry that was put among others is found by its name, and the others as before. -/
lemma lookup_putEntry (n : String) (t : FileTree) (es : List (String × FileTree)) (m : String) :
    (putEntry n t es).lookup m = if m = n then some t else es.lookup m := by
  induction es with
  | nil => exact lookup_cons_eq_ite (n, t) [] m
  | cons e es ih =>
    rw [putEntry]
    by_cases hlt : n < e.1
    · rw [if_pos hlt, lookup_cons_eq_ite]
    rw [if_neg hlt, lookup_cons_eq_ite e]
    by_cases heq : n = e.1
    · rw [if_pos heq, lookup_cons_eq_ite, ← heq]
      by_cases hm : m = n <;> simp [hm]
    · rw [if_neg heq, lookup_cons_eq_ite, ih]
      by_cases hm : m = n
      · simp [hm, heq]
      · simp [hm]

/-- The entries of other names are found after one was dropped, and that one is not. -/
lemma lookup_filter_ne (es : List (String × FileTree)) (n m : String) :
    (es.filter fun e => e.1 ≠ n).lookup m = if m = n then none else es.lookup m := by
  induction es with
  | nil => simp
  | cons e es ih =>
    rw [List.filter_cons, lookup_cons_eq_ite e]
    by_cases he : e.1 = n
    · rw [if_neg (by simpa using he), ih]
      by_cases hm : m = n
      · simp [hm]
      · simp [hm, he]
    · rw [if_pos (by simpa using he), lookup_cons_eq_ite, ih]
      by_cases hm : m = n
      · simp [hm, Ne.symm he]
      · simp [hm]

/-! ## Putting -/

/-- Below the position stands what is put there, or nothing if a file is in the way. -/
lemma get?_put_append (new t : FileTree) (p q : List String) :
    (put new t p).get? (p ++ q) = new.get? q ∨ (put new t p).get? (p ++ q) = none := by
  induction p generalizing t with
  | nil => simp [put]
  | cons n p ih =>
    cases t with
    | file b => exact .inr rfl
    | dir es =>
      simpa [put, lookup_putEntry] using ih ((es.lookup n).getD emptyDir)

/-- Outside of the position, a file that stands in the new tree stood in the old one. -/
lemma get?_of_get?_put {new t : FileTree} {p q : List String} {b : ByteArray} (hq : ¬ p <+: q)
    (h : (put new t p).get? q = some (file b)) : t.get? q = some (file b) := by
  induction p generalizing t q with
  | nil => exact absurd (List.nil_prefix) hq
  | cons n p ih =>
    cases t with
    | file c => exact h
    | dir es =>
      cases q with
      | nil => simp [put] at h
      | cons m q =>
        simp only [put, get?_dir_cons, lookup_putEntry] at h ⊢
        by_cases hm : m = n
        · subst hm
          rw [if_pos rfl, Option.bind_some] at h
          have hpq : ¬ p <+: q := fun hp => hq (List.cons_prefix_cons.2 ⟨rfl, hp⟩)
          have hold := ih hpq h
          cases hlookup : es.lookup m with
          | none =>
            -- the directory made on the way holds nothing
            rw [hlookup] at hold
            cases q <;> simp [emptyDir] at hold
          | some c =>
            rw [hlookup] at hold
            exact hold
        · rwa [if_neg hm] at h

/-- After a file was put into a tree, every file of the tree is the new one or was there before. -/
theorem get?_put_file {t : FileTree} {c b : ByteArray} {p q : List String}
    (h : (put (file c) t p).get? q = some (file b)) :
    q = p ∧ b = c ∨ q ≠ p ∧ t.get? q = some (file b) := by
  by_cases hq : p <+: q
  · obtain ⟨r, rfl⟩ := hq
    rcases get?_put_append (file c) t p r with hput | hput
    · rw [hput] at h
      cases r with
      | nil =>
        have hbc : c = b := by simpa using h
        exact .inl ⟨List.append_nil p, hbc.symm⟩
      | cons n r => cases h
    · rw [hput] at h
      cases h
  · refine .inr ⟨?_, get?_of_get?_put hq h⟩
    rintro rfl
    exact hq (List.prefix_refl q)

/-- A new directory brings no file. -/
theorem filesWithin_put_emptyDir (t : FileTree) (p : List String) :
    (put emptyDir t p).FilesWithin t := by
  intro q b h
  by_cases hq : p <+: q
  · obtain ⟨r, rfl⟩ := hq
    rcases get?_put_append emptyDir t p r with hput | hput
    · rw [hput] at h
      cases r <;> simp [emptyDir] at h
    · rw [hput] at h
      cases h
  · exact get?_of_get?_put hq h

/-- Directories outside of the position stay. -/
theorem isDirAt_put {new t : FileTree} {p q : List String} (hq : ¬ p <+: q) (h : t.IsDirAt q) :
    (put new t p).IsDirAt q := by
  induction p generalizing t q with
  | nil => exact absurd (List.nil_prefix) hq
  | cons n p ih =>
    obtain ⟨es', h⟩ := h
    cases t with
    | file c => exact ⟨es', h⟩
    | dir es =>
      cases q with
      | nil => exact ⟨_, get?_nil _⟩
      | cons m q =>
        simp only [IsDirAt, put, get?_dir_cons, lookup_putEntry] at h ⊢
        by_cases hm : m = n
        · subst hm
          obtain ⟨c, hlookup, hc⟩ := Option.bind_eq_some_iff.1 h
          have hpq : ¬ p <+: q := fun hp => hq (List.cons_prefix_cons.2 ⟨rfl, hp⟩)
          obtain ⟨es'', hput⟩ := ih hpq ⟨es', hc⟩
          exact ⟨es'', by simpa [hlookup] using hput⟩
        · exact ⟨es', by rwa [if_neg hm]⟩

/-! ## Removing -/

/-- A removal brings no file. -/
theorem filesWithin_remove (t : FileTree) (p : List String) : (t.remove p).FilesWithin t := by
  intro q b h
  induction p generalizing t q with
  | nil => cases t <;> exact h
  | cons n p ih =>
    cases t with
    | file c => exact h
    | dir es =>
      cases p with
      -- the entry itself is removed
      | nil =>
        cases q with
        | nil => simp [remove] at h
        | cons m q =>
          rw [remove, get?_dir_cons, lookup_filter_ne] at h
          split_ifs at h with hm
          · cases h
          · exact h
      -- something below the entry is removed
      | cons n' p =>
        rw [remove.eq_def] at h
        cases hlookup : es.lookup n with
        | none => simpa [hlookup] using h
        | some c =>
          simp only [hlookup] at h
          cases q with
          | nil => simp at h
          | cons m q =>
            rw [get?_dir_cons, lookup_putEntry] at h
            split_ifs at h with hm
            · rw [get?_dir_cons, hm, hlookup]
              exact ih c q h
            · exact h

end PhpCalls.FileTree
