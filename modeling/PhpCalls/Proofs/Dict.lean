import Mathlib.Data.Finset.Card
import Mathlib.Data.List.Sort
import PhpCalls.Dict
import PhpCalls.Proofs.List

set_option autoImplicit false

/-!
# Maps as finite functions

A map is the function that its look-up gives: two maps with equal look-ups are equal, and a look-up
in a map built from a list finds the last entry of its key.

## Main definitions

* `Dict.insertAll`: a map with all entries of a list inserted, one after the other.

## Main results

* `Dict.get?_eq_some_iff`: what is found are the entries.
* `Dict.ext_get?`: a map is determined by its look-ups.
* `Dict.contains_iff_mem_keys`: the keys are where something is found.
* `Dict.get?_ofList`: in the map of a list the last entry of a key is found.
* `Dict.size_ofList`: a map has as many entries as there are different keys.
* `Dict.ofList_entries`: a map is the map of its entries.
* `Dict.ofList_perm`: under distinct keys the order of the list does not matter.
* `Dict.ofList_map_entries`: keys may be replaced, one for each, in the map or in the list.
-/

namespace PhpCalls.Dict

variable {α β : Type}

/-! ## Look-ups and entries -/

/-- In entries of strictly ascending keys, an entry is the first of its key. -/
lemma find?_of_mem {entries : List (String × α)} (h : Ascending entries) {k : String} {v : α}
    (hm : (k, v) ∈ entries) : entries.find? (fun e => e.1 = k) = some (k, v) := by
  induction entries with
  | nil => cases hm
  | cons e rest ih =>
    obtain ⟨he, hrest⟩ := List.pairwise_cons.1 h
    rcases List.mem_cons.1 hm with rfl | hm
    · simp
    · have hne : e.1 ≠ k := by
        rintro rfl
        have hlt : e.1 < e.1 := he (e.1, v) hm
        exact String.lt_irrefl _ hlt
      simp [hne, ih hrest hm]

/-- What is found at a key is the entry of the key. -/
theorem get?_eq_some_iff {d : Dict α} {k : String} {v : α} :
    d.get? k = some v ↔ (k, v) ∈ d.entries := by
  constructor
  · intro h
    simp only [get?, Option.map_eq_some_iff] at h
    obtain ⟨e, he, rfl⟩ := h
    have hk : e.1 = k := by simpa using List.find?_some he
    subst hk
    exact List.mem_of_find?_eq_some he
  · intro h
    simp [get?, find?_of_mem d.ascending h]

/-- Two maps with the same entries are equal. -/
lemma ext_entries {d d' : Dict α} (h : d.entries = d'.entries) : d = d' := by
  cases d
  cases d'
  simp_all

/-- A map is determined by what is found in it.

**Proof sketch.** The two lists of entries have the same members, and both ascend strictly, so they
are the same list. -/
theorem ext_get? {d d' : Dict α} (h : ∀ k, d.get? k = d'.get? k) : d = d' := by
  apply ext_entries
  have hmem : ∀ e : String × α, e ∈ d.entries ↔ e ∈ d'.entries := by
    rintro ⟨k, v⟩
    rw [← get?_eq_some_iff, ← get?_eq_some_iff, h]
  have hnodup : ∀ d : Dict α, d.entries.Nodup := by
    intro d
    refine d.ascending.imp ?_
    rintro a b hab rfl
    exact String.lt_irrefl _ hab
  have hperm : d.entries.Perm d'.entries :=
    (List.perm_ext_iff_of_nodup (hnodup d) (hnodup d')).2 hmem
  refine hperm.eq_of_pairwise ?_ d.ascending d'.ascending
  intro a b _ _ hab hba
  exact absurd (String.lt_trans hab hba) (String.lt_irrefl _)

/-- The keys ascend strictly. -/
lemma ascending_keys (d : Dict α) : d.keys.Pairwise (· < ·) := List.pairwise_map.2 d.ascending

/-- A dictionary has each key once. -/
lemma nodup_keys (d : Dict α) : d.keys.Nodup := by
  refine d.ascending_keys.imp ?_
  rintro a b hab rfl
  exact String.lt_irrefl _ hab

/-- A map has an entry at its keys. -/
lemma contains_iff_mem_keys {d : Dict α} {k : String} : d.contains k = true ↔ k ∈ d.keys := by
  simp only [contains, Option.isSome_iff_exists, get?_eq_some_iff, keys, List.mem_map, Prod.exists,
    exists_and_right, exists_eq_right]

/-- After an insertion the new key is held, and every other one if it was before. -/
@[simp] lemma contains_insert (d : Dict α) (key : String) (value : α) (k : String) :
    (d.insert key value).contains k = (key = k || d.contains k) := by
  by_cases h : key = k <;> simp [contains, h]

/-- The entries of other keys than that of an entry count for nothing if they yield nothing. -/
lemma flatMap_entries_eq {d : Dict α} {k : String} {v : α} (h : d.get? k = some v)
    {g : String × α → List β} (hg : ∀ e ∈ d.entries, e.1 ≠ k → g e = []) :
    d.entries.flatMap g = g (k, v) := by
  obtain ⟨before, after, hsplit⟩ := List.append_of_mem (get?_eq_some_iff.1 h)
  have hasc : Ascending (before ++ (k, v) :: after) := hsplit ▸ d.ascending
  obtain ⟨-, hafter, hbefore⟩ := List.pairwise_append.1 hasc
  have hb : before.flatMap g = [] := by
    refine List.flatMap_eq_nil_iff.2 fun e he => hg e ?_ ?_
    · rw [hsplit]
      exact List.mem_append_left _ he
    · rintro rfl
      exact String.lt_irrefl _ (hbefore e he (e.1, v) List.mem_cons_self)
  have ha : after.flatMap g = [] := by
    refine List.flatMap_eq_nil_iff.2 fun e he => hg e ?_ ?_
    · rw [hsplit]
      exact List.mem_append_right _ (List.mem_cons_of_mem _ he)
    · rintro rfl
      exact String.lt_irrefl _ ((List.pairwise_cons.1 hafter).1 e he)
  rw [hsplit, List.flatMap_append, List.flatMap_cons, hb, ha, List.append_nil, List.nil_append]

/-! ## Maps of lists -/

/-- The map with all entries of a list inserted, one after the other. -/
def insertAll (d : Dict α) (entries : List (String × α)) : Dict α :=
  entries.foldl (fun d e => d.insert e.1 e.2) d

/-- A dictionary of a list is made by inserting its entries in turn. -/
lemma ofList_eq_insertAll (entries : List (String × α)) :
    ofList entries = empty.insertAll entries :=
  rfl

/-- Entries of two lists are inserted one list after the other. -/
lemma insertAll_append (d : Dict α) (es fs : List (String × α)) :
    d.insertAll (es ++ fs) = (d.insertAll es).insertAll fs := by
  simp [insertAll]

/-- After insertions the last inserted entry of a key is found, and otherwise what was there. -/
lemma get?_insertAll (d : Dict α) (entries : List (String × α)) (k : String) :
    (d.insertAll entries).get? k =
      ((entries.reverse.find? fun e => e.1 = k).map Prod.snd).or (d.get? k) := by
  induction entries generalizing d with
  | nil => simp [insertAll]
  | cons e rest ih =>
    have hstep : d.insertAll (e :: rest) = (d.insert e.1 e.2).insertAll rest := rfl
    rw [hstep, ih, List.reverse_cons, List.find?_append, get?_insert]
    cases rest.reverse.find? fun e => e.1 = k with
    | some f => simp
    | none => by_cases hk : e.1 = k <;> simp [hk]

/-- In the map of a list the last entry of a key is found. -/
theorem get?_ofList (entries : List (String × α)) (k : String) :
    (ofList entries).get? k = (entries.reverse.find? fun e => e.1 = k).map Prod.snd := by
  rw [ofList_eq_insertAll, get?_insertAll]
  simp

/-- A map built from a list has no value for the keys that are not in the list. -/
lemma get?_ofList_eq_none_iff {entries : List (String × α)} {k : String} :
    (ofList entries).get? k = none ↔ ∀ e ∈ entries, e.1 ≠ k := by
  simp [get?_ofList]

/-- The keys of the map of a list are those of the list. -/
lemma mem_keys_ofList {entries : List (String × α)} {k : String} :
    k ∈ (ofList entries).keys ↔ k ∈ entries.map Prod.fst := by
  rw [← contains_iff_mem_keys, contains, Option.isSome_iff_ne_none, ne_eq, get?_ofList_eq_none_iff]
  simp

/-- A map that was built from something is not empty. -/
lemma isEmpty_ofList_eq_false {entries : List (String × α)} (h : entries ≠ []) :
    (ofList entries).isEmpty = false := by
  obtain ⟨e, rest, rfl⟩ := List.exists_cons_of_ne_nil h
  have hkey : e.1 ∈ (ofList (e :: rest)).keys := mem_keys_ofList.2 (by simp)
  cases hempty : (ofList (e :: rest)).entries with
  | nil => simp [keys, hempty] at hkey
  | cons => simp [isEmpty, hempty]

/-- What is found in the map of a list stands in the list. -/
lemma mem_of_get?_ofList {entries : List (String × α)} {k : String} {v : α}
    (h : (ofList entries).get? k = some v) : (k, v) ∈ entries := by
  rw [get?_ofList, Option.map_eq_some_iff] at h
  obtain ⟨e, he, rfl⟩ := h
  have hk : e.1 = k := by simpa using List.find?_some he
  subst hk
  simpa using List.mem_of_find?_eq_some he

/-- In the map of a list of distinct keys the entries of the list are found. -/
lemma get?_ofList_of_nodup {entries : List (String × α)} (h : (entries.map Prod.fst).Nodup)
    {k : String} {v : α} : (ofList entries).get? k = some v ↔ (k, v) ∈ entries := by
  refine ⟨mem_of_get?_ofList, fun hm => ?_⟩
  rw [get?_ofList, reverse_find?_of_nodup h hm]
  rfl

/-- Under distinct keys the map of a list does not depend on the order of the list. -/
theorem ofList_perm {es fs : List (String × α)} (h : es.Perm fs) (hk : (es.map Prod.fst).Nodup) :
    ofList es = ofList fs := by
  have hk' : (fs.map Prod.fst).Nodup := (h.map Prod.fst).nodup hk
  apply ext_get?
  intro k
  ext v
  rw [get?_ofList_of_nodup hk, get?_ofList_of_nodup hk', h.mem_iff]

/-- The map of a list has as many entries as the list has different keys. -/
lemma size_ofList (entries : List (String × α)) :
    (ofList entries).size = (entries.map Prod.fst).toFinset.card := by
  have hsize : (ofList entries).size = (ofList entries).keys.length := (List.length_map _).symm
  rw [hsize, ← List.toFinset_card_of_nodup (nodup_keys _)]
  congr 1
  exact List.toFinset.ext fun k => mem_keys_ofList

/-- The map of a list has at most as many entries as the list. -/
lemma size_ofList_le (entries : List (String × α)) : (ofList entries).size ≤ entries.length := by
  rw [size_ofList, ← List.length_map Prod.fst]
  exact List.toFinset_card_le _

/-- A map is the map of its entries. -/
theorem ofList_entries (d : Dict α) : ofList d.entries = d := by
  apply ext_get?
  intro k
  cases h : d.get? k with
  | some v =>
    -- every entry of the key is the same one, so the last is the first
    rw [get?_ofList]
    have hm : (k, v) ∈ d.entries.reverse := by
      rw [List.mem_reverse]
      exact get?_eq_some_iff.1 h
    cases hf : d.entries.reverse.find? fun e => e.1 = k with
    | none => exact absurd (List.find?_eq_none.1 hf _ hm) (by simp)
    | some e =>
      have hk : e.1 = k := by simpa using List.find?_some hf
      have he : (k, e.2) ∈ d.entries := by
        subst hk
        simpa using List.mem_of_find?_eq_some hf
      rw [← get?_eq_some_iff, h] at he
      simpa using he.symm
  | none =>
    cases hf : (ofList d.entries).get? k with
    | none => rfl
    | some v =>
      have he := get?_eq_some_iff.2 (mem_of_get?_ofList hf)
      rw [h] at he
      cases he

/-! ## Maps under other keys -/

/-- Under other keys, one for each, the last entry of a key is found again. -/
lemma get?_ofList_map {entries : List (String × α)} {f : String → String} {k : String}
    (hf : ∀ e ∈ entries, f e.1 = f k → e.1 = k) :
    (ofList (entries.map fun e => (f e.1, e.2))).get? (f k) = (ofList entries).get? k := by
  have hsame : (entries.filter fun e => f e.1 = f k) = entries.filter fun e => e.1 = k :=
    List.filter_congr fun e he => decide_eq_decide.2 ⟨hf e he, congrArg f⟩
  rw [get?_ofList, get?_ofList, ← List.getLast?_filter, ← List.getLast?_filter, ← hsame,
    List.filter_map, List.getLast?_map, Option.map_map]
  rfl

/-- A map whose keys are replaced, one for each, is that of the list whose keys are replaced. -/
lemma ofList_map_entries {entries : List (String × α)} {f : String → String}
    (hf : ∀ e ∈ entries, ∀ e' ∈ entries, f e.1 = f e'.1 → e.1 = e'.1) :
    ofList ((ofList entries).entries.map fun e => (f e.1, e.2)) =
      ofList (entries.map fun e => (f e.1, e.2)) := by
  have hkeys : ∀ e ∈ (ofList entries).entries, e ∈ entries :=
    fun e he => mem_of_get?_ofList (get?_eq_some_iff.2 he)
  apply ext_get?
  intro key
  by_cases hkey : ∃ e ∈ entries, f e.1 = key
  · obtain ⟨e, he, rfl⟩ := hkey
    rw [get?_ofList_map fun d hd => hf d (hkeys d hd) e he,
      get?_ofList_map fun d hd => hf d hd e he, ofList_entries]
  · have hnone : ∀ es : List (String × α), (∀ e ∈ es, e ∈ entries) →
        (ofList (es.map fun e => (f e.1, e.2))).get? key = none := by
      intro es hes
      rw [get?_ofList_eq_none_iff]
      intro e he hfe
      obtain ⟨d, hd, rfl⟩ := List.mem_map.1 he
      exact hkey ⟨d, hes d hd, hfe⟩
    rw [hnone _ hkeys, hnone _ fun e he => he]

/-! ## Maps of maps -/

/-- A look-up after a replacement of all values. -/
@[simp] lemma get?_map (f : String → α → β) (d : Dict α) (k : String) :
    (d.map f).get? k = (d.get? k).map (f k) := by
  simp only [get?, map, List.find?_map, Option.map_map]
  cases h : d.entries.find? ((fun e => decide (e.1 = k)) ∘ fun e => (e.1, f e.1 e.2)) with
  | none =>
    have h' : d.entries.find? (fun e => decide (e.1 = k)) = none := h
    simp [h']
  | some e =>
    have h' : d.entries.find? (fun e => decide (e.1 = k)) = some e := h
    have hk : e.1 = k := by simpa using List.find?_some h'
    simp [h', hk]

/-- Mapping the values of a dictionary keeps its keys in their order. -/
@[simp] lemma entries_map (f : String → α → β) (d : Dict α) :
    (d.map f).entries = d.entries.map fun e => (e.1, f e.1 e.2) := rfl

/-- The values of a list may be replaced before or after its map is built. -/
lemma ofList_map (f : α → β) (entries : List (String × α)) :
    ofList (entries.map fun e => (e.1, f e.2)) = (ofList entries).map fun _ => f := by
  apply ext_get?
  intro k
  rw [get?_ofList, get?_map, get?_ofList, ← List.map_reverse, List.find?_map, Option.map_map,
    Option.map_map]
  rfl

end PhpCalls.Dict
