import Mathlib.Data.List.Induction
import Mathlib.Data.List.Nodup

set_option autoImplicit false

/-!
# Lists without repetitions

What is left of a list when repetitions are dropped, and look-ups by keys that occur once.

## Main results

* `eraseDups_flatMap`, `eraseDups_flatMap_const`: the keys of the elements that own something, each
  once.
* `pairwise_idxOf_eraseDups`: what is left stands in the order of first occurrence.
* `eraseDupsBy_eq_foldl`: dropping repetitions as a loop that keeps what is new.
* `eraseDupsBy_sublist`, `eraseDupsBy_map`: what is left is in order, and may be replaced before or
  after.
* `nodup_map_eraseDupsBy`, `mem_map_eraseDupsBy`: what is left has every key, and has it once.
* `lookup_of_mem`: under distinct keys each value is found by its key.
* `reverse_find?_of_nodup`: under distinct keys the last element of a key is the only one.
-/

namespace PhpCalls

variable {α β : Type}

/-- A list without repetitions has none to lose. -/
lemma eraseDups_eq_self {l : List String} (h : l.Nodup) : l.eraseDups = l := by
  induction l with
  | nil => rfl
  | cons a l ih =>
    obtain ⟨ha, hl⟩ := List.nodup_cons.1 h
    rw [List.eraseDups_cons, List.filter_eq_self.2, ih hl]
    intro b hb
    have hne : b ≠ a := fun e => ha (e ▸ hb)
    simpa using hne

/-- If every element gives its key once for each of its items that pass a test, then without
repetitions these are the keys of the elements with such an item. -/
lemma eraseDups_flatMap (key : α → String) (items : α → List β) (p : β → Bool) (l : List α) :
    (l.flatMap fun a => ((items a).filter p).map fun _ => key a).eraseDups =
      ((l.filter fun a => (items a).any p).map key).eraseDups := by
  induction l using List.reverseRecOn with
  | nil => rfl
  | append_singleton l a ih =>
    have hmem : (key a ∈ l.flatMap fun a => ((items a).filter p).map fun _ => key a) ↔
        key a ∈ (l.filter fun a => (items a).any p).map key := by
      rw [← List.mem_eraseDups, ih, List.mem_eraseDups]
    rw [List.flatMap_append, List.flatMap_singleton, List.filter_append, List.map_append,
      List.eraseDups_append, List.eraseDups_append, ih]
    generalize (l.flatMap fun a => ((items a).filter p).map fun _ => key a) = before at hmem
    generalize (l.filter fun a => (items a).any p).map key = kept at hmem
    congr 1
    cases hb : (items a).filter p with
    | nil =>
      have hany : (items a).any p = false := by
        rw [List.any_eq_false]
        exact List.filter_eq_nil_iff.1 hb
      simp [hany, List.removeAll]
    | cons b bs =>
      have hany : (items a).any p = true := by
        have hbmem : b ∈ (items a).filter p := hb ▸ List.mem_cons_self
        obtain ⟨hin, hp⟩ := List.mem_filter.1 hbmem
        exact List.any_eq_true.2 ⟨b, hin, hp⟩
      by_cases hold : key a ∈ kept
      · simp [hany, List.removeAll, hold, hmem.2 hold]
      · have hnew : key a ∉ before := fun h => hold (hmem.1 h)
        simp [hany, List.removeAll, hold, hnew, List.eraseDups_cons]

/-- Where the keys are distinct, there are no repetitions to drop. -/
lemma eraseDups_flatMap_const (key : α → String) (items : α → List β) (p : β → Bool) {l : List α}
    (h : (l.map key).Nodup) :
    (l.flatMap fun a => ((items a).filter p).map fun _ => key a).eraseDups =
      (l.filter fun a => (items a).any p).map key := by
  rw [eraseDups_flatMap, eraseDups_eq_self (h.sublist (List.filter_sublist.map _))]

/-- The last element is kept if it has not occurred before. -/
lemma eraseDups_append_singleton (l : List String) (a : String) :
    (l ++ [a]).eraseDups = if a ∈ l then l.eraseDups else l.eraseDups ++ [a] := by
  rw [List.eraseDups_append]
  by_cases ha : a ∈ l <;> simp [List.removeAll, ha, List.eraseDups_cons]

/-- What is left without repetitions stands in the order of first occurrence. -/
lemma pairwise_idxOf_eraseDups (l : List String) :
    l.eraseDups.Pairwise fun a b => l.idxOf a < l.idxOf b := by
  induction l using List.reverseRecOn with
  | nil => exact List.Pairwise.nil
  | append_singleton l a ih =>
    -- the last element does not change where the others first occur
    have hplace (b : String) (hb : b ∈ l.eraseDups) : (l ++ [a]).idxOf b = l.idxOf b :=
      List.idxOf_append_of_mem (List.mem_eraseDups.1 hb)
    have hsame : l.eraseDups.Pairwise fun b c => (l ++ [a]).idxOf b < (l ++ [a]).idxOf c := by
      refine ih.imp_of_mem fun hb hc hlt => ?_
      rwa [hplace _ hb, hplace _ hc]
    rw [eraseDups_append_singleton]
    split
    case isTrue => exact hsame
    case isFalse ha =>
      refine List.pairwise_append.2 ⟨hsame, List.pairwise_singleton _ _, fun b hb c hc => ?_⟩
      obtain rfl := List.mem_singleton.1 hc
      rw [hplace b hb, List.idxOf_append_of_notMem ha]
      exact Nat.lt_add_right _ (List.idxOf_lt_length_iff.2 (List.mem_eraseDups.1 hb))

/-- Elements that yield something only if they pass a test may be tested first. -/
lemma flatMap_ite_nil (p : α → Prop) [DecidablePred p] (f : α → List β) (l : List α) :
    (l.flatMap fun a => if p a then f a else []) = (l.filter fun a => p a).flatMap f := by
  induction l with
  | nil => rfl
  | cons a l ih =>
    by_cases ha : p a
    · rw [List.flatMap_cons, ih, if_pos ha, List.filter_cons_of_pos (by simpa using ha),
        List.flatMap_cons]
    · rw [List.flatMap_cons, ih, if_neg ha, List.filter_cons_of_neg (by simpa using ha),
        List.nil_append]

/-- Under distinct keys the last element of a key is the only one. -/
lemma reverse_find?_of_nodup {key : α → String} {l : List α} (h : (l.map key).Nodup) {a : α}
    (ha : a ∈ l) : (l.reverse.find? fun b => key b = key a) = some a := by
  cases hf : l.reverse.find? fun b => key b = key a with
  | none => exact absurd (List.find?_eq_none.1 hf a (by simpa using ha)) (by simp)
  | some b =>
    have hb : b ∈ l := by simpa using List.mem_of_find?_eq_some hf
    have hk : key b = key a := by simpa using List.find?_some hf
    rw [List.inj_on_of_nodup_map h hb ha hk]

/-- Where a key is shared by related elements only, the last element of a key is the last related
one. -/
lemma exists_getLast?_filter {key : α → String} {r : α → α → Prop} [∀ a b, Decidable (r a b)]
    {l : List α} {a : α} (ha : a ∈ l) (h : ∀ b ∈ l, key b = key a ↔ r b a) :
    ∃ b, (l.filter fun b => r b a).getLast? = some b ∧
      (l.reverse.find? fun b => key b = key a) = some b := by
  have hfilter : (l.filter fun b => key b = key a) = l.filter fun b => r b a :=
    List.filter_congr fun b hb => decide_eq_decide.mpr (h b hb)
  rw [← hfilter, List.getLast?_filter]
  cases hf : l.reverse.find? fun b => key b = key a with
  | none => exact absurd (List.find?_eq_none.1 hf a (by simpa using ha)) (by simp)
  | some b => exact ⟨b, rfl, rfl⟩

/-- Dropping later elements that are related to an earlier one is the loop that keeps an element if
it is related to none that was kept. -/
lemma eraseDupsBy_eq_foldl (r : α → α → Bool) (l : List α) :
    l.eraseDupsBy r = l.foldl (fun kept a => if kept.any (r a) then kept else kept ++ [a]) [] := by
  have hgen : ∀ l kept : List α, List.eraseDupsBy.loop r l kept =
      l.foldl (fun kept a => if kept.any (r a) then kept else kept ++ [a]) kept.reverse := by
    intro l
    induction l with
    | nil => intro kept; rfl
    | cons a l ih =>
      intro kept
      rw [List.eraseDupsBy.loop, List.foldl_cons, List.any_reverse]
      cases kept.any (r a) with
      | true => exact ih kept
      | false =>
        rw [ih (a :: kept), List.reverse_cons]
        rfl
  exact hgen l []

/-- The last element is kept if it is related to none that was kept before. -/
lemma eraseDupsBy_append_singleton (r : α → α → Bool) (l : List α) (a : α) :
    (l ++ [a]).eraseDupsBy r =
      if (l.eraseDupsBy r).any (r a) then l.eraseDupsBy r else l.eraseDupsBy r ++ [a] := by
  simp only [eraseDupsBy_eq_foldl, List.foldl_append, List.foldl_cons, List.foldl_nil]

/-- What is left stands in the order of the list. -/
lemma eraseDupsBy_sublist (r : α → α → Bool) (l : List α) : (l.eraseDupsBy r).Sublist l := by
  induction l using List.reverseRecOn with
  | nil => exact List.Sublist.refl _
  | append_singleton l a ih =>
    rw [eraseDupsBy_append_singleton]
    split
    · exact ih.trans (List.sublist_append_left l [a])
    · exact ih.append (List.Sublist.refl [a])

/-- Dropping elements adds none. -/
lemma mem_of_mem_eraseDupsBy {r : α → α → Bool} {l : List α} {a : α} (h : a ∈ l.eraseDupsBy r) :
    a ∈ l :=
  (eraseDupsBy_sublist r l).subset h

/-- Elements may be compared in any way that says the same about those of the list. -/
lemma eraseDupsBy_congr {r s : α → α → Bool} {l : List α} (h : ∀ a ∈ l, ∀ b ∈ l, r a b = s a b) :
    l.eraseDupsBy r = l.eraseDupsBy s := by
  induction l using List.reverseRecOn with
  | nil => rfl
  | append_singleton l a ih =>
    have hl := ih fun x hx y hy => h x (List.mem_append_left _ hx) y (List.mem_append_left _ hy)
    have hany : (l.eraseDupsBy s).any (r a) = (l.eraseDupsBy s).any (s a) := by
      have hsame (x : α) (hx : x ∈ l.eraseDupsBy s) : r a x = s a x :=
        h a (by simp) x (List.mem_append_left _ (mem_of_mem_eraseDupsBy hx))
      rw [Bool.eq_iff_iff, List.any_eq_true, List.any_eq_true]
      exact exists_congr fun x => and_congr_right fun hx => by rw [hsame x hx]
    rw [eraseDupsBy_append_singleton, eraseDupsBy_append_singleton, hl, hany]

/-- Elements may be replaced before or after repetitions are dropped. -/
lemma eraseDupsBy_map (f : α → β) (r : β → β → Bool) (l : List α) :
    (l.map f).eraseDupsBy r = (l.eraseDupsBy fun a b => r (f a) (f b)).map f := by
  induction l using List.reverseRecOn with
  | nil => rfl
  | append_singleton l a ih =>
    have hany : ((l.map f).eraseDupsBy r).any (r (f a)) =
        (l.eraseDupsBy fun a b => r (f a) (f b)).any fun b => r (f a) (f b) := by
      rw [ih, List.any_map]
      rfl
    rw [List.map_append, List.map_singleton, eraseDupsBy_append_singleton,
      eraseDupsBy_append_singleton, hany]
    split
    · exact ih
    · rw [ih, List.map_append, List.map_singleton]

/-! ## Lists of related elements -/

section Related

/-- Lists of related elements that pass the same tests show the same. -/
lemma map_filter_eq_of_forall₂ {R : α → α → Prop} {p q : α → Bool} {f h : α → β}
    {l l' : List α} (hl : List.Forall₂ R l l') (hp : ∀ a b, R a b → p a = q b)
    (hf : ∀ a b, R a b → f a = h b) : (l.filter p).map f = (l'.filter q).map h := by
  induction hl with
  | nil => rfl
  | cons hab _ ih =>
    rw [List.filter_cons, List.filter_cons, hp _ _ hab]
    split
    · rw [List.map_cons, List.map_cons, hf _ _ hab, ih]
    · exact ih

/-- Of two lists that are related one by one, some element of the one fulfils its condition exactly
if some element of the other does. -/
lemma any_eq_of_forall₂ {R : α → α → Prop} {p q : α → Bool} {l l' : List α}
    (hl : List.Forall₂ R l l') (hp : ∀ a b, R a b → p a = q b) : l.any p = l'.any q := by
  induction hl with
  | nil => rfl
  | cons hab _ ih => rw [List.any_cons, List.any_cons, hp _ _ hab, ih]

end Related

/-! ## Repetitions of keys -/

variable {κ : Type} [DecidableEq κ]

/-- What is left by keys has the keys of the list. -/
lemma mem_map_eraseDupsBy (key : α → κ) (l : List α) (k : κ) :
    k ∈ (l.eraseDupsBy fun a b => key a = key b).map key ↔ k ∈ l.map key := by
  induction l using List.reverseRecOn with
  | nil => rfl
  | append_singleton l a ih =>
    rw [eraseDupsBy_append_singleton, List.map_append, List.mem_append, ← ih]
    split
    case isTrue hany =>
      obtain ⟨b, hb, hkey⟩ := List.any_eq_true.1 hany
      have ha : key a ∈ (l.eraseDupsBy fun a b => key a = key b).map key :=
        List.mem_map.2 ⟨b, hb, (of_decide_eq_true hkey).symm⟩
      constructor
      · exact .inl
      · rintro (hk | hk)
        · exact hk
        · rwa [List.mem_singleton.1 hk]
    case isFalse => rw [List.map_append, List.mem_append]

/-- What is left by keys has no key twice. -/
lemma nodup_map_eraseDupsBy (key : α → κ) (l : List α) :
    ((l.eraseDupsBy fun a b => key a = key b).map key).Nodup := by
  induction l using List.reverseRecOn with
  | nil => exact List.nodup_nil
  | append_singleton l a ih =>
    rw [eraseDupsBy_append_singleton]
    split
    case isTrue => exact ih
    case isFalse hany =>
      rw [List.map_append, List.nodup_append]
      refine ⟨ih, List.nodup_singleton _, ?_⟩
      rintro k hk k' hk' rfl
      obtain ⟨b, hb, rfl⟩ := List.mem_map.1 hk
      exact hany (List.any_eq_true.2 ⟨b, hb, decide_eq_true (List.mem_singleton.1 hk').symm⟩)

/-- Where a key tells the elements of a list apart, none of them is lost. -/
lemma mem_eraseDupsBy_iff {key : α → κ} {l : List α}
    (hkey : ∀ a ∈ l, ∀ b ∈ l, key a = key b → a = b) {a : α} :
    a ∈ l.eraseDupsBy (fun a b => key a = key b) ↔ a ∈ l := by
  refine ⟨mem_of_mem_eraseDupsBy, fun ha => ?_⟩
  have hk := (mem_map_eraseDupsBy key l (key a)).2 (List.mem_map_of_mem ha)
  obtain ⟨b, hb, hab⟩ := List.mem_map.1 hk
  rwa [← hkey b (mem_of_mem_eraseDupsBy hb) a ha hab]

/-- Where every element gives something, no fewer things are given than there are elements. -/
lemma length_le_flatMap {f : α → List β} (hf : ∀ a, f a ≠ []) (l : List α) :
    l.length ≤ (l.flatMap f).length := by
  induction l with
  | nil => exact Nat.le_refl 0
  | cons a l ih =>
    have ha : 0 < (f a).length := List.length_pos_iff.2 (hf a)
    rw [List.flatMap_cons, List.length_append, List.length_cons]
    omega

/-! ## Look-ups -/

section Lookup

variable {l : List (String × α)}

/-- Under distinct keys each value is found by its key. -/
lemma lookup_of_mem (hnodup : (l.map Prod.fst).Nodup) {e : String × α} (he : e ∈ l) :
    l.lookup e.1 = some e.2 := by
  induction l with
  | nil => cases he
  | cons f l ih =>
    obtain ⟨hf, hnodup⟩ := List.nodup_cons.1 hnodup
    rcases List.mem_cons.1 he with rfl | he
    · rw [List.lookup_cons, beq_self_eq_true]
    · have hne : e.1 ≠ f.1 := fun heq => hf (List.mem_map.2 ⟨e, he, heq⟩)
      rw [List.lookup_cons, beq_eq_false_iff_ne.2 hne]
      exact ih hnodup he

/-- What is found under a key is one of the entries. -/
lemma mem_of_lookup {k : String} {v : α} (h : l.lookup k = some v) : (k, v) ∈ l := by
  induction l with
  | nil => cases h
  | cons f l ih =>
    rw [List.lookup_cons] at h
    cases hk : k == f.1 with
    | true =>
      rw [hk] at h
      obtain rfl := Option.some.inj h
      rw [eq_of_beq hk]
      exact List.mem_cons_self
    | false =>
      rw [hk] at h
      exact List.mem_cons_of_mem _ (ih h)

/-- Nothing is found under a key that no entry has. -/
lemma lookup_eq_none {k : String} (h : k ∉ l.map Prod.fst) : l.lookup k = none := by
  refine List.lookup_eq_none_iff.2 fun e he => bne_iff_ne.2 ?_
  rintro rfl
  exact h (List.mem_map_of_mem he)

end Lookup

end PhpCalls
