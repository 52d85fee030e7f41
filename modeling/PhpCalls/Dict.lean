set_option autoImplicit false

/-!
# Finite maps in order of their keys

The maps of the library (path to facts, identifier to file, path to checksum) have texts as keys
and are always walked in ascending order of the keys. `Dict` keeps its entries in that order, so a
map has one representation and equality of maps is equality of entries.

## Main definitions

* `Dict`: entries with strictly ascending keys.
* `Dict.get?`, `Dict.insert`, `Dict.ofList`, `Dict.map`: look-up, insertion, and building.

## Main results

* `Dict.get?_insert`: what a look-up finds after an insertion.
-/

namespace PhpCalls

/-- Keys in strictly ascending order. -/
abbrev Ascending {α : Type} (entries : List (String × α)) : Prop :=
  entries.Pairwise fun a b => a.1 < b.1

/-- A finite map from texts, its entries in strictly ascending order of their keys. -/
structure Dict (α : Type) where
  entries : List (String × α)
  ascending : Ascending entries := by simp
deriving DecidableEq

namespace Dict

variable {α β : Type}

/-- Puts an entry at its place, replacing one of the same key. -/
def place (key : String) (value : α) : List (String × α) → List (String × α)
  | [] => [(key, value)]
  | (k, v) :: rest =>
    if key < k then (key, value) :: (k, v) :: rest
    else if key = k then (key, value) :: rest
    else (k, v) :: place key value rest

/-- Placing an entry brings in no other entry. -/
theorem mem_place {key : String} {value : α} {entries : List (String × α)} {e : String × α}
    (h : e ∈ place key value entries) : e = (key, value) ∨ e ∈ entries := by
  induction entries with
  | nil => simp_all [place]
  | cons kv rest ih =>
    obtain ⟨k, v⟩ := kv
    simp only [place] at h
    split at h
    · simp_all
    · split at h
      · simp only [List.mem_cons] at h ⊢
        exact h.imp_right .inr
      · simp only [List.mem_cons] at h ⊢
        rcases h with h | h
        · exact .inr (.inl h)
        · exact (ih h).imp_right .inr

/-- Of two different texts that do not ascend, the second comes first. -/
theorem lt_of_not_lt_of_ne {s t : String} (h : ¬ s < t) (hne : s ≠ t) : t < s := by
  rcases Decidable.em (t < s) with h' | h'
  · exact h'
  · exact absurd (String.le_antisymm (String.not_lt.1 h') (String.not_lt.1 h)) hne

/-- Entries stay in ascending order when one is placed among them. -/
theorem ascending_place {key : String} {value : α} {entries : List (String × α)}
    (h : Ascending entries) : Ascending (place key value entries) := by
  induction entries with
  | nil => simp [place]
  | cons kv rest ih =>
    obtain ⟨k, v⟩ := kv
    obtain ⟨hk, hrest⟩ := List.pairwise_cons.1 h
    simp only [place]
    split
    case isTrue hlt =>
      refine List.pairwise_cons.2 ⟨fun e he => ?_, h⟩
      rcases List.mem_cons.1 he with rfl | he
      · exact hlt
      · exact String.lt_trans hlt (hk e he)
    case isFalse hnlt =>
      split
      case isTrue heq =>
        subst heq
        exact List.pairwise_cons.2 ⟨hk, hrest⟩
      case isFalse hne =>
        refine List.pairwise_cons.2 ⟨fun e he => ?_, ih hrest⟩
        rcases mem_place he with rfl | he
        · exact lt_of_not_lt_of_ne hnlt hne
        · exact hk e he

/-- The map with no entry. -/
def empty : Dict α := ⟨[], List.Pairwise.nil⟩

instance : Inhabited (Dict α) := ⟨empty⟩

/-- The map with one entry more, or with a new value at a key that it has. -/
def insert (d : Dict α) (key : String) (value : α) : Dict α :=
  ⟨place key value d.entries, ascending_place d.ascending⟩

/-- The value at a key. -/
def get? (d : Dict α) (key : String) : Option α :=
  (d.entries.find? fun e => e.1 = key).map Prod.snd

/-- Whether the map has an entry at a key. -/
def contains (d : Dict α) (key : String) : Bool := (d.get? key).isSome

/-- The keys, in ascending order. -/
def keys (d : Dict α) : List String := d.entries.map Prod.fst

/-- The values, in order of their keys. -/
def values (d : Dict α) : List α := d.entries.map Prod.snd

/-- The number of entries. -/
def size (d : Dict α) : Nat := d.entries.length

/-- Whether the map has no entry. -/
def isEmpty (d : Dict α) : Bool := d.entries.isEmpty

/-- The map of a list of entries; of two entries with one key the later counts. -/
def ofList (entries : List (String × α)) : Dict α :=
  entries.foldl (fun d e => d.insert e.1 e.2) empty

/-- The map with each value replaced by a function of key and value. -/
def map (f : String → α → β) (d : Dict α) : Dict β :=
  ⟨d.entries.map fun e => (e.1, f e.1 e.2), by
    simpa [Ascending, List.pairwise_map] using d.ascending⟩

/-- An empty dictionary has nothing under any key. -/
@[simp] theorem get?_empty (key : String) : (empty : Dict α).get? key = none := rfl

/-- After an entry is placed, its key has the new value, and every other key has what it had. -/
theorem find?_place (key : String) (value : α) (entries : List (String × α)) (k : String) :
    (place key value entries).find? (fun e => e.1 = k) =
      if key = k then some (key, value) else entries.find? (fun e => e.1 = k) := by
  induction entries with
  | nil => by_cases h : key = k <;> simp [place, h]
  | cons kv rest ih =>
    obtain ⟨k', v'⟩ := kv
    simp only [place]
    split
    · by_cases h : key = k <;> simp [h]
    · split
      · next heq => subst heq; by_cases h : key = k <;> simp [h]
      · next hne =>
        by_cases h : k' = k
        · have hk : key ≠ k := fun e => hne (e.trans h.symm)
          simp [h, hk]
        · simp [h, ih]

/-- After an insertion the new value is found at its key, and all else as before. -/
@[simp] theorem get?_insert (d : Dict α) (key : String) (value : α) (k : String) :
    (d.insert key value).get? k = if key = k then some value else d.get? k := by
  simp only [get?, insert, find?_place]
  split <;> simp

end Dict

end PhpCalls
