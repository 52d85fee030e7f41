import Mathlib.Data.List.Nodup
import PhpCalls.Proofs.Syntax.Places

set_option autoImplicit false

/-!
# Ways through a tree

The places below a place are those of its parts and of their parts, and from each of them the way up
leads back to it. Two places of one tree are the same place if the same way leads to them, so that a
place and the construct around it can be told by the indices of their ways.

## Main results

* `Place.descend`: induction from the parts of a place to the place.
* `Place.places_eq`: the places below a place, through its parts.
* `Place.ancestors_suffix_of_mem_places`, `Place.mem_places_of_mem_ancestors`: the way up from a
  place below, and the way down from a place above.
* `Place.eq_of_path_eq`: places of one tree are told apart by their ways.
* `Place.of_enclosing?`, `Place.enclosing?_eq_none_iff`: the nearest construct of a family around a
  place.
* `Place.enclosing?_eq_enclosing?`: when two places have the same nearest construct.
-/

namespace PhpCalls.Syntax.Place

variable {p q c a : Place}

/-! ## Parts -/

/-- The numbered places are the nodes, each with its number as the first of its path. -/
lemma mem_numbered_iff {i : Nat} {ns : List Node} : c ∈ numbered p i ns ↔
    ∃ j n, ns[j]? = some n ∧ c = ⟨n, p.node :: p.above, (i + j) :: p.path⟩ := by
  induction ns generalizing i with
  | nil => simp [numbered]
  | cons n ns ih =>
    rw [numbered, List.mem_cons, ih]
    constructor
    · rintro (rfl | ⟨j, m, hm, rfl⟩)
      · exact ⟨0, n, rfl, rfl⟩
      · exact ⟨j + 1, m, hm, by rw [Nat.add_right_comm, Nat.add_assoc]⟩
    · rintro ⟨_ | j, m, hm, rfl⟩
      · exact .inl (by cases hm; rfl)
      · exact .inr ⟨j, m, hm, by rw [Nat.add_right_comm, Nat.add_assoc]⟩

/-- The path of a child is its number before the path of its parent. -/
lemma exists_path_of_mem_children (hc : c ∈ p.children) : ∃ j, c.path = j :: p.path := by
  obtain ⟨j, n, -, rfl⟩ := mem_numbered_iff.1 hc
  exact ⟨_, rfl⟩

/-- The places of the children hold the children of the node. -/
lemma map_node_children (p : Place) : p.children.map node = p.node.children := by
  have hnumbered (i : Nat) (ns : List Node) : (numbered p i ns).map node = ns := by
    induction ns generalizing i with
    | nil => rfl
    | cons n ns ih => rw [numbered, List.map_cons, ih]
  exact hnumbered 0 _

/-- The node of a child is a child of the node. -/
lemma node_mem_of_mem_children (hc : c ∈ p.children) : c.node ∈ p.node.children :=
  p.map_node_children ▸ List.mem_map_of_mem hc

/-- The way up from a part leads to the place first. -/
lemma ancestors_of_mem_children (hc : c ∈ p.children) : c.ancestors = p :: p.ancestors := by
  obtain ⟨j, n, -, rfl⟩ := mem_numbered_iff.1 hc
  rfl

/-- The parts of a place are numbered. -/
lemma map_path_numbered (p : Place) (i : Nat) (ns : List Node) :
    (numbered p i ns).map path = (List.range' i ns.length).map (· :: p.path) := by
  induction ns generalizing i with
  | nil => rfl
  | cons n ns ih =>
    rw [numbered, List.map_cons, ih, List.length_cons, List.range'_succ, List.map_cons]

/-- The children of a place have different paths. -/
lemma nodup_path_children (p : Place) : (p.children.map path).Nodup := by
  rw [children, map_path_numbered]
  refine List.Nodup.map (fun i j h => ?_) List.nodup_range'
  exact (List.cons.inj h).1

/-! ## Downwards -/

/-- The node of a child is smaller. -/
lemma sizeOf_node_lt_of_mem_children (hc : c ∈ p.children) : sizeOf c.node < sizeOf p.node := by
  have hmem := node_mem_of_mem_children hc
  obtain ⟨⟨r, k, t, s, e, cs⟩, above, path⟩ := p
  have hlt : sizeOf c.node < sizeOf cs := List.sizeOf_lt_of_mem hmem
  simp only [Node.mk.sizeOf_spec]
  omega

/-- What holds of a place as soon as it holds of its parts holds of every place. -/
theorem descend {motive : Place → Prop} (step : ∀ p, (∀ c ∈ p.children, motive c) → motive p)
    (p : Place) : motive p :=
  step p fun c _ => descend step c
termination_by sizeOf p.node
decreasing_by exact sizeOf_node_lt_of_mem_children ‹_›

/-- The places below a place are the place itself and those below its parts. -/
theorem places_eq (p : Place) : p.places = p :: p.children.flatMap places := by
  have hparts (parent : Place) (i : Nat) (ns : List Node) :
      placesOfAll (parent.node :: parent.above) parent.path i ns =
        (numbered parent i ns).flatMap places := by
    induction ns generalizing i with
    | nil => rfl
    | cons n ns ih =>
      rw [placesOfAll, ih, numbered, List.flatMap_cons]
      rfl
  obtain ⟨⟨r, k, t, s, e, cs⟩, above, path⟩ := p
  rw [places, placesOf]
  exact congrArg _ (hparts ⟨.mk r k t s e cs, above, path⟩ 0 cs)

/-- The places below a place are the place itself and those below its children. -/
lemma mem_places_iff : q ∈ p.places ↔ q = p ∨ ∃ c ∈ p.children, q ∈ c.places := by
  rw [places_eq, List.mem_cons, List.mem_flatMap]

/-- A place is among the places below it. -/
lemma self_mem_places (p : Place) : p ∈ p.places := mem_places_iff.2 (.inl rfl)

/-- What is below a child is below its parent. -/
lemma mem_places_of_mem_children (hc : c ∈ p.children) (hq : q ∈ c.places) : q ∈ p.places :=
  mem_places_iff.2 (.inr ⟨c, hc, hq⟩)

/-- What is below something below a place is below the place. -/
lemma mem_places_trans (hq : q ∈ p.places) (ha : a ∈ q.places) : a ∈ p.places := by
  induction p using descend with
  | step p ih =>
    rcases mem_places_iff.1 hq with rfl | ⟨c, hc, hq⟩
    · exact ha
    · exact mem_places_of_mem_children hc (ih c hc hq)

/-! ## Upwards -/

/-- From a place below, the way up leads to the place and on from there. -/
theorem ancestors_suffix_of_mem_places (hq : q ∈ p.places) :
    q = p ∨ (p :: p.ancestors) <:+ q.ancestors := by
  induction p using descend with
  | step p ih =>
    rcases mem_places_iff.1 hq with rfl | ⟨c, hc, hq⟩
    · exact .inl rfl
    · refine .inr ?_
      rw [← ancestors_of_mem_children hc]
      rcases ih c hc hq with rfl | hsuffix
      · exact List.suffix_refl _
      · exact (List.suffix_cons c c.ancestors).trans hsuffix

/-- What the way up leads to from a place below is below too, or above. -/
lemma mem_ancestors_or_mem_places (hq : q ∈ p.places) (ha : a ∈ q.ancestors) :
    a ∈ p.ancestors ∨ a ∈ p.places ∧ q ∈ a.places := by
  induction p using descend with
  | step p ih =>
    rcases mem_places_iff.1 hq with rfl | ⟨c, hc, hqc⟩
    · exact .inl ha
    · rcases ih c hc hqc with habove | ⟨hbelow, hqa⟩
      · rw [ancestors_of_mem_children hc] at habove
        rcases List.mem_cons.1 habove with rfl | habove
        · exact .inr ⟨self_mem_places a, hq⟩
        · exact .inl habove
      · exact .inr ⟨mem_places_of_mem_children hc hbelow, hqa⟩

/-- In a tree, a place above another has that one below it. -/
theorem mem_places_of_mem_ancestors {n : Node} (hq : q ∈ (root n).places) (ha : a ∈ q.ancestors) :
    a ∈ (root n).places ∧ q ∈ a.places :=
  (mem_ancestors_or_mem_places hq ha).resolve_left fun h => by cases h

/-- The nearest construct of a family around a place of a tree. -/
lemma of_enclosing? {n : Node} {family : Kind → Bool} (hq : q ∈ (root n).places)
    (ha : q.enclosing? family = some a) :
    a ∈ (root n).places ∧ q ∈ a.places ∧ family a.kind = true := by
  obtain ⟨htree, hbelow⟩ := mem_places_of_mem_ancestors hq (List.mem_of_find?_eq_some ha)
  have hfind : (q.ancestors.find? fun b => family b.kind) = some a := ha
  exact ⟨htree, hbelow, by simpa using List.find?_some hfind⟩

/-- The places above a place hold the nodes above it. -/
lemma map_node_ancestors (p : Place) : p.ancestors.map node = p.above := by
  have hclimb (ns : List Node) (is : List Nat) : (climb ns is).map node = ns := by
    induction ns generalizing is with
    | nil => rfl
    | cons n ns ih => rw [climb, List.map_cons, ih]
  exact hclimb _ _

/-- No construct of a family is around a place just if the place is inside of none. -/
lemma enclosing?_eq_none_iff {family : Kind → Bool} :
    p.enclosing? family = none ↔ p.isInside family = false := by
  rw [enclosing?, List.find?_eq_none, isInside, List.any_eq_false, ← map_node_ancestors]
  simp [kind]

/-- On the way up from a place, the way up from any place follows that place. -/
lemma ancestors_eq_of_append {as bs : List Place} (h : p.ancestors = as ++ a :: bs) :
    a.ancestors = bs := by
  have hclimb (ns : List Node) (is : List Nat) (as : List Place) (h : climb ns is = as ++ a :: bs) :
      a.ancestors = bs := by
    induction ns generalizing is as with
    | nil => simp [climb] at h
    | cons n ns ih =>
      rw [climb] at h
      cases as with
      | nil =>
        obtain ⟨rfl, rfl⟩ := List.cons.inj h
        rfl
      | cons b as => exact ih _ _ (List.cons.inj h).2
  exact hclimb _ _ _ h

/-- What is above something above a place is above the place. -/
lemma mem_ancestors_trans (hq : q ∈ p.ancestors) (ha : a ∈ q.ancestors) : a ∈ p.ancestors := by
  obtain ⟨as, bs, hsplit⟩ := List.append_of_mem hq
  rw [ancestors_eq_of_append hsplit] at ha
  rw [hsplit]
  exact List.mem_append_right _ (List.mem_cons_of_mem _ ha)

/-- The way up gets shorter. -/
lemma length_ancestors_lt (ha : a ∈ p.ancestors) : a.ancestors.length < p.ancestors.length := by
  obtain ⟨as, bs, hsplit⟩ := List.append_of_mem ha
  rw [ancestors_eq_of_append hsplit, hsplit, List.length_append, List.length_cons]
  omega

/-- Inside of a construct of a family, the nearest one is this construct or is inside of it. -/
theorem enclosing?_of_mem_ancestors {family : Kind → Bool} (ha : a ∈ p.ancestors)
    (hfamily : family a.kind = true) :
    ∃ e, p.enclosing? family = some e ∧ (e = a ∨ a ∈ e.ancestors) := by
  obtain ⟨e, he⟩ : ∃ e, p.enclosing? family = some e := by
    refine Option.isSome_iff_exists.1 (List.find?_isSome.2 ⟨a, ha, ?_⟩)
    simpa using hfamily
  obtain ⟨-, as, bs, hsplit, hbefore⟩ := List.find?_eq_some_iff_append.1 he
  rw [hsplit, ← ancestors_eq_of_append hsplit] at ha
  refine ⟨e, he, ?_⟩
  rcases List.mem_append.1 ha with ha | ha
  · have hnot := hbefore a ha
    rw [hfamily] at hnot
    cases hnot
  · exact (List.mem_cons.1 ha).imp_left Eq.symm

/-- Two places have the same nearest construct of a family if that of each is around the other
too. -/
theorem enclosing?_eq_enclosing? {family : Kind → Bool}
    (hp : ∀ d, p.enclosing? family = some d → d ∈ q.ancestors)
    (hq : ∀ d, q.enclosing? family = some d → d ∈ p.ancestors) :
    p.enclosing? family = q.enclosing? family := by
  have hnearest {p q : Place} (hp : ∀ d, p.enclosing? family = some d → d ∈ q.ancestors) {d : Place}
      (hd : p.enclosing? family = some d) :
      ∃ e, q.enclosing? family = some e ∧ (e = d ∨ d ∈ e.ancestors) := by
    have hfind : (p.ancestors.find? fun a => family a.kind) = some d := hd
    exact enclosing?_of_mem_ancestors (hp d hd) (by simpa using List.find?_some hfind)
  cases hd : p.enclosing? family with
  | none =>
    cases he : q.enclosing? family with
    | none => rfl
    | some e =>
      obtain ⟨d, hd', -⟩ := hnearest hq he
      rw [hd] at hd'
      cases hd'
  | some d =>
    obtain ⟨e, he, hed⟩ := hnearest hp hd
    obtain ⟨d', hd', hde⟩ := hnearest hq he
    obtain rfl : d' = d := Option.some.inj (hd'.symm.trans hd)
    rw [he]
    rcases hed with rfl | hed
    · rfl
    rcases hde with rfl | hde
    · rfl
    · exact absurd (length_ancestors_lt hed) (Nat.lt_asymm (length_ancestors_lt hde))

/-! ## Ways as names -/

/-- The path of a place ends in the path of every place above it. -/
lemma path_suffix_of_mem_places (hq : q ∈ p.places) : p.path <:+ q.path := by
  induction p using descend with
  | step p ih =>
    rcases mem_places_iff.1 hq with rfl | ⟨c, hc, hq⟩
    · exact List.suffix_refl _
    · obtain ⟨j, hj⟩ := exists_path_of_mem_children hc
      have hsuffix : (j :: p.path) <:+ q.path := hj ▸ ih c hc hq
      exact (List.suffix_cons j p.path).trans hsuffix

/-- The ways to the places below a place are all different. -/
theorem nodup_path_places (p : Place) : (p.places.map path).Nodup := by
  induction p using descend with
  | step p ih =>
    rw [places_eq, List.map_cons, List.nodup_cons, List.map_flatMap, List.nodup_flatMap]
    refine ⟨fun hmem => ?_, ih, ?_⟩
    · -- the way to a place below a part is longer
      obtain ⟨c, hc, hmem⟩ := List.mem_flatMap.1 hmem
      obtain ⟨q, hq, hpath⟩ := List.mem_map.1 hmem
      obtain ⟨j, hj⟩ := exists_path_of_mem_children hc
      have hlength := (path_suffix_of_mem_places hq).length_le
      rw [hpath, hj, List.length_cons] at hlength
      omega
    · -- the ways to places below two parts end with the ways to these
      have hparts : p.children.Pairwise fun c d => c.path ≠ d.path :=
        List.pairwise_map.1 p.nodup_path_children
      refine hparts.imp_of_mem fun {c d} hc hd hne => ?_
      intro way hway hway'
      obtain ⟨q, hq, rfl⟩ := List.mem_map.1 hway
      obtain ⟨q', hq', hsame⟩ := List.mem_map.1 hway'
      obtain ⟨i, hi⟩ := exists_path_of_mem_children hc
      obtain ⟨j, hj⟩ := exists_path_of_mem_children hd
      have hlength : c.path.length = d.path.length := by rw [hi, hj]; rfl
      have hsuffix : d.path <:+ q.path := hsame ▸ path_suffix_of_mem_places hq'
      have hcd : c.path <:+ d.path :=
        List.suffix_of_suffix_length_le (path_suffix_of_mem_places hq) hsuffix
          (Nat.le_of_eq hlength)
      exact hne (hcd.eq_of_length hlength)

/-- No place stands twice among those below a place. -/
lemma nodup_places (p : Place) : p.places.Nodup := p.nodup_path_places.of_map

/-- Places of one tree are told apart by their ways. -/
theorem eq_of_path_eq (hq : q ∈ p.places) (ha : a ∈ p.places) (h : q.path = a.path) : q = a :=
  List.inj_on_of_nodup_map p.nodup_path_places hq ha h

end PhpCalls.Syntax.Place
