import PhpCalls.Proofs.Files.Path
import PhpCalls.Proofs.Files.Removal

set_option autoImplicit false

/-!
# The way of a path

A path leads through positions, one for each of its names, and the last of them is where it ends.
The way goes down into directories and up again, so it need not stay among those that are around its
end. But what lies between a position on the way and the end, if the one is around the other, is
passed in between: the way cannot jump.

## Main definitions

* `Disk.passed`, `Disk.trail`: the positions through which a path leads, the last first.
* `Disk.ancestry`: a position and those around it, the nearest first.

## Main results

* `Disk.find_join`: what has a name in the directory at the end of a path.
* `Disk.mem_passed_or_prefix`: a position around the end is passed or never left.
* `Disk.eq_of_find?_passed`: the first position of a sort on the way back, if it is around the end,
  is the nearest one of its sort around the end.
-/

namespace PhpCalls.Disk

variable {d : Disk} {path : String} {position parts r : List String}

/-! ## Names are enough -/

/-- On the way to a directory there are directories only. -/
lemma exists_follow_of_prefix {front : List String} (hfront : front <+: parts)
    (h : d.follow position parts = .ok r) (hr : d.tree.IsDirAt r) :
    ∃ m, d.follow position front = .ok m ∧ d.tree.IsDirAt m := by
  induction front generalizing position parts with
  | nil => exact ⟨position, rfl, isDirAt_of_follow h hr⟩
  | cons p front ih =>
    cases parts with
    | nil => exact absurd (List.prefix_nil.1 hfront) (List.cons_ne_nil _ _)
    | cons p' parts =>
      obtain ⟨rfl, hrest⟩ := List.cons_prefix_cons.1 hfront
      obtain ⟨hdir, hsome, hnext⟩ := follow_cons_eq_ok_iff.1 h
      obtain ⟨m, hm, hmdir⟩ := ih hrest hnext
      exact ⟨m, follow_cons_eq_ok_iff.2 ⟨hdir, hsome, hm⟩, hmdir⟩

/-- Pieces that say nothing do not matter on the way to a directory. -/
lemma follow_filter (hr : d.tree.IsDirAt r) :
    d.follow position (parts.filter fun p => !Path.isSilent p) = .ok r ↔
      d.follow position parts = .ok r := by
  induction parts generalizing position with
  | nil => rfl
  | cons p parts ih =>
    cases hp : Path.isSilent p with
    | true =>
      have hstay : advance position p = position := by rw [advance, if_pos hp]
      rw [List.filter_cons_of_neg (by simp [hp]), follow_cons_eq_ok_iff, hstay, ← ih]
      refine ⟨fun h => ⟨isDirAt_of_follow h hr, fun hspeaks => ?_, h⟩, fun h => h.2.2⟩
      exact absurd (hspeaks.symm.trans hp) (by decide)
    | false =>
      rw [List.filter_cons_of_pos (by simp [hp]), follow_cons_eq_ok_iff, follow_cons_eq_ok_iff, ih]

/-- Parts that say nothing lead nowhere. -/
lemma foldl_advance_filter (position parts : List String) :
    (parts.filter fun p => !Path.isSilent p).foldl advance position =
      parts.foldl advance position := by
  induction parts generalizing position with
  | nil => rfl
  | cons p parts ih =>
    cases hp : Path.isSilent p with
    | true =>
      have hstay : advance position p = position := by rw [advance, if_pos hp]
      rw [List.filter_cons_of_neg (by simp [hp]), ih, List.foldl_cons, hstay]
    | false => rw [List.filter_cons_of_pos (by simp [hp]), List.foldl_cons, ih, List.foldl_cons]

/-- A path starts from the top if it is absolute, and from the working directory if not. -/
lemma start_fst (d : Disk) (path : String) :
    (d.start path).1 = if Path.isAbsolute path then [] else d.here := by
  rw [start]
  split <;> rfl

/-- The pieces that are followed have the names of the path. -/
lemma filter_start (d : Disk) (path : String) :
    ((d.start path).2.filter fun p => !Path.isSilent p) = Path.names path := by
  rw [start, Path.names]
  split
  case isTrue habsolute =>
    obtain ⟨body, hpieces, -⟩ | ⟨-, -, -, hrelative⟩ | ⟨-, -, -, -, -, -, hrelative⟩ :=
      Path.split_cases path
    · rw [hpieces, List.filter_cons_of_neg (by decide)]
      rfl
    · exact absurd (habsolute.symm.trans hrelative) (by decide)
    · exact absurd (habsolute.symm.trans hrelative) (by decide)
  case isFalse => rfl

/-- A path spells the position that its names lead to. -/
lemma intended_eq_names (d : Disk) (path : String) :
    d.intended path = (Path.names path).foldl advance (d.start path).1 := by
  rw [intended_eq_foldl, ← filter_start d, foldl_advance_filter]

/-- A directory that a path leads to is reached by the names of the path. -/
lemma exists_of_isDir (h : d.isDir path = true) :
    ∃ base, d.locate path = .ok base ∧ d.follow (d.start path).1 (Path.names path) = .ok base ∧
      d.tree.IsDirAt base := by
  rw [isDir, Option.any_eq_true] at h
  obtain ⟨t, ht, hdir⟩ := h
  cases hfind : d.find path with
  | error e =>
    rw [hfind] at ht
    cases ht
  | ok u =>
    rw [hfind] at ht
    obtain rfl : u = t := Option.some.inj ht
    obtain ⟨base, hlocate, -⟩ := exists_of_bind_eq_ok hfind
    have hbase : d.tree.IsDirAt base := by
      have hget := find_eq_ok hfind
      rw [← locate_eq_ok hlocate] at hget
      cases u with
      | dir es => exact ⟨es, hget⟩
      | file b => cases hdir
    refine ⟨base, hlocate, ?_, hbase⟩
    rw [← filter_start d, follow_filter hbase]
    rw [locate] at hlocate
    split_ifs at hlocate
    exact hlocate

/-- The pieces that are followed for a path with a name below it are those of the path, and then the
name. -/
lemma exists_start_join {q name : String} (hname : Path.isSilent name = false)
    (hslash : '/' ∉ name.toList) :
    ∃ front, (d.start (Path.join q name)).2 = front ++ [name] ∧
      (front.filter fun p => !Path.isSilent p) = Path.names q := by
  obtain ⟨pieces, hpieces, hnames, -⟩ := Path.exists_splitAt_join hslash q
  rw [start]
  split
  case isTrue hroot =>
    -- the empty piece before the first slash is not followed
    obtain ⟨body, hcut, -⟩ | ⟨-, -, -, hrelative⟩ | ⟨-, -, -, -, -, -, hrelative⟩ :=
      Path.split_cases (Path.join q name)
    · rw [hpieces] at hcut
      cases pieces with
      | nil =>
        rw [(List.cons.inj hcut).1] at hname
        exact absurd hname (by decide)
      | cons p pieces =>
        obtain ⟨rfl, -⟩ := List.cons.inj hcut
        refine ⟨pieces, by rw [hpieces]; rfl, ?_⟩
        rwa [List.filter_cons_of_neg (by decide)] at hnames
    · exact absurd (hroot.symm.trans hrelative) (by decide)
    · exact absurd (hroot.symm.trans hrelative) (by decide)
  case isFalse => exact ⟨pieces, hpieces, hnames⟩

/-- What has a name in the directory at the end of a path is found by putting the name below the
path. -/
theorem find_join {q name : String} (hname : Path.isSilent name = false) (hup : name ≠ "..")
    (hslash : '/' ∉ name.toList) (hq : d.follow (d.start q).1 (Path.names q) = .ok r)
    (hr : d.tree.IsDirAt r) (t : FileTree) :
    d.find (Path.join q name) = .ok t ↔ d.tree.get? (r ++ [name]) = some t := by
  obtain ⟨front, hfront, hnames⟩ := d.exists_start_join (q := q) hname hslash
  have hstart : (d.start (Path.join q name)).1 = (d.start q).1 := by
    obtain ⟨-, -, -, habsolute⟩ := Path.exists_splitAt_join hslash q
    rw [start_fst, start_fst, habsolute]
  have hfollow : d.follow (d.start q).1 front = .ok r := by
    rw [← follow_filter hr, hnames]
    exact hq
  constructor
  · intro hfind
    have hposition : d.intended (Path.join q name) = r ++ [name] := by
      rw [intended_eq_foldl, hstart, hfront, List.foldl_append, ← follow_eq_ok hfollow,
        List.foldl_cons, List.foldl_nil, advance, if_neg (by simp [hname]), if_neg hup]
    rw [← hposition]
    exact find_eq_ok hfind
  · intro hget
    refine find_of_locate ?_ hget
    have hempty : name ≠ "" := by
      rintro rfl
      cases hname
    rw [locate, if_neg (Path.join_ne_empty hempty q)]
    change d.follow (d.start (Path.join q name)).1 (d.start (Path.join q name)).2 = _
    rw [hstart, hfront]
    exact follow_append_name hfollow hname hup (Option.isSome_of_eq_some hget)

/-! ## Positions on the way -/

/-- The positions through which parts lead from a position, the last first. -/
def passed (position : List String) : List String → List (List String)
  | [] => [position]
  | p :: ps => passed (advance position p) ps ++ [position]

/-- The positions through which a path leads, the last first. -/
def trail (d : Disk) (path : String) : List (List String) :=
  passed (d.start path).1 (Path.names path)

/-- A position and those around it, the nearest first. -/
def ancestry (position : List String) : List (List String) := position.inits.reverse

/-- The positions that are passed are those that the beginnings of the parts lead to. -/
lemma passed_eq_map_ancestry (position parts : List String) :
    passed position parts = (ancestry parts).map fun ps => ps.foldl advance position := by
  induction parts generalizing position with
  | nil => rfl
  | cons p parts ih => simp [passed, ih, ancestry, Function.comp_def]

/-- The position at the start is passed. -/
lemma mem_passed_self (position parts : List String) : position ∈ passed position parts := by
  cases parts with
  | nil => exact List.mem_singleton_self _
  | cons p parts => exact List.mem_append_right _ (List.mem_singleton_self _)

/-- A position around the end of a way is passed, or all of the way is below it.

**Proof sketch.** By induction on the way, from its beginning. A step to a name enters only the
directory of that name; a step upwards leaves a position that is around what lies before it. -/
theorem mem_passed_or_prefix {q : List String} (h : q <+: parts.foldl advance position) :
    q ∈ passed position parts ∨ ∀ v ∈ passed position parts, q <+: v := by
  induction parts generalizing position with
  | nil => exact .inr fun v hv => List.mem_singleton.1 hv ▸ h
  | cons p parts ih =>
    rcases ih h with hmem | hall
    · exact .inl (List.mem_append_left _ hmem)
    have hnext := hall _ (mem_passed_self (advance position p) parts)
    have hstep : q <+: position ∨ q = advance position p := by
      rw [advance] at hnext ⊢
      split_ifs at hnext ⊢
      · exact .inl hnext
      · exact .inl (hnext.trans (List.dropLast_prefix _))
      · rcases List.prefix_concat_iff.1 hnext with rfl | hq
        · exact .inr rfl
        · exact .inl hq
    rcases hstep with hq | rfl
    · refine .inr fun v hv => ?_
      rcases List.mem_append.1 hv with hv | hv
      · exact hall v hv
      · exact List.mem_singleton.1 hv ▸ hq
    · exact .inl (List.mem_append_left _ (mem_passed_self _ _))

/-- Going back along a way, the first position of a sort is the nearest one of its sort around the
end, if it is around the end at all. -/
theorem eq_of_find?_passed {sort : List String → Bool} {q q' : List String}
    (hfind : (passed position parts).find? sort = some q) (hqq' : q <+: q')
    (hq' : q' <+: parts.foldl advance position) (hsort : sort q' = true) : q' = q := by
  induction parts generalizing position with
  | nil =>
    obtain rfl : position = q := List.mem_singleton.1 (List.mem_of_find?_eq_some hfind) ▸ rfl
    exact hq'.eq_of_length_le hqq'.length_le
  | cons p parts ih =>
    rw [passed, List.find?_append, Option.or_eq_some_iff] at hfind
    rcases hfind with hfind | ⟨hnone, hfind⟩
    · exact ih hfind hq'
    obtain rfl : q = position := List.mem_singleton.1 (List.mem_of_find?_eq_some hfind)
    have hcases : q' ∈ passed q (p :: parts) ∨ ∀ v ∈ passed q (p :: parts), q' <+: v :=
      mem_passed_or_prefix hq'
    rcases hcases with hmem | hall
    · rcases List.mem_append.1 hmem with hmem | hmem
      · exact absurd hsort (List.find?_eq_none.1 hnone q' hmem)
      · exact List.mem_singleton.1 hmem
    · exact (hall q (mem_passed_self _ _)).eq_of_length_le hqq'.length_le

/-- A way that never goes up stays around its end. -/
lemma prefix_of_mem_passed (hup : ".." ∉ parts) {v : List String} (hv : v ∈ passed position parts) :
    position <+: v ∧ v <+: parts.foldl advance position := by
  induction parts generalizing position v with
  | nil =>
    obtain rfl := List.mem_singleton.1 hv
    exact ⟨List.prefix_refl _, List.prefix_refl _⟩
  | cons p parts ih =>
    rw [List.mem_cons, not_or] at hup
    have hnext : position <+: advance position p := by
      rw [advance, if_neg (Ne.symm hup.1)]
      split
      · exact List.prefix_refl _
      · exact List.prefix_append _ _
    rcases List.mem_append.1 hv with hv | hv
    · obtain ⟨hbegin, hend⟩ := ih hup.2 hv
      exact ⟨hnext.trans hbegin, hend⟩
    · obtain rfl := List.mem_singleton.1 hv
      obtain ⟨-, hend⟩ := ih hup.2 (mem_passed_self (advance v p) parts)
      exact ⟨List.prefix_refl _, hnext.trans hend⟩

/-! ## Around a position -/

/-- A position is around another exactly if it is a beginning of it. -/
lemma mem_ancestry_iff {q : List String} : q ∈ ancestry position ↔ q <+: position := by
  rw [ancestry, List.mem_reverse, List.mem_inits]

/-- Around an entry of a directory are the entry itself and what is around the directory. -/
lemma ancestry_concat (position : List String) (name : String) :
    ancestry (position ++ [name]) = (position ++ [name]) :: ancestry position := by
  simp [ancestry, List.inits_append]

/-- The first position of a sort around another one is the nearest. -/
lemma find?_ancestry_eq_some {sort : List String → Bool} {q : List String} (hsort : sort q = true)
    (hq : q <+: position) (hnearest : ∀ q', q <+: q' → q' <+: position → sort q' = true → q' = q) :
    (ancestry position).find? sort = some q := by
  induction position using List.reverseRecOn with
  | nil =>
    obtain rfl := List.prefix_nil.1 hq
    simp [ancestry, hsort]
  | append_singleton position name ih =>
    rw [ancestry_concat]
    by_cases hend : sort (position ++ [name]) = true
    · rw [List.find?_cons_of_pos hend, hnearest _ hq (List.prefix_refl _) hend]
    · rw [List.find?_cons_of_neg hend]
      rcases List.prefix_concat_iff.1 hq with rfl | hq
      · exact absurd hsort hend
      · exact ih hq fun q' hqq' hq' => hnearest q' hqq' (hq'.trans (List.prefix_append _ _))

end PhpCalls.Disk
