set_option autoImplicit false

/-!
# Parts of texts by byte offsets

An offset counts the bytes before a place in a text. Not every number is one: it may lie beyond the
end or inside a character, and then nothing can be cut there.

## Main definitions

* `Text.slice?`: what is between two offsets.

## Main results

* `Text.slice?_eq_some_iff`: what is cut out, and from where.
-/

namespace PhpCalls.Text

/-- What is between two byte offsets, if they are in order and neither lies beyond the end or inside
a character. -/
def slice? (s : String) (start stop : Nat) : Option String :=
  if h : String.Pos.Raw.IsValid s ⟨start⟩ ∧ String.Pos.Raw.IsValid s ⟨stop⟩ ∧ start ≤ stop then
    some (s.slice (s.pos ⟨start⟩ h.1) (s.pos ⟨stop⟩ h.2.1) h.2.2).copy
  else none

/-- A text is cut out just if it stands between texts of the right numbers of bytes. -/
theorem slice?_eq_some_iff {s t : String} {start stop : Nat} :
    slice? s start stop = some t ↔
      ∃ before behind, s = before ++ t ++ behind ∧ before.utf8ByteSize = start ∧
        (before ++ t).utf8ByteSize = stop := by
  constructor
  · intro h
    unfold slice? at h
    split at h
    case isTrue hvalid =>
      have hcopy := Option.some.inj h
      obtain ⟨before, behind, hstart, hstop⟩ :=
        String.copy_slice_eq_iff_splits.1 ⟨hvalid.2.2, hcopy⟩
      refine ⟨before, behind, hstop.eq_append, ?_, ?_⟩
      · exact congrArg String.Pos.Raw.byteIdx hstart.offset_eq_rawEndPos.symm
      · exact congrArg String.Pos.Raw.byteIdx hstop.offset_eq_rawEndPos.symm
    case isFalse => cases h
  · rintro ⟨before, behind, rfl, rfl, rfl⟩
    have hstart : String.Pos.Raw.IsValid (before ++ t ++ behind) ⟨before.utf8ByteSize⟩ :=
      String.Pos.Raw.isValid_iff_exists_append.2
        ⟨before, t ++ behind, String.append_assoc, rfl⟩
    have hstop : String.Pos.Raw.IsValid (before ++ t ++ behind) ⟨(before ++ t).utf8ByteSize⟩ :=
      String.Pos.Raw.isValid_iff_exists_append.2 ⟨before ++ t, behind, rfl, rfl⟩
    have hle : before.utf8ByteSize ≤ (before ++ t).utf8ByteSize := by
      rw [String.utf8ByteSize_append]
      exact Nat.le_add_right _ _
    have hsplits : (String.pos _ _ hstart).Splits before (t ++ behind) := ⟨String.append_assoc, rfl⟩
    have hsplits' : (String.pos _ _ hstop).Splits (before ++ t) behind := ⟨rfl, rfl⟩
    obtain ⟨_, hcopy⟩ := String.copy_slice_eq_iff_splits.2 ⟨before, behind, hsplits, hsplits'⟩
    rw [slice?, dif_pos ⟨hstart, hstop, hle⟩]
    exact congrArg some hcopy

end PhpCalls.Text
