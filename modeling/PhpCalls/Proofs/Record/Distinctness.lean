import PhpCalls.Proofs.Record.RoundTrip

set_option autoImplicit false

/-!
# Records told apart by their JSON forms

Records of one sort with the same JSON form are one record, whatever their numbers are: a member
that is left out says that its field has the default.

## Main results

* `Json.eq_of_kept`: a field that is left out if it has its default.
* `Call.toJson_injective`, `Routine.toJson_injective`, `ClassDecl.toJson_injective`, …: records are
  told apart.
-/

namespace PhpCalls

/-! ## Parts of records -/

namespace Json

variable {α : Type}

/-- What is read back is told apart by what is written. -/
lemma injective_of_read {toJson : α → Json} {read : Decoder α} (h : ∀ a, read (toJson a) = some a) :
    Function.Injective toJson := by
  intro a b hab
  have hread := h a
  rw [hab, h b] at hread
  exact (Option.some.inj hread).symm

/-- Different optional texts are written differently. -/
lemma optStr_injective : Function.Injective optStr := injective_of_read Decoder.option_optStr

/-- Different lists of texts are written differently. -/
lemma list_str_injective : Function.Injective (list str) := injective_of_read Decoder.list_str

/-- Different lists are written differently if their elements are. -/
lemma list_injective {f : α → Json} (hf : Function.Injective f) : Function.Injective (list f) := by
  intro as bs h
  exact List.map_injective_iff.2 hf (arr.inj h)

/-- A field that is written only if it has not its default is told by what is written of it. -/
lemma eq_of_kept {keep : α → Bool} {default : α} (hdefault : ∀ a, keep a = false → a = default)
    {f : α → Json} (hf : Function.Injective f) {a b : α}
    (h : (if keep a then some (f a) else none) = if keep b then some (f b) else none) : a = b := by
  cases ha : keep a <;> cases hb : keep b
  · rw [hdefault a ha, hdefault b hb]
  · simp [ha, hb] at h
  · simp [ha, hb] at h
  · rw [ha, hb] at h
    exact hf (Option.some.inj h)

/-- An optional value is told by its member, which is written only if there is a value. -/
lemma eq_of_kept_some {f : Option α → Json} (hf : Function.Injective f) {a b : Option α}
    (h : (if a.isSome then some (f a) else none) = if b.isSome then some (f b) else none) :
    a = b := by
  have hdefault : ∀ a : Option α, a.isSome = false → a = none := by simp
  exact eq_of_kept hdefault hf h

/-- A list is told by its member, which is written only if the list is not empty. -/
lemma eq_of_kept_nonempty {f : List α → Json} (hf : Function.Injective f) {as bs : List α}
    (h : (if !as.isEmpty then some (f as) else none) = if !bs.isEmpty then some (f bs) else none) :
    as = bs := by
  have hdefault : ∀ as : List α, (!as.isEmpty) = false → as = [] := by simp
  exact eq_of_kept hdefault hf h

end Json

/-- Different visibilities are written differently. -/
lemma Visibility.toJson_injective : Function.Injective toJson :=
  Json.injective_of_read ofJson?_toJson

/-- Different sorts of calls are written differently. -/
lemma CallKind.toJson_injective : Function.Injective toJson := Json.injective_of_read ofJson?_toJson

/-- Different sorts of classes are written differently. -/
lemma ClassKind.toJson_injective : Function.Injective toJson :=
  Json.injective_of_read ofJson?_toJson

/-- Different sorts of imports are written differently. -/
lemma ImportKind.toJson_injective : Function.Injective toJson :=
  Json.injective_of_read ofJson?_toJson

/-- Different sorts of variables are written differently. -/
lemma VariableKind.toJson_injective : Function.Injective toJson :=
  Json.injective_of_read ofJson?_toJson

/-- Different lists of modifiers are written differently. -/
lemma Modifier.list_toJson_injective : Function.Injective (Json.list toJson) :=
  Json.injective_of_read list_toJson

/-- Different lists of references to classes are written differently. -/
lemma list_classRefToJson_injective : Function.Injective (Json.list classRefToJson) :=
  Json.injective_of_read list_classRefs

/-! ## Functions, methods and calls -/

/-- Parameters are told apart. -/
theorem Param.toJson_injective : Function.Injective toJson := by
  intro p q h
  have hvariadic : p.variadic = q.variadic := by
    have hmember := congrArg (Json.member? · "variadic") h
    refine Json.eq_of_kept (fun _ => id) (fun _ _ => Json.bool.inj) ?_
    simpa [toJson, Json.member?, List.lookup_cons, Fields.lookup_memberIf] using hmember
  simp only [toJson, List.cons_append, Json.obj.injEq, List.cons.injEq, Prod.mk.injEq, true_and,
    Json.nat.injEq, Json.optStr_injective.eq_iff] at h
  cases p
  cases q
  simp_all

/-- Calls are told apart. -/
theorem Call.toJson_injective : Function.Injective toJson := by
  intro c d h
  have hmember (name : String) : c.toJson.member? name = d.toJson.member? name := by rw [h]
  have hfile : c.file = d.file := Json.eq_of_kept_some Json.optStr_injective
    (by simpa [toJson, Json.member?, List.lookup_cons, List.lookup_append, Fields.lookup_memberIf]
      using hmember "file")
  have hnamespace : c.inNamespace = d.inNamespace := Json.eq_of_kept_some Json.optStr_injective
    (by simpa [toJson, Json.member?, List.lookup_cons, List.lookup_append, Fields.lookup_memberIf]
      using hmember "namespace")
  have hfiles : c.mayFiles = d.mayFiles := Json.eq_of_kept_nonempty Json.list_str_injective
    (by simpa [toJson, Json.member?, List.lookup_cons, List.lookup_append, Fields.lookup_memberIf]
      using hmember "may_files")
  have hnamespaces : c.mayNamespaces = d.mayNamespaces :=
    Json.eq_of_kept_nonempty Json.list_str_injective
      (by simpa [toJson, Json.member?, List.lookup_cons, List.lookup_append, Fields.lookup_memberIf]
        using hmember "may_namespaces")
  have hsource : c.mayBeSource = d.mayBeSource :=
    Json.eq_of_kept_some (Json.injective_of_read Decoder.option_dict_str)
      (by simpa [toJson, Json.member?, List.lookup_cons, List.lookup_append, Fields.lookup_memberIf]
        using hmember "may_be_source")
  simp only [toJson, List.cons_append, Json.obj.injEq, List.cons.injEq, Prod.mk.injEq, true_and,
    Json.str.injEq, Json.nat.injEq, Json.bool.injEq, Json.optStr_injective.eq_iff,
    Visibility.toJson_injective.eq_iff, CallKind.toJson_injective.eq_iff,
    Modifier.list_toJson_injective.eq_iff, (Json.list_injective Param.toJson_injective).eq_iff] at h
  cases c
  cases d
  simp_all

/-- Routines are told apart. -/
theorem Routine.toJson_injective : Function.Injective toJson := by
  intro r s h
  have hmember (name : String) : r.toJson.member? name = s.toJson.member? name := by rw [h]
  have hcalls : r.calls = s.calls :=
    Json.eq_of_kept_nonempty (Json.list_injective Call.toJson_injective)
      (by simpa [toJson, Json.member?, List.lookup_cons, List.lookup_append, Fields.lookup_memberIf]
        using hmember "calls")
  have hcalledBy : r.calledBy = s.calledBy := Json.eq_of_kept_nonempty Json.list_str_injective
    (by simpa [toJson, Json.member?, List.lookup_cons, List.lookup_append, Fields.lookup_memberIf]
      using hmember "called_by")
  simp only [toJson, List.cons_append, Json.obj.injEq, List.cons.injEq, Prod.mk.injEq, true_and,
    Json.str.injEq, Json.nat.injEq, Json.optStr_injective.eq_iff, Json.list_str_injective.eq_iff,
    Visibility.toJson_injective.eq_iff, CallKind.toJson_injective.eq_iff,
    Modifier.list_toJson_injective.eq_iff, (Json.list_injective Param.toJson_injective).eq_iff] at h
  cases r
  cases s
  simp_all

/-! ## Classes and the smaller records -/

/-- Properties are told apart. -/
theorem Property.toJson_injective : Function.Injective toJson := by
  intro p q h
  simp only [toJson, Json.obj.injEq, List.cons.injEq, Prod.mk.injEq, true_and, Json.str.injEq,
    Json.nat.injEq, Json.optStr_injective.eq_iff, Visibility.toJson_injective.eq_iff,
    Modifier.list_toJson_injective.eq_iff] at h
  cases p
  cases q
  simp_all

/-- Classes are told apart. -/
theorem ClassDecl.toJson_injective : Function.Injective toJson := by
  intro k l h
  simp only [toJson, Json.obj.injEq, List.cons.injEq, Prod.mk.injEq, true_and, Json.str.injEq,
    Json.nat.injEq, Json.bool.injEq, Json.optStr_injective.eq_iff,
    Visibility.toJson_injective.eq_iff, ClassKind.toJson_injective.eq_iff,
    Modifier.list_toJson_injective.eq_iff, list_classRefToJson_injective.eq_iff,
    (Json.list_injective Property.toJson_injective).eq_iff,
    (Json.list_injective Routine.toJson_injective).eq_iff] at h
  cases k
  cases l
  simp_all

/-- Imports are told apart. -/
theorem Import.toJson_injective : Function.Injective toJson := by
  intro i j h
  simp only [toJson, Json.obj.injEq, List.cons.injEq, Prod.mk.injEq, true_and, Json.str.injEq,
    Json.nat.injEq, Json.optStr_injective.eq_iff, ImportKind.toJson_injective.eq_iff] at h
  cases i
  cases j
  simp_all

/-- Namespaces are told apart. -/
theorem NamespaceExtent.toJson_injective : Function.Injective toJson := by
  intro m n h
  simp only [toJson, Json.obj.injEq, List.cons.injEq, Prod.mk.injEq, true_and, Json.str.injEq,
    Json.nat.injEq] at h
  cases m
  cases n
  simp_all

/-- Variables are told apart. -/
theorem Variable.toJson_injective : Function.Injective toJson := by
  intro v w h
  simp only [toJson, Json.obj.injEq, List.cons.injEq, Prod.mk.injEq, true_and, Json.str.injEq,
    Json.nat.injEq, Json.optStr_injective.eq_iff, VariableKind.toJson_injective.eq_iff] at h
  cases v
  cases w
  simp_all

end PhpCalls
