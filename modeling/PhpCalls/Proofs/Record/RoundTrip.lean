import PhpCalls.Proofs.Dict
import PhpCalls.Proofs.Json.RoundTrip
import PhpCalls.Proofs.List
import PhpCalls.Record.Codec

set_option autoImplicit false

/-!
# Reading back written records

Every record whose numbers stay below the bound of the reader is read back from its JSON form as it
was. Texts may hold anything.

## Main definitions

* `Call.InRange`, `Routine.InRange`, …, `FileFacts.InRange`: the numbers of a record stay below the
  bound.
* `ReadsBack`: records of a sort are read back from their texts.

## Main results

* `FileFacts.ofJson?_toJson`: the facts of a file are read back.
* `ReadsBack.of_known`: what is read back from its value is read back from its text, in either
  layout.
* `ProjectFacts.parse_compact`: the facts of a project are read back from their text without blanks.
* `CacheStamp.parse_pretty`: so is a stamp, from its text in lines.
-/

namespace PhpCalls

/-! ## Parts of records -/

namespace Decoder

variable {α : Type}

/-- A number in range is read back. -/
@[simp] lemma nat_nat {n : Nat} (h : n < natBound) : nat (.nat n) = some n := by
  simp [nat, h]

/-- A text is read back. -/
@[simp] lemma str_str (s : String) : str (.str s) = some s := rfl

/-- A truth value is read back. -/
@[simp] lemma bool_bool (b : Bool) : bool (.bool b) = some b := rfl

/-- An optional text is read back. -/
@[simp] lemma option_optStr (s : Option String) : option str (.optStr s) = some s := by
  cases s <;> rfl

/-- A list is read back if its elements are. -/
lemma list_list {d : Decoder α} {f : α → Json} {as : List α} (h : ∀ a ∈ as, d (f a) = some a) :
    list d (.list f as) = some as := by
  change (as.map f).mapM d = some as
  induction as with
  | nil => rfl
  | cons a as ih =>
    have ha := h a List.mem_cons_self
    have has := ih fun b hb => h b (List.mem_cons_of_mem _ hb)
    simp [ha, has]

/-- A list of texts is read back. -/
@[simp] lemma list_str (as : List String) : list str (.list .str as) = some as :=
  list_list fun _ _ => rfl

/-- A map is read back if its values are. -/
lemma dict_dict {d : Decoder α} {f : α → Json} {m : Dict α}
    (h : ∀ e ∈ m.entries, d (f e.2) = some e.2) : dict d (.dict f m) = some m := by
  have hentries : ∀ es : List (String × α), (∀ e ∈ es, d (f e.2) = some e.2) →
      (es.map fun e => (e.1, f e.2)).mapM (fun e => (d e.2).map fun v => (e.1, v)) = some es := by
    intro es
    induction es with
    | nil => intro _; rfl
    | cons e es ih =>
      intro h
      have he := h e List.mem_cons_self
      have hes := ih fun e he => h e (List.mem_cons_of_mem _ he)
      simp [he, hes]
  simp [dict, Json.dict, hentries m.entries h, Dict.ofList_entries]

/-- An optional dictionary of texts is read back. -/
@[simp] lemma option_dict_str (m : Option (Dict String)) :
    option (dict str) (.ofOption (.dict .str) m) = some m := by
  cases m with
  | none => rfl
  | some m => exact congrArg (Option.map some) (dict_dict fun _ _ => rfl)

/-- A dictionary of texts is read back. -/
@[simp] lemma dict_str (m : Dict String) : dict str (.dict .str m) = some m :=
  dict_dict fun _ _ => rfl

end Decoder

namespace Json

variable {α : Type}

attribute [simp] Known.null Known.bool Known.nat Known.str

/-- An optional text is a known value. -/
@[simp] lemma known_optStr (s : Option String) : (optStr s).Known := by
  cases s with
  | none => exact .null
  | some s => exact .str s

/-- A list of known values is known. -/
lemma known_list {f : α → Json} (h : ∀ a, (f a).Known) (as : List α) : (list f as).Known := by
  refine .arr fun j hj => ?_
  obtain ⟨a, -, rfl⟩ := List.mem_map.1 hj
  exact h a

/-- A dictionary of known values is known. -/
lemma known_dict {f : α → Json} (h : ∀ a, (f a).Known) (m : Dict α) : (dict f m).Known := by
  refine .obj fun e he => ?_
  obtain ⟨e, -, rfl⟩ := List.mem_map.1 he
  exact h e.2

/-- An object without members is known. -/
@[simp] lemma known_obj_nil : (obj []).Known := .obj fun _ h => by cases h

/-- An object is known exactly if its first value and the object of the others are. -/
@[simp] lemma known_obj_cons (m : String × Json) (ms : List (String × Json)) :
    (obj (m :: ms)).Known ↔ m.2.Known ∧ (obj ms).Known := by
  constructor
  · rintro (_ | _ | _ | _ | _ | h)
    exact ⟨h m List.mem_cons_self, .obj fun e he => h e (List.mem_cons_of_mem _ he)⟩
  · rintro ⟨hm, _ | _ | _ | _ | _ | h⟩
    refine .obj fun e he => ?_
    rcases List.mem_cons.1 he with rfl | he
    · exact hm
    · exact h e he

/-- An object of two rows of members is known exactly if the objects of both rows are. -/
@[simp] lemma known_obj_append (ms ns : List (String × Json)) :
    (obj (ms ++ ns)).Known ↔ (obj ms).Known ∧ (obj ns).Known := by
  induction ms with
  | nil => simp
  | cons m ms ih => simp [ih, and_assoc]

/-- A member that may be left out is known if its value is. -/
@[simp] lemma known_obj_memberIf (keep : Bool) (name : String) {j : Json} (hj : j.Known) :
    (obj (memberIf keep name j)).Known := by
  cases keep with
  | false => exact known_obj_nil
  | true => exact (known_obj_cons _ _).2 ⟨hj, known_obj_nil⟩

/-- The members of an object. -/
def membersOf : Json → List (String × Json)
  | obj ms => ms
  | _ => []

end Json

/-! ## Fields -/

namespace Fields

variable {α : Type}

/-- Members whose names are among the field names, in their order, are the fields of a record. -/
lemma read_obj {names : List String} {ms : List (String × Json)} (hnames : names.Nodup)
    (hms : (ms.map Prod.fst).Sublist names) : read names (.obj ms) = some ⟨false, ms⟩ := by
  have hknown : (ms.filter fun m => names.contains m.1) = ms := by
    refine List.filter_eq_self.2 fun m hm => ?_
    simpa using hms.subset (List.mem_map_of_mem hm)
  rw [read, hknown, if_pos (hnames.sublist hms)]

/-- An optional member is found under its name, if it is kept. -/
lemma lookup_memberIf (keep : Bool) (member name : String) (j : Json) :
    (Json.memberIf keep member j).lookup name = if keep && name == member then some j
      else none := by
  cases keep with
  | false => rfl
  | true =>
    change List.lookup name [(member, j)] = _
    rw [List.lookup_cons]
    cases name == member <;> rfl

/-- An optional member has its own name and no other. -/
lemma map_fst_memberIf_sublist (keep : Bool) (member : String) (j : Json) :
    ((Json.memberIf keep member j).map Prod.fst).Sublist [member] := by
  cases keep with
  | false => exact List.nil_sublist _
  | true => exact List.Sublist.refl _

/-- Under distinct names the value of a member is found by its name. -/
lemma lookup_of_getElem? {ms : List (String × Json)} (hms : (ms.map Prod.fst).Nodup) {i : Nat}
    {name : String} {j : Json} (hi : ms[i]? = some (name, j)) : ms.lookup name = some j :=
  lookup_of_mem hms (List.mem_of_getElem? hi)

section Given

variable {f : Fields} (hf : (f.given.map Prod.fst).Nodup) (i : Nat) {name : String} {j : Json}
  (hi : f.given[i]? = some (name, j)) {d : Decoder α} {a : α}

include hf hi

/-- A field that must be given, at its place among the members. -/
lemma required_at (hj : d j = some a) : f.required name d = some a := by
  rw [required, lookup_of_getElem? hf hi]
  exact hj

/-- A field that may be `null`, at its place among the members. -/
lemma optional_at {a : Option α} (hj : d.option j = some a) : f.optional name d = some a := by
  rw [optional, lookup_of_getElem? hf hi]
  exact hj

/-- A field that has a default, at its place among the members. -/
lemma defaulted_at (default : α) (hj : d j = some a) : f.defaulted name default d = some a := by
  rw [defaulted, lookup_of_getElem? hf hi]
  exact hj

end Given

/-- A field that is written only if `keep` holds, and otherwise has its default. -/
lemma defaulted_of_lookup {f : Fields} {name : String} (keep : Bool) (j : Json) {d : Decoder α}
    {default a : α} (hf : f.given.lookup name = if keep then some j else none) (hj : d j = some a)
    (hdefault : keep = false → a = default) : f.defaulted name default d = some a := by
  unfold defaulted
  cases keep with
  | true => simp [hf, hj]
  | false => simp [hf, hdefault rfl]

end Fields

/-- A step of a decoder that succeeds hands its value on to the next. -/
lemma bind_eq_some {α β : Type} {x : Option α} {a : α} (hx : x = some a) {k : α → Option β} {b : β}
    (hk : k a = some b) : x >>= k = some b := by
  subst hx
  exact hk

/-! ## Closed sorts -/

/-- The sort of a call is read back. -/
@[simp] lemma CallKind.ofJson?_toJson (k : CallKind) : ofJson? k.toJson = some k := by
  cases k <;> decide

/-- A visibility is read back. -/
@[simp] lemma Visibility.ofJson?_toJson (v : Visibility) : ofJson? v.toJson = some v := by
  cases v <;> decide

/-- A list of modifiers is read back. -/
@[simp] lemma Modifier.list_toJson (ms : List Modifier) :
    Decoder.list ofJson? (.list toJson ms) = some ms :=
  Decoder.list_list fun m _ => by cases m <;> decide

/-- A list of modifiers is a known value. -/
@[simp] lemma Modifier.known_list_toJson (ms : List Modifier) : (Json.list toJson ms).Known :=
  Json.known_list (fun _ => .str _) ms

/-- The sort of a class is read back. -/
@[simp] lemma ClassKind.ofJson?_toJson (k : ClassKind) : ofJson? k.toJson = some k := by
  cases k <;> decide

/-- The sort of an import is read back. -/
@[simp] lemma ImportKind.ofJson?_toJson (k : ImportKind) : ofJson? k.toJson = some k := by
  cases k <;> decide

/-- The sort of a variable is read back. -/
@[simp] lemma VariableKind.ofJson?_toJson (k : VariableKind) : ofJson? k.toJson = some k := by
  cases k <;> decide

/-! ## Functions, methods and calls -/

/-- The number of a parameter stays below the bound. -/
def Param.InRange (p : Param) : Prop := p.index < Decoder.natBound

/-- The numbers of a call stay below the bound. -/
structure Call.InRange (c : Call) : Prop where
  startLine : c.startLine < Decoder.natBound
  endLine : c.endLine < Decoder.natBound
  arguments : ∀ p ∈ c.arguments, p.InRange

/-- The numbers of a routine stay below the bound. -/
structure Routine.InRange (r : Routine) : Prop where
  startLine : r.startLine < Decoder.natBound
  endLine : r.endLine < Decoder.natBound
  parameters : ∀ p ∈ r.parameters, p.InRange
  calls : ∀ c ∈ r.calls, c.InRange

/-- The record of a parameter is a known value. -/
@[simp] lemma Param.known_toJson (p : Param) : p.toJson.Known := by
  simp [toJson]

/-- A parameter is read back. -/
theorem Param.ofJson?_toJson {p : Param} (h : p.InRange) : ofJson? p.toJson = some p := by
  have hkeys : (p.toJson.membersOf.map Prod.fst).Sublist fieldNames := by
    rw [toJson, Json.membersOf, List.map_append]
    exact (List.Sublist.refl _).append (Fields.map_fst_memberIf_sublist _ _ _)
  have hnodup : ((Fields.mk false p.toJson.membersOf).given.map Prod.fst).Nodup :=
    (by decide : fieldNames.Nodup).sublist hkeys
  have hvariadic : Fields.defaulted ⟨false, p.toJson.membersOf⟩ "variadic" false .bool =
      some p.variadic :=
    Fields.defaulted_of_lookup p.variadic (.bool p.variadic)
      (by simp [toJson, Json.membersOf, List.lookup_cons, Fields.lookup_memberIf]) rfl id
  refine bind_eq_some (Fields.read_obj (by decide) hkeys) ?_
  refine bind_eq_some (Fields.required_at hnodup 0 rfl (Decoder.nat_nat h)) ?_
  refine bind_eq_some (Fields.optional_at hnodup 1 rfl (Decoder.option_optStr _)) ?_
  refine bind_eq_some (Fields.optional_at hnodup 2 rfl (Decoder.option_optStr _)) ?_
  refine bind_eq_some (Fields.optional_at hnodup 3 rfl (Decoder.option_optStr _)) ?_
  refine bind_eq_some (Fields.optional_at hnodup 4 rfl (Decoder.option_optStr _)) ?_
  exact bind_eq_some hvariadic rfl

/-- The record of a call is a known value. -/
@[simp] lemma Call.known_toJson (c : Call) : c.toJson.Known := by
  have hsource : (Json.ofOption (.dict .str) c.mayBeSource).Known := by
    cases c.mayBeSource with
    | none => exact .null
    | some m => exact Json.known_dict Json.Known.str m
  simp [toJson, Visibility.toJson, CallKind.toJson, Json.known_list, hsource]

/-- A call is read back. -/
theorem Call.ofJson?_toJson {c : Call} (h : c.InRange) : ofJson? c.toJson = some c := by
  have hkeys : (c.toJson.membersOf.map Prod.fst).Sublist fieldNames := by
    simp only [toJson, Json.membersOf, List.map_append]
    exact (((((List.Sublist.refl _).append (Fields.map_fst_memberIf_sublist _ _ _)).append
      (Fields.map_fst_memberIf_sublist _ _ _)).append
        (Fields.map_fst_memberIf_sublist _ _ _)).append
      (Fields.map_fst_memberIf_sublist _ _ _)).append (Fields.map_fst_memberIf_sublist _ _ _)
  have hnodup : ((Fields.mk false c.toJson.membersOf).given.map Prod.fst).Nodup :=
    (by decide : fieldNames.Nodup).sublist hkeys
  -- fields that may be missing are found by their names, the others at their places
  have hfile : Fields.optionalTail ⟨false, c.toJson.membersOf⟩ "file" .str = some c.file :=
    Fields.defaulted_of_lookup c.file.isSome (.optStr c.file)
      (by simp [toJson, Json.membersOf, List.lookup_cons, List.lookup_append,
        Fields.lookup_memberIf]) (by simp) (by simp)
  have hnamespace : Fields.optionalTail ⟨false, c.toJson.membersOf⟩ "namespace" .str =
      some c.inNamespace :=
    Fields.defaulted_of_lookup c.inNamespace.isSome (.optStr c.inNamespace)
      (by simp [toJson, Json.membersOf, List.lookup_cons, List.lookup_append,
        Fields.lookup_memberIf]) (by simp) (by simp)
  have hfiles : Fields.defaulted ⟨false, c.toJson.membersOf⟩ "may_files" [] (.list .str) =
      some c.mayFiles :=
    Fields.defaulted_of_lookup (!c.mayFiles.isEmpty) (.list .str c.mayFiles)
      (by simp [toJson, Json.membersOf, List.lookup_cons, List.lookup_append,
        Fields.lookup_memberIf]) (by simp) (by simp)
  have hnamespaces : Fields.defaulted ⟨false, c.toJson.membersOf⟩ "may_namespaces" [] (.list .str) =
      some c.mayNamespaces :=
    Fields.defaulted_of_lookup (!c.mayNamespaces.isEmpty) (.list .str c.mayNamespaces)
      (by simp [toJson, Json.membersOf, List.lookup_cons, List.lookup_append,
        Fields.lookup_memberIf]) (by simp) (by simp)
  have hsource : Fields.optionalTail ⟨false, c.toJson.membersOf⟩ "may_be_source" (.dict .str) =
      some c.mayBeSource :=
    Fields.defaulted_of_lookup c.mayBeSource.isSome (.ofOption (.dict .str) c.mayBeSource)
      (by simp [toJson, Json.membersOf, List.lookup_cons, List.lookup_append,
        Fields.lookup_memberIf]) (by simp) (by simp)
  have harguments : Decoder.list Param.ofJson? (.list Param.toJson c.arguments) =
      some c.arguments := Decoder.list_list fun p hp => Param.ofJson?_toJson (h.arguments p hp)
  refine bind_eq_some (Fields.read_obj (by decide) hkeys) ?_
  refine bind_eq_some (Fields.required_at hnodup 0 rfl (Decoder.str_str _)) ?_
  refine bind_eq_some (Fields.required_at hnodup 1 rfl (Decoder.str_str _)) ?_
  refine bind_eq_some (Fields.required_at hnodup 2 rfl (Decoder.nat_nat h.startLine)) ?_
  refine bind_eq_some (Fields.required_at hnodup 3 rfl (Decoder.nat_nat h.endLine)) ?_
  refine bind_eq_some (Fields.optional_at hnodup 4 rfl (Decoder.option_optStr _)) ?_
  refine bind_eq_some (Fields.optional_at hnodup 5 rfl (Decoder.option_optStr _)) ?_
  refine bind_eq_some (Fields.defaulted_at hnodup 6 rfl _ (Visibility.ofJson?_toJson _)) ?_
  refine bind_eq_some (Fields.defaulted_at hnodup 7 rfl _ (Modifier.list_toJson _)) ?_
  refine bind_eq_some (Fields.required_at hnodup 8 rfl (CallKind.ofJson?_toJson _)) ?_
  refine bind_eq_some (Fields.defaulted_at hnodup 9 rfl _ harguments) ?_
  refine bind_eq_some (Fields.defaulted_at hnodup 10 rfl _ (Decoder.bool_bool _)) ?_
  refine bind_eq_some hfile ?_
  refine bind_eq_some hnamespace ?_
  refine bind_eq_some hfiles ?_
  refine bind_eq_some hnamespaces ?_
  exact bind_eq_some hsource rfl

/-- The record of a routine is a known value. -/
@[simp] lemma Routine.known_toJson (r : Routine) : r.toJson.Known := by
  simp [toJson, Visibility.toJson, CallKind.toJson, Json.known_list]

/-- A routine is read back. -/
theorem Routine.ofJson?_toJson {r : Routine} (h : r.InRange) : ofJson? r.toJson = some r := by
  have hkeys : (r.toJson.membersOf.map Prod.fst).Sublist fieldNames := by
    simp only [toJson, Json.membersOf, List.map_append]
    exact ((List.Sublist.refl _).append (Fields.map_fst_memberIf_sublist _ _ _)).append
      (Fields.map_fst_memberIf_sublist _ _ _)
  have hnodup : ((Fields.mk false r.toJson.membersOf).given.map Prod.fst).Nodup :=
    (by decide : fieldNames.Nodup).sublist hkeys
  have hparameters : Decoder.list Param.ofJson? (.list Param.toJson r.parameters) =
      some r.parameters := Decoder.list_list fun p hp => Param.ofJson?_toJson (h.parameters p hp)
  have hcalls : Fields.defaulted ⟨false, r.toJson.membersOf⟩ "calls" [] (.list Call.ofJson?) =
      some r.calls :=
    Fields.defaulted_of_lookup (!r.calls.isEmpty) (.list Call.toJson r.calls)
      (by simp [toJson, Json.membersOf, List.lookup_cons, List.lookup_append,
        Fields.lookup_memberIf])
      (Decoder.list_list fun c hc => Call.ofJson?_toJson (h.calls c hc)) (by simp)
  have hcalledBy : Fields.defaulted ⟨false, r.toJson.membersOf⟩ "called_by" [] (.list .str) =
      some r.calledBy :=
    Fields.defaulted_of_lookup (!r.calledBy.isEmpty) (.list .str r.calledBy)
      (by simp [toJson, Json.membersOf, List.lookup_cons, List.lookup_append,
        Fields.lookup_memberIf]) (by simp) (by simp)
  refine bind_eq_some (Fields.read_obj (by decide) hkeys) ?_
  refine bind_eq_some (Fields.defaulted_at hnodup 0 rfl _ (Decoder.str_str _)) ?_
  refine bind_eq_some (Fields.required_at hnodup 1 rfl (Decoder.str_str _)) ?_
  refine bind_eq_some (Fields.required_at hnodup 2 rfl (Decoder.str_str _)) ?_
  refine bind_eq_some (Fields.optional_at hnodup 3 rfl (Decoder.option_optStr _)) ?_
  refine bind_eq_some (Fields.defaulted_at hnodup 4 rfl _ (Decoder.str_str _)) ?_
  refine bind_eq_some (Fields.optional_at hnodup 5 rfl (Decoder.option_optStr _)) ?_
  refine bind_eq_some (Fields.required_at hnodup 6 rfl (Decoder.nat_nat h.startLine)) ?_
  refine bind_eq_some (Fields.required_at hnodup 7 rfl (Decoder.nat_nat h.endLine)) ?_
  refine bind_eq_some (Fields.defaulted_at hnodup 8 rfl _ (Visibility.ofJson?_toJson _)) ?_
  refine bind_eq_some (Fields.defaulted_at hnodup 9 rfl _ (Modifier.list_toJson _)) ?_
  refine bind_eq_some (Fields.defaulted_at hnodup 10 rfl _ hparameters) ?_
  refine bind_eq_some (Fields.optional_at hnodup 11 rfl (Decoder.option_optStr _)) ?_
  refine bind_eq_some (Fields.defaulted_at hnodup 12 rfl _ (Decoder.list_str _)) ?_
  refine bind_eq_some (Fields.required_at hnodup 13 rfl (CallKind.ofJson?_toJson _)) ?_
  refine bind_eq_some hcalls ?_
  exact bind_eq_some hcalledBy rfl

/-! ## Classes -/

/-- The numbers of a property stay below the bound. -/
structure Property.InRange (p : Property) : Prop where
  startLine : p.startLine < Decoder.natBound
  endLine : p.endLine < Decoder.natBound

/-- The numbers of a class and of its members stay below the bound. -/
structure ClassDecl.InRange (k : ClassDecl) : Prop where
  startLine : k.startLine < Decoder.natBound
  endLine : k.endLine < Decoder.natBound
  properties : ∀ p ∈ k.properties, p.InRange
  methods : ∀ m ∈ k.methods, m.InRange

/-- The record of a property is a known value. -/
@[simp] lemma Property.known_toJson (p : Property) : p.toJson.Known := by
  simp [toJson, Visibility.toJson]

/-- A property is read back. -/
theorem Property.ofJson?_toJson {p : Property} (h : p.InRange) : ofJson? p.toJson = some p := by
  have hkeys : (p.toJson.membersOf.map Prod.fst).Sublist fieldNames := List.Sublist.refl _
  have hnodup : ((Fields.mk false p.toJson.membersOf).given.map Prod.fst).Nodup :=
    (by decide : fieldNames.Nodup).sublist hkeys
  refine bind_eq_some (Fields.read_obj (by decide) hkeys) ?_
  refine bind_eq_some (Fields.required_at hnodup 0 rfl (Decoder.str_str _)) ?_
  refine bind_eq_some (Fields.optional_at hnodup 1 rfl (Decoder.option_optStr _)) ?_
  refine bind_eq_some (Fields.optional_at hnodup 2 rfl (Decoder.option_optStr _)) ?_
  refine bind_eq_some (Fields.required_at hnodup 3 rfl (Decoder.nat_nat h.startLine)) ?_
  refine bind_eq_some (Fields.required_at hnodup 4 rfl (Decoder.nat_nat h.endLine)) ?_
  refine bind_eq_some (Fields.defaulted_at hnodup 5 rfl _ (Visibility.ofJson?_toJson _)) ?_
  exact bind_eq_some (Fields.defaulted_at hnodup 6 rfl _ (Modifier.list_toJson _)) rfl

/-- A reference to a class is a known value. -/
@[simp] lemma known_classRefToJson (name : String) : (classRefToJson name).Known := by
  simp [classRefToJson]

/-- The name of another class is read back. -/
lemma classRefOfJson?_classRefToJson (name : String) :
    classRefOfJson? (classRefToJson name) = some name := by
  simp [classRefToJson, classRefOfJson?, Decoder.dict, Decoder.option, Dict.ofList, Dict.insert,
    Dict.empty, Dict.place, Dict.keys]

/-- A list of references to classes is read back. -/
lemma list_classRefs (names : List String) :
    Decoder.list classRefOfJson? (.list classRefToJson names) = some names :=
  Decoder.list_list fun name _ => classRefOfJson?_classRefToJson name

/-- The record of a class is a known value. -/
@[simp] lemma ClassDecl.known_toJson (k : ClassDecl) : k.toJson.Known := by
  simp [toJson, Visibility.toJson, ClassKind.toJson, Json.known_list]

/-- A class is read back. -/
theorem ClassDecl.ofJson?_toJson {k : ClassDecl} (h : k.InRange) : ofJson? k.toJson = some k := by
  have hkeys : (k.toJson.membersOf.map Prod.fst).Sublist fieldNames := List.Sublist.refl _
  have hnodup : ((Fields.mk false k.toJson.membersOf).given.map Prod.fst).Nodup :=
    (by decide : fieldNames.Nodup).sublist hkeys
  have hproperties : Decoder.list Property.ofJson? (.list Property.toJson k.properties) =
      some k.properties := Decoder.list_list fun p hp => Property.ofJson?_toJson (h.properties p hp)
  have hmethods : Decoder.list Routine.ofJson? (.list Routine.toJson k.methods) = some k.methods :=
    Decoder.list_list fun m hm => Routine.ofJson?_toJson (h.methods m hm)
  refine bind_eq_some (Fields.read_obj (by decide) hkeys) ?_
  refine bind_eq_some (Fields.defaulted_at hnodup 0 rfl _ (Decoder.str_str _)) ?_
  refine bind_eq_some (Fields.required_at hnodup 1 rfl (Decoder.str_str _)) ?_
  refine bind_eq_some (Fields.defaulted_at hnodup 2 rfl _ (ClassKind.ofJson?_toJson _)) ?_
  refine bind_eq_some (Fields.optional_at hnodup 3 rfl (Decoder.option_optStr _)) ?_
  refine bind_eq_some (Fields.defaulted_at hnodup 4 rfl _ (Decoder.str_str _)) ?_
  refine bind_eq_some (Fields.required_at hnodup 5 rfl (Decoder.nat_nat h.startLine)) ?_
  refine bind_eq_some (Fields.required_at hnodup 6 rfl (Decoder.nat_nat h.endLine)) ?_
  refine bind_eq_some (Fields.defaulted_at hnodup 7 rfl _ (Visibility.ofJson?_toJson _)) ?_
  refine bind_eq_some (Fields.defaulted_at hnodup 8 rfl _ (Modifier.list_toJson _)) ?_
  refine bind_eq_some (Fields.defaulted_at hnodup 9 rfl _ (list_classRefs _)) ?_
  refine bind_eq_some (Fields.defaulted_at hnodup 10 rfl _ (list_classRefs _)) ?_
  refine bind_eq_some (Fields.defaulted_at hnodup 11 rfl _ (list_classRefs _)) ?_
  refine bind_eq_some (Fields.defaulted_at hnodup 12 rfl _ hproperties) ?_
  refine bind_eq_some (Fields.defaulted_at hnodup 13 rfl _ hmethods) ?_
  exact bind_eq_some (Fields.defaulted_at hnodup 14 rfl _ (Decoder.bool_bool _)) rfl

/-! ## The facts of a file -/

/-- The numbers of an import stay below the bound. -/
structure Import.InRange (i : Import) : Prop where
  startLine : i.startLine < Decoder.natBound
  endLine : i.endLine < Decoder.natBound

/-- The numbers of a namespace stay below the bound. -/
structure NamespaceExtent.InRange (n : NamespaceExtent) : Prop where
  startLine : n.startLine < Decoder.natBound
  endLine : n.endLine < Decoder.natBound

/-- The numbers of a binding stay below the bound. -/
structure Binding.InRange (b : Binding) : Prop where
  startLine : b.startLine < Decoder.natBound
  endLine : b.endLine < Decoder.natBound

/-- The numbers of a variable stay below the bound. -/
structure Variable.InRange (v : Variable) : Prop where
  startLine : v.startLine < Decoder.natBound
  endLine : v.endLine < Decoder.natBound

/-- The numbers in the facts of a file stay below the bound. -/
structure FileFacts.InRange (f : FileFacts) : Prop where
  methods : ∀ r ∈ f.methods, r.InRange
  classes : ∀ k ∈ f.classes, k.InRange
  imports : ∀ i ∈ f.imports, i.InRange
  namespaces : ∀ n ∈ f.namespaces, n.InRange
  objects : ∀ b ∈ f.objects, b.InRange
  vars : ∀ v ∈ f.vars, v.InRange

/-- The record of an import is a known value. -/
@[simp] lemma Import.known_toJson (i : Import) : i.toJson.Known := by
  simp [toJson, ImportKind.toJson]

/-- An import is read back. -/
lemma Import.ofJson?_toJson {i : Import} (h : i.InRange) : ofJson? i.toJson = some i := by
  have hkeys : (i.toJson.membersOf.map Prod.fst).Sublist fieldNames := List.Sublist.refl _
  have hnodup : ((Fields.mk false i.toJson.membersOf).given.map Prod.fst).Nodup :=
    (by decide : fieldNames.Nodup).sublist hkeys
  refine bind_eq_some (Fields.read_obj (by decide) hkeys) ?_
  refine bind_eq_some (Fields.required_at hnodup 0 rfl (ImportKind.ofJson?_toJson _)) ?_
  refine bind_eq_some (Fields.required_at hnodup 1 rfl (Decoder.nat_nat h.startLine)) ?_
  refine bind_eq_some (Fields.required_at hnodup 2 rfl (Decoder.nat_nat h.endLine)) ?_
  refine bind_eq_some (Fields.optional_at hnodup 3 rfl (Decoder.option_optStr _)) ?_
  refine bind_eq_some (Fields.optional_at hnodup 4 rfl (Decoder.option_optStr _)) ?_
  refine bind_eq_some (Fields.optional_at hnodup 5 rfl (Decoder.option_optStr _)) ?_
  refine bind_eq_some (Fields.optional_at hnodup 6 rfl (Decoder.option_optStr _)) ?_
  exact bind_eq_some (Fields.required_at hnodup 7 rfl (Decoder.str_str _)) rfl

/-- The record of a namespace is a known value. -/
@[simp] lemma NamespaceExtent.known_toJson (n : NamespaceExtent) : n.toJson.Known := by
  simp [toJson]

/-- A namespace is read back. -/
lemma NamespaceExtent.ofJson?_toJson {n : NamespaceExtent} (h : n.InRange) :
    ofJson? n.toJson = some n := by
  have hkeys : (n.toJson.membersOf.map Prod.fst).Sublist fieldNames := List.Sublist.refl _
  have hnodup : ((Fields.mk false n.toJson.membersOf).given.map Prod.fst).Nodup :=
    (by decide : fieldNames.Nodup).sublist hkeys
  refine bind_eq_some (Fields.read_obj (by decide) hkeys) ?_
  refine bind_eq_some (Fields.required_at hnodup 0 rfl (Decoder.str_str _)) ?_
  refine bind_eq_some (Fields.required_at hnodup 1 rfl (Decoder.nat_nat h.startLine)) ?_
  exact bind_eq_some (Fields.required_at hnodup 2 rfl (Decoder.nat_nat h.endLine)) rfl

/-- The record of a binding is a known value. -/
@[simp] lemma Binding.known_toJson (b : Binding) : b.toJson.Known := by
  simp [toJson]

/-- A binding is read back. -/
lemma Binding.ofJson?_toJson {b : Binding} (h : b.InRange) : ofJson? b.toJson = some b := by
  have hkeys : (b.toJson.membersOf.map Prod.fst).Sublist fieldNames := List.Sublist.refl _
  have hnodup : ((Fields.mk false b.toJson.membersOf).given.map Prod.fst).Nodup :=
    (by decide : fieldNames.Nodup).sublist hkeys
  refine bind_eq_some (Fields.read_obj (by decide) hkeys) ?_
  refine bind_eq_some (Fields.required_at hnodup 0 rfl (Decoder.str_str _)) ?_
  refine bind_eq_some (Fields.required_at hnodup 1 rfl (Decoder.str_str _)) ?_
  refine bind_eq_some (Fields.required_at hnodup 2 rfl (Decoder.nat_nat h.startLine)) ?_
  exact bind_eq_some (Fields.required_at hnodup 3 rfl (Decoder.nat_nat h.endLine)) rfl

/-- The record of a variable is a known value. -/
@[simp] lemma Variable.known_toJson (v : Variable) : v.toJson.Known := by
  simp [toJson, VariableKind.toJson]

/-- A variable is read back. -/
lemma Variable.ofJson?_toJson {v : Variable} (h : v.InRange) : ofJson? v.toJson = some v := by
  have hkeys : (v.toJson.membersOf.map Prod.fst).Sublist fieldNames := List.Sublist.refl _
  have hnodup : ((Fields.mk false v.toJson.membersOf).given.map Prod.fst).Nodup :=
    (by decide : fieldNames.Nodup).sublist hkeys
  refine bind_eq_some (Fields.read_obj (by decide) hkeys) ?_
  refine bind_eq_some (Fields.required_at hnodup 0 rfl (VariableKind.ofJson?_toJson _)) ?_
  refine bind_eq_some (Fields.required_at hnodup 1 rfl (Decoder.str_str _)) ?_
  refine bind_eq_some (Fields.optional_at hnodup 2 rfl (Decoder.option_optStr _)) ?_
  refine bind_eq_some (Fields.required_at hnodup 3 rfl (Decoder.nat_nat h.startLine)) ?_
  refine bind_eq_some (Fields.required_at hnodup 4 rfl (Decoder.nat_nat h.endLine)) ?_
  exact bind_eq_some (Fields.optional_at hnodup 5 rfl (Decoder.option_optStr _)) rfl

/-- The facts of a file are a known value. -/
@[simp] lemma FileFacts.known_toJson (f : FileFacts) : f.toJson.Known := by
  simp [toJson, Json.known_list]

/-- The facts of a file are read back. -/
theorem FileFacts.ofJson?_toJson {f : FileFacts} (h : f.InRange) : ofJson? f.toJson = some f := by
  have hkeys : (f.toJson.membersOf.map Prod.fst).Sublist fieldNames := List.Sublist.refl _
  have hnodup : ((Fields.mk false f.toJson.membersOf).given.map Prod.fst).Nodup :=
    (by decide : fieldNames.Nodup).sublist hkeys
  have hmethods : Decoder.list Routine.ofJson? (.list Routine.toJson f.methods) = some f.methods :=
    Decoder.list_list fun r hr => Routine.ofJson?_toJson (h.methods r hr)
  have hclasses : Decoder.list ClassDecl.ofJson? (.list ClassDecl.toJson f.classes) =
      some f.classes := Decoder.list_list fun k hk => ClassDecl.ofJson?_toJson (h.classes k hk)
  have himports : Decoder.list Import.ofJson? (.list Import.toJson f.imports) = some f.imports :=
    Decoder.list_list fun i hi => Import.ofJson?_toJson (h.imports i hi)
  have hspaces : Decoder.list NamespaceExtent.ofJson? (.list NamespaceExtent.toJson f.namespaces) =
      some f.namespaces :=
    Decoder.list_list fun n hn => NamespaceExtent.ofJson?_toJson (h.namespaces n hn)
  have hobjects : Decoder.list Binding.ofJson? (.list Binding.toJson f.objects) = some f.objects :=
    Decoder.list_list fun b hb => Binding.ofJson?_toJson (h.objects b hb)
  have hvars : Decoder.list Variable.ofJson? (.list Variable.toJson f.vars) = some f.vars :=
    Decoder.list_list fun v hv => Variable.ofJson?_toJson (h.vars v hv)
  refine bind_eq_some (Fields.read_obj (by decide) hkeys) ?_
  refine bind_eq_some (Fields.defaulted_at hnodup 0 rfl _ hmethods) ?_
  refine bind_eq_some (Fields.defaulted_at hnodup 1 rfl _ hclasses) ?_
  refine bind_eq_some (Fields.defaulted_at hnodup 2 rfl _ himports) ?_
  refine bind_eq_some (Fields.defaulted_at hnodup 3 rfl _ hspaces) ?_
  refine bind_eq_some (Fields.defaulted_at hnodup 4 rfl _ hobjects) ?_
  exact bind_eq_some (Fields.defaulted_at hnodup 5 rfl _ hvars) rfl

/-! ## Beside the facts -/

/-- The record of a failure is a known value. -/
@[simp] lemma ReadFailure.known_toJson (r : ReadFailure) : r.toJson.Known := by
  simp [toJson]

/-- A failure is read back. -/
lemma ReadFailure.ofJson?_toJson (r : ReadFailure) : ofJson? r.toJson = some r := by
  have hkeys : (r.toJson.membersOf.map Prod.fst).Sublist fieldNames := List.Sublist.refl _
  have hnodup : ((Fields.mk false r.toJson.membersOf).given.map Prod.fst).Nodup :=
    (by decide : fieldNames.Nodup).sublist hkeys
  refine bind_eq_some (Fields.read_obj (by decide) hkeys) ?_
  refine bind_eq_some (Fields.required_at hnodup 0 rfl (Decoder.str_str _)) ?_
  exact bind_eq_some (Fields.required_at hnodup 1 rfl (Decoder.str_str _)) rfl

/-- The stamp of a cache is a known value. -/
@[simp] lemma CacheStamp.known_toJson (s : CacheStamp) : s.toJson.Known := by
  simp [toJson, Json.known_list, Json.known_dict]

/-- A stamp is read back. -/
theorem CacheStamp.ofJson?_toJson (s : CacheStamp) : ofJson? s.toJson = some s := by
  have hkeys : (s.toJson.membersOf.map Prod.fst).Sublist fieldNames := List.Sublist.refl _
  have hnodup : ((Fields.mk false s.toJson.membersOf).given.map Prod.fst).Nodup :=
    (by decide : fieldNames.Nodup).sublist hkeys
  have hfailures : Decoder.list ReadFailure.ofJson? (.list ReadFailure.toJson s.failures) =
      some s.failures := Decoder.list_list fun r _ => ReadFailure.ofJson?_toJson r
  refine bind_eq_some (Fields.read_obj (by decide) hkeys) ?_
  refine bind_eq_some (Fields.required_at hnodup 0 rfl (Decoder.str_str _)) ?_
  refine bind_eq_some (Fields.required_at hnodup 1 rfl (Decoder.dict_str _)) ?_
  exact bind_eq_some (Fields.defaulted_at hnodup 2 rfl _ hfailures) rfl

/-- The numbers of a tally stay below the bound. -/
structure Tally.InRange (t : Tally) : Prop where
  resolved : t.resolved < Decoder.natBound
  unresolved : t.unresolved < Decoder.natBound
  ambiguous : t.ambiguous < Decoder.natBound
  builtin : t.builtin < Decoder.natBound
  dynamic : t.dynamic < Decoder.natBound

/-- A tally is a known value. -/
@[simp] lemma Tally.known_toJson (t : Tally) : t.toJson.Known := by
  simp [toJson]

/-- A tally is read back. -/
theorem Tally.ofJson?_toJson {t : Tally} (h : t.InRange) : ofJson? t.toJson = some t := by
  have hkeys : (t.toJson.membersOf.map Prod.fst).Sublist fieldNames := List.Sublist.refl _
  have hnodup : ((Fields.mk false t.toJson.membersOf).given.map Prod.fst).Nodup :=
    (by decide : fieldNames.Nodup).sublist hkeys
  refine bind_eq_some (Fields.read_obj (by decide) hkeys) ?_
  refine bind_eq_some (Fields.required_at hnodup 0 rfl (Decoder.nat_nat h.resolved)) ?_
  refine bind_eq_some (Fields.required_at hnodup 1 rfl (Decoder.nat_nat h.unresolved)) ?_
  refine bind_eq_some (Fields.required_at hnodup 2 rfl (Decoder.nat_nat h.ambiguous)) ?_
  refine bind_eq_some (Fields.required_at hnodup 3 rfl (Decoder.nat_nat h.builtin)) ?_
  exact bind_eq_some (Fields.required_at hnodup 4 rfl (Decoder.nat_nat h.dynamic)) rfl

/-! ## Texts -/

/-- The numbers in the facts of all files of a project stay below the bound. -/
def ProjectFacts.InRange (files : ProjectFacts) : Prop := ∀ e ∈ files.entries, e.2.InRange

/-- The facts of a project are a known value. -/
@[simp] lemma ProjectFacts.known_toJson (files : ProjectFacts) : files.toJson.Known :=
  Json.known_dict FileFacts.known_toJson files

/-- The facts of a project are read back. -/
theorem ProjectFacts.ofJson?_toJson {files : ProjectFacts} (h : files.InRange) :
    ofJson? files.toJson = some files :=
  Decoder.dict_dict fun e he => FileFacts.ofJson?_toJson (h e he)

/-- Every record in range is read back from its text, in either layout. -/
def ReadsBack {α : Type} (toJson : α → Json) (ofJson? : Decoder α) (inRange : α → Prop) : Prop :=
  ∀ a, inRange a → ∀ inLines, (Json.parse ((toJson a).write inLines)).bind ofJson? = some a

/-- A record that is read back from its value is read back from its text. -/
lemma ReadsBack.of_known {α : Type} {toJson : α → Json} {ofJson? : Decoder α} {inRange : α → Prop}
    (hknown : ∀ a, (toJson a).Known) (hread : ∀ a, inRange a → ofJson? (toJson a) = some a) :
    ReadsBack toJson ofJson? inRange := by
  intro a ha inLines
  rw [Json.parse_write (hknown a)]
  exact hread a ha

/-- Every stamp of a cache is read back from its text. -/
theorem CacheStamp.readsBack : ReadsBack toJson ofJson? fun _ => True :=
  .of_known known_toJson fun s _ => ofJson?_toJson s

/-- The facts of a project are read back from their text if they are in range. -/
theorem ProjectFacts.readsBack : ReadsBack toJson ofJson? InRange :=
  .of_known known_toJson fun _ => ofJson?_toJson

/-- A stamp is read back from its text in lines. -/
theorem CacheStamp.parse_pretty (s : CacheStamp) :
    (Json.parse s.toJson.pretty).bind ofJson? = some s :=
  readsBack s trivial true

/-- The facts of a project are read back from their text without blanks. -/
theorem ProjectFacts.parse_compact {files : ProjectFacts} (h : ∀ e ∈ files.entries, e.2.InRange) :
    (Json.parse files.toJson.compact).bind ofJson? = some files :=
  readsBack files h false

end PhpCalls
