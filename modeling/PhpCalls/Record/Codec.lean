import PhpCalls.Json.Codec
import PhpCalls.Record.Basic

set_option autoImplicit false

/-!
# Records in JSON form

For every record a `toJson` and an `ofJson?`. Members are written in the order in which the fields
are declared; an absent value is `null`, and some members are left out when they say nothing. A
base class or trait is written as an object with its name as the only key and `null` as the value.

## Main definitions

* `CallKind.toJson`, `Param.toJson`, …: writing.
* `CallKind.ofJson?`, `Param.ofJson?`, …: reading.
* `ProjectFacts.toJson`, `ProjectFacts.ofJson?`: the map from paths to facts.
-/

namespace PhpCalls

/-! ## Closed sorts -/

/-- Written by spelling. -/
def CallKind.toJson (k : CallKind) : Json := .str k.spelling

/-- Read by spelling. -/
def CallKind.ofJson? : Decoder CallKind := Decoder.oneOf CallKind.all CallKind.spelling

/-- Written by spelling. -/
def Visibility.toJson (v : Visibility) : Json := .str v.spelling

/-- Read by spelling. -/
def Visibility.ofJson? : Decoder Visibility := Decoder.oneOf Visibility.all Visibility.spelling

/-- Written by spelling. -/
def Modifier.toJson (m : Modifier) : Json := .str m.spelling

/-- Read by spelling. -/
def Modifier.ofJson? : Decoder Modifier := Decoder.oneOf Modifier.all Modifier.spelling

/-- Written by spelling. -/
def ClassKind.toJson (k : ClassKind) : Json := .str k.spelling

/-- Read by spelling. -/
def ClassKind.ofJson? : Decoder ClassKind := Decoder.oneOf ClassKind.all ClassKind.spelling

/-- Written by spelling. -/
def ImportKind.toJson (k : ImportKind) : Json := .str k.spelling

/-- Read by spelling. -/
def ImportKind.ofJson? : Decoder ImportKind := Decoder.oneOf ImportKind.all ImportKind.spelling

/-- Written by spelling. -/
def VariableKind.toJson (k : VariableKind) : Json := .str k.spelling

/-- Read by spelling. -/
def VariableKind.ofJson? : Decoder VariableKind :=
  Decoder.oneOf VariableKind.all VariableKind.spelling

/-! ## Functions, methods and calls -/

namespace Param

/-- The members of a parameter. -/
def fieldNames : List String := ["index", "name", "type", "default", "value", "variadic"]

/-- Writes a parameter; `variadic` only if it is. -/
def toJson (p : Param) : Json :=
  .obj ([("index", .nat p.index), ("name", .optStr p.name), ("type", .optStr p.type),
    ("default", .optStr p.default), ("value", .optStr p.value)] ++
    Json.memberIf p.variadic "variadic" (.bool p.variadic))

/-- Reads a parameter. -/
def ofJson? : Decoder Param := fun j => do
  let f ← Fields.read fieldNames j
  let index ← f.required "index" .nat
  let name ← f.optional "name" .str
  let type ← f.optional "type" .str
  let default ← f.optional "default" .str
  let value ← f.optional "value" .str
  let variadic ← f.defaulted "variadic" false .bool
  some { index, name, type, default, value, variadic }

end Param

namespace Call

/-- The members of a call. -/
def fieldNames : List String :=
  ["name", "fullname", "start_line", "end_line", "object", "class_name", "visibility", "modifiers",
   "method_type", "arguments", "is_native", "file", "namespace", "may_files", "may_namespaces",
   "may_be_source"]

/-- Writes a call; hints and candidates only if there are any. -/
def toJson (c : Call) : Json :=
  .obj ([("name", .str c.name), ("fullname", .str c.fullname), ("start_line", .nat c.startLine),
    ("end_line", .nat c.endLine), ("object", .optStr c.object),
    ("class_name", .optStr c.className), ("visibility", c.visibility.toJson),
    ("modifiers", .list Modifier.toJson c.modifiers), ("method_type", c.kind.toJson),
    ("arguments", .list Param.toJson c.arguments), ("is_native", .bool c.isNative)] ++
    Json.memberIf c.file.isSome "file" (.optStr c.file) ++
    Json.memberIf c.inNamespace.isSome "namespace" (.optStr c.inNamespace) ++
    Json.memberIf (!c.mayFiles.isEmpty) "may_files" (.list .str c.mayFiles) ++
    Json.memberIf (!c.mayNamespaces.isEmpty) "may_namespaces" (.list .str c.mayNamespaces) ++
    Json.memberIf c.mayBeSource.isSome "may_be_source"
      (.ofOption (.dict .str) c.mayBeSource))

/-- Reads a call. -/
def ofJson? : Decoder Call := fun j => do
  let f ← Fields.read fieldNames j
  let name ← f.required "name" .str
  let fullname ← f.required "fullname" .str
  let startLine ← f.required "start_line" .nat
  let endLine ← f.required "end_line" .nat
  let object ← f.optional "object" .str
  let className ← f.optional "class_name" .str
  let visibility ← f.defaulted "visibility" default Visibility.ofJson?
  let modifiers ← f.defaulted "modifiers" [] (.list Modifier.ofJson?)
  let kind ← f.required "method_type" CallKind.ofJson?
  let arguments ← f.defaulted "arguments" [] (.list Param.ofJson?)
  let isNative ← f.defaulted "is_native" false .bool
  let file ← f.optionalTail "file" .str
  let inNamespace ← f.optionalTail "namespace" .str
  let mayFiles ← f.defaulted "may_files" [] (.list .str)
  let mayNamespaces ← f.defaulted "may_namespaces" [] (.list .str)
  let mayBeSource ← f.optionalTail "may_be_source" (.dict .str)
  some { name, fullname, startLine, endLine, object, className, visibility, modifiers, kind,
         arguments, isNative, file, inNamespace, mayFiles, mayNamespaces, mayBeSource }

end Call

namespace Routine

/-- The members of a routine. -/
def fieldNames : List String :=
  ["id", "name", "fullname", "class_name", "file", "namespace", "start_line", "end_line",
   "visibility", "modifiers", "parameters", "return_type", "return_values", "method_type", "calls",
   "called_by"]

/-- Writes a routine; calls and callers only if there are any. -/
def toJson (r : Routine) : Json :=
  .obj ([("id", .str r.id), ("name", .str r.name), ("fullname", .str r.fullname),
    ("class_name", .optStr r.className), ("file", .str r.file),
    ("namespace", .optStr r.inNamespace), ("start_line", .nat r.startLine),
    ("end_line", .nat r.endLine), ("visibility", r.visibility.toJson),
    ("modifiers", .list Modifier.toJson r.modifiers),
    ("parameters", .list Param.toJson r.parameters), ("return_type", .optStr r.returnType),
    ("return_values", .list .str r.returnValues), ("method_type", r.kind.toJson)] ++
    Json.memberIf (!r.calls.isEmpty) "calls" (.list Call.toJson r.calls) ++
    Json.memberIf (!r.calledBy.isEmpty) "called_by" (.list .str r.calledBy))

/-- Reads a routine. -/
def ofJson? : Decoder Routine := fun j => do
  let f ← Fields.read fieldNames j
  let id ← f.defaulted "id" "" .str
  let name ← f.required "name" .str
  let fullname ← f.required "fullname" .str
  let className ← f.optional "class_name" .str
  let file ← f.defaulted "file" "" .str
  let inNamespace ← f.optional "namespace" .str
  let startLine ← f.required "start_line" .nat
  let endLine ← f.required "end_line" .nat
  let visibility ← f.defaulted "visibility" default Visibility.ofJson?
  let modifiers ← f.defaulted "modifiers" [] (.list Modifier.ofJson?)
  let parameters ← f.defaulted "parameters" [] (.list Param.ofJson?)
  let returnType ← f.optional "return_type" .str
  let returnValues ← f.defaulted "return_values" [] (.list .str)
  let kind ← f.required "method_type" CallKind.ofJson?
  let calls ← f.defaulted "calls" [] (.list Call.ofJson?)
  let calledBy ← f.defaulted "called_by" [] (.list .str)
  some { id, name, fullname, className, file, inNamespace, startLine, endLine, visibility,
         modifiers, parameters, returnType, returnValues, kind, calls, calledBy }

end Routine

/-! ## Classes -/

namespace Property

/-- The members of a property. -/
def fieldNames : List String :=
  ["name", "default", "type", "start_line", "end_line", "visibility", "modifiers"]

/-- Writes a property. -/
def toJson (p : Property) : Json :=
  .obj [("name", .str p.name), ("default", .optStr p.default), ("type", .optStr p.type),
    ("start_line", .nat p.startLine), ("end_line", .nat p.endLine),
    ("visibility", p.visibility.toJson), ("modifiers", .list Modifier.toJson p.modifiers)]

/-- Reads a property. -/
def ofJson? : Decoder Property := fun j => do
  let f ← Fields.read fieldNames j
  let name ← f.required "name" .str
  let default ← f.optional "default" .str
  let type ← f.optional "type" .str
  let startLine ← f.required "start_line" .nat
  let endLine ← f.required "end_line" .nat
  let visibility ← f.defaulted "visibility" .everyone Visibility.ofJson?
  let modifiers ← f.defaulted "modifiers" [] (.list Modifier.ofJson?)
  some { name, default, type, startLine, endLine, visibility, modifiers }

end Property

/-- Writes the name of another class. -/
def classRefToJson (name : String) : Json := .obj [(name, .null)]

/-- Reads the name of another class: the one key of an object whose values are texts or `null`. -/
def classRefOfJson? : Decoder String := fun j => do
  let d ← Decoder.dict (.option .str) j
  match d.keys with
  | [name] => some name
  | _ => none

namespace ClassDecl

/-- The members of a class. -/
def fieldNames : List String :=
  ["id", "name", "kind", "namespace", "file", "start_line", "end_line", "visibility", "modifiers",
   "extends", "implements", "uses", "properties", "methods", "is_interface"]

/-- Writes a class. -/
def toJson (c : ClassDecl) : Json :=
  .obj [("id", .str c.id), ("name", .str c.name), ("kind", c.kind.toJson),
    ("namespace", .optStr c.inNamespace), ("file", .str c.file), ("start_line", .nat c.startLine),
    ("end_line", .nat c.endLine), ("visibility", c.visibility.toJson),
    ("modifiers", .list Modifier.toJson c.modifiers), ("extends", .list classRefToJson c.extends_),
    ("implements", .list classRefToJson c.implements), ("uses", .list classRefToJson c.uses),
    ("properties", .list Property.toJson c.properties), ("methods", .list Routine.toJson c.methods),
    ("is_interface", .bool c.isInterface)]

/-- Reads a class. -/
def ofJson? : Decoder ClassDecl := fun j => do
  let f ← Fields.read fieldNames j
  let id ← f.defaulted "id" "" .str
  let name ← f.required "name" .str
  let kind ← f.defaulted "kind" .plain ClassKind.ofJson?
  let inNamespace ← f.optional "namespace" .str
  let file ← f.defaulted "file" "" .str
  let startLine ← f.required "start_line" .nat
  let endLine ← f.required "end_line" .nat
  let visibility ← f.defaulted "visibility" default Visibility.ofJson?
  let modifiers ← f.defaulted "modifiers" [] (.list Modifier.ofJson?)
  let extends_ ← f.defaulted "extends" [] (.list classRefOfJson?)
  let implements ← f.defaulted "implements" [] (.list classRefOfJson?)
  let uses ← f.defaulted "uses" [] (.list classRefOfJson?)
  let properties ← f.defaulted "properties" [] (.list Property.ofJson?)
  let methods ← f.defaulted "methods" [] (.list Routine.ofJson?)
  let isInterface ← f.defaulted "is_interface" false .bool
  some { id, name, kind, inNamespace, file, startLine, endLine, visibility, modifiers, extends_,
         implements, uses, properties, methods, isInterface }

end ClassDecl

/-! ## The facts of a file -/

namespace Import

/-- The members of an import. -/
def fieldNames : List String :=
  ["kind", "start_line", "end_line", "namespace", "path", "use_from", "alias", "text"]

/-- Writes an import. -/
def toJson (i : Import) : Json :=
  .obj [("kind", i.kind.toJson), ("start_line", .nat i.startLine), ("end_line", .nat i.endLine),
    ("namespace", .optStr i.fromNamespace), ("path", .optStr i.path),
    ("use_from", .optStr i.useFrom), ("alias", .optStr i.aliasName), ("text", .str i.text)]

/-- Reads an import. -/
def ofJson? : Decoder Import := fun j => do
  let f ← Fields.read fieldNames j
  let kind ← f.required "kind" ImportKind.ofJson?
  let startLine ← f.required "start_line" .nat
  let endLine ← f.required "end_line" .nat
  let fromNamespace ← f.optional "namespace" .str
  let path ← f.optional "path" .str
  let useFrom ← f.optional "use_from" .str
  let aliasName ← f.optional "alias" .str
  let text ← f.required "text" .str
  some { kind, startLine, endLine, fromNamespace, path, useFrom, aliasName, text }

end Import

namespace NamespaceExtent

/-- The members of a namespace extent. -/
def fieldNames : List String := ["name", "start_line", "end_line"]

/-- Writes a namespace extent. -/
def toJson (n : NamespaceExtent) : Json :=
  .obj [("name", .str n.name), ("start_line", .nat n.startLine), ("end_line", .nat n.endLine)]

/-- Reads a namespace extent. -/
def ofJson? : Decoder NamespaceExtent := fun j => do
  let f ← Fields.read fieldNames j
  let name ← f.required "name" .str
  let startLine ← f.required "start_line" .nat
  let endLine ← f.required "end_line" .nat
  some { name, startLine, endLine }

end NamespaceExtent

namespace Binding

/-- The members of a binding. -/
def fieldNames : List String := ["object", "class_name", "start_line", "end_line"]

/-- Writes a binding. -/
def toJson (b : Binding) : Json :=
  .obj [("object", .str b.object), ("class_name", .str b.className),
    ("start_line", .nat b.startLine), ("end_line", .nat b.endLine)]

/-- Reads a binding. -/
def ofJson? : Decoder Binding := fun j => do
  let f ← Fields.read fieldNames j
  let object ← f.required "object" .str
  let className ← f.required "class_name" .str
  let startLine ← f.required "start_line" .nat
  let endLine ← f.required "end_line" .nat
  some { object, className, startLine, endLine }

end Binding

namespace Variable

/-- The members of a variable. -/
def fieldNames : List String := ["kind", "name", "value", "start_line", "end_line", "scope"]

/-- Writes a variable. -/
def toJson (v : Variable) : Json :=
  .obj [("kind", v.kind.toJson), ("name", .str v.name), ("value", .optStr v.value),
    ("start_line", .nat v.startLine), ("end_line", .nat v.endLine), ("scope", .optStr v.scope)]

/-- Reads a variable. -/
def ofJson? : Decoder Variable := fun j => do
  let f ← Fields.read fieldNames j
  let kind ← f.required "kind" VariableKind.ofJson?
  let name ← f.required "name" .str
  let value ← f.optional "value" .str
  let startLine ← f.required "start_line" .nat
  let endLine ← f.required "end_line" .nat
  let scope ← f.optional "scope" .str
  some { kind, name, value, startLine, endLine, scope }

end Variable

namespace FileFacts

/-- The members of the facts of a file. -/
def fieldNames : List String :=
  ["methods", "classes", "imports", "namespaces", "objects", "variables"]

/-- Writes the facts of a file. -/
def toJson (f : FileFacts) : Json :=
  .obj [("methods", .list Routine.toJson f.methods), ("classes", .list ClassDecl.toJson f.classes),
    ("imports", .list Import.toJson f.imports),
    ("namespaces", .list NamespaceExtent.toJson f.namespaces),
    ("objects", .list Binding.toJson f.objects), ("variables", .list Variable.toJson f.vars)]

/-- Reads the facts of a file. -/
def ofJson? : Decoder FileFacts := fun j => do
  let f ← Fields.read fieldNames j
  let methods ← f.defaulted "methods" [] (.list Routine.ofJson?)
  let classes ← f.defaulted "classes" [] (.list ClassDecl.ofJson?)
  let imports ← f.defaulted "imports" [] (.list Import.ofJson?)
  let namespaces ← f.defaulted "namespaces" [] (.list NamespaceExtent.ofJson?)
  let objects ← f.defaulted "objects" [] (.list Binding.ofJson?)
  let vars ← f.defaulted "variables" [] (.list Variable.ofJson?)
  some { methods, classes, imports, namespaces, objects, vars }

end FileFacts

/-- Writes the facts of all files as an object from path to facts. -/
def ProjectFacts.toJson (files : ProjectFacts) : Json := .dict FileFacts.toJson files

/-- Reads the facts of all files. -/
def ProjectFacts.ofJson? : Decoder ProjectFacts := Decoder.dict FileFacts.ofJson?

/-! ## Beside the facts -/

namespace ReadFailure

/-- The members of a failure. -/
def fieldNames : List String := ["path", "error"]

/-- Writes a failure. -/
def toJson (r : ReadFailure) : Json := .obj [("path", .str r.path), ("error", .str r.error)]

/-- Reads a failure. -/
def ofJson? : Decoder ReadFailure := fun j => do
  let f ← Fields.read fieldNames j
  let path ← f.required "path" .str
  let error ← f.required "error" .str
  some { path, error }

end ReadFailure

namespace CacheStamp

/-- The members of a cache stamp. -/
def fieldNames : List String := ["version", "file_checksums", "failures"]

/-- Writes a cache stamp. -/
def toJson (s : CacheStamp) : Json :=
  .obj [("version", .str s.version), ("file_checksums", .dict .str s.checksums),
    ("failures", .list ReadFailure.toJson s.failures)]

/-- Reads a cache stamp. -/
def ofJson? : Decoder CacheStamp := fun j => do
  let f ← Fields.read fieldNames j
  let version ← f.required "version" .str
  let checksums ← f.required "file_checksums" (.dict .str)
  let failures ← f.defaulted "failures" [] (.list ReadFailure.ofJson?)
  some { version, checksums, failures }

end CacheStamp

namespace Tally

/-- The members of a tally. -/
def fieldNames : List String := ["resolved", "unresolved", "ambiguous", "builtin", "dynamic"]

/-- Writes a tally. -/
def toJson (t : Tally) : Json :=
  .obj [("resolved", .nat t.resolved), ("unresolved", .nat t.unresolved),
    ("ambiguous", .nat t.ambiguous), ("builtin", .nat t.builtin), ("dynamic", .nat t.dynamic)]

/-- Reads a tally. -/
def ofJson? : Decoder Tally := fun j => do
  let f ← Fields.read fieldNames j
  let resolved ← f.required "resolved" .nat
  let unresolved ← f.required "unresolved" .nat
  let ambiguous ← f.required "ambiguous" .nat
  let builtin ← f.required "builtin" .nat
  let dynamic ← f.required "dynamic" .nat
  some { resolved, unresolved, ambiguous, builtin, dynamic }

end Tally

end PhpCalls
