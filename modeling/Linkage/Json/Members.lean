import Linkage.Declaration
import Linkage.Json.Form
import Linkage.Registry.Session

/-!
# Stored forms

Primitives, elements and storage kinds are stored under the names of their cases, types, signatures
and members as records, and so are the host's descriptions of members and the references to them.
The number of a member is stored as a bare number.

Nothing is checked beyond the shape: what is read may be a type that no descriptor spells, a
signature with positions out of order, or a member whose owner can have none.
-/

namespace Linkage

/-! ### Types -/

def Primitive.caseName : Primitive → String
  | void => "Void"
  | boolean => "Boolean"
  | byte => "Byte"
  | char => "Char"
  | short => "Short"
  | int => "Int"
  | long => "Long"
  | float => "Float"
  | double => "Double"

instance : JsonForm Primitive where
  encode p := .string p.caseName
  decode? := Json.decodeName? Primitive.all Primitive.caseName

instance : JsonForm Element where
  encode
    | .primitive p => encode p
    | .object name => .object [("Object", .string name)]
    | .anyObject => .string "AnyObject"
  decode? json :=
    match json.case? with
    | some ("Object", .string name) => some (.object name)
    | some ("AnyObject", .null) => some .anyObject
    | _ => (decode? json).map .primitive

instance : JsonForm Ty where
  encode ty := .object [("kind", encode ty.element), ("array_rank", encode ty.rank)]
  decode? json := do
    let [element, rank] ← json.fields? ["kind", "array_rank"] | none
    return ⟨← decode? element, ← decode? rank⟩

instance : JsonForm StoreKind where
  encode kind := .string kind.name
  decode? := Json.decodeName? StoreKind.all StoreKind.name

def RuntimeType.ofJson? : Json → Option RuntimeType
  | .object [("Primitive", p)] => (decode? p).map primitive
  | .object [("Class", name)] => (decode? name).map named
  | .object [("Array", component)] => (ofJson? component).map array
  | _ => none

def RuntimeType.toJson : RuntimeType → Json
  | primitive p => .object [("Primitive", encode p)]
  | named name => .object [("Class", encode name)]
  | array component => .object [("Array", component.toJson)]

instance : JsonForm RuntimeType where
  encode := RuntimeType.toJson
  decode? := RuntimeType.ofJson?

/-! ### Signatures -/

instance : JsonForm Arg where
  encode arg := .object [("ty", encode arg.type), ("position", encode arg.position)]
  decode? json := do
    let [type, position] ← json.fields? ["ty", "position"] | none
    return ⟨← decode? type, ← decode? position⟩

instance : JsonForm Signature where
  encode sig := .object [("args", encode sig.args), ("return_type", encode sig.returnType)]
  decode? json := do
    let [args, returnType] ← json.fields? ["args", "return_type"] | none
    return ⟨← decode? args, ← decode? returnType⟩

/-! ### Options of rendering -/

instance : JsonForm Declaration.Options where
  encode options :=
    .object
      [("show_full_class_name", encode options.fullNames), ("insert", encode options.insert)]
  decode? json := do
    let [fullNames, insert] ← json.optionalFields? ["show_full_class_name", "insert"] | none
    return ⟨← Json.decodeD? false fullNames, ← Json.decodeD? "" insert⟩

/-! ### Members of the host -/

instance : JsonForm RuntimeMethod where
  encode method :=
    .object
      [("declaring_class", encode method.declaringClass), ("name", encode method.name),
        ("parameter_types", encode method.parameterTypes),
        ("return_type", encode method.returnType)]
  decode? json := do
    let [declaringClass, name, parameterTypes, returnType] ←
      json.fields? ["declaring_class", "name", "parameter_types", "return_type"] | none
    return ⟨← decode? declaringClass, ← decode? name, ← decode? parameterTypes,
      ← decode? returnType⟩

instance : JsonForm RuntimeField where
  encode field :=
    .object
      [("declaring_class", encode field.declaringClass), ("name", encode field.name),
        ("field_type", encode field.fieldType)]
  decode? json := do
    let [declaringClass, name, fieldType] ←
      json.fields? ["declaring_class", "name", "field_type"] | none
    return ⟨← decode? declaringClass, ← decode? name, ← decode? fieldType⟩

/-! ### References -/

instance : JsonForm MethodRef where
  encode ref :=
    .object
      [("class_name", encode ref.className), ("name", encode ref.name),
        ("descriptor", encode ref.descriptor)]
  decode? json := do
    let [className, name, descriptor] ← json.fields? ["class_name", "name", "descriptor"] | none
    return ⟨← decode? className, ← decode? name, ← decode? descriptor⟩

instance : JsonForm FieldRef where
  encode ref :=
    .object
      [("class_name", encode ref.className), ("name", encode ref.name),
        ("descriptor", encode ref.descriptor)]
  decode? json := do
    let [className, name, descriptor] ← json.fields? ["class_name", "name", "descriptor"] | none
    return ⟨← decode? className, ← decode? name, ← decode? descriptor⟩

/-! ### Members -/

instance : JsonForm Method where
  encode method :=
    .object
      [("owner", encode method.owner), ("name", encode method.name),
        ("signature", encode method.signature)]
  decode? json := do
    let [owner, name, signature] ← json.fields? ["owner", "name", "signature"] | none
    return ⟨← decode? owner, ← decode? name, ← decode? signature⟩

instance : JsonForm Field where
  encode field :=
    .object
      [("owner", encode field.owner), ("name", encode field.name), ("ty", encode field.type)]
  decode? json := do
    let [owner, name, type] ← json.fields? ["owner", "name", "ty"] | none
    return ⟨← decode? owner, ← decode? name, ← decode? type⟩

instance : JsonForm MemberId where
  encode id := encode id.index
  decode? json := (decode? json).map MemberId.mk

end Linkage
