import Linkage.Signature

/-!
# Members

A method is identified by its owner, its name and its signature, a field by its owner, its name
and its type. Members are compared part by part, so two of them are the same whichever way they
were found: by the host (`Method.ofRuntime`, `Field.ofRuntime`) or by a reference in a class file
(`Method.ofRef`, `Field.ofRef`).

`Method.make` and `Field.make` want an owner that can have members: an object, or an array of
anything.
-/

namespace Linkage

/-- A method of a class or an array type. -/
structure Method where
  owner : Ty
  name : String
  signature : Signature
  deriving DecidableEq, Hashable, Repr

/-- A field of a class or an array type. -/
structure Field where
  owner : Ty
  name : String
  type : Ty
  deriving DecidableEq, Hashable, Repr

inductive Member where
  | method (m : Method)
  | field (f : Field)
  deriving DecidableEq, Repr

/-! ### Errors -/

/-- Why a member cannot be made. -/
inductive MemberError where
  /-- A descriptor in the reference is wrong. -/
  | descriptor (e : DescriptorError)
  /-- The type with this declaration has no members. -/
  | ownerNotAClass (declaration : String)
  deriving DecidableEq, Repr

def MemberError.message : MemberError → String
  | descriptor e => e.message
  | ownerNotAClass declaration => "member owner `" ++ declaration ++ "` is not a class type"

/-! ### Making members -/

/-- The owner itself, if it can have members. -/
def checkOwner (owner : Ty) : Except MemberError Ty :=
  if owner.isClass then .ok owner else .error (.ownerNotAClass owner.declaration)

def Method.make (owner : Ty) (name : String) (signature : Signature) : Except MemberError Method :=
  (checkOwner owner).map (⟨·, name, signature⟩)

def Field.make (owner : Ty) (name : String) (type : Ty) : Except MemberError Field :=
  (checkOwner owner).map (⟨·, name, type⟩)

theorem Method.make_eq_ok {owner : Ty} (h : owner.isClass = true) (name : String)
    (signature : Signature) : make owner name signature = .ok ⟨owner, name, signature⟩ := by
  rw [make, checkOwner, if_pos h]
  rfl

theorem Field.make_eq_ok {owner : Ty} (h : owner.isClass = true) (name : String) (type : Ty) :
    make owner name type = .ok ⟨owner, name, type⟩ := by
  rw [make, checkOwner, if_pos h]
  rfl

/-! ### Declarations -/

/-- The method with its owner in front of the name, and the types of its arguments. -/
def Method.declaration (method : Method) : String :=
  method.signature.returnType.declaration ++ " " ++ method.owner.declaration ++ "." ++ method.name
    ++ "(" ++ ", ".intercalate (method.signature.args.map (·.type.declaration)) ++ ")"

/-- The field with its owner in front of the name. -/
def Field.declaration (field : Field) : String :=
  field.type.declaration ++ " " ++ field.owner.declaration ++ "." ++ field.name

def Member.method? : Member → Option Method
  | method m => some m
  | field _ => none

def Member.field? : Member → Option Field
  | method _ => none
  | field f => some f

/-! ### Members of the host -/

/-- A method as the running host describes it. -/
structure RuntimeMethod where
  declaringClass : RuntimeType
  name : String
  parameterTypes : List RuntimeType
  returnType : RuntimeType
  deriving DecidableEq, Repr

/-- A field as the running host describes it. -/
structure RuntimeField where
  declaringClass : RuntimeType
  name : String
  fieldType : RuntimeType
  deriving DecidableEq, Repr

def Method.ofRuntime (method : RuntimeMethod) : Except MemberError Method :=
  make (Ty.ofRuntime method.declaringClass) method.name
    (Signature.ofRuntime method.parameterTypes method.returnType)

def Field.ofRuntime (field : RuntimeField) : Except MemberError Field :=
  make (Ty.ofRuntime field.declaringClass) field.name (Ty.ofRuntime field.fieldType)

/-- The host's method returns what this method returns. -/
def Method.matchesRuntime (method : Method) (runtime : RuntimeMethod) : Bool :=
  method.signature.matchesReturn runtime.returnType

/-! ### References

The constant pool of a class file refers to a member by three texts: the owner, the name and the
descriptor. The owner is the internal name of a class, or the descriptor of an array type, which
its first character `[` tells apart.

The member is made from left to right. A wrong owner is found before the descriptor of a method is
looked at, so its reading is not logged. -/

/-- The type that the owner of a reference denotes. -/
def Ty.ofOwner (className : String) : Except DescriptorError Ty :=
  if className.toList.head? = some '[' then Ty.parse className else .ok (Ty.ofClass className)

structure MethodRef where
  /-- The internal name of the owner, or the descriptor of an array. -/
  className : String
  name : String
  descriptor : String
  deriving DecidableEq, Repr

namespace MethodRef

def owner (ref : MethodRef) : Except MemberError Ty :=
  (Ty.ofOwner ref.className).mapError .descriptor

/-- The signature of the method; the reading of the descriptor is logged. -/
def signature (ref : MethodRef) : Logged Signature.Reading (Except MemberError Signature) :=
  (Signature.parseLogged ref.descriptor).map (·.mapError .descriptor)

def binaryClassName (ref : MethodRef) : String := ClassName.dottedOfInternal ref.className

end MethodRef

def Method.ofRef (ref : MethodRef) : Logged Signature.Reading (Except MemberError Method) :=
  match ref.owner with
  | .error e => .quiet (.error e)
  | .ok owner => ref.signature.map fun signature =>
    match signature with
    | .error e => .error e
    | .ok signature => make owner ref.name signature

structure FieldRef where
  /-- The internal name of the owner, or the descriptor of an array. -/
  className : String
  name : String
  descriptor : String
  deriving DecidableEq, Repr

namespace FieldRef

def owner (ref : FieldRef) : Except MemberError Ty :=
  (Ty.ofOwner ref.className).mapError .descriptor

def type (ref : FieldRef) : Except MemberError Ty := (Ty.parse ref.descriptor).mapError .descriptor

end FieldRef

def Field.ofRef (ref : FieldRef) : Except MemberError Field := do
  let owner ← ref.owner
  let type ← ref.type
  make owner ref.name type

end Linkage
