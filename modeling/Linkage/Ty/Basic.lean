import Linkage.ClassName
import Linkage.DescriptorError
import Linkage.Primitive
import Linkage.Tag
import Linkage.Text.Cut

/-!
# Types

A type is an *element* under some number of array dimensions, its *rank*. The element is a
primitive, a class with its internal name, or an object whose class is not known.

A type is written in two ways: as a *descriptor* (`[[I`, `Ljava/lang/String;`), which is read back
by `parse`, and as a *declaration* (`int[][]`, `java.lang.String`). `spell` is the descriptor as a
list of characters, the form in which it is reasoned about.

The questions of the form "is it a `long`?" ask about the element and ignore the rank: `[J` is
both an array and a `long`.
-/

namespace Linkage

/-- What an array of any rank holds in the end. -/
inductive Element where
  | primitive (p : Primitive)
  /-- An object of the class with this internal name. -/
  | object (internalName : String)
  /-- An object whose class is not known. -/
  | anyObject
  deriving DecidableEq, Hashable, Repr

def Element.primitive? : Element → Option Primitive
  | primitive p => some p
  | object _ | anyObject => none

/-- The characters of an element in a descriptor; `?`, which no reader accepts, for an unknown
class. -/
def Element.spell : Element → List Char
  | primitive p => [p.tag]
  | object name => 'L' :: name.toList ++ [';']
  | anyObject => ['?']

/-- An element under `rank` array dimensions. -/
structure Ty where
  element : Element
  rank : Nat
  deriving DecidableEq, Hashable, Repr

namespace Ty

def ofPrimitive (p : Primitive) : Ty := ⟨.primitive p, 0⟩

def ofClass (internalName : String) : Ty := ⟨.object internalName, 0⟩

/-! ### Questions -/

def isArray (ty : Ty) : Bool := ty.rank > 0

def is (ty : Ty) (p : Primitive) : Bool := ty.element = .primitive p

/-- The element is an object, its class known or not. -/
def isObject (ty : Ty) : Bool :=
  match ty.element with
  | .primitive _ => false
  | .object _ | .anyObject => true

/-- The element is a primitive that has values, so any but `void`. -/
def isPrimitive (ty : Ty) : Bool :=
  match ty.element with
  | .primitive p => p ≠ .void
  | .object _ | .anyObject => false

/-- An array of exactly `rank` dimensions over this primitive. -/
def isArrayOf (ty : Ty) (p : Primitive) (rank : Nat) : Bool :=
  ty.isArray && ty.rank = rank && ty.element.primitive? = some p

/-- An array of exactly `rank` dimensions over objects. -/
def isArrayOfObjects (ty : Ty) (rank : Nat) : Bool :=
  ty.isArray && ty.rank = rank && ty.isObject

/-- Types that can own members: objects, and arrays of anything. -/
def isClass (ty : Ty) : Bool := ty.isObject || ty.isArray

/-! ### Writing -/

/-- The name of the element in a declaration; `?` for an unknown class. -/
def elementName (ty : Ty) : String :=
  match ty.element with
  | .primitive p => p.keyword
  | .object name => ClassName.dottedOfInternal name
  | .anyObject => "?"

/-- The brackets of `rank` dimensions in a declaration. -/
def brackets (rank : Nat) : String := String.join (List.replicate rank "[]")

def declaration (ty : Ty) : String := ty.elementName ++ brackets ty.rank

/-- The characters of the descriptor: a marker for each dimension, then the element. -/
def spell (ty : Ty) : List Char := List.replicate ty.rank '[' ++ ty.element.spell

def descriptor (ty : Ty) : String := String.ofList ty.spell

/-! ### Class names -/

def internalName? (ty : Ty) : Option String :=
  match ty.element with
  | .object name => some name
  | .primitive _ | .anyObject => none

def className (ty : Ty) : Except DescriptorError String :=
  match ty.element with
  | .object name => .ok (ClassName.dottedOfInternal name)
  | .anyObject => .error .unresolvedClass
  | .primitive _ => .error (.noClassName ty.declaration)

def mangledName (ty : Ty) : Except DescriptorError String :=
  match ty.element with
  | .object name => .ok (ClassName.mangledOfInternal name)
  | .anyObject => .error .unresolvedClass
  | .primitive _ => .error (.noMangledName ty.declaration)

/-! ### Reading

    field ::= '['* ( primitive | 'L' name ';' )

`split` reads one type from the front of a text and hands back the rest; `whole` wants no rest. A
class name is everything up to the first `;`, so it may hold any other character, but it may not be
empty.

Both stay on `List Char` and give the bare reason of a refusal. `parsePrefix` and `parse` are the
same on texts, where a refusal also names the text as a whole. -/

/-- One type from the front of the text, and the text after it. -/
def split (cs : List Char) : Except Reason (Ty × List Char) :=
  let rank := (cs.takeWhile (· = '[')).length
  match cs.dropWhile (· = '[') with
  | [] => .error .missingElement
  | c :: rest =>
    match Tag.ofChar? c with
    | some .classStart =>
      match Text.cut? ';' rest with
      | none => .error .unterminatedClass
      | some ([], _) => .error .emptyClassName
      | some (name, after) => .ok (⟨.object (String.ofList name), rank⟩, after)
    | some (.primitive p) => .ok (⟨.primitive p, rank⟩, rest)
    | _ => .error .unrecognizedTag

/-- The type that the whole text spells. -/
def whole (cs : List Char) : Except Reason Ty :=
  match split cs with
  | .error reason => .error reason
  | .ok (ty, []) => .ok ty
  | .ok (_, _ :: _) => .error .trailingCharacters

/-- One type from the front of a descriptor, and the text after it. -/
def parsePrefix (desc : String) : Except DescriptorError (Ty × String) :=
  match split desc.toList with
  | .error reason => .error (.malformed desc reason)
  | .ok (ty, rest) => .ok (ty, String.ofList rest)

/-- The type that a field descriptor describes. -/
def parse (desc : String) : Except DescriptorError Ty :=
  (whole desc.toList).mapError (.malformed desc)

example : parse "[[I" = .ok ⟨.primitive .int, 2⟩ := rfl
example : parse "Lpkg/[a(b;" = .ok ⟨.object "pkg/[a(b", 0⟩ := rfl
example : parse "II" = .error (.malformed "II" .trailingCharacters) := rfl
example : parsePrefix "[Lpkg/Name;J" = .ok (⟨.object "pkg/Name", 1⟩, "J") := rfl
example : parsePrefix "[[L;I" = .error (.malformed "[[L;I" .emptyClassName) := rfl

end Ty
end Linkage
