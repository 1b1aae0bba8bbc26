import Linkage.Ty.Basic

/-!
# Where types come from

A type is read from a descriptor (`Ty.parse`), taken over from the host (`Ty.ofRuntime`), or
guessed from how a value is stored (`Ty.ofStore`). `TypeSource` is any of the three.

The host's own handle on a type is a `RuntimeType`: a primitive, a class with its dotted name, or an
array of a component type, which may again be an array. The host names an array in a mixed
notation, the markers of a descriptor around a dotted class name: `[I`, `[[Ljava.lang.String;`.

A storage kind says less than a type: of an array or an object it only says that it is one.
-/

namespace Linkage

/-! ### Types of the host -/

/-- A type as the running host describes it. -/
inductive RuntimeType where
  | primitive (p : Primitive)
  | named (name : String)
  | array (component : RuntimeType)
  deriving DecidableEq, Repr

namespace RuntimeType

/-- The array of `rank` dimensions over `element`. -/
def arrayOf (element : RuntimeType) : Nat → RuntimeType
  | 0 => element
  | rank + 1 => array (arrayOf element rank)

/-- How the type is spelled inside the name of an array. -/
def spell : RuntimeType → List Char
  | primitive p => [p.tag]
  | named name => 'L' :: name.toList ++ [';']
  | array component => '[' :: component.spell

def name : RuntimeType → String
  | primitive p => p.keyword
  | named name => name
  | array component => String.ofList ('[' :: component.spell)

def primitive? : RuntimeType → Option Primitive
  | primitive p => some p
  | named _ | array _ => none

def component? : RuntimeType → Option RuntimeType
  | array component => some component
  | primitive _ | named _ => none

def isArray (ty : RuntimeType) : Bool := ty.component?.isSome

end RuntimeType

/-! ### Storage kinds -/

inductive StoreKind where
  | int | long | float | double | byte | char | short | boolean | array | object
  deriving DecidableEq, Repr

def StoreKind.all : List StoreKind :=
  [int, long, float, double, byte, char, short, boolean, array, object]

def StoreKind.name : StoreKind → String
  | int => "Int"
  | long => "Long"
  | float => "Float"
  | double => "Double"
  | byte => "Byte"
  | char => "Char"
  | short => "Short"
  | boolean => "Boolean"
  | array => "Array"
  | object => "Object"

/-! ### Types from host and storage -/

namespace Ty

/-- The host's type, one dimension for each array level around its innermost component. -/
def ofRuntime : RuntimeType → Ty
  | .primitive p => ofPrimitive p
  | .named name => ofClass (ClassName.internalOfDotted name)
  | .array component =>
    let ty := ofRuntime component
    { ty with rank := ty.rank + 1 }

/-- All that a storage kind tells: an array has at least one dimension over something. -/
def ofStore : StoreKind → Ty
  | .int => ofPrimitive .int
  | .long => ofPrimitive .long
  | .float => ofPrimitive .float
  | .double => ofPrimitive .double
  | .byte => ofPrimitive .byte
  | .char => ofPrimitive .char
  | .short => ofPrimitive .short
  | .boolean => ofPrimitive .boolean
  | .array => ⟨.anyObject, 1⟩
  | .object => ⟨.anyObject, 0⟩

def matchesRuntime (ty : Ty) (runtime : RuntimeType) : Bool := ofRuntime runtime = ty

end Ty

/-! ### Quoted text

Diagnostics show a text between double quotes, on one line: quotes and backslashes are escaped, and
so are control characters, the common ones by a letter (`\n`) and the others by their number
(`\u{1}`). Every other character stands for itself, also one that cannot be seen. -/

namespace Text

/-- The control characters: those below the space, and those from `DEL` to `U+009F`. -/
def isControl (c : Char) : Bool := c.toNat < 0x20 || (0x7f ≤ c.toNat && c.toNat < 0xa0)

/-- How a single character is written between the quotes. -/
def escape (c : Char) : List Char :=
  match c with
  | '"' => ['\\', '"']
  | '\\' => ['\\', '\\']
  | '\n' => ['\\', 'n']
  | '\t' => ['\\', 't']
  | '\r' => ['\\', 'r']
  | '\x00' => ['\\', '0']
  | c => if isControl c then ['\\', 'u', '{'] ++ Nat.toDigits 16 c.toNat ++ ['}'] else [c]

def quoted (s : String) : String :=
  String.ofList ('"' :: s.toList.flatMap escape ++ ['"'])

end Text

/-! ### Sources -/

/-- What a type is made from. -/
inductive TypeSource where
  | descriptor (desc : String)
  | runtime (ty : RuntimeType)
  | store (kind : StoreKind)
  deriving DecidableEq, Repr

namespace TypeSource

/-- The source as diagnostics show it. -/
def describe : TypeSource → String
  | descriptor desc => "Descriptor(" ++ Text.quoted desc ++ ")"
  | runtime ty => "Reflected(" ++ Text.quoted ty.name ++ ")"
  | store kind => "Store(" ++ kind.name ++ ")"

/-- The type made from the source; only a descriptor can be wrong. -/
def type : TypeSource → Except DescriptorError Ty
  | descriptor desc => Ty.parse desc
  | runtime ty => .ok (Ty.ofRuntime ty)
  | store kind => .ok (Ty.ofStore kind)

end TypeSource
end Linkage
