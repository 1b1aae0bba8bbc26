import Linkage.Log
import Linkage.Ty.Origin

/-!
# Signatures

The argument types of a method, each with its position, and the return type. A signature comes
from a method descriptor (`Signature.parse`) or from the host (`Signature.ofRuntime`); it shows as
`void ( int, java.lang.String )`.

`parse` is the reader of method descriptors; `parseLogged` also notes the reading, whatever its
outcome.
-/

namespace Linkage

/-- An argument type and its place in the argument list, counted from zero. -/
structure Arg where
  type : Ty
  position : Nat
  deriving DecidableEq, Hashable, Repr

/-- The arguments of a method in order, and what it returns. -/
structure Signature where
  args : List Arg
  returnType : Ty
  deriving DecidableEq, Hashable, Repr

namespace Signature

def arity (sig : Signature) : Nat := sig.args.length

/-- The signature with these argument types, numbered from zero. -/
def ofTypes (types : List Ty) (returnType : Ty) : Signature :=
  ⟨types.mapIdx fun position type => ⟨type, position⟩, returnType⟩

def ofRuntime (parameters : List RuntimeType) (returnType : RuntimeType) : Signature :=
  ofTypes (parameters.map Ty.ofRuntime) (Ty.ofRuntime returnType)

def matchesReturn (sig : Signature) (runtime : RuntimeType) : Bool :=
  sig.returnType.matchesRuntime runtime

/-- The return type, and then the argument types between spaced parentheses. -/
def declaration (sig : Signature) : String :=
  sig.returnType.declaration ++ " ("
    ++ ",".intercalate (sig.args.map fun arg => " " ++ arg.type.declaration) ++ " )"

/-! ### Reading method descriptors

    method ::= '(' field* ')' field

A machine reads the argument list one character at a time. Its `Phase` says where it stands:
before the list, between two arguments, after the array markers of an argument, or inside a class
name. In the last two it carries the *span*, the part of the current argument that it has seen,
last character first. A completed span is read as a type of its own, so a refusal there names the
span. The `)` that closes the list ends the machine: all text after it is the return type.

Text before the list is skipped. A `)` never belongs to the class name of an argument, but may
belong to that of the return type. -/

/-- Where the machine stands in the argument list. -/
inductive Phase where
  | outside
  /-- In the list, with every argument complete. -/
  | between
  | markers (span : List Char)
  | className (span : List Char)
  deriving DecidableEq, Repr

/-- The state of the machine: its phase and the complete arguments. -/
structure Reader where
  phase : Phase
  args : Array Arg
  deriving DecidableEq, Repr

/-- What a character does to the machine. -/
inductive Move where
  | next (reader : Reader)
  | close (args : Array Arg)
  deriving DecidableEq, Repr

namespace Reader

def start : Reader := ⟨.outside, #[]⟩

def complete (reader : Reader) (span : List Char) : Except DescriptorError Move :=
  match Ty.whole span with
  | .error reason => .error (.malformed (String.ofList span) reason)
  | .ok ty => .ok (.next ⟨.between, reader.args.push ⟨ty, reader.args.size⟩⟩)

/-- Read one character of the descriptor `desc`. -/
def step (desc : String) (reader : Reader) (c : Char) : Except DescriptorError Move :=
  match reader.phase, Tag.ofChar? c with
  | .outside, some .argsStart => .ok (.next { reader with phase := .between })
  | .outside, some .argsEnd => .error (.malformed desc .closedBeforeOpening)
  | .outside, _ => .ok (.next reader)
  | .between, some .argsEnd => .ok (.close reader.args)
  | .between, some .arrayDim => .ok (.next { reader with phase := .markers [c] })
  | .between, some .classStart => .ok (.next { reader with phase := .className [c] })
  | .between, some (.primitive _) => reader.complete [c]
  | .between, _ => .error (.malformed desc .unexpectedCharacter)
  | .markers _, some .argsEnd => .error (.malformed desc .closedMidType)
  | .markers span, some .arrayDim => .ok (.next { reader with phase := .markers (c :: span) })
  | .markers span, some .classStart => .ok (.next { reader with phase := .className (c :: span) })
  | .markers span, some (.primitive _) => reader.complete (c :: span).reverse
  | .markers _, _ => .error (.malformed desc .unexpectedCharacter)
  | .className _, some .argsEnd => .error (.malformed desc .closedMidType)
  | .className span, some .classEnd => reader.complete (c :: span).reverse
  | .className span, _ => .ok (.next { reader with phase := .className (c :: span) })

/-- Read to the end of the list, and the rest as the return type. -/
def run (desc : String) : Reader → List Char → Except DescriptorError Signature
  | _, [] => .error (.malformed desc .unterminatedArguments)
  | reader, c :: rest =>
    match reader.step desc c with
    | .error e => .error e
    | .ok (.next reader) => run desc reader rest
    | .ok (.close args) =>
      match Ty.whole rest with
      | .error reason => .error (.malformed desc reason)
      | .ok returnType => .ok ⟨args.toList, returnType⟩

end Reader

def parse (desc : String) : Except DescriptorError Signature := Reader.start.run desc desc.toList

example : parse "(I[La;)V" =
    .ok (.ofTypes [⟨.primitive .int, 0⟩, ⟨.object "a", 1⟩] ⟨.primitive .void, 0⟩) := rfl
example : parse "([[L;I)V" = .error (.malformed "[[L;" .emptyClassName) := rfl
example : parse "(La)b;)V" = .error (.malformed "(La)b;)V" .closedMidType) := rfl
example : parse "(I)V;" = .error (.malformed "(I)V;" .trailingCharacters) := rfl

/-! ### The log of readings -/

/-- A method descriptor that was read, and what became of it. -/
structure Reading where
  descriptor : String
  outcome : Except DescriptorError Signature
  deriving Repr

/-- The record of a reading: what was read, or why it was refused. -/
def Reading.record (reading : Reading) : LogRecord where
  level := .debug
  target := "ember.descriptor"
  message :=
    match reading.outcome with
    | .ok _ => "parsed method descriptor"
    | .error _ => "failed to parse method descriptor"
  fields :=
    ("descriptor", .text reading.descriptor) ::
      match reading.outcome with
      | .ok sig =>
        [("arity", .number sig.arity), ("return_type", .text sig.returnType.declaration)]
      | .error e => [("error", .text e.message)]

def parseLogged (desc : String) : Logged Reading (Except DescriptorError Signature) :=
  let outcome := parse desc
  .noting outcome ⟨desc, outcome⟩

end Signature
end Linkage
