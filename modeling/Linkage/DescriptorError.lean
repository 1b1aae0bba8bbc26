/-!
# Errors of descriptors

A descriptor is refused for one of finitely many reasons, and the refusal names the text that was
read. The other errors come from asking a type for a class name that it does not have.

A reader that works on characters only finds the reason, and its caller puts the text to it. That
changes what a failure says, but not when there is one (`mapError_eq_ok_iff`).
-/

namespace Linkage

/-- Why a text is not a descriptor. -/
inductive Reason where
  | missingElement
  | unterminatedClass
  | emptyClassName
  | unrecognizedTag
  | trailingCharacters
  | closedMidType
  | closedBeforeOpening
  /-- A character that starts or continues no argument. -/
  | unexpectedCharacter
  | unterminatedArguments
  | danglingMarkers
  /-- A second argument list, or one after a type. -/
  | unexpectedArguments
  | unbalancedArguments
  | missingReturnType
  deriving DecidableEq, Repr

def Reason.message : Reason → String
  | missingElement => "missing element type"
  | unterminatedClass => "unterminated class reference"
  | emptyClassName => "empty class name"
  | unrecognizedTag => "unrecognized type tag"
  | trailingCharacters => "trailing characters after field type"
  | closedMidType => "argument list closed mid-type"
  | closedBeforeOpening => "argument list closed before opening"
  | unexpectedCharacter => "unexpected character in argument list"
  | unterminatedArguments => "unterminated argument list"
  | danglingMarkers => "array marker without element type"
  | unexpectedArguments => "unexpected argument list"
  | unbalancedArguments => "unbalanced argument list"
  | missingReturnType => "missing return type"

/-- An error of reading a descriptor or of asking a type for its class. -/
inductive DescriptorError where
  | malformed (descriptor : String) (reason : Reason)
  /-- The type with this declaration has no class name. -/
  | noClassName (declaration : String)
  /-- The type with this declaration has no linkage symbol. -/
  | noMangledName (declaration : String)
  | unresolvedClass
  deriving DecidableEq, Repr

def DescriptorError.message : DescriptorError → String
  | malformed descriptor reason =>
    "malformed descriptor `" ++ descriptor ++ "`: " ++ reason.message
  | noClassName declaration =>
    "asked for the object class name of non-object type `" ++ declaration ++ "`"
  | noMangledName declaration =>
    "asked for the mangled class name of non-object type `" ++ declaration ++ "`"
  | unresolvedClass => "object reference has no resolved class"

/-! ### Failures said in another way -/

section MapError

variable {α δ ε : Type} {f : δ → ε} {x : Except δ α}

/-- Saying it differently does not make a failure a success. -/
theorem mapError_eq_ok_iff {a : α} : x.mapError f = .ok a ↔ x = .ok a := by
  cases x with
  | error d => exact ⟨nofun, nofun⟩
  | ok b =>
      constructor
      · intro h
        cases h
        rfl
      · intro h
        cases h
        rfl

theorem mapError_eq_error_iff {e : ε} :
    x.mapError f = .error e ↔ ∃ d, x = .error d ∧ e = f d := by
  cases x with
  | error d =>
      constructor
      · intro h
        cases h
        exact ⟨d, rfl, rfl⟩
      · rintro ⟨_, h, rfl⟩
        cases h
        rfl
  | ok b => exact ⟨nofun, nofun⟩

end MapError

end Linkage
