import Linkage.Primitive

/-!
# Tags

Every character that means something in a descriptor, with its role:

    field  ::= '['* ( primitive | 'L' name ';' )
    method ::= '(' field* ')' field

and the five letters that only occur in annotation values. All other characters have no role
(`Tag.ofChar? c = none`).
-/

namespace Linkage

/-- What an annotation value holds. -/
inductive AnnotationTag where
  | string | enumConstant | classLiteral | nested | array
  deriving DecidableEq, Repr

/-- The role of a character in a descriptor. -/
inductive Tag where
  | primitive (p : Primitive)
  | arrayDim
  | classStart
  | classEnd
  | argsStart
  | argsEnd
  | annotationValue (a : AnnotationTag)
  deriving DecidableEq, Repr

/-- The role of a character, if it has one. -/
def Tag.ofChar? (c : Char) : Option Tag :=
  match Primitive.ofTag? c with
  | some p => some (.primitive p)
  | none =>
    match c with
    | '[' => some .arrayDim
    | 'L' => some .classStart
    | ';' => some .classEnd
    | '(' => some .argsStart
    | ')' => some .argsEnd
    | 's' => some (.annotationValue .string)
    | 'e' => some (.annotationValue .enumConstant)
    | 'c' => some (.annotationValue .classLiteral)
    | '@' => some (.annotationValue .nested)
    | 'a' => some (.annotationValue .array)
    | _ => none

/-! ### Characters and roles -/

def AnnotationTag.char : AnnotationTag → Char
  | string => 's'
  | enumConstant => 'e'
  | classLiteral => 'c'
  | nested => '@'
  | array => 'a'

def Tag.char : Tag → Char
  | primitive p => p.tag
  | arrayDim => '['
  | classStart => 'L'
  | classEnd => ';'
  | argsStart => '('
  | argsEnd => ')'
  | annotationValue a => a.char

@[simp] theorem Tag.ofChar?_char (tag : Tag) : Tag.ofChar? tag.char = some tag := by
  rcases tag with p | _ | _ | _ | _ | _ | a
  · simp [Tag.char, Tag.ofChar?]
  · rfl
  · rfl
  · rfl
  · rfl
  · rfl
  · cases a <;> rfl

/-- The character whose role was found stands for that role. -/
theorem Tag.char_of_ofChar? {c : Char} {tag : Tag} (h : Tag.ofChar? c = some tag) :
    tag.char = c := by
  unfold Tag.ofChar? at h
  cases hp : Primitive.ofTag? c with
  | some p =>
      rw [hp] at h
      cases h
      exact Primitive.tag_of_ofTag? hp
  | none =>
      simp only [hp] at h
      split at h <;> cases h <;> rfl

/-- A role belongs to exactly one character. -/
theorem Tag.ofChar?_eq_some_iff {c : Char} {tag : Tag} :
    Tag.ofChar? c = some tag ↔ tag.char = c :=
  ⟨Tag.char_of_ofChar?, fun h => h ▸ Tag.ofChar?_char tag⟩

end Linkage
