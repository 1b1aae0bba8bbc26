/-!
# Primitive types

The nine types that a descriptor writes as a single letter, `void` among them. Each has a
*tag*, the letter, and a *keyword*, the word of a declaration.

`ofTag?` and `tag` are inverse to each other (`ofTag?_tag`, `tag_of_ofTag?`), so a letter names at
most one type and every type has its own letter.
-/

namespace Linkage

/-- A type written as one letter. -/
inductive Primitive where
  | void | boolean | byte | char | short | int | long | float | double
  deriving DecidableEq, Hashable, Repr, Inhabited

namespace Primitive

/-- All of them, in declaration order. -/
def all : List Primitive := [void, boolean, byte, char, short, int, long, float, double]

/-- The letter that stands for the type in a descriptor. -/
def tag : Primitive → Char
  | void => 'V'
  | boolean => 'Z'
  | byte => 'B'
  | char => 'C'
  | short => 'S'
  | int => 'I'
  | long => 'J'
  | float => 'F'
  | double => 'D'

/-- The type that a letter stands for, if it stands for one. -/
def ofTag? : Char → Option Primitive
  | 'V' => some void
  | 'Z' => some boolean
  | 'B' => some byte
  | 'C' => some char
  | 'S' => some short
  | 'I' => some int
  | 'J' => some long
  | 'F' => some float
  | 'D' => some double
  | _ => none

/-- The word for the type in a declaration. -/
def keyword : Primitive → String
  | void => "void"
  | boolean => "boolean"
  | byte => "byte"
  | char => "char"
  | short => "short"
  | int => "int"
  | long => "long"
  | float => "float"
  | double => "double"

def keywordOfTag? (c : Char) : Option String := (ofTag? c).map keyword

/-! ### Letters and types -/

@[simp] theorem ofTag?_tag (p : Primitive) : ofTag? p.tag = some p := by cases p <;> rfl

theorem tag_of_ofTag? {c : Char} {p : Primitive} (h : ofTag? c = some p) : p.tag = c := by
  unfold ofTag? at h
  split at h <;> cases h <;> rfl

theorem tag_injective {p q : Primitive} (h : p.tag = q.tag) : p = q :=
  Option.some.inj (by rw [← ofTag?_tag p, h, ofTag?_tag])

end Primitive
end Linkage
