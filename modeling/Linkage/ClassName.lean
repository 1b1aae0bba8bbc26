import Linkage.Text.Substitute

/-!
# Class names

A class name is written in three notations:

* *internal*, with slashes: `java/lang/String`;
* *dotted*: `java.lang.String`;
* *mangled*, for linkage symbols: `java_lang_String`.

The conversions replace one character and never look at the rest of the name. Mangling loses
information: `a.b_c` and `a_b.c` share the symbol `a_b_c`, and a name that already has an
underscore is the only way to such a clash.

A class descriptor is `[`, once per array dimension, and then `L`, the internal name and `;`.
`ofDescriptor?` cuts the name out of a descriptor whose number of dimensions is known, without
reading the descriptor.
-/

namespace Linkage.ClassName

open Text (substitute)

/-! ### Notations -/

def internalOfDotted (dotted : String) : String := substitute '.' '/' dotted

def dottedOfInternal (internal : String) : String := substitute '/' '.' internal

def mangledOfDotted (dotted : String) : String := substitute '.' '_' dotted

def mangledOfInternal (internal : String) : String := substitute '/' '_' internal

/-- Mangling loses information about a name that already has an underscore. -/
def manglingIsAmbiguous (name : String) : Bool := name.toList.contains '_'

theorem manglingIsAmbiguous_eq_false_iff {name : String} :
    manglingIsAmbiguous name = false ↔ '_' ∉ name.toList := by
  simp [manglingIsAmbiguous]

/-! ### Descriptors -/

/-- The descriptor of an array of `rank` dimensions over the class of a dotted name. -/
def descriptor (dotted : String) (rank : Nat) : String :=
  String.ofList (List.replicate rank '[' ++ 'L' :: (internalOfDotted dotted).toList ++ [';'])

def dropMarkers : Nat → List Char → Option (List Char)
  | 0, cs => some cs
  | rank + 1, '[' :: cs => dropMarkers rank cs
  | _ + 1, _ => none

/-- What stands between a leading `L` and a final `;`. -/
def between? : List Char → Option (List Char)
  | 'L' :: cs => if cs.getLast? = some ';' then some cs.dropLast else none
  | _ => none

/-- The internal name in a class descriptor of `rank` dimensions. -/
def ofDescriptor? (desc : String) (rank : Nat) : Option String :=
  ((dropMarkers rank desc.toList).bind between?).map String.ofList

def dottedOfDescriptor? (desc : String) (rank : Nat) : Option String :=
  (ofDescriptor? desc rank).map dottedOfInternal

def mangledOfDescriptor? (desc : String) (rank : Nat) : Option String :=
  (ofDescriptor? desc rank).map mangledOfInternal

example : descriptor "pkg.Name" 2 = "[[Lpkg/Name;" := rfl
example : dottedOfDescriptor? "[Lpkg/Outer$Name;" 1 = some "pkg.Outer$Name" := rfl
example : mangledOfDescriptor? "Lpkg/Name;" 1 = none := rfl

/-! ### What is cut off -/

/-- Exactly the wanted number of markers is dropped, whatever follows them. -/
theorem dropMarkers_eq_some_iff {rank : Nat} {cs rest : List Char} :
    dropMarkers rank cs = some rest ↔ cs = List.replicate rank '[' ++ rest := by
  induction rank generalizing cs with
  | zero => simp [dropMarkers]
  | succ rank ih =>
      cases cs with
      | nil => simp [dropMarkers, List.replicate_succ]
      | cons c cs =>
          by_cases hc : c = '['
          · subst hc
            simpa [dropMarkers, List.replicate_succ] using ih
          · simp [dropMarkers, List.replicate_succ, hc]

/-- The name reaches to the `;` at the very end, so it may hold others. -/
theorem between?_eq_some_iff {cs name : List Char} :
    between? cs = some name ↔ cs = 'L' :: name ++ [';'] := by
  constructor
  · intro h
    unfold between? at h
    split at h
    · next cs =>
        split at h
        · next hlast =>
            -- the text ends with a `;`, and the name is all that is left of it
            obtain ⟨body, rfl⟩ := List.getLast?_eq_some_iff.mp hlast
            rw [List.dropLast_concat] at h
            cases h
            rfl
        · cases h
    · cases h
  · rintro rfl
    simp [between?]

end Linkage.ClassName
