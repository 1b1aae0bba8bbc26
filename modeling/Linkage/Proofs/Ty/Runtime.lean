import Linkage.Proofs.Ty.Spelling
import Linkage.Ty.Origin

/-!
# Descriptors of the host's types

A type of the host has its descriptor written in several ways: component by component
(`RuntimeType.descriptor`), through the type that it is taken over as (`Ty.ofRuntime`), from a class
name and a number of dimensions (`ClassName.descriptor`), and, for an array, in the host's own name
of it, dots aside (`RuntimeType.name`). All of them come to the same text
(`descriptor_writers_agree`), and that text is read back exactly when a class file can have it
(`Ty.readable_ofRuntime_iff`).
-/

namespace Linkage

/-! ## Runtime types in a class file -/

namespace RuntimeType

/-- The descriptor of the type in a class file. -/
def descriptor : RuntimeType → String
  | primitive p => String.singleton p.tag
  | named name => ClassName.descriptor name 0
  | array component => "[" ++ component.descriptor

/-- What holds of the class name inside the type, if there is one. -/
def NameIs (P : String → Prop) : RuntimeType → Prop
  | primitive _ => True
  | named name => P name
  | array component => component.NameIs P

instance decidableNameIs (P : String → Prop) [DecidablePred P] :
    (ty : RuntimeType) → Decidable (ty.NameIs P)
  | primitive _ => inferInstanceAs (Decidable True)
  | named name => inferInstanceAs (Decidable (P name))
  | array component => decidableNameIs P component

/-- A class file has a descriptor for the type. -/
def Writable (ty : RuntimeType) : Prop := ty.NameIs fun name => name ≠ "" ∧ ';' ∉ name.toList

/-- A class file has a descriptor for the type that can stand in an argument list. -/
def WritableArgument (ty : RuntimeType) : Prop :=
  ty.NameIs fun name => name ≠ "" ∧ ';' ∉ name.toList ∧ ')' ∉ name.toList

instance (ty : RuntimeType) : Decidable ty.Writable :=
  inferInstanceAs (Decidable (ty.NameIs fun name => name ≠ "" ∧ ';' ∉ name.toList))

instance (ty : RuntimeType) : Decidable ty.WritableArgument :=
  inferInstanceAs
    (Decidable (ty.NameIs fun name => name ≠ "" ∧ ';' ∉ name.toList ∧ ')' ∉ name.toList))

end RuntimeType

namespace Ty

theorem spell_ofRuntime_array (component : RuntimeType) :
    (ofRuntime (.array component)).spell = '[' :: (ofRuntime component).spell := rfl

/-- A type of the host has one descriptor, be it taken over as a type or not. -/
theorem descriptor_eq (runtime : RuntimeType) :
    runtime.descriptor = (ofRuntime runtime).descriptor := by
  induction runtime with
  | primitive p => rfl
  | named name => rfl
  | array component ih =>
      rw [← String.toList_inj, toList_descriptor, spell_ofRuntime_array, RuntimeType.descriptor, ih]
      simp

/-- A type of the host can be read back from its descriptor exactly when a class file can have
it. -/
theorem readable_ofRuntime_iff {runtime : RuntimeType} :
    (ofRuntime runtime).Readable ↔ runtime.Writable := by
  induction runtime with
  | primitive p => exact Iff.rfl
  | named name =>
      -- slashes for dots neither empty a name nor put a `;` into it
      have hempty : ClassName.internalOfDotted name = "" ↔ name = "" := Text.substitute_eq_empty_iff
      have hend : ';' ∈ (ClassName.internalOfDotted name).toList ↔ ';' ∈ name.toList :=
        Text.mem_substitute_iff (by decide) (by decide)
      exact and_congr (not_congr hempty) (not_congr hend)
  | array component ih =>
      exact ih

theorem fitsArgument_ofRuntime {runtime : RuntimeType} (h : runtime.WritableArgument) :
    (ofRuntime runtime).FitsArgument := by
  induction runtime with
  | primitive p => exact ⟨trivial, by simp [ofRuntime, ofPrimitive, Element.className]⟩
  | named name =>
      obtain ⟨hne, hend, hclose⟩ := h
      -- what may stand in an argument list may stand anywhere; only the `)` is left to look at
      have hwritable : RuntimeType.Writable (.named name) := ⟨hne, hend⟩
      refine ⟨readable_ofRuntime_iff.mpr hwritable, ?_⟩
      intro hmem
      apply hclose
      exact (Text.mem_substitute_iff (by decide) (by decide)).mp hmem
  | array component ih =>
      obtain ⟨hread, hclose⟩ := ih h
      exact ⟨hread, hclose⟩

/-! ## The host's names of arrays -/

/-- The host's spelling of a type differs from its descriptor in the dots only. -/
theorem map_swap_spell (runtime : RuntimeType) :
    runtime.spell.map (Text.swap '.' '/') = (ofRuntime runtime).spell := by
  induction runtime with
  | primitive p => cases p <;> rfl
  | named name =>
      simp [RuntimeType.spell, ofRuntime, ofClass, spell, Element.spell, ClassName.internalOfDotted,
        Text.swap]
  | array component ih =>
      rw [spell_ofRuntime_array, ← ih]
      rfl

/-- The name of an array is a descriptor already, but for the dots of the class in it. -/
theorem internalOfDotted_name_array (component : RuntimeType) :
    ClassName.internalOfDotted (RuntimeType.array component).name =
      (ofRuntime (.array component)).descriptor := by
  rw [RuntimeType.name, ClassName.internalOfDotted, Text.substitute_ofList]
  exact congrArg String.ofList (map_swap_spell (.array component))

/-! ## Arrays of a class -/

/-- All dimensions of an array are added to those of its element. -/
theorem ofRuntime_arrayOf (element : RuntimeType) (rank : Nat) :
    ofRuntime (.arrayOf element rank) =
      ⟨(ofRuntime element).element, (ofRuntime element).rank + rank⟩ := by
  induction rank with
  | zero => rfl
  | succ rank ih => rw [RuntimeType.arrayOf, ofRuntime, ih, Nat.add_assoc]

theorem descriptor_ofRuntime_arrayOf (name : String) (rank : Nat) :
    (ofRuntime (.arrayOf (.named name) rank)).descriptor = ClassName.descriptor name rank := by
  rw [ofRuntime_arrayOf, ← String.toList_inj, toList_descriptor, ClassName.descriptor,
    String.toList_ofList]
  simp [ofRuntime, ofClass, spell, Element.spell]

/-- The rank does not matter to whether an array can be read. -/
theorem readable_ofRuntime_arrayOf {element : RuntimeType} {rank : Nat} :
    (ofRuntime (.arrayOf element rank)).Readable ↔ element.Writable := by
  rw [ofRuntime_arrayOf, ← readable_ofRuntime_iff]
  exact Iff.rfl

end Ty

/-- **The writers of descriptors agree.** The descriptor of an array is the host's name of it with
slashes for dots, and the descriptor written from a class name and a rank is that of the array of
this rank over the class. It is read back as that array exactly when the name is not empty and has
no `;`. -/
theorem descriptor_writers_agree :
    (∀ ty : RuntimeType, ty.isArray = true →
      (Ty.ofRuntime ty).descriptor = ClassName.internalOfDotted ty.name) ∧
    (∀ (name : String) (rank : Nat), ClassName.descriptor name rank =
      (Ty.ofRuntime (.arrayOf (.named name) rank)).descriptor) ∧
    ∀ (name : String) (rank : Nat),
      Ty.parse (ClassName.descriptor name rank) =
          .ok (Ty.ofRuntime (.arrayOf (.named name) rank)) ↔
        name ≠ "" ∧ ';' ∉ name.toList := by
  refine ⟨?_, ?_, ?_⟩
  · intro ty h
    cases ty with
    | primitive p => cases h
    | named name => cases h
    | array component => exact (Ty.internalOfDotted_name_array component).symm
  · intro name rank
    exact (Ty.descriptor_ofRuntime_arrayOf name rank).symm
  · intro name rank
    rw [Ty.parse_eq_ok_iff, Ty.descriptor_ofRuntime_arrayOf, Ty.readable_ofRuntime_arrayOf]
    exact and_iff_left rfl

/-- Under two dimensions, a name with a marker, a dot and a slash, and one that a `;` makes
unreadable. -/
theorem descriptor_writers_agree_on_brackets_in_names :
    let ty : RuntimeType := .array (.array (.named "[.a/b;"))
    ty.isArray = true ∧ (Ty.ofRuntime ty).descriptor = ClassName.internalOfDotted ty.name ∧
      ClassName.descriptor "[.a/b;" 2 = (Ty.ofRuntime ty).descriptor ∧
      Ty.parse (ClassName.descriptor "[.a/b;" 2) ≠ .ok (Ty.ofRuntime ty) ∧
      Ty.parse (ClassName.descriptor "[.a/b" 2) = .ok ⟨.object "[/a/b", 2⟩ := by
  intro ty
  obtain ⟨hname, hdescriptor, hread⟩ := descriptor_writers_agree
  refine ⟨rfl, hname ty rfl, hdescriptor "[.a/b;" 2, ?_, ?_⟩
  · intro h
    have hend := ((hread "[.a/b;" 2).mp h).2
    exact absurd hend (by decide)
  · exact (hread "[.a/b" 2).mpr (by decide)

end Linkage
