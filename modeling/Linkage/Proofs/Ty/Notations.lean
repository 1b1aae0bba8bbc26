import Linkage.Proofs.Ty.ClassNames
import Linkage.Ty.Origin

/-!
# Notations of one class name

A name goes from one notation to another by replacing a character, and it gets lost exactly when
the new character was in the name before: a dot in an internal name, a slash in a dotted one, an
underscore in a name that is mangled.

The linkage symbol of a class has two sources, its internal name and its dotted name. A type of the
host has no dot in its internal name, so both give the same symbol. A descriptor may have one, and
then they do not (`Ty.mangledName_eq_iff`).
-/

namespace Linkage

namespace ClassName

/-! ## Names that survive -/

/-- Slashes for the underscores give a name back exactly when it had none of its own. -/
theorem unmangled_eq_iff {name : String} :
    Text.substitute '_' '/' (mangledOfInternal name) = name ↔ manglingIsAmbiguous name = false := by
  rw [manglingIsAmbiguous_eq_false_iff]
  exact Text.substitute_substitute_eq_self_iff (by decide)

/-- No two names share a symbol unless one of them is ambiguous. -/
theorem mangledOfInternal_inj {a b : String} (ha : manglingIsAmbiguous a = false)
    (hb : manglingIsAmbiguous b = false) :
    mangledOfInternal a = mangledOfInternal b ↔ a = b := by
  constructor
  · intro h
    rw [← unmangled_eq_iff.mpr ha, h, unmangled_eq_iff.mpr hb]
  · exact congrArg mangledOfInternal

/-- The way to the symbol over the dots is the direct one exactly for names without dots. -/
theorem mangledOfDotted_dottedOfInternal_iff {name : String} :
    mangledOfDotted (dottedOfInternal name) = mangledOfInternal name ↔ '.' ∉ name.toList :=
  Text.substitute_substitute_eq_iff (by decide) (by decide)

end ClassName

/-! ## The symbol of a class -/

namespace Ty

/-- An object type that is not the unknown one has an internal name. -/
theorem exists_internalName {ty : Ty} (hknown : ty.element ≠ .anyObject)
    (hobject : ty.isObject = true) : ∃ name, ty.internalName? = some name := by
  obtain ⟨element, rank⟩ := ty
  cases element with
  | primitive p => cases hobject
  | object name => exact ⟨name, rfl⟩
  | anyObject => exact absurd rfl hknown

/-- A class answers with its dotted name, and mangling that gives its symbol exactly when the
internal name has no dot. -/
theorem mangledName_eq_iff {ty : Ty} {name : String} (h : ty.internalName? = some name) :
    ∃ dotted, ty.className = .ok dotted ∧
      (ty.mangledName = .ok (ClassName.mangledOfDotted dotted) ↔ '.' ∉ name.toList) := by
  obtain ⟨element, rank⟩ := ty
  cases element with
  | primitive p => cases h
  | anyObject => cases h
  | object internal =>
      cases h
      refine ⟨ClassName.dottedOfInternal name, rfl, ?_⟩
      rw [← ClassName.mangledOfDotted_dottedOfInternal_iff, mangledName, Except.ok.injEq]
      exact eq_comm

/-- The host knows the class of each of its objects. -/
theorem element_ofRuntime_ne_anyObject (runtime : RuntimeType) :
    (ofRuntime runtime).element ≠ .anyObject := by
  induction runtime with
  | primitive p => exact nofun
  | named name => exact nofun
  | array component ih => exact ih

/-- What the host writes with a dot has a slash in the type. -/
theorem dot_not_mem_of_ofRuntime {runtime : RuntimeType} {name : String}
    (h : (ofRuntime runtime).internalName? = some name) : '.' ∉ name.toList := by
  induction runtime with
  | primitive p => cases h
  | named dotted =>
      cases h
      exact Text.not_mem_substitute (by decide) dotted
  | array component ih => exact ih h

theorem Readable.element_ne_anyObject {ty : Ty} (h : ty.Readable) : ty.element ≠ .anyObject := by
  intro hunknown
  obtain ⟨element, rank⟩ := ty
  cases hunknown
  exact h.elim

end Ty

/-- **The notations lose exactly the names that have the new character already.** Names without dots
survive being dotted and names without slashes being made internal; the way over the dots to a
symbol is the direct one for names without dots; and a symbol tells its name exactly when mangling
is not ambiguous. So an object type of the host has one symbol, however it is made, and an object
that was read from a descriptor has one symbol exactly when its internal name has no dot. -/
theorem notations_keep_names_without_new_character :
    (∀ name : String, ClassName.internalOfDotted (ClassName.dottedOfInternal name) = name ↔
      '.' ∉ name.toList) ∧
    (∀ name : String, ClassName.dottedOfInternal (ClassName.internalOfDotted name) = name ↔
      '/' ∉ name.toList) ∧
    (∀ name : String,
      ClassName.mangledOfDotted (ClassName.dottedOfInternal name) =
        ClassName.mangledOfInternal name ↔ '.' ∉ name.toList) ∧
    (∀ name : String, ClassName.manglingIsAmbiguous name = false ↔
      Text.substitute '_' '/' (ClassName.mangledOfInternal name) = name) ∧
    (∀ a b : String, ClassName.manglingIsAmbiguous a = false →
      ClassName.manglingIsAmbiguous b = false →
      (ClassName.mangledOfInternal a = ClassName.mangledOfInternal b ↔ a = b)) ∧
    (∀ runtime : RuntimeType, (Ty.ofRuntime runtime).isObject = true →
      ∃ dotted, (Ty.ofRuntime runtime).className = .ok dotted ∧
        (Ty.ofRuntime runtime).mangledName = .ok (ClassName.mangledOfDotted dotted)) ∧
    ∀ (desc : String) (ty : Ty), Ty.parse desc = .ok ty → ty.isObject = true →
      ∃ internal dotted, ty.internalName? = some internal ∧ ty.className = .ok dotted ∧
        (ty.mangledName = .ok (ClassName.mangledOfDotted dotted) ↔ '.' ∉ internal.toList) := by
  refine ⟨?_, ?_, ?_, ?_, ?_, ?_, ?_⟩
  · intro name
    exact Text.substitute_substitute_eq_self_iff (by decide)
  · intro name
    exact Text.substitute_substitute_eq_self_iff (by decide)
  · intro name
    exact ClassName.mangledOfDotted_dottedOfInternal_iff
  · intro name
    exact ClassName.unmangled_eq_iff.symm
  · intro a b ha hb
    exact ClassName.mangledOfInternal_inj ha hb
  · intro runtime hobject
    obtain ⟨internal, hinternal⟩ :=
      Ty.exists_internalName (Ty.element_ofRuntime_ne_anyObject runtime) hobject
    obtain ⟨dotted, hdotted, hsymbol⟩ := Ty.mangledName_eq_iff hinternal
    exact ⟨dotted, hdotted, hsymbol.mpr (Ty.dot_not_mem_of_ofRuntime hinternal)⟩
  · intro desc ty hparse hobject
    obtain ⟨hread, _⟩ := Ty.parse_eq_ok_iff.mp hparse
    obtain ⟨internal, hinternal⟩ := Ty.exists_internalName hread.element_ne_anyObject hobject
    obtain ⟨dotted, hdotted, hsymbol⟩ := Ty.mangledName_eq_iff hinternal
    exact ⟨internal, dotted, hinternal, hdotted, hsymbol⟩

/-- An internal name with a dot, which is accepted, and an array of the host, which has none. -/
theorem notations_keep_names_without_new_character_on_dotted_descriptor :
    ClassName.manglingIsAmbiguous "a/b" = false ∧ ClassName.manglingIsAmbiguous "a.b" = false ∧
      (ClassName.mangledOfInternal "a/b" = ClassName.mangledOfInternal "a.b" ↔ "a/b" = "a.b") ∧
      (∃ dotted, (Ty.ofRuntime (.array (.named "a/b.C"))).className = .ok dotted ∧
        (Ty.ofRuntime (.array (.named "a/b.C"))).mangledName =
          .ok (ClassName.mangledOfDotted dotted)) ∧
      Ty.parse "La.b;" = .ok ⟨.object "a.b", 0⟩ ∧
      ∃ internal dotted, Ty.internalName? ⟨.object "a.b", 0⟩ = some internal ∧
        Ty.className ⟨.object "a.b", 0⟩ = .ok dotted ∧
        (Ty.mangledName ⟨.object "a.b", 0⟩ = .ok (ClassName.mangledOfDotted dotted) ↔
          '.' ∉ internal.toList) := by
  obtain ⟨_, _, _, _, hinjective, hruntime, hread⟩ := notations_keep_names_without_new_character
  have hparse : Ty.parse "La.b;" = .ok ⟨.object "a.b", 0⟩ := rfl
  refine ⟨by decide, by decide, ?_, ?_, hparse, ?_⟩
  · exact hinjective "a/b" "a.b" (by decide) (by decide)
  · exact hruntime (.array (.named "a/b.C")) rfl
  · exact hread "La.b;" _ hparse rfl

end Linkage
