import Linkage.Proofs.Member.Host

/-!
# The binary name of an owner

The host names a class with dots, and an array by markers around such a name (`RuntimeType.name`). A
reference has a slash for each of these dots, whether its owner is a class or an array
(`Ty.className_eq_of_ofOwner`). So dots for all slashes give the host's name back, unless that has a
slash of its own (`binaryClassName_eq_name_iff`).
-/

namespace Linkage

namespace RuntimeType

/-- Only the name of a class can bring a slash into the name of an array. -/
theorem slash_not_mem_spell_iff {ty : RuntimeType} : '/' ∉ ty.spell ↔ ty.NoSlash := by
  induction ty with
  | primitive p => cases p <;> decide
  | named name => simp [spell, NoSlash, NameIs]
  | array component ih => simpa [spell, NoSlash, NameIs] using ih

theorem slash_not_mem_name_iff {ty : RuntimeType} : '/' ∉ ty.name.toList ↔ ty.NoSlash := by
  cases ty with
  | primitive p => cases p <;> decide
  | named name => exact Iff.rfl
  | array component =>
      have hspell : '/' ∉ (array component).spell ↔ (array component).NoSlash :=
        slash_not_mem_spell_iff
      rw [← hspell, name, String.toList_ofList]
      rfl

end RuntimeType

namespace Ty

/-- The owner of a reference is written as the host names it, with slashes for the dots. -/
theorem className_eq_of_ofOwner {className : String} {runtime : RuntimeType}
    (h : ofOwner className = .ok (ofRuntime runtime)) :
    className = ClassName.internalOfDotted runtime.name := by
  rw [ofOwner_eq_ok_iff] at h
  split at h
  · next hmarker =>
      obtain ⟨_, rfl⟩ := h
      -- a marker in front: the owner is an array, and its descriptor is its name with slashes
      have harray := isArray_of_head?_descriptor hmarker
      cases runtime with
      | primitive p => cases harray
      | named name => cases harray
      | array component => exact (internalOfDotted_name_array component).symm
  · -- only a class has no marker in front
    cases runtime with
    | primitive p => cases h
    | named name =>
        injection h with helement _
        injection helement with hname
        exact hname.symm
    | array component =>
        have hrank := congrArg Ty.rank h
        exact absurd hrank (Nat.succ_ne_zero _)

end Ty

/-- Dots for all slashes undo the slashes for dots, unless there were slashes before. -/
theorem binaryClassName_eq_name_iff {ref : MethodRef} {runtime : RuntimeType}
    (h : ref.owner = .ok (Ty.ofRuntime runtime)) :
    ref.binaryClassName = runtime.name ↔ runtime.NoSlash := by
  have hname := Ty.className_eq_of_ofOwner (mapError_eq_ok_iff.mp h)
  rw [MethodRef.binaryClassName, hname, ← RuntimeType.slash_not_mem_name_iff]
  exact Text.substitute_substitute_eq_self_iff (by decide)

/-- **The binary name of an owner is the host's name for it.** When the owner of a reference is read
as the type of a class or array of the host, the binary name is what the host calls it, exactly when
the host has no slash in the name of the class. -/
theorem owner_has_name_of_host (ref : MethodRef) (owner : Ty) (runtime : RuntimeType)
    (howner : ref.owner = .ok owner) (hruntime : Ty.ofRuntime runtime = owner) :
    ref.binaryClassName = runtime.name ↔ runtime.NoSlash := by
  subst hruntime
  exact binaryClassName_eq_name_iff howner

/-- A class with dots and one with a slash, of which only the first comes back, and two arrays. -/
theorem owner_has_name_of_host_class_or_array :
    MethodRef.owner ⟨"pkg/Name", "run", "()V"⟩ = .ok ⟨.object "pkg/Name", 0⟩ ∧
      MethodRef.binaryClassName ⟨"pkg/Name", "run", "()V"⟩ =
        RuntimeType.name (.named "pkg.Name") ∧
      MethodRef.binaryClassName ⟨"pkg/Name", "run", "()V"⟩ ≠
        RuntimeType.name (.named "pkg/Name") ∧
      MethodRef.binaryClassName ⟨"[[La/B;", "clone", "()V"⟩ =
        RuntimeType.name (.array (.array (.named "a.B"))) ∧
      MethodRef.binaryClassName ⟨"[I", "clone", "()V"⟩ =
        RuntimeType.name (.array (.primitive .int)) := by
  have hplain : MethodRef.owner ⟨"pkg/Name", "run", "()V"⟩ = .ok ⟨.object "pkg/Name", 0⟩ := rfl
  refine ⟨hplain, ?_, ?_, ?_, ?_⟩
  · exact (owner_has_name_of_host _ _ (.named "pkg.Name") hplain (by decide)).mpr (by decide)
  · rw [Ne, owner_has_name_of_host _ _ (.named "pkg/Name") hplain (by decide)]
    decide
  · have hgrid := owner_has_name_of_host ⟨"[[La/B;", "clone", "()V"⟩ ⟨.object "a/B", 2⟩
      (.array (.array (.named "a.B"))) rfl (by decide)
    exact hgrid.mpr (by decide)
  · have hints := owner_has_name_of_host ⟨"[I", "clone", "()V"⟩ ⟨.primitive .int, 1⟩
      (.array (.primitive .int)) rfl rfl
    exact hints.mpr trivial

end Linkage
