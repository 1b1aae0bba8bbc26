import Linkage.Proofs.Member.Reference
import Linkage.Proofs.Registry.Roster
import Linkage.Proofs.Signature.Reading
import Linkage.Proofs.Ty.Runtime

/-!
# One member, two origins

A member that the host describes is the member that a class file refers to. `toRef` writes the
reference to a member of the host, and the method or field of that reference is the one of the
host itself, so a registry has one number for both (`origins_agree`).

The two origins have nothing in common: the host's types are taken apart component by component,
while the reference is text that the readers of descriptors scan. They meet in the spelling of a
type, which `RuntimeType.descriptor` writes and `Ty.ofRuntime` has (`Ty.descriptor_eq`). The owner
is written differently, as the host's own name with slashes, which is a descriptor for arrays only
(`Ty.ofOwner_name`).
-/

namespace Linkage

/-! ## Owners in a class file -/

namespace RuntimeType

/-- A class file can refer to the members of the type. -/
def Owns : RuntimeType → Prop
  | primitive _ => False
  | named name => name.toList.head? ≠ some '['
  | array component => component.Writable

instance : (ty : RuntimeType) → Decidable ty.Owns
  | primitive _ => inferInstanceAs (Decidable False)
  | named name => inferInstanceAs (Decidable (name.toList.head? ≠ some '['))
  | array component => inferInstanceAs (Decidable component.Writable)

end RuntimeType

namespace Ty

/-- The host's name of a class, with slashes, denotes the class as an owner. -/
theorem ofOwner_name {runtime : RuntimeType} (h : runtime.Owns) :
    ofOwner (ClassName.internalOfDotted runtime.name) = .ok (ofRuntime runtime) := by
  cases runtime with
  | primitive p => exact h.elim
  | named name =>
      -- no other character becomes a `[`, so the name is not taken for a descriptor
      have hhead : (ClassName.internalOfDotted name).toList.head? ≠ some '[' := by
        rw [ClassName.internalOfDotted, Text.toList_substitute, List.head?_map, Ne,
          Option.map_eq_some_iff]
        rintro ⟨c, hc, hswap⟩
        unfold Text.swap at hswap
        split at hswap
        · cases hswap
        · exact h (hswap ▸ hc)
      exact if_neg hhead
  | array component =>
      -- the name of an array starts with a marker, so it is read as a descriptor
      have hhead : (ofRuntime (.array component)).descriptor.toList.head? = some '[' := by
        rw [toList_descriptor, spell_ofRuntime_array, List.head?_cons]
      have hwritable : RuntimeType.Writable (.array component) := h
      rw [internalOfDotted_name_array, ofOwner, if_pos hhead, parse_eq_ok_iff]
      exact ⟨readable_ofRuntime_iff.mpr hwritable, rfl⟩

theorem isClass_ofRuntime {runtime : RuntimeType} (h : runtime.Owns) :
    (ofRuntime runtime).isClass = true := by
  cases runtime with
  | primitive p => exact h.elim
  | named name => rfl
  | array component => simp [ofRuntime, isClass, isArray]

end Ty

/-! ## References to members of the host -/

/-- The reference of a class file to a method of the host. -/
def RuntimeMethod.toRef (m : RuntimeMethod) : MethodRef where
  className := ClassName.internalOfDotted m.declaringClass.name
  name := m.name
  descriptor :=
    "(" ++ String.join (m.parameterTypes.map RuntimeType.descriptor) ++ ")" ++
      m.returnType.descriptor

/-- The reference of a class file to a field of the host. -/
def RuntimeField.toRef (f : RuntimeField) : FieldRef where
  className := ClassName.internalOfDotted f.declaringClass.name
  name := f.name
  descriptor := f.fieldType.descriptor

/-- A method that a class file can refer to. -/
structure RuntimeMethod.Referable (m : RuntimeMethod) : Prop where
  owner : m.declaringClass.Owns
  parameters : ∀ ty ∈ m.parameterTypes, ty.WritableArgument
  returned : m.returnType.Writable

/-- A field that a class file can refer to. -/
structure RuntimeField.Referable (f : RuntimeField) : Prop where
  owner : f.declaringClass.Owns
  type : f.fieldType.Writable

instance (m : RuntimeMethod) : Decidable m.Referable :=
  decidable_of_iff
    (m.declaringClass.Owns ∧ (∀ ty ∈ m.parameterTypes, ty.WritableArgument) ∧ m.returnType.Writable)
    ⟨fun h => ⟨h.1, h.2.1, h.2.2⟩, fun h => ⟨h.owner, h.parameters, h.returned⟩⟩

instance (f : RuntimeField) : Decidable f.Referable :=
  decidable_of_iff (f.declaringClass.Owns ∧ f.fieldType.Writable)
    ⟨fun h => ⟨h.1, h.2⟩, fun h => ⟨h.owner, h.type⟩⟩

/-- The parts of the descriptor in the reference to a method of the host. -/
def RuntimeMethod.parts (m : RuntimeMethod) : Signature.Parts where
  before := ""
  types := m.parameterTypes.map Ty.ofRuntime
  returnType := Ty.ofRuntime m.returnType

theorem RuntimeMethod.descriptor_toRef (m : RuntimeMethod) :
    m.toRef.descriptor = m.parts.descriptor := by
  have htypes : m.parameterTypes.map RuntimeType.descriptor =
      (m.parameterTypes.map Ty.ofRuntime).map Ty.descriptor := by
    rw [List.map_map]
    exact List.map_congr_left fun ty _ => Ty.descriptor_eq ty
  rw [Signature.Parts.descriptor, parts, toRef, htypes, Ty.descriptor_eq, String.empty_append]

/-- What a class file can refer to is what the reader of descriptors takes. -/
theorem RuntimeMethod.wellFormed_parts {m : RuntimeMethod} (h : m.Referable) :
    m.parts.WellFormed := by
  refine ⟨List.not_mem_nil, List.not_mem_nil, ?_, Ty.readable_ofRuntime_iff.mpr h.returned⟩
  intro ty hmem
  obtain ⟨runtime, hruntime, rfl⟩ := List.mem_map.mp hmem
  exact Ty.fitsArgument_ofRuntime (h.parameters runtime hruntime)

/-! ## The same member -/

theorem Method.ofRuntime_eq_ok {m : RuntimeMethod} (h : m.Referable) :
    Method.ofRuntime m = .ok ⟨Ty.ofRuntime m.declaringClass, m.name,
      Signature.ofRuntime m.parameterTypes m.returnType⟩ :=
  make_eq_ok (Ty.isClass_ofRuntime h.owner) m.name _

/-- The reference makes the method of the types that it spells, which are the same ones. -/
theorem Method.ofRef_toRef {m : RuntimeMethod} (h : m.Referable) :
    (Method.ofRef m.toRef).value = .ok ⟨Ty.ofRuntime m.declaringClass, m.name,
      Signature.ofRuntime m.parameterTypes m.returnType⟩ := by
  have hparse := Signature.parse_descriptor (RuntimeMethod.wellFormed_parts h)
  rw [← m.descriptor_toRef] at hparse
  exact ofRef_eq_ok_iff.mpr ⟨Ty.ofOwner_name h.owner, rfl, hparse⟩

theorem Field.ofRuntime_eq_ok {f : RuntimeField} (h : f.Referable) :
    Field.ofRuntime f =
      .ok ⟨Ty.ofRuntime f.declaringClass, f.name, Ty.ofRuntime f.fieldType⟩ :=
  make_eq_ok (Ty.isClass_ofRuntime h.owner) f.name _

theorem Field.ofRef_toRef {f : RuntimeField} (h : f.Referable) :
    Field.ofRef f.toRef =
      .ok ⟨Ty.ofRuntime f.declaringClass, f.name, Ty.ofRuntime f.fieldType⟩ := by
  have hparse : Ty.parse f.toRef.descriptor = .ok (Ty.ofRuntime f.fieldType) :=
    Ty.parse_eq_ok_iff.mpr ⟨Ty.readable_ofRuntime_iff.mpr h.type, Ty.descriptor_eq f.fieldType⟩
  exact ofRef_eq_ok_iff.mpr ⟨Ty.ofOwner_name h.owner, rfl, hparse⟩

/-- **A member is the same from both origins**, and once either of the two is registered, in any
registry, the other one has its number and is not registered again. -/
theorem origins_agree :
    (∀ m : RuntimeMethod, m.Referable → ∃ host pool : Method,
      Method.ofRuntime m = .ok host ∧ (Method.ofRef m.toRef).value = .ok pool ∧ host = pool ∧
        ∀ registry : Registry, registry.Resolves (.method host) (.method pool) ∧
          registry.Resolves (.method pool) (.method host)) ∧
    ∀ f : RuntimeField, f.Referable → ∃ host pool : Field,
      Field.ofRuntime f = .ok host ∧ Field.ofRef f.toRef = .ok pool ∧ host = pool ∧
        ∀ registry : Registry, registry.Resolves (.field host) (.field pool) ∧
          registry.Resolves (.field pool) (.field host) := by
  constructor
  · intro m h
    refine ⟨_, _, Method.ofRuntime_eq_ok h, Method.ofRef_toRef h, rfl, ?_⟩
    -- one member resolves to itself, so it does not matter which of the two came first
    intro registry
    exact ⟨registry.resolves_self _, registry.resolves_self _⟩
  · intro f h
    refine ⟨_, _, Field.ofRuntime_eq_ok h, Field.ofRef_toRef h, rfl, ?_⟩
    intro registry
    exact ⟨registry.resolves_self _, registry.resolves_self _⟩

/-- An array of a class with brackets and parentheses in its name, and a class that ends in a
marker. -/
theorem origins_agree_on_array_owner :
    (Method.ofRef ⟨"[[La/(b[;", "clone", "([Lp/q(L;I)[Lr/s);"⟩).value =
        Method.ofRuntime ⟨.array (.array (.named "a.(b[")), "clone",
          [.array (.named "p.q(L"), .primitive .int], .array (.named "r.s)")⟩ ∧
      Field.ofRef ⟨"p/K[", "x", "[D"⟩ =
        Field.ofRuntime ⟨.named "p.K[", "x", .array (.primitive .double)⟩ := by
  obtain ⟨hmethods, hfields⟩ := origins_agree
  obtain ⟨host, pool, hhost, hpool, rfl, _⟩ := hmethods
    ⟨.array (.array (.named "a.(b[")), "clone", [.array (.named "p.q(L"), .primitive .int],
      .array (.named "r.s)")⟩ (by decide)
  obtain ⟨host', pool', hhost', hpool', rfl, _⟩ := hfields
    ⟨.named "p.K[", "x", .array (.primitive .double)⟩ (by decide)
  exact ⟨hpool.trans hhost.symm, hpool'.trans hhost'.symm⟩

end Linkage
