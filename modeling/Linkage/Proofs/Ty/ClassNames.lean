import Linkage.Proofs.Ty.Spelling

/-!
# Class names cut out of descriptors

A class name comes out of a descriptor in two ways. The descriptor can be read as a type, which is
then asked for the name, or `ClassName.ofDescriptor?` cuts it out: it strips a number of markers
that its caller gives, an `L` and the last `;`, and looks at nothing in between. The cut succeeds
exactly on the descriptor of a class type of this rank, whatever its name:

    ClassName.ofDescriptor?_eq_some_iff :
      ofDescriptor? desc rank = some name ↔ desc = Ty.descriptor ⟨.object name, rank⟩

As no two types share a descriptor, both ways lead to the same name (`names_cut_from_descriptors`).
-/

namespace Linkage

namespace ClassName

/-! ## The names that are cut out -/

/-- The cut finds a name exactly in the descriptor of the class under so many dimensions. -/
theorem ofDescriptor?_eq_some_iff {desc name : String} {rank : Nat} :
    ofDescriptor? desc rank = some name ↔ desc = Ty.descriptor ⟨.object name, rank⟩ := by
  have hcut : ofDescriptor? desc rank = some name ↔
      (dropMarkers rank desc.toList).bind between? = some name.toList := by
    unfold ofDescriptor?
    rw [Option.map_eq_some_iff]
    constructor
    · rintro ⟨cs, hcs, rfl⟩
      rw [hcs, String.toList_ofList]
    · intro h
      exact ⟨name.toList, h, String.ofList_toList⟩
  rw [hcut, Option.bind_eq_some_iff, ← String.toList_inj, Ty.toList_descriptor]
  simp only [dropMarkers_eq_some_iff, between?_eq_some_iff]
  constructor
  · rintro ⟨rest, hdesc, rfl⟩
    exact hdesc
  · intro hdesc
    exact ⟨_, hdesc, rfl⟩

/-- Of the descriptor of a type, only the cut by its rank finds a name, the one of its class. -/
theorem ofDescriptor?_descriptor (ty : Ty) (rank : Nat) :
    ofDescriptor? ty.descriptor rank = if rank = ty.rank then ty.internalName? else none := by
  obtain ⟨element, dimensions⟩ := ty
  ext name
  rw [ofDescriptor?_eq_some_iff, Ty.descriptor_inj, Ty.mk.injEq]
  -- by another rank no descriptor of a class can be equal to that of the type
  by_cases hrank : rank = dimensions
  · cases element <;> simp [Ty.internalName?, hrank]
  · simp [hrank, Ne.symm hrank]

/-- The same in any notation of the name. -/
theorem map_ofDescriptor?_descriptor (f : String → String) (ty : Ty) (rank : Nat) :
    (ofDescriptor? ty.descriptor rank).map f =
      if rank = ty.rank then ty.internalName?.map f else none := by
  rw [ofDescriptor?_descriptor]
  split <;> rfl

end ClassName

/-! ## What a type is asked for -/

namespace Ty

theorem toOption_className (ty : Ty) :
    ty.className.toOption = ty.internalName?.map ClassName.dottedOfInternal := by
  unfold className internalName?
  cases ty.element <;> rfl

theorem toOption_mangledName (ty : Ty) :
    ty.mangledName.toOption = ty.internalName?.map ClassName.mangledOfInternal := by
  unfold mangledName internalName?
  cases ty.element <;> rfl

/-- An object that was read has a class with a name. -/
theorem isSome_internalName?_iff {ty : Ty} (h : ty.Readable) :
    ty.internalName?.isSome = true ↔ ty.isObject = true := by
  obtain ⟨element, rank⟩ := ty
  cases element with
  | primitive p => simp [internalName?, isObject]
  | object name => simp [internalName?, isObject]
  | anyObject => exact h.elim

/-- From a text that was read as a type, the cut finds a name for its rank alone, and only if it is
an object. -/
theorem isSome_ofDescriptor?_iff {desc : String} {ty : Ty} (h : parse desc = .ok ty) (rank : Nat) :
    (ClassName.ofDescriptor? desc rank).isSome = true ↔ ty.isObject = true ∧ rank = ty.rank := by
  obtain ⟨hread, rfl⟩ := parse_eq_ok_iff.mp h
  rw [ClassName.ofDescriptor?_descriptor, ← isSome_internalName?_iff hread]
  by_cases hrank : rank = ty.rank <;> simp [hrank]

end Ty

/-- **A name cut out of a descriptor is the name that its type is asked for.** On the descriptor of
any type the cut gives what the type answers, if it has a name and the number of markers is its
rank, and nothing in all other cases. So of a text that is read as a type, a name is cut for its
rank alone if the type is an object, and for no rank otherwise. -/
theorem names_cut_from_descriptors :
    (∀ (ty : Ty) (rank : Nat),
      ClassName.dottedOfDescriptor? ty.descriptor rank =
        if rank = ty.rank then ty.className.toOption else none) ∧
    (∀ (ty : Ty) (rank : Nat),
      ClassName.mangledOfDescriptor? ty.descriptor rank =
        if rank = ty.rank then ty.mangledName.toOption else none) ∧
    ∀ (desc : String) (ty : Ty), Ty.parse desc = .ok ty → ∀ rank : Nat,
      ((ClassName.dottedOfDescriptor? desc rank).isSome = true ↔
        ty.isObject = true ∧ rank = ty.rank) ∧
      ((ClassName.mangledOfDescriptor? desc rank).isSome = true ↔
        ty.isObject = true ∧ rank = ty.rank) := by
  refine ⟨?_, ?_, ?_⟩
  · intro ty rank
    rw [Ty.toOption_className]
    exact ClassName.map_ofDescriptor?_descriptor _ ty rank
  · intro ty rank
    rw [Ty.toOption_mangledName]
    exact ClassName.map_ofDescriptor?_descriptor _ ty rank
  · intro desc ty h rank
    rw [ClassName.dottedOfDescriptor?, ClassName.mangledOfDescriptor?, Option.isSome_map,
      Option.isSome_map]
    exact ⟨Ty.isSome_ofDescriptor?_iff h rank, Ty.isSome_ofDescriptor?_iff h rank⟩

/-- A name with a marker and a `;` of its own, cut by its rank, by others, and by one that no text
has. -/
theorem names_cut_from_descriptors_by_any_rank :
    let ty : Ty := ⟨.object "[a;/b", 1⟩
    ClassName.dottedOfDescriptor? ty.descriptor 1 = some "[a;.b" ∧
      ClassName.mangledOfDescriptor? ty.descriptor 1 = some "[a;_b" ∧
      ClassName.mangledOfDescriptor? ty.descriptor 2 = none ∧
      ClassName.dottedOfDescriptor? (Ty.descriptor ⟨.anyObject, 0⟩) 0 = none ∧
      Ty.parse "[[L[a/b;" = .ok ⟨.object "[a/b", 2⟩ ∧
      (ClassName.dottedOfDescriptor? "[[L[a/b;" 2).isSome = true ∧
      ¬(ClassName.mangledOfDescriptor? "[[L[a/b;" 18446744073709551615).isSome = true := by
  intro ty
  obtain ⟨hdotted, hmangled, hread⟩ := names_cut_from_descriptors
  have hparse : Ty.parse "[[L[a/b;" = .ok ⟨.object "[a/b", 2⟩ := rfl
  refine ⟨hdotted ty 1, hmangled ty 1, hmangled ty 2, hdotted ⟨.anyObject, 0⟩ 0, hparse, ?_, ?_⟩
  · exact (hread _ _ hparse 2).1.mpr ⟨rfl, rfl⟩
  · rw [(hread _ _ hparse 18446744073709551615).2]
    decide

end Linkage
