import Linkage.Proofs.Member.Origins
import Mathlib.Data.Set.Function

/-!
# Members of the host

What the host describes becomes a member unless the declaring class is a primitive, which has no
members (`Method.ofRuntime_eq_ok_iff`, `Method.ofRuntime_eq_error_iff`).

The member forgets one thing only. The host may write the name of a class with dots or with
slashes, and a member has slashes throughout. So two descriptions become the same member exactly
when they are the same once every class name in them is written with slashes
(`host_members_eq_iff`), and descriptions without a slash are never confused.

`Method.matchesRuntime` asks less than that the description becomes the method. It compares what
the two return and nothing else (`Method.ofRuntime_eq_ok_iff_matchesRuntime`).
-/

namespace Linkage

/-! ## The names of classes -/

namespace RuntimeType

/-- The type with its class renamed, if there is one. -/
def mapName (f : String → String) : RuntimeType → RuntimeType
  | primitive p => primitive p
  | named name => named (f name)
  | array component => array (component.mapName f)

/-- The type with the internal name of its class. -/
def withSlashes (ty : RuntimeType) : RuntimeType := ty.mapName ClassName.internalOfDotted

/-- No slash stands in the name of the class. -/
def NoSlash (ty : RuntimeType) : Prop := ty.NameIs fun name => '/' ∉ name.toList

instance (ty : RuntimeType) : Decidable ty.NoSlash :=
  inferInstanceAs (Decidable (ty.NameIs fun name => '/' ∉ name.toList))

/-- Renaming back undoes a renaming that can be undone for the name at hand. -/
theorem mapName_mapName_eq_self {f g : String → String} {ty : RuntimeType}
    (h : ty.NameIs fun name => g (f name) = name) : (ty.mapName f).mapName g = ty := by
  induction ty with
  | primitive p => rfl
  | named name =>
      show named (g (f name)) = named name
      exact congrArg named h
  | array component ih =>
      show array ((component.mapName f).mapName g) = array component
      exact congrArg array (ih h)

theorem NameIs.imp {P Q : String → Prop} {ty : RuntimeType} (h : ty.NameIs P)
    (himp : ∀ name, P name → Q name) : ty.NameIs Q := by
  induction ty with
  | primitive p => trivial
  | named name => exact himp name h
  | array component ih => exact ih h

/-- A name without slashes comes back when the slashes for its dots are taken out again. -/
theorem NoSlash.mapName_withSlashes {ty : RuntimeType} (h : ty.NoSlash) :
    ty.withSlashes.mapName ClassName.dottedOfInternal = ty := by
  apply mapName_mapName_eq_self
  apply NameIs.imp h
  intro name hname
  exact (Text.substitute_substitute_eq_self_iff (by decide)).mpr hname

end RuntimeType

namespace Ty

/-- A type of the host is known from its type up to the notation of its class. -/
theorem ofRuntime_eq_iff {a b : RuntimeType} :
    ofRuntime a = ofRuntime b ↔ a.withSlashes = b.withSlashes := by
  induction a generalizing b with
  | primitive p =>
      cases b <;> simp [ofRuntime, ofPrimitive, ofClass, RuntimeType.withSlashes,
        RuntimeType.mapName]
  | named name =>
      cases b <;> simp [ofRuntime, ofPrimitive, ofClass, RuntimeType.withSlashes,
        RuntimeType.mapName]
  | array component ih =>
      cases b with
      | primitive q =>
          simp [ofRuntime, ofPrimitive, RuntimeType.withSlashes, RuntimeType.mapName]
      | named name =>
          simp [ofRuntime, ofClass, RuntimeType.withSlashes, RuntimeType.mapName]
      | array other =>
          -- one dimension is taken off on both sides
          have hrank : ofRuntime (.array component) = ofRuntime (.array other) ↔
              ofRuntime component = ofRuntime other := by
            simp only [ofRuntime, Ty.mk.injEq, Nat.add_right_cancel_iff]
            rw [← Ty.mk.injEq]
          rw [hrank, ih]
          simp [RuntimeType.withSlashes, RuntimeType.mapName]

end Ty

/-! ## The parts of a member -/

/-- Functions that confuse the same elements confuse the same lists. -/
theorem map_eq_map_iff_of_eq_iff {α β γ : Type} {f : α → β} {g : α → γ}
    (h : ∀ a b, f a = f b ↔ g a = g b) {xs ys : List α} :
    xs.map f = ys.map f ↔ xs.map g = ys.map g := by
  induction xs generalizing ys with
  | nil => simp
  | cons x xs ih =>
      cases ys with
      | nil => simp
      | cons y ys => simp [h, ih]

theorem Signature.ofRuntime_eq_iff {ps qs : List RuntimeType} {r s : RuntimeType} :
    ofRuntime ps r = ofRuntime qs s ↔
      ps.map RuntimeType.withSlashes = qs.map RuntimeType.withSlashes ∧
        r.withSlashes = s.withSlashes := by
  rw [← map_eq_map_iff_of_eq_iff fun _ _ => Ty.ofRuntime_eq_iff, ← Ty.ofRuntime_eq_iff]
  constructor
  · intro h
    exact ofTypes_injective h
  · rintro ⟨hparameters, hreturn⟩
    rw [ofRuntime, hparameters, hreturn, ofRuntime]

theorem Ty.isClass_ofRuntime_iff {ty : RuntimeType} :
    (ofRuntime ty).isClass = true ↔ ∀ p, ty ≠ .primitive p := by
  cases ty with
  | primitive p => simp [ofRuntime, ofPrimitive, isClass, isObject, isArray]
  | named name => simp [ofRuntime, ofClass, isClass, isObject]
  | array component => simp [ofRuntime, isClass, isArray]

section Owner

variable {α : Type} {f : Ty → α} {declaring : RuntimeType}

/-- Whatever is made of a checked owner is made of every type of the host but a primitive. -/
theorem map_checkOwner_eq_ok_iff {a : α} :
    (checkOwner (Ty.ofRuntime declaring)).map f = .ok a ↔
      (∀ p, declaring ≠ .primitive p) ∧ f (Ty.ofRuntime declaring) = a := by
  rw [← Ty.isClass_ofRuntime_iff, checkOwner]
  split
  · next h => simp [h, Except.map]
  · next h => simp [h, Except.map]

/-- Only a primitive is refused, and the error shows its keyword. -/
theorem map_checkOwner_eq_error_iff {e : MemberError} :
    (checkOwner (Ty.ofRuntime declaring)).map f = .error e ↔
      ∃ p, declaring = .primitive p ∧ e = .ownerNotAClass p.keyword := by
  by_cases h : ∃ p, declaring = .primitive p
  · obtain ⟨p, rfl⟩ := h
    -- no brackets follow the keyword in the declaration of a primitive
    have hcheck : checkOwner (Ty.ofRuntime (.primitive p)) =
        .error (.ownerNotAClass p.keyword) := by
      show Except.error (MemberError.ownerNotAClass (p.keyword ++ "")) = _
      rw [String.append_empty]
    simp [hcheck, Except.map, eq_comm]
  · have hclass : ∀ p, declaring ≠ .primitive p := fun p hp => h ⟨p, hp⟩
    rw [map_checkOwner_eq_ok_iff.mpr ⟨hclass, rfl⟩]
    simp [hclass]

end Owner

theorem Method.ofRuntime_eq_ok_iff {m : RuntimeMethod} {method : Method} :
    ofRuntime m = .ok method ↔
      (∀ p, m.declaringClass ≠ .primitive p) ∧
        ⟨Ty.ofRuntime m.declaringClass, m.name,
          Signature.ofRuntime m.parameterTypes m.returnType⟩ = method :=
  map_checkOwner_eq_ok_iff

theorem Method.ofRuntime_eq_error_iff {m : RuntimeMethod} {e : MemberError} :
    ofRuntime m = .error e ↔
      ∃ p, m.declaringClass = .primitive p ∧ e = .ownerNotAClass p.keyword :=
  map_checkOwner_eq_error_iff

theorem Field.ofRuntime_eq_ok_iff {f : RuntimeField} {field : Field} :
    ofRuntime f = .ok field ↔
      (∀ p, f.declaringClass ≠ .primitive p) ∧
        ⟨Ty.ofRuntime f.declaringClass, f.name, Ty.ofRuntime f.fieldType⟩ = field :=
  map_checkOwner_eq_ok_iff

theorem Field.ofRuntime_eq_error_iff {f : RuntimeField} {e : MemberError} :
    ofRuntime f = .error e ↔
      ∃ p, f.declaringClass = .primitive p ∧ e = .ownerNotAClass p.keyword :=
  map_checkOwner_eq_error_iff

/-! ## Different descriptions -/

/-- The description with every class in it renamed. -/
def RuntimeMethod.mapNames (f : String → String) (m : RuntimeMethod) : RuntimeMethod where
  declaringClass := m.declaringClass.mapName f
  name := m.name
  parameterTypes := m.parameterTypes.map (·.mapName f)
  returnType := m.returnType.mapName f

/-- The description with every class in it renamed. -/
def RuntimeField.mapNames (f : String → String) (field : RuntimeField) : RuntimeField where
  declaringClass := field.declaringClass.mapName f
  name := field.name
  fieldType := field.fieldType.mapName f

/-- The description with the internal names of all classes in it. -/
def RuntimeMethod.withSlashes (m : RuntimeMethod) : RuntimeMethod :=
  m.mapNames ClassName.internalOfDotted

/-- The description with the internal names of all classes in it. -/
def RuntimeField.withSlashes (f : RuntimeField) : RuntimeField :=
  f.mapNames ClassName.internalOfDotted

/-- No slash stands in the name of any class of the description. -/
structure RuntimeMethod.NoSlash (m : RuntimeMethod) : Prop where
  owner : m.declaringClass.NoSlash
  parameters : ∀ ty ∈ m.parameterTypes, ty.NoSlash
  returned : m.returnType.NoSlash

/-- No slash stands in the name of any class of the description. -/
structure RuntimeField.NoSlash (f : RuntimeField) : Prop where
  owner : f.declaringClass.NoSlash
  type : f.fieldType.NoSlash

/-- Two methods of the host are one exactly when their parts are, up to the notation of classes. -/
theorem Method.eq_iff_withSlashes_eq {a b : RuntimeMethod} {m n : Method}
    (ha : ofRuntime a = .ok m) (hb : ofRuntime b = .ok n) :
    m = n ↔ a.withSlashes = b.withSlashes := by
  obtain ⟨_, rfl⟩ := ofRuntime_eq_ok_iff.mp ha
  obtain ⟨_, rfl⟩ := ofRuntime_eq_ok_iff.mp hb
  rw [Method.mk.injEq, Ty.ofRuntime_eq_iff, Signature.ofRuntime_eq_iff]
  show _ ↔ RuntimeMethod.mk _ _ _ _ = RuntimeMethod.mk _ _ _ _
  rw [RuntimeMethod.mk.injEq]
  rfl

theorem Field.eq_iff_withSlashes_eq {a b : RuntimeField} {f g : Field}
    (ha : ofRuntime a = .ok f) (hb : ofRuntime b = .ok g) :
    f = g ↔ a.withSlashes = b.withSlashes := by
  obtain ⟨_, rfl⟩ := ofRuntime_eq_ok_iff.mp ha
  obtain ⟨_, rfl⟩ := ofRuntime_eq_ok_iff.mp hb
  rw [Field.mk.injEq, Ty.ofRuntime_eq_iff, Ty.ofRuntime_eq_iff]
  show _ ↔ RuntimeField.mk _ _ _ = RuntimeField.mk _ _ _
  rw [RuntimeField.mk.injEq]
  rfl

/-- A description without slashes comes back when all its classes get dots for slashes. -/
theorem RuntimeMethod.NoSlash.mapNames_withSlashes {m : RuntimeMethod} (h : m.NoSlash) :
    m.withSlashes.mapNames ClassName.dottedOfInternal = m := by
  obtain ⟨declaringClass, name, parameterTypes, returnType⟩ := m
  obtain ⟨howner, hparameters, hreturned⟩ := h
  have hback : ∀ ty ∈ parameterTypes, (ty.mapName ClassName.internalOfDotted).mapName
      ClassName.dottedOfInternal = ty := fun ty hty => (hparameters ty hty).mapName_withSlashes
  simp only [withSlashes, mapNames, List.map_map, RuntimeMethod.mk.injEq, true_and]
  refine ⟨howner.mapName_withSlashes, ?_, hreturned.mapName_withSlashes⟩
  exact (List.map_congr_left hback).trans (List.map_id _)

theorem RuntimeField.NoSlash.mapNames_withSlashes {f : RuntimeField} (h : f.NoSlash) :
    f.withSlashes.mapNames ClassName.dottedOfInternal = f := by
  obtain ⟨declaringClass, name, fieldType⟩ := f
  simp only [withSlashes, mapNames, RuntimeField.mk.injEq, true_and]
  exact ⟨h.owner.mapName_withSlashes, h.type.mapName_withSlashes⟩

theorem RuntimeMethod.withSlashes_eq_iff {a b : RuntimeMethod} (ha : a.NoSlash) (hb : b.NoSlash) :
    a.withSlashes = b.withSlashes ↔ a = b := by
  have hundone : Set.LeftInvOn (mapNames ClassName.dottedOfInternal) withSlashes {m | m.NoSlash} :=
    fun _ h => h.mapNames_withSlashes
  exact hundone.injOn.eq_iff ha hb

theorem RuntimeField.withSlashes_eq_iff {a b : RuntimeField} (ha : a.NoSlash) (hb : b.NoSlash) :
    a.withSlashes = b.withSlashes ↔ a = b := by
  have hundone : Set.LeftInvOn (mapNames ClassName.dottedOfInternal) withSlashes {f | f.NoSlash} :=
    fun _ h => h.mapNames_withSlashes
  exact hundone.injOn.eq_iff ha hb

/-- **Descriptions are confused only when they differ in slashes for dots.** Two descriptions of
methods become the same method exactly when they are the same with the internal names of all their
classes, so exactly when they are the same, if no class is written with a slash; likewise for
fields. A description becomes no member exactly when its declaring class is a primitive. -/
theorem host_members_eq_iff :
    (∀ (a b : RuntimeMethod) (m n : Method),
      Method.ofRuntime a = .ok m → Method.ofRuntime b = .ok n →
        (m = n ↔ a.withSlashes = b.withSlashes) ∧ (a.NoSlash → b.NoSlash → (m = n ↔ a = b))) ∧
    (∀ (a b : RuntimeField) (f g : Field),
      Field.ofRuntime a = .ok f → Field.ofRuntime b = .ok g →
        (f = g ↔ a.withSlashes = b.withSlashes) ∧ (a.NoSlash → b.NoSlash → (f = g ↔ a = b))) ∧
    (∀ (a : RuntimeMethod) (e : MemberError), Method.ofRuntime a = .error e ↔
      ∃ p, a.declaringClass = .primitive p ∧ e = .ownerNotAClass p.keyword) ∧
    ∀ (a : RuntimeField) (e : MemberError), Field.ofRuntime a = .error e ↔
      ∃ p, a.declaringClass = .primitive p ∧ e = .ownerNotAClass p.keyword := by
  refine ⟨?_, ?_, fun _ _ => Method.ofRuntime_eq_error_iff, fun _ _ => Field.ofRuntime_eq_error_iff⟩
  · intro a b m n ha hb
    have hslashes := Method.eq_iff_withSlashes_eq ha hb
    refine ⟨hslashes, ?_⟩
    intro hfree hfree'
    exact hslashes.trans (RuntimeMethod.withSlashes_eq_iff hfree hfree')
  · intro a b f g ha hb
    have hslashes := Field.eq_iff_withSlashes_eq ha hb
    refine ⟨hslashes, ?_⟩
    intro hfree hfree'
    exact hslashes.trans (RuntimeField.withSlashes_eq_iff hfree hfree')

/-- Dots and slashes that change places, and class names that look like a descriptor or a keyword
and are not taken for one. -/
theorem host_members_eq_iff_on_names_like_descriptors :
    let ints : RuntimeType := .array (.primitive .int)
    Method.ofRuntime ⟨.array (.named "a.b/c"), "m", [.named "[I", ints], .named "x/y"⟩ =
        Method.ofRuntime ⟨.array (.named "a/b.c"), "m", [.named "[I", ints], .named "x.y"⟩ ∧
      Method.ofRuntime ⟨.named "K", "m", [.named "[I", ints], .named "int"⟩ ≠
        Method.ofRuntime ⟨.named "K", "m", [ints, .named "[I"], .named "int"⟩ ∧
      Field.ofRuntime ⟨.named "K", "x", .named "int"⟩ ≠
        Field.ofRuntime ⟨.named "K", "x", .primitive .int⟩ ∧
      Field.ofRuntime ⟨.primitive .void, "x", ints⟩ = .error (.ownerNotAClass "void") := by
  intro ints
  obtain ⟨hmethods, hfields, _, hrefused⟩ := host_members_eq_iff
  refine ⟨?_, ?_, ?_, (hrefused _ _).mpr ⟨.void, rfl, rfl⟩⟩
  · have hsame := (hmethods ⟨.array (.named "a.b/c"), "m", [.named "[I", ints], .named "x/y"⟩
      ⟨.array (.named "a/b.c"), "m", [.named "[I", ints], .named "x.y"⟩ _ _ rfl rfl).1
    exact congrArg Except.ok (hsame.mpr (by decide))
  · have hother := (hmethods ⟨.named "K", "m", [.named "[I", ints], .named "int"⟩
      ⟨.named "K", "m", [ints, .named "[I"], .named "int"⟩ _ _ rfl rfl).2
      ⟨by decide, by decide, by decide⟩ ⟨by decide, by decide, by decide⟩
    intro h
    exact absurd (hother.mp (Except.ok.inj h)) (by decide)
  · have hother := (hfields ⟨.named "K", "x", .named "int"⟩ ⟨.named "K", "x", .primitive .int⟩
      _ _ rfl rfl).2 ⟨by decide, by decide⟩ ⟨by decide, by decide⟩
    intro h
    exact absurd (hother.mp (Except.ok.inj h)) (by decide)

/-! ## Comparing with the host -/

/-- **Only the return types are compared.** A description that becomes the method matches it, and
one that matches it becomes the method exactly when the owner, the name and the arguments are the
same as well and the owner can have members. -/
theorem Method.ofRuntime_eq_ok_iff_matchesRuntime (method : Method) (m : RuntimeMethod) :
    (method.matchesRuntime m = true ↔ Ty.ofRuntime m.returnType = method.signature.returnType) ∧
    (ofRuntime m = .ok method ↔
      method.matchesRuntime m = true ∧ method.owner.isClass = true ∧
        Ty.ofRuntime m.declaringClass = method.owner ∧ m.name = method.name ∧
        (Signature.ofRuntime m.parameterTypes m.returnType).args = method.signature.args) := by
  obtain ⟨owner, name, args, returnType⟩ := method
  have hmatches : matchesRuntime ⟨owner, name, args, returnType⟩ m = true ↔
      Ty.ofRuntime m.returnType = returnType := by
    rw [matchesRuntime, Signature.matchesReturn, Ty.matchesRuntime, decide_eq_true_iff]
  refine ⟨hmatches, ?_⟩
  rw [hmatches, ofRuntime_eq_ok_iff, ← Ty.isClass_ofRuntime_iff]
  constructor
  · rintro ⟨hclass, h⟩
    cases h
    exact ⟨rfl, hclass, rfl, rfl, rfl⟩
  · rintro ⟨rfl, hclass, rfl, rfl, rfl⟩
    exact ⟨hclass, rfl⟩

/-- A method matches methods of other classes, with other names and arguments. -/
theorem Method.matchesRuntime_not_iff_ofRuntime_eq_ok :
    ¬ ∀ (method : Method) (m : RuntimeMethod),
      method.matchesRuntime m = true ↔ ofRuntime m = .ok method := by
  intro h
  let max : Method :=
    ⟨Ty.ofClass "java/lang/Math", "max",
      .ofTypes [Ty.ofPrimitive .int, Ty.ofPrimitive .int] (Ty.ofPrimitive .int)⟩
  -- both return `int`, and the classes, names and arguments differ
  have hsame := (h max ⟨.named "java.lang.String", "length", [], .primitive .int⟩).mp rfl
  exact absurd hsame (by decide)

end Linkage
