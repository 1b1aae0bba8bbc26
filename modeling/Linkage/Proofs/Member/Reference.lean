import Linkage.Member.Basic
import Linkage.Proofs.Ty.Spelling

/-!
# What a reference is read as

The owner, the name and the descriptor of a reference are read on their own, and the member is made
of what they are read as. Nothing else can go wrong: an owner that is read is a class or an array,
so it can have members (`Ty.isClass_of_ofOwner`).

    Method.ofRef_eq_ok_iff, Field.ofRef_eq_ok_iff
-/

namespace Linkage

/-! ## Owners -/

namespace Ty

/-- A class name that starts with a marker is the descriptor of an array type. Any other one names
its class. -/
theorem ofOwner_eq_ok_iff {className : String} {ty : Ty} :
    ofOwner className = .ok ty ↔
      if className.toList.head? = some '[' then ty.Readable ∧ className = ty.descriptor
      else ty = ofClass className := by
  unfold ofOwner
  split
  · exact parse_eq_ok_iff
  · rw [Except.ok.injEq]
    exact eq_comm

/-- A descriptor that starts with a marker is that of an array, as no element starts with one. -/
theorem isArray_of_head?_descriptor {ty : Ty} (h : ty.descriptor.toList.head? = some '[') :
    ty.isArray = true := by
  obtain ⟨element, rank⟩ := ty
  cases rank with
  | zero =>
      rw [toList_descriptor] at h
      exact absurd h (head?_spell element)
  | succ rank => simp [isArray]

/-- An owner that is read can have members. -/
theorem isClass_of_ofOwner {className : String} {owner : Ty} (h : ofOwner className = .ok owner) :
    owner.isClass = true := by
  rw [ofOwner_eq_ok_iff] at h
  split at h
  · next hmarker =>
      obtain ⟨_, rfl⟩ := h
      rw [isClass, isArray_of_head?_descriptor hmarker, Bool.or_true]
  · rw [h]
    rfl

end Ty

/-! ## Members -/

section Method

variable {ref : MethodRef}

/-- A wrong owner ends the reading of a reference, and nothing is logged. -/
theorem Method.ofRef_of_owner_eq_error {e : DescriptorError}
    (h : Ty.ofOwner ref.className = .error e) : ofRef ref = .quiet (.error (.descriptor e)) := by
  unfold ofRef MethodRef.owner
  rw [h]
  rfl

/-- Behind an owner that is read, the descriptor decides alone, and its reading is logged. -/
theorem Method.ofRef_of_owner_eq_ok {owner : Ty} (h : Ty.ofOwner ref.className = .ok owner) :
    ofRef ref = .noting
      (match Signature.parse ref.descriptor with
        | .error e => .error (.descriptor e)
        | .ok signature => .ok ⟨owner, ref.name, signature⟩)
      ⟨ref.descriptor, Signature.parse ref.descriptor⟩ := by
  have hclass := Ty.isClass_of_ofOwner h
  unfold ofRef MethodRef.owner MethodRef.signature Signature.parseLogged
  rw [h]
  cases Signature.parse ref.descriptor with
  | error e => rfl
  | ok signature =>
      -- the check of the owner passes, so the event of the reading is all that is logged
      show Logged.noting (make owner ref.name signature) _ = _
      rw [make_eq_ok hclass]

/-- A method is made exactly when the owner and the descriptor are read, and it is made of them and
of the name. -/
theorem Method.ofRef_eq_ok_iff {m : Method} :
    (ofRef ref).value = .ok m ↔
      Ty.ofOwner ref.className = .ok m.owner ∧ ref.name = m.name ∧
        Signature.parse ref.descriptor = .ok m.signature := by
  obtain ⟨owner, name, signature⟩ := m
  cases howner : Ty.ofOwner ref.className with
  | error e => simp [ofRef_of_owner_eq_error howner]
  | ok owner' =>
      rw [ofRef_of_owner_eq_ok howner]
      cases Signature.parse ref.descriptor with
      | error e => simp
      | ok signature' => simp [Method.mk.injEq]

end Method

section Field

variable {ref : FieldRef}

theorem Field.ofRef_of_owner_eq_error {e : DescriptorError}
    (h : Ty.ofOwner ref.className = .error e) : ofRef ref = .error (.descriptor e) := by
  unfold ofRef FieldRef.owner
  rw [h]
  rfl

/-- Behind an owner that is read, the descriptor decides alone. -/
theorem Field.ofRef_of_owner_eq_ok {owner : Ty} (h : Ty.ofOwner ref.className = .ok owner) :
    ofRef ref =
      match Ty.parse ref.descriptor with
      | .error e => .error (.descriptor e)
      | .ok type => .ok ⟨owner, ref.name, type⟩ := by
  have hclass := Ty.isClass_of_ofOwner h
  unfold ofRef FieldRef.owner FieldRef.type
  rw [h]
  cases Ty.parse ref.descriptor with
  | error e => rfl
  | ok type => exact make_eq_ok hclass ref.name type

theorem Field.ofRef_eq_ok_iff {f : Field} :
    ofRef ref = .ok f ↔
      Ty.ofOwner ref.className = .ok f.owner ∧ ref.name = f.name ∧
        Ty.parse ref.descriptor = .ok f.type := by
  obtain ⟨owner, name, type⟩ := f
  cases howner : Ty.ofOwner ref.className with
  | error e => simp [ofRef_of_owner_eq_error howner]
  | ok owner' =>
      rw [ofRef_of_owner_eq_ok howner]
      cases Ty.parse ref.descriptor with
      | error e => simp
      | ok type' => simp [Field.mk.injEq]

end Field

end Linkage
