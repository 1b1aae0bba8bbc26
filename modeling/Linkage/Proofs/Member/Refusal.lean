import Linkage.Proofs.Member.Reference
import Linkage.Proofs.Ty.Refusal

/-!
# Why a reference makes no member

A reference to a member fails for its owner or for its descriptor, in this order, and for nothing
else. The owner fails only when its class name starts like the descriptor of an array type and is
none (`MisspelledArray`). The reading of a method's descriptor is not begun then, which the log
shows. Behind a proper owner the descriptor decides alone, and the check that the owner can have
members always passes (`references_fail_exactly`).
-/

namespace Linkage

/-! ## Owners -/

/-- The class name starts like the descriptor of an array type, and is not the descriptor of any
type. -/
def MisspelledArray (className : String) : Prop :=
  className.toList.head? = some '[' ∧ ∀ ty : Ty, ty.Readable → className ≠ ty.descriptor

/-- The type is the owner that the class name stands for: the array with this descriptor, or the
class with this name. -/
def Ty.IsNamed (owner : Ty) (className : String) : Prop :=
  if className.toList.head? = some '[' then owner.isArray = true ∧ owner.descriptor = className
  else owner = ⟨.object className, 0⟩

namespace Ty

theorem isNamed_of_ofOwner {className : String} {owner : Ty} (h : ofOwner className = .ok owner) :
    owner.IsNamed className := by
  rw [ofOwner_eq_ok_iff] at h
  unfold IsNamed
  split at h
  · next hmarker =>
      obtain ⟨_, rfl⟩ := h
      rw [if_pos hmarker]
      exact ⟨isArray_of_head?_descriptor hmarker, rfl⟩
  · next hplain =>
      rw [if_neg hplain]
      exact h

/-- Only a class name with a marker in front can be refused, and it is for the reason of its
reading. -/
theorem ofOwner_eq_error_iff {className : String} {e : DescriptorError} :
    ofOwner className = .error e ↔
      className.toList.head? = some '[' ∧ parse className = .error e := by
  unfold ofOwner
  split
  · next hmarker => simp [hmarker]
  · next hplain => simp [hplain]

/-- A class name stands for no owner exactly when it is a misspelled array. -/
theorem misspelledArray_iff {className : String} :
    MisspelledArray className ↔ ∃ e, ofOwner className = .error e := by
  cases howner : ofOwner className with
  | ok owner =>
      refine ⟨?_, nofun⟩
      rintro ⟨hmarker, hnone⟩
      -- an owner that is read is spelled by its descriptor, so the name is not misspelled
      rw [ofOwner_eq_ok_iff, if_pos hmarker] at howner
      exact absurd howner.2 (hnone owner howner.1)
  | error e =>
      obtain ⟨hmarker, hparse⟩ := ofOwner_eq_error_iff.mp howner
      refine ⟨fun _ => ⟨e, rfl⟩, fun _ => ⟨hmarker, ?_⟩⟩
      intro ty hread hdesc
      rw [parse_eq_ok_iff.mpr ⟨hread, hdesc⟩] at hparse
      cases hparse

theorem exists_ofOwner_of_misspelled {className : String} (h : MisspelledArray className) :
    ∃ reason, ofOwner className = .error (.malformed className reason) := by
  obtain ⟨e, he⟩ := misspelledArray_iff.mp h
  obtain ⟨reason, _, rfl⟩ := parse_eq_error_iff.mp (ofOwner_eq_error_iff.mp he).2
  exact ⟨reason, he⟩

theorem exists_ofOwner_of_not_misspelled {className : String} (h : ¬MisspelledArray className) :
    ∃ owner, ofOwner className = .ok owner := by
  cases howner : ofOwner className with
  | ok owner => exact ⟨owner, rfl⟩
  | error e => exact absurd (misspelledArray_iff.mpr ⟨e, howner⟩) h

end Ty

/-! ## Members -/

/-- Behind an owner that is read, a reference is refused for its descriptor alone. -/
theorem Method.ofRef_eq_error_iff_of_owner {ref : MethodRef} {owner : Ty} {e : MemberError}
    (h : Ty.ofOwner ref.className = .ok owner) :
    (ofRef ref).value = .error e ↔
      ∃ d, Signature.parse ref.descriptor = .error d ∧ e = .descriptor d := by
  rw [ofRef_of_owner_eq_ok h]
  cases Signature.parse ref.descriptor with
  | error d => simp [eq_comm]
  | ok signature => simp

/-- A field is refused for its owner first, and then for its descriptor. -/
theorem Field.ofRef_eq_error_iff {ref : FieldRef} {e : MemberError} :
    ofRef ref = .error e ↔
      ref.owner = .error e ∨ (∃ owner, ref.owner = .ok owner) ∧
        ∃ d, Ty.parse ref.descriptor = .error d ∧ e = .descriptor d := by
  simp only [FieldRef.owner, mapError_eq_error_iff, mapError_eq_ok_iff]
  cases howner : Ty.ofOwner ref.className with
  | error d => simp [ofRef_of_owner_eq_error howner, eq_comm]
  | ok owner =>
      rw [ofRef_of_owner_eq_ok howner]
      cases Ty.parse ref.descriptor with
      | error d => simp [eq_comm]
      | ok type => simp

/-- No owner that is read lacks members, so that is never the reason for a method. -/
theorem Method.ofRef_ne_ownerNotAClass (ref : MethodRef) (declaration : String) :
    (ofRef ref).value ≠ .error (.ownerNotAClass declaration) := by
  intro h
  cases howner : Ty.ofOwner ref.className with
  | error e =>
      rw [ofRef_of_owner_eq_error howner] at h
      cases h
  | ok owner =>
      obtain ⟨d, _, hd⟩ := (ofRef_eq_error_iff_of_owner howner).mp h
      cases hd

theorem Field.ofRef_ne_ownerNotAClass (ref : FieldRef) (declaration : String) :
    ofRef ref ≠ .error (.ownerNotAClass declaration) := by
  intro h
  rcases ofRef_eq_error_iff.mp h with howner | ⟨_, d, _, hd⟩
  · obtain ⟨d, _, hd⟩ := mapError_eq_error_iff.mp howner
    cases hd
  · cases hd

/-- **A reference makes a member unless its owner or its descriptor is wrong.** A misspelled array
as the owner is what the refusal names, and then no reading is logged. Otherwise there is one
reading, that of the descriptor, and the method is refused exactly when the descriptor is, for the
same reason. A method that is made has the name of the reference and the owner that its class name
stands for. A field is refused for its owner first, and else for its descriptor. No reference is
refused because its owner could not have members. -/
theorem references_fail_exactly :
    (∀ ref : MethodRef, MisspelledArray ref.className →
      (∃ reason, (Method.ofRef ref).value =
        .error (.descriptor (.malformed ref.className reason))) ∧ (Method.ofRef ref).log = []) ∧
    (∀ ref : MethodRef, ¬MisspelledArray ref.className →
      (∃ reading, (Method.ofRef ref).log = [reading] ∧ reading.descriptor = ref.descriptor ∧
        reading.record.target = "ember.descriptor") ∧
      (∀ e, (Method.ofRef ref).value = .error e ↔
        ∃ d, Signature.parse ref.descriptor = .error d ∧ e = .descriptor d) ∧
      ∀ signature, Signature.parse ref.descriptor = .ok signature →
        ∃ owner : Ty, (Method.ofRef ref).value = .ok ⟨owner, ref.name, signature⟩ ∧
          owner.IsNamed ref.className) ∧
    (∀ (ref : FieldRef) (e : MemberError), Field.ofRef ref = .error e ↔
      ref.owner = .error e ∨ (∃ owner, ref.owner = .ok owner) ∧
        ∃ d, Ty.parse ref.descriptor = .error d ∧ e = .descriptor d) ∧
    (∀ (ref : MethodRef) (declaration : String),
      (Method.ofRef ref).value ≠ .error (.ownerNotAClass declaration)) ∧
    ∀ (ref : FieldRef) (declaration : String),
      Field.ofRef ref ≠ .error (.ownerNotAClass declaration) := by
  refine ⟨?_, ?_, fun _ _ => Field.ofRef_eq_error_iff, Method.ofRef_ne_ownerNotAClass,
    Field.ofRef_ne_ownerNotAClass⟩
  · intro ref h
    obtain ⟨reason, hreason⟩ := Ty.exists_ofOwner_of_misspelled h
    -- the owner ends the reading, so the log is empty
    rw [Method.ofRef_of_owner_eq_error hreason]
    exact ⟨⟨reason, rfl⟩, rfl⟩
  · intro ref h
    obtain ⟨owner, howner⟩ := Ty.exists_ofOwner_of_not_misspelled h
    refine ⟨?_, fun _ => Method.ofRef_eq_error_iff_of_owner howner, ?_⟩
    · rw [Method.ofRef_of_owner_eq_ok howner]
      exact ⟨_, rfl, rfl, rfl⟩
    · intro signature hparse
      exact ⟨owner, Method.ofRef_eq_ok_iff.mpr ⟨howner, rfl, hparse⟩, Ty.isNamed_of_ofOwner howner⟩

/-- An array of a class without a name, behind which a wrong descriptor is not even read; an array
of `void`, which can own methods; and a field with a wrong owner and a wrong descriptor, which is
refused for its owner. -/
theorem references_fail_exactly_on_array_owners :
    (∃ reason, (Method.ofRef ⟨"[L;", "clone", "(("⟩).value =
        .error (.descriptor (.malformed "[L;" reason))) ∧
      (Method.ofRef ⟨"[L;", "clone", "(("⟩).log = [] ∧
      (Method.ofRef ⟨"[V", "clone", "(("⟩).value =
        .error (.descriptor (.malformed "((" .unexpectedCharacter)) ∧
      (∃ owner : Ty, (Method.ofRef ⟨"[V", "clone", "()J"⟩).value =
        .ok ⟨owner, "clone", ⟨[], ⟨.primitive .long, 0⟩⟩⟩ ∧ owner.IsNamed "[V") ∧
      Field.ofRef ⟨"[", "x", "?"⟩ = .error (.descriptor (.malformed "[" .missingElement)) := by
  obtain ⟨hmisspelled, hspelled, hfield, _⟩ := references_fail_exactly
  have hempty : MisspelledArray "[L;" := Ty.misspelledArray_iff.mpr ⟨_, rfl⟩
  have hvoids : ¬MisspelledArray "[V" := by
    rintro ⟨_, h⟩
    exact h ⟨.primitive .void, 1⟩ trivial rfl
  obtain ⟨hvalue, hlog⟩ := hmisspelled ⟨"[L;", "clone", "(("⟩ hempty
  refine ⟨hvalue, hlog, ?_, ?_, (hfield _ _).mpr (.inl rfl)⟩
  · exact ((hspelled ⟨"[V", "clone", "(("⟩ hvoids).2.1 _).mpr ⟨_, rfl, rfl⟩
  · exact (hspelled ⟨"[V", "clone", "()J"⟩ hvoids).2.2 _ rfl

end Linkage
