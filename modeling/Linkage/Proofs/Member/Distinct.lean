import Linkage.Proofs.Member.Reference
import Linkage.Proofs.Signature.Reading

/-!
# Different references, different members

Two references of a class file make the same member only when they are the same reference, except
that the text before the argument list of a method descriptor does not count
(`members_eq_iff_references_eq`). So no reference is bound to the member of another one.

Each part of a member gives back the text it was made from: the owner its class name or array
descriptor (`Ty.ofOwner_injective`), and the signature its descriptor from the `(` on
(`Signature.eq_iff_dropWhile_eq`).
-/

namespace Linkage

/-! ## Owners -/

namespace Ty

theorem head?_descriptor_ofClass (className : String) :
    (ofClass className).descriptor.toList.head? = some 'L' := by
  rw [toList_descriptor]
  rfl

/-- A class name is known from the owner that it denotes: an array has its descriptor, a class its
name. -/
theorem ofOwner_injective {a b : String} {ty : Ty} (ha : ofOwner a = .ok ty)
    (hb : ofOwner b = .ok ty) : a = b := by
  rw [ofOwner_eq_ok_iff] at ha hb
  split at ha
  · next hmarker =>
      obtain ⟨_, ha⟩ := ha
      split at hb
      · exact ha.trans hb.2.symm
      · -- the descriptor of a plain class has no marker in front
        rw [ha, hb, head?_descriptor_ofClass] at hmarker
        cases hmarker
  · next hplain =>
      subst ha
      split at hb
      · next hmarker =>
          obtain ⟨_, rfl⟩ := hb
          rw [head?_descriptor_ofClass] at hmarker
          cases hmarker
      · injection hb with helement _
        injection helement

end Ty

/-! ## Signatures -/

namespace Signature

/-- The parts without the text before the list. -/
def Parts.bare (parts : Parts) : Parts := { parts with before := "" }

theorem Parts.WellFormed.bare {parts : Parts} (h : parts.WellFormed) : parts.bare.WellFormed where
  no_open := List.not_mem_nil
  no_close := List.not_mem_nil
  types := h.types
  returnType := h.returnType

/-- The text before the list ends at the first `(`. -/
theorem Parts.dropWhile_descriptor {parts : Parts} (h : parts.WellFormed) :
    parts.descriptor.toList.dropWhile (· ≠ '(') = parts.bare.descriptor.toList := by
  have hbefore : ∀ c ∈ parts.before.toList, decide (c ≠ '(') = true := by
    intro c hc
    apply decide_eq_true
    rintro rfl
    exact h.no_open hc
  rw [toList_descriptor, toList_descriptor, List.dropWhile_append_of_pos hbefore,
    List.dropWhile_cons_of_neg (by simp)]
  rfl

/-- Descriptors have the same signature exactly when they are the same from the list on. -/
theorem eq_iff_dropWhile_eq {a b : String} {sig sig' : Signature} (ha : parse a = .ok sig)
    (hb : parse b = .ok sig') :
    sig = sig' ↔ a.toList.dropWhile (· ≠ '(') = b.toList.dropWhile (· ≠ '(') := by
  obtain ⟨parts, hparts, rfl, rfl⟩ := exists_parts_of_parse ha
  obtain ⟨parts', hparts', rfl, rfl⟩ := exists_parts_of_parse hb
  rw [Parts.dropWhile_descriptor hparts, Parts.dropWhile_descriptor hparts', String.toList_inj]
  constructor
  · intro hsig
    -- the numbers of the arguments are their places, so the signature has the types alone
    obtain ⟨htypes, hreturn⟩ := ofTypes_injective hsig
    rw [Parts.bare, Parts.bare, htypes, hreturn]
  · intro hdesc
    have hbare : parts.bare = parts'.bare :=
      Parts.descriptor_injective hparts.bare hparts'.bare hdesc
    have hsig : parts.bare.signature = parts'.bare.signature := congrArg Parts.signature hbare
    exact hsig

end Signature

/-! ## Members -/

/-- **References are never confused.** Two references to methods make the same method exactly when
they agree in the class name, the name, and the descriptor from its first `(` on. Two references to
fields make the same field exactly when they are the same. -/
theorem members_eq_iff_references_eq :
    (∀ (a b : MethodRef) (m n : Method),
      (Method.ofRef a).value = .ok m → (Method.ofRef b).value = .ok n →
        (m = n ↔ a.className = b.className ∧ a.name = b.name ∧
          a.descriptor.toList.dropWhile (· ≠ '(') = b.descriptor.toList.dropWhile (· ≠ '('))) ∧
    ∀ (a b : FieldRef) (f g : Field), Field.ofRef a = .ok f → Field.ofRef b = .ok g →
      (f = g ↔ a = b) := by
  constructor
  · intro a b m n ha hb
    obtain ⟨howner_a, hname_a, hsig_a⟩ := Method.ofRef_eq_ok_iff.mp ha
    obtain ⟨howner_b, hname_b, hsig_b⟩ := Method.ofRef_eq_ok_iff.mp hb
    rw [← Signature.eq_iff_dropWhile_eq hsig_a hsig_b, hname_a, hname_b]
    obtain ⟨owner, name, signature⟩ := m
    obtain ⟨owner', name', signature'⟩ := n
    constructor
    · intro h
      cases h
      exact ⟨Ty.ofOwner_injective howner_a howner_b, rfl, rfl⟩
    · rintro ⟨hclass, rfl, rfl⟩
      rw [hclass, howner_b] at howner_a
      cases howner_a
      rfl
  · intro a b f g ha hb
    obtain ⟨howner_a, hname_a, htype_a⟩ := Field.ofRef_eq_ok_iff.mp ha
    obtain ⟨howner_b, hname_b, htype_b⟩ := Field.ofRef_eq_ok_iff.mp hb
    constructor
    · rintro rfl
      obtain ⟨className, name, descriptor⟩ := a
      obtain ⟨className', name', descriptor'⟩ := b
      obtain rfl : className = className' := Ty.ofOwner_injective howner_a howner_b
      obtain rfl : name = name' := hname_a.trans hname_b.symm
      obtain rfl : descriptor = descriptor' :=
        (Ty.parse_eq_ok_iff.mp htype_a).2.trans (Ty.parse_eq_ok_iff.mp htype_b).2.symm
      rfl
    · rintro rfl
      rw [ha] at hb
      cases hb
      rfl

/-- Text before the list that makes no difference, then an array and the class that its descriptor
would name, and two types of one field. -/
theorem members_eq_iff_references_eq_on_array_owner :
    (Method.ofRef ⟨"[La;", "m", "x;(I[Lp(;)V"⟩).value =
        (Method.ofRef ⟨"[La;", "m", "(I[Lp(;)V"⟩).value ∧
      (Method.ofRef ⟨"[La;", "m", "(I)V"⟩).value ≠ (Method.ofRef ⟨"La;", "m", "(I)V"⟩).value ∧
      Field.ofRef ⟨"[I", "x", "J"⟩ ≠ Field.ofRef ⟨"[I", "x", "[J"⟩ := by
  obtain ⟨hmethods, hfields⟩ := members_eq_iff_references_eq
  refine ⟨?_, ?_, ?_⟩
  · have hsame := hmethods ⟨"[La;", "m", "x;(I[Lp(;)V"⟩ ⟨"[La;", "m", "(I[Lp(;)V"⟩ _ _ rfl rfl
    exact congrArg Except.ok (hsame.mpr ⟨rfl, rfl, rfl⟩)
  · have hother := hmethods ⟨"[La;", "m", "(I)V"⟩ ⟨"La;", "m", "(I)V"⟩ _ _ rfl rfl
    intro h
    exact absurd (hother.mp (Except.ok.inj h)).1 (by decide)
  · have hother := hfields ⟨"[I", "x", "J"⟩ ⟨"[I", "x", "[J"⟩ _ _ rfl rfl
    intro h
    exact absurd (hother.mp (Except.ok.inj h)) (by decide)

end Linkage
