import Linkage.Proofs.Ty.Spelling

/-!
# Descriptors of types end by themselves

Where the descriptor of a type ends is decided by its own characters. So one type can be read from
the front of a text in at most one way, whatever the text goes on with (`parsePrefix_eq_ok_iff`),
and no descriptor is the beginning of another one (`eq_of_spell_begins`). The markers at the front
of the text are the rank of the type (`takeWhile_spell_append`).
-/

namespace Linkage.Ty

/-- A type is read from the front of its descriptor, and what follows is handed back. -/
theorem parsePrefix_eq_ok_iff {desc rest : String} {ty : Ty} :
    parsePrefix desc = .ok (ty, rest) ↔ ty.Readable ∧ desc = ty.descriptor ++ rest := by
  have hsplit : parsePrefix desc = .ok (ty, rest) ↔ split desc.toList = .ok (ty, rest.toList) := by
    unfold parsePrefix
    cases split desc.toList with
    | error reason => exact ⟨nofun, nofun⟩
    | ok read =>
        obtain ⟨ty', after⟩ := read
        constructor
        · intro h
          cases h
          rw [String.toList_ofList]
        · intro h
          cases h
          show Except.ok (ty, String.ofList rest.toList) = _
          rw [String.ofList_toList]
  rw [hsplit, split_eq_ok_iff, ← toList_descriptor, ← String.toList_append, String.toList_inj]

/-- The markers at the front of a spelled type are those of its rank, as no element starts with
one. -/
theorem takeWhile_spell_append (ty : Ty) (rest : List Char) :
    (ty.spell ++ rest).takeWhile (· = '[') = List.replicate ty.rank '[' := by
  rw [spell, List.append_assoc]
  exact takeWhile_replicate_append (head?_element_spell ty.element rest) ty.rank

/-- A type whose spelling goes on to spell a type is that type. -/
theorem eq_of_spell_begins {ty other : Ty} (h : ty.Readable) (hother : other.Readable)
    (hbegins : ty.spell <+: other.spell) : ty = other := by
  obtain ⟨rest, hrest⟩ := hbegins
  -- the longer spelling is read twice, as one type and as the other with a rest
  have hread : split other.spell = .ok (ty, rest) := hrest ▸ split_spell_append h rest
  have hself : split (other.spell ++ []) = .ok (other, []) := split_spell_append hother []
  rw [List.append_nil, hread] at hself
  cases hself
  rfl

/-- **Reading a type undoes writing it, and the written form is prefix-free.** A type is read from
the front of a text exactly when it can be read at all and the text starts with its descriptor, and
from a whole text when that is its descriptor. The rank is the number of markers at the front, a
type is read back from its own descriptor exactly when it can be read at all, and a text that is
read as a type is not the beginning of another one. -/
theorem readers_invert_descriptor :
    (∀ (desc rest : String) (ty : Ty),
      parsePrefix desc = .ok (ty, rest) ↔ ty.Readable ∧ desc = ty.descriptor ++ rest) ∧
    (∀ (desc : String) (ty : Ty), parse desc = .ok ty ↔ ty.Readable ∧ desc = ty.descriptor) ∧
    (∀ (desc rest : String) (ty : Ty),
      parsePrefix desc = .ok (ty, rest) ∨ parse desc = .ok ty →
        ty.rank = (desc.toList.takeWhile (· = '[')).length) ∧
    (∀ ty : Ty, parse ty.descriptor = .ok ty ↔ ty.Readable) ∧
    ∀ (a b : String) (ty other : Ty), parse a = .ok ty → parse b = .ok other →
      a.toList <+: b.toList → a = b := by
  refine ⟨fun _ _ _ => parsePrefix_eq_ok_iff, fun _ _ => parse_eq_ok_iff, ?_, ?_, ?_⟩
  · intro desc rest ty h
    have hfront : ∃ after, desc.toList = ty.spell ++ after := by
      rcases h with h | h
      · obtain ⟨_, rfl⟩ := parsePrefix_eq_ok_iff.mp h
        exact ⟨rest.toList, by simp⟩
      · obtain ⟨_, rfl⟩ := parse_eq_ok_iff.mp h
        exact ⟨[], by simp⟩
    obtain ⟨after, hdesc⟩ := hfront
    rw [hdesc, takeWhile_spell_append, List.length_replicate]
  · intro ty
    rw [parse_eq_ok_iff]
    exact ⟨And.left, fun h => ⟨h, rfl⟩⟩
  · intro a b ty other ha hb hbegins
    obtain ⟨hty, rfl⟩ := parse_eq_ok_iff.mp ha
    obtain ⟨hother, rfl⟩ := parse_eq_ok_iff.mp hb
    rw [toList_descriptor, toList_descriptor] at hbegins
    rw [eq_of_spell_begins hty hother hbegins]

/-- The name of the class has a marker and a parenthesis and ends at the first `;`. -/
theorem readers_invert_descriptor_markers_in_names :
    let ty : Ty := ⟨.object "é/[L(", 2⟩
    parsePrefix "[[Lé/[L(;;I" = .ok (ty, ";I") ∧ ty.rank = 2 ∧ parse "[[Lé/[L(;" = .ok ty ∧
      (∀ other, parse "[[Lé/[L(;;I" ≠ .ok other) ∧
      parse (Ty.descriptor ⟨.anyObject, 1⟩) ≠ .ok ⟨.anyObject, 1⟩ := by
  intro ty
  obtain ⟨hfront, hparse, hrank, hself, hfree⟩ := readers_invert_descriptor
  have hread : parsePrefix "[[Lé/[L(;;I" = .ok (ty, ";I") := (hfront _ _ _).mpr ⟨by decide, rfl⟩
  have hwhole : parse "[[Lé/[L(;" = .ok ty := (hparse _ _).mpr ⟨by decide, rfl⟩
  refine ⟨hread, hrank _ _ _ (.inl hread), hwhole, ?_, ?_⟩
  · intro other hother
    have hsame := hfree _ _ _ _ hwhole hother ⟨[';', 'I'], rfl⟩
    exact absurd hsame (by decide)
  · rw [Ne, hself]
    exact nofun

end Linkage.Ty
