import Linkage.Proofs.Signature.Reading
import Linkage.Proofs.Ty.Runtime

/-!
# Matching compares descriptors

Whether a type of the host is the type that a descriptor was read as can be told from two texts, the
descriptor and that of the host's type. Nothing is asked of the host's type. It may have a class
name that cannot stand in a descriptor, and then its own descriptor is still no other type's
(`Ty.descriptor_inj`).

For a signature the text to look at is the one behind the argument list. A `)` may stand in the
class name of the return type, so the last `)` need not close the list. The arguments, which are
known, say where it is closed (`Parts.returnType_eq`).
-/

namespace Linkage

/-! ## Types -/

namespace Ty

theorem matchesRuntime_iff {ty : Ty} {runtime : RuntimeType} :
    ty.matchesRuntime runtime = true ↔ ty = ofRuntime runtime := by
  rw [matchesRuntime, decide_eq_true_iff]
  exact eq_comm

/-- A type that was read matches the host's type whose descriptor was read. -/
theorem matchesRuntime_iff_of_parse {desc : String} {ty : Ty} (h : parse desc = .ok ty)
    (runtime : RuntimeType) :
    ty.matchesRuntime runtime = true ↔ desc = (ofRuntime runtime).descriptor := by
  obtain ⟨_, rfl⟩ := parse_eq_ok_iff.mp h
  rw [matchesRuntime_iff, descriptor_inj]

end Ty

/-! ## Signatures -/

namespace Signature

/-- Behind the same arguments, descriptors that are the same text have the same return type. -/
theorem Parts.returnType_eq {a b : Parts} (ha : '(' ∉ a.before.toList)
    (hb : '(' ∉ b.before.toList) (htypes : a.types = b.types) (h : a.descriptor = b.descriptor) :
    a.returnType = b.returnType := by
  -- both lists start at the first `(` and spell the same arguments
  have hcut := congrArg (Text.cut? '(' ∘ String.toList) h
  simp only [Function.comp_apply, cut?_descriptor ha, cut?_descriptor hb, htypes,
    Option.some.injEq, Prod.mk.injEq] at hcut
  obtain ⟨_, hlist⟩ := hcut
  have hreturn := List.cons.inj (List.append_cancel_left hlist)
  exact Ty.spell_injective hreturn.2

theorem Parts.map_descriptor_args (parts : Parts) :
    (parts.signature.args.map fun arg => arg.type.descriptor) = parts.types.map Ty.descriptor := by
  have htypes : parts.signature.args.map Arg.type = parts.types := map_type_numbered parts.types
  rw [← htypes, List.map_map]
  rfl

/-- A signature that was read matches the host's return type when that type ends the text behind the
closed list. -/
theorem matchesReturn_iff_of_parse {desc : String} {sig : Signature} (h : parse desc = .ok sig)
    (runtime : RuntimeType) :
    sig.matchesReturn runtime = true ↔
      ∃ before : String, '(' ∉ before.toList ∧ ')' ∉ before.toList ∧
        desc = before ++ "(" ++ String.join (sig.args.map fun arg => arg.type.descriptor) ++ ")"
          ++ (Ty.ofRuntime runtime).descriptor := by
  obtain ⟨parts, hparts, rfl, rfl⟩ := exists_parts_of_parse h
  have hreturn : parts.signature.returnType = parts.returnType := rfl
  rw [matchesReturn, Ty.matchesRuntime_iff, hreturn, Parts.map_descriptor_args]
  constructor
  · intro hmatch
    exact ⟨parts.before, hparts.no_open, hparts.no_close, by rw [Parts.descriptor, hmatch]⟩
  · rintro ⟨before, hopen, _, hdesc⟩
    -- the text is the descriptor of these arguments with either return type
    have hother : parts.descriptor =
        Parts.descriptor ⟨before, parts.types, Ty.ofRuntime runtime⟩ := hdesc
    refine Parts.returnType_eq hparts.no_open ?_ ?_ hother
    · exact hopen
    · rfl

end Signature

/-- **Matching compares descriptors.** The type that a text was read as matches a type of the host
exactly when the text is the descriptor of the host's type. The return type of a signature matches
it exactly when the text is a beginning without parentheses, then the arguments of the signature in
parentheses, and then that descriptor. -/
theorem matching_compares_descriptors :
    (∀ (desc : String) (ty : Ty) (runtime : RuntimeType), Ty.parse desc = .ok ty →
      (ty.matchesRuntime runtime = true ↔ desc = (Ty.ofRuntime runtime).descriptor)) ∧
    ∀ (desc : String) (sig : Signature) (runtime : RuntimeType), Signature.parse desc = .ok sig →
      (sig.matchesReturn runtime = true ↔
        ∃ before : String, '(' ∉ before.toList ∧ ')' ∉ before.toList ∧
          desc = before ++ "(" ++ String.join (sig.args.map fun arg => arg.type.descriptor) ++ ")"
            ++ (Ty.ofRuntime runtime).descriptor) := by
  constructor
  · intro desc ty runtime h
    exact Ty.matchesRuntime_iff_of_parse h runtime
  · intro desc sig runtime h
    exact Signature.matchesReturn_iff_of_parse h runtime

/-- Host types with names that no class file has, and a `)` in the class name of the return type. -/
theorem matching_compares_descriptors_of_misspelled_names :
    let grid : Ty := ⟨.object "a/b", 1⟩
    let sig : Signature := ⟨[⟨⟨.object "a(", 0⟩, 0⟩], ⟨.object "p/)I", 0⟩⟩
    Ty.parse "[La/b;" = .ok grid ∧
      grid.matchesRuntime (.array (.named "a.b")) = true ∧
      grid.matchesRuntime (.named "a.b;[") = false ∧
      Signature.parse "x;(La(;)Lp/)I;" = .ok sig ∧
      sig.matchesReturn (.named "p.)I") = true ∧
      ¬∃ before : String, '(' ∉ before.toList ∧ ')' ∉ before.toList ∧
        "x;(La(;)Lp/)I;" = before ++ "(" ++ String.join (sig.args.map fun arg =>
          arg.type.descriptor) ++ ")" ++ (Ty.ofRuntime (.primitive .int)).descriptor := by
  intro grid sig
  obtain ⟨hfield, hmethod⟩ := matching_compares_descriptors
  have hgrid : Ty.parse "[La/b;" = .ok grid := rfl
  have hsig : Signature.parse "x;(La(;)Lp/)I;" = .ok sig := rfl
  refine ⟨hgrid, (hfield _ _ _ hgrid).mpr rfl, ?_, hsig, ?_, ?_⟩
  · rw [← Bool.not_eq_true, hfield _ _ _ hgrid]
    decide
  · exact (hmethod _ _ _ hsig).mpr ⟨"x;", by decide, by decide, rfl⟩
  · rw [← hmethod _ _ _ hsig]
    decide

end Linkage
