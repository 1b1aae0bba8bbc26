import Linkage.Proofs.Text.Offsets
import Linkage.Ty.Basic

/-!
# Reading types by byte offsets

`Ty.split` once more, on a text that can only be cut at byte offsets: the number of markers is a
difference of two lengths, and a class name is what lies before the offset of the first `;`. Both
could fail. They never do, and the same type comes out (`parsePrefix?_eq`, `parse?_eq`).
-/

namespace Linkage.Ty.Offsets

/-- One type from the front of a descriptor, and the text after it. -/
def parsePrefix? (desc : String) : Option (Except DescriptorError (Ty × String)) := do
  let rank ← Text.leading? '[' desc
  match (Text.trimStart '[' desc).toList with
  | [] => some (.error (.malformed desc .missingElement))
  | c :: chars =>
    let body := String.ofList chars
    match Tag.ofChar? c with
    | some .classStart =>
      match Text.find? ';' body with
      | none => some (.error (.malformed desc .unterminatedClass))
      | some stop =>
        if stop = 0 then some (.error (.malformed desc .emptyClassName))
        else do
          let name ← Text.slice? body 0 stop
          let rest ← Text.slice? body (stop + ';'.utf8Size) body.utf8ByteSize
          some (.ok (⟨.object name, rank⟩, rest))
    | some (.primitive p) => some (.ok (⟨.primitive p, rank⟩, body))
    | _ => some (.error (.malformed desc .unrecognizedTag))

/-- The type that a field descriptor describes. -/
def parse? (desc : String) : Option (Except DescriptorError Ty) := do
  match ← parsePrefix? desc with
  | .error e => some (.error e)
  | .ok (ty, rest) =>
    if rest.isEmpty then some (.ok ty) else some (.error (.malformed desc .trailingCharacters))

/-- The markers in front are counted right. -/
theorem leading?_marker (desc : String) :
    Text.leading? '[' desc = some (desc.toList.takeWhile (· = '[')).length :=
  Text.leading?_eq (by decide) desc

/-- Reading a type by offsets never fails where reading it by characters does not. -/
theorem parsePrefix?_eq (desc : String) : parsePrefix? desc = some (parsePrefix desc) := by
  unfold parsePrefix? parsePrefix split
  rw [leading?_marker, Text.trimStart, String.toList_ofList]
  cases hdrop : desc.toList.dropWhile (· = '[') with
  | nil => rfl
  | cons c chars =>
      cases htag : Tag.ofChar? c with
      | none => simp [htag]
      | some tag =>
          cases tag with
          | classStart =>
              -- the offset of the `;` stands for the cut at the `;`
              simp only [htag, Text.find?_eq_map_cut?, String.toList_ofList]
              cases hcut : Text.cut? ';' chars with
              | none => simp
              | some parts =>
                  obtain ⟨name, after⟩ := parts
                  have hbody : (String.ofList chars).toList = name ++ ';' :: after := by
                    rw [String.toList_ofList]
                    exact (Text.cut?_eq_some_iff.mp hcut).1
                  obtain ⟨hname, hafter⟩ := Text.slices_around hbody
                  cases name with
                  | nil => rfl
                  | cons d name =>
                      have hsize : Text.byteSize (d :: name) ≠ 0 := by
                        rw [Ne, Text.byteSize_eq_zero_iff]
                        exact List.cons_ne_nil d name
                      simp only [Option.map_some, if_neg hsize, hname, hafter, Option.bind_eq_bind,
                        Option.bind_some]
          | primitive p => simp [htag]
          | arrayDim | classEnd | argsStart | argsEnd | annotationValue _ => simp [htag]

theorem parse?_eq (desc : String) : parse? desc = some (parse desc) := by
  unfold parse? parse whole
  rw [parsePrefix?_eq, parsePrefix]
  cases hsplit : split desc.toList with
  | error reason => rfl
  | ok result =>
      obtain ⟨ty, rest⟩ := result
      cases rest with
      | nil => rfl
      | cons c rest =>
          have hrest : (String.ofList (c :: rest)).isEmpty = false := by simp
          simp only [Option.bind_eq_bind, Option.bind_some, hrest]
          rfl

end Linkage.Ty.Offsets
