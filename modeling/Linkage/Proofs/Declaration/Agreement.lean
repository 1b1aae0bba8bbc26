import Linkage.Proofs.Declaration.Names
import Linkage.Proofs.Signature.Reading

/-!
# The renderer agrees with the readers

Whatever text a reader takes for a type or a signature, the renderer declares that very type or
signature (`render_agrees`), though it scans the text on its own terms: it looks for tokens, skips
what it does not know, and never asks a reader.

The way from the text to the declaration has three parts. The tokens of spelled types are found one
type after the other (`scan_spell_append`), a draft renders the tokens of a type as one declaration
(`run_tokens`), and that declaration is the shortened one of the type (`shown_eq`).
-/

namespace Linkage

/-- An element that ends where its text says: a class name, perhaps empty, goes up to its `;`. -/
def Element.Closed : Element → Prop
  | primitive _ => True
  | object name => ';' ∉ name.toList
  | anyObject => False

instance Element.decidableClosed : (element : Element) → Decidable element.Closed
  | primitive _ => inferInstanceAs (Decidable True)
  | object name => inferInstanceAs (Decidable (';' ∉ name.toList))
  | anyObject => inferInstanceAs (Decidable False)

theorem Element.Readable.closed {element : Element} (h : element.Readable) : element.Closed := by
  cases element with
  | primitive p => trivial
  | object name => exact h.2
  | anyObject => exact h

namespace Declaration

/-! ## Tokens of spelled types -/

/-- The tokens of a type with a closed element. -/
def tokens (ty : Ty) : List Token :=
  (if ty.rank = 0 then [] else [.markers ty.rank]) ++
    match ty.element with
    | .primitive p => [.primitive p]
    | .object name => [.className name.toList]
    | .anyObject => []

namespace Token

theorem scan_primitive (p : Primitive) (rest : List Char) :
    scan (p.tag :: rest) = primitive p :: scan rest := by
  have htag : Tag.ofChar? p.tag = some (.primitive p) := Tag.ofChar?_char (.primitive p)
  rw [scan]
  simp only [htag]

theorem scan_className {name : List Char} (h : ';' ∉ name) (rest : List Char) :
    scan ('L' :: (name ++ ';' :: rest)) = className name :: scan rest := by
  have htag : Tag.ofChar? 'L' = some .classStart := rfl
  rw [scan]
  simp only [htag]
  split
  · next hcut => simp [Text.cut?_append h] at hcut
  · next name' after hcut =>
      rw [Text.cut?_append h] at hcut
      cases hcut
      rfl

/-- A class name without its end takes the rest of the text. -/
theorem scan_openClass {rest : List Char} (h : ';' ∉ rest) : scan ('L' :: rest) = [openClass] := by
  have htag : Tag.ofChar? 'L' = some .classStart := rfl
  rw [scan]
  simp only [htag]
  split
  · rfl
  · next name after hcut =>
      rw [Text.cut?_eq_none_iff.mpr h] at hcut
      cases hcut

theorem scan_marker (rest : List Char) :
    scan ('[' :: rest) =
      markers (1 + (rest.takeWhile (· = '[')).length) :: scan (rest.dropWhile (· = '[')) := by
  have htag : Tag.ofChar? '[' = some .arrayDim := rfl
  rw [scan]
  simp only [htag]

/-- A whole run in front of something else is counted as it is written. -/
theorem scan_markers {rest : List Char} (h : rest.head? ≠ some '[') (rank : Nat) :
    scan (List.replicate (rank + 1) '[' ++ rest) = markers (rank + 1) :: scan rest := by
  rw [List.replicate_succ, List.cons_append, scan_marker, Ty.takeWhile_replicate_append h,
    Ty.dropWhile_replicate_append h, List.length_replicate, Nat.add_comm]

theorem scan_argsStart (rest : List Char) : scan ('(' :: rest) = argsStart :: scan rest := by
  have htag : Tag.ofChar? '(' = some .argsStart := rfl
  rw [scan]
  simp only [htag]

theorem scan_argsEnd (rest : List Char) : scan (')' :: rest) = argsEnd :: scan rest := by
  have htag : Tag.ofChar? ')' = some .argsEnd := rfl
  rw [scan]
  simp only [htag]

/-- A character that the renderer does not know, and that no class name or parenthesis starts. -/
def Skipped (c : Char) : Prop := c ≠ 'L' ∧ c ≠ '[' ∧ Primitive.ofTag? c = none

theorem scan_skipped {c : Char} (h : Skipped c) (hopen : c ≠ '(') (hclose : c ≠ ')')
    (rest : List Char) : scan (c :: rest) = scan rest := by
  obtain ⟨hclass, hdim, hprimitive⟩ := h
  rw [scan]
  cases htag : Tag.ofChar? c with
  | none => rfl
  | some tag =>
      obtain rfl := Tag.char_of_ofChar? htag
      -- of the known tags, only the end of a class name and those of annotations mean nothing here
      cases tag with
      | primitive p => simp [Tag.char] at hprimitive
      | arrayDim => exact absurd rfl hdim
      | classStart => exact absurd rfl hclass
      | argsStart => exact absurd rfl hopen
      | argsEnd => exact absurd rfl hclose
      | classEnd => rfl
      | annotationValue a => rfl

/-- Text before an argument list leaves no tokens. -/
theorem scan_before {before : List Char} (h : ∀ c ∈ before, Skipped c) (hopen : '(' ∉ before)
    (hclose : ')' ∉ before) (rest : List Char) : scan (before ++ rest) = scan rest := by
  induction before with
  | nil => rfl
  | cons c before ih =>
      obtain ⟨hopen_c, hopen_rest⟩ := not_or.mp (mt List.mem_cons.mpr hopen)
      obtain ⟨hclose_c, hclose_rest⟩ := not_or.mp (mt List.mem_cons.mpr hclose)
      rw [List.cons_append, scan_skipped (h c (by simp)) (Ne.symm hopen_c) (Ne.symm hclose_c)]
      have hskipped : ∀ d ∈ before, Skipped d := by
        intro d hd
        exact h d (List.mem_cons_of_mem c hd)
      exact ih hskipped hopen_rest hclose_rest

theorem scan_element {element : Element} (h : element.Closed) (rest : List Char) :
    scan (element.spell ++ rest) = tokens ⟨element, 0⟩ ++ scan rest := by
  cases element with
  | primitive p => exact scan_primitive p rest
  | object name =>
      have hname := scan_className h rest
      simpa [Element.spell, tokens] using hname
  | anyObject => exact h.elim

/-- The renderer cuts a spelled type out of a text where the reader does. -/
theorem scan_spell_append {ty : Ty} (h : ty.Readable) (rest : List Char) :
    scan (ty.spell ++ rest) = tokens ty ++ scan rest := by
  obtain ⟨element, rank⟩ := ty
  have helement := scan_element h.closed rest
  cases rank with
  | zero => exact helement
  | succ rank =>
      -- the run of markers is one token, as no element starts with another marker
      rw [Ty.spell, List.append_assoc, scan_markers (Ty.head?_element_spell element rest), helement]
      rfl

theorem scan_flatMap_spell {types : List Ty} (h : ∀ ty ∈ types, ty.Readable) (rest : List Char) :
    scan (types.flatMap Ty.spell ++ rest) = types.flatMap tokens ++ scan rest := by
  induction types with
  | nil => rfl
  | cons ty types ih =>
      rw [List.flatMap_cons, List.append_assoc, scan_spell_append (h ty (by simp)),
        ih fun other hmem => h other (by simp [hmem]), List.flatMap_cons, List.append_assoc]

end Token

/-! ## Drafts of types -/

/-- The declaration that a draft makes of a type. -/
def shown (options : Options) (ty : Ty) : String :=
  (match ty.element with
    | .primitive p => p.keyword
    | .object name => className options name.toList
    | .anyObject => "")
  ++ Ty.brackets ty.rank

/-- The renderer shortens a name and puts the brackets behind it, `shorten` the other way round. -/
theorem shown_eq {ty : Ty} (h : ty.Readable) (options : Options) :
    shown options ty = shorten options.fullNames ty.declaration := by
  obtain ⟨element, rank⟩ := ty
  cases element with
  | primitive p => exact (shorten_keyword options.fullNames p rank).symm
  | object name =>
      have hname : className options name.toList =
          String.ofList (if options.fullNames then
            withoutCorePackage (ClassName.dottedOfInternal name).toList
          else simpleName (ClassName.dottedOfInternal name).toList) := by
        unfold className
        rw [String.ofList_toList]
      calc className options name.toList ++ Ty.brackets rank
          = shorten options.fullNames (ClassName.dottedOfInternal name ++ Ty.brackets rank) := by
            rw [shorten_append_brackets, hname]
        _ = shorten options.fullNames (Ty.declaration ⟨.object name, rank⟩) := rfl
  | anyObject => exact h.elim

namespace Draft

variable (options : Options)

/-- A draft that owes no dimensions renders the tokens of a type as one more type. -/
theorem run_tokens {ty : Ty} (h : ty.element.Closed) (side : Side) (types : Array String)
    (us : List Token) :
    run options ⟨side, types, none⟩ (tokens ty ++ us) =
      run options ⟨side, types.push (shown options ty), none⟩ us := by
  obtain ⟨element, rank⟩ := ty
  cases rank with
  | zero =>
      cases element with
      | primitive p => rfl
      | object name => rfl
      | anyObject => exact h.elim
  | succ rank =>
      -- the markers are owed first, and the element takes them
      cases element with
      | primitive p => rfl
      | object name => rfl
      | anyObject => exact h.elim

theorem run_flatMap_tokens {tys : List Ty} (h : ∀ ty ∈ tys, ty.element.Closed) (side : Side)
    (done : List String) (us : List Token) :
    run options ⟨side, done.toArray, none⟩ (tys.flatMap tokens ++ us) =
      run options ⟨side, (done ++ tys.map (shown options)).toArray, none⟩ us := by
  induction tys generalizing done with
  | nil => simp
  | cons ty tys ih =>
      rw [List.flatMap_cons, List.append_assoc, run_tokens options (h ty (by simp)),
        List.push_toArray, ih fun other hmem => h other (by simp [hmem])]
      simp

/-- The types of a field are declared in order, and nothing is owed at the end. -/
theorem run_field {types : List Ty} (h : ∀ ty ∈ types, ty.element.Closed) :
    start.run options (types.flatMap tokens) =
      .ok ⟨.before, (types.map (shown options)).toArray, none⟩ := by
  have hrun := run_flatMap_tokens options h .before [] []
  rw [List.append_nil] at hrun
  exact hrun

/-- The types of an argument list become the arguments when the list is closed, and those behind it
the result. -/
theorem run_method {args result : List Ty} (hargs : ∀ ty ∈ args, ty.element.Closed)
    (hresult : ∀ ty ∈ result, ty.element.Closed) :
    start.run options
        (.argsStart :: (args.flatMap tokens ++ .argsEnd :: result.flatMap tokens)) =
      .ok ⟨.after (args.map (shown options)), (result.map (shown options)).toArray, none⟩ := by
  have hlist := run_flatMap_tokens options hargs .inside [] (.argsEnd :: result.flatMap tokens)
  have hlast := run_flatMap_tokens options hresult (.after (args.map (shown options))) [] []
  rw [List.append_nil] at hlast
  exact hlist.trans hlast

end Draft

/-! ## Texts that a reader accepts -/

/-- A descriptor of a type renders as that type and the insert, as far as these are not empty. -/
theorem render_descriptor {ty : Ty} (h : ty.Readable) (options : Options) :
    render options ty.descriptor =
      .ok (Draft.field options.insert [shorten options.fullNames ty.declaration]) := by
  have hscan := Token.scan_spell_append h []
  rw [List.append_nil, Token.scan, List.append_nil] at hscan
  have hrun := Draft.run_field options (List.forall_mem_singleton.mpr h.closed)
  rw [List.flatMap_singleton] at hrun
  simp only [render, renderChars, Ty.toList_descriptor, hscan, hrun, List.map_singleton,
    shown_eq h]
  rfl

/-- A descriptor of a method renders as its return type, the insert, and its arguments, whatever
stands before it, as long as that leaves no tokens. -/
theorem render_parts {parts : Signature.Parts} (h : parts.WellFormed)
    (hbefore : ∀ c ∈ parts.before.toList, Token.Skipped c) (options : Options) :
    render options parts.descriptor =
      .ok (Draft.method options.insert
        (parts.types.map (shorten options.fullNames ·.declaration))
        [shorten options.fullNames parts.returnType.declaration]) := by
  have hreadable : ∀ ty ∈ parts.types, ty.Readable := fun ty hty => (h.types ty hty).readable
  have hscan : Token.scan parts.descriptor.toList =
      .argsStart :: (parts.types.flatMap tokens ++ .argsEnd :: tokens parts.returnType) := by
    have hreturn := Token.scan_spell_append h.returnType []
    rw [List.append_nil, Token.scan, List.append_nil] at hreturn
    rw [parts.toList_descriptor, Token.scan_before hbefore h.no_open h.no_close,
      Token.scan_argsStart, Token.scan_flatMap_spell hreadable, Token.scan_argsEnd, hreturn]
  have hclosed : ∀ ty ∈ parts.types, ty.element.Closed := fun ty hty => (hreadable ty hty).closed
  have hrun := Draft.run_method options hclosed
    (List.forall_mem_singleton.mpr h.returnType.closed)
  rw [List.flatMap_singleton, ← hscan] at hrun
  have hargs : parts.types.map (shown options) =
      parts.types.map (shorten options.fullNames ·.declaration) :=
    List.map_congr_left fun ty hty => shown_eq (hreadable ty hty) options
  simp only [render, renderChars, hrun, hargs, List.map_singleton, shown_eq h.returnType]
  rfl

/-- **The renderer agrees with the readers.** A text that is read as a type renders as the
shortened declaration of that type, with the insert behind it. A text that is read as a signature
renders as that signature, unless the text before the argument list has a letter or a bracket that
starts a type of its own. -/
theorem render_agrees (options : Options) (desc : String) :
    (∀ ty, Ty.parse desc = .ok ty →
      let type := shorten options.fullNames ty.declaration
      render options desc = .ok
        (if type = "" then options.insert
        else if options.insert = "" then type
        else type ++ " " ++ options.insert)) ∧
    ∀ sig, Signature.parse desc = .ok sig →
      (∀ c ∈ desc.toList.takeWhile (· ≠ '('), c ≠ 'L' ∧ c ≠ '[' ∧ Primitive.ofTag? c = none) →
      render options desc = .ok
        (shorten options.fullNames sig.returnType.declaration ++ " " ++ options.insert ++ "(" ++
          (if sig.args = [] then ""
          else " " ++ " , ".intercalate
            (sig.args.map (shorten options.fullNames ·.type.declaration))) ++ " )") := by
  constructor
  · intro ty hparse
    obtain ⟨hread, rfl⟩ := Ty.parse_eq_ok_iff.mp hparse
    rw [render_descriptor hread, Draft.field, String.intercalate_singleton]
  · intro sig hparse hbefore
    obtain ⟨parts, hparts, rfl, rfl⟩ := Signature.exists_parts_of_parse hparse
    -- the text up to the first parenthesis is all that stands before the list
    have htake : parts.descriptor.toList.takeWhile (· ≠ '(') = parts.before.toList := by
      have hall : ∀ c ∈ parts.before.toList, decide (c ≠ '(') = true := by
        intro c hc
        apply decide_eq_true
        rintro rfl
        exact hparts.no_open hc
      rw [parts.toList_descriptor, List.takeWhile_append_of_pos hall,
        List.takeWhile_cons_of_neg (by simp), List.append_nil]
    rw [htake] at hbefore
    have hargs : (Signature.numbered parts.types).map
        (fun arg => shorten options.fullNames arg.type.declaration) =
          parts.types.map (shorten options.fullNames ·.declaration) := by
      conv_rhs => rw [← Signature.map_type_numbered parts.types, List.map_map]
      rfl
    have hnone : Signature.numbered parts.types = [] ↔ parts.types = [] := by
      rw [← List.length_eq_zero_iff, Signature.length_numbered, List.length_eq_zero_iff]
    rw [render_parts hparts hbefore, Draft.method, String.intercalate_singleton]
    simp only [Signature.Parts.signature, Signature.ofTypes_eq, hargs, hnone, List.map_eq_nil_iff]

theorem render_agrees_on_parentheses_in_names :
    render ⟨true, "f"⟩ "[Ljava/lang/a(b;" = .ok "a(b[] f" ∧
      render ⟨false, "m"⟩ "x;(I[[Lp/(L[;)[Lq);" = .ok "q)[] m( int , (L[[][] )" := by
  constructor
  · have hparse : Ty.parse "[Ljava/lang/a(b;" = .ok ⟨.object "java/lang/a(b", 1⟩ := by rfl
    exact (render_agrees ⟨true, "f"⟩ _).1 _ hparse
  · have hparse : Signature.parse "x;(I[[Lp/(L[;)[Lq);" =
        .ok ⟨[⟨⟨.primitive .int, 0⟩, 0⟩, ⟨⟨.object "p/(L[", 2⟩, 1⟩], ⟨.object "q)", 1⟩⟩ := by rfl
    have hbefore : ∀ c ∈ ['x', ';'], c ≠ 'L' ∧ c ≠ '[' ∧ Primitive.ofTag? c = none := by
      intro c hc
      rcases List.mem_pair.mp hc with rfl | rfl
      · exact ⟨by decide, by decide, rfl⟩
      · exact ⟨by decide, by decide, rfl⟩
    exact (render_agrees ⟨false, "m"⟩ _).2 _ hparse hbefore

end Declaration
end Linkage
