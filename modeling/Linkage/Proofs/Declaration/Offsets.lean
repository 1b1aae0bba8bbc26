import Linkage.Proofs.Declaration.Agreement
import Linkage.Proofs.Signature.Cursor

/-!
# Rendering by byte offsets

The renderer once more, on a text that can only be cut at byte offsets. It does not make tokens
first but takes a part off the front of the text in each round of one loop. A round cuts where
characters end, is true to the tokens of the characters, and leaves fewer of them
(`faithful_step?`). So the loop ends, and renders what `render` does (`render?_eq`).

With this, no cut by offsets can fail in the readers and in the renderer
(`cuts_by_offset_succeed`).
-/

namespace Linkage

namespace Declaration

namespace Offsets

/-- The name under which a class shows. -/
def className? (options : Options) (internalName : String) : Option String :=
  let dotted := ClassName.dottedOfInternal internalName
  if options.fullNames then some (String.ofList (withoutCorePackage dotted.toList))
  else
    match Text.findLast? '.' dotted with
    | none => some dotted
    | some last =>
      if 0 < last then Text.slice? dotted (last + '.'.utf8Size) dotted.utf8ByteSize
      else some dotted

/-- One round: what the first character `c` of the text does to the draft, and the text that is
left. -/
def step? (options : Options) (draft : Draft) (text : String) (c : Char) :
    Option (Except Reason (Draft × String)) := do
  let after ← Text.slice? text c.utf8Size text.utf8ByteSize
  match Tag.ofChar? c with
  | some .classStart =>
    match Text.find? ';' after with
    | none => some (.error .unterminatedClass)
    | some stop => do
      let rest ← Text.slice? after (stop + ';'.utf8Size) after.utf8ByteSize
      let name ← className? options (← Text.slice? after 0 stop)
      some (.ok (draft.add name, rest))
  | some (.primitive p) => some (.ok (draft.add p.keyword, after))
  | some .arrayDim =>
    if draft.owed.isSome then some (.error .danglingMarkers)
    else do
      let rank ← Text.leading? '[' text
      some (.ok ({ draft with owed := some rank }, Text.trimStart '[' text))
  | some .argsStart => some ((draft.step options .argsStart).map (·, after))
  | some .argsEnd => some ((draft.step options .argsEnd).map (·, after))
  | some .classEnd | some (.annotationValue _) | none => some (.ok (draft, after))

/-- A round that is true to the tokens of the characters, and that leaves fewer of them. -/
def Faithful (options : Options) (draft : Draft) (cs : List Char) :
    Option (Except Reason (Draft × String)) → Prop
  | none => False
  | some (.error reason) => draft.run options (Token.scan cs) = .error reason
  | some (.ok (next, rest)) =>
    draft.run options (Token.scan cs) = next.run options (Token.scan rest.toList) ∧
      rest.toList.length < cs.length

/-- The name is cut behind its last dot, and the renderer's own class name comes out. -/
theorem className?_eq (options : Options) (internalName : String) :
    className? options internalName = some (className options internalName.toList) := by
  unfold className? className
  rw [String.ofList_toList]
  generalize ClassName.dottedOfInternal internalName = dotted
  cases options.fullNames with
  | true => rfl
  | false =>
      -- only a simple name is cut, and the offset of the last dot is the size of what is before it
      simp only [Bool.false_eq_true, if_false, simpleName, Text.findLast?_eq_map_cutLast?]
      cases hcut : Text.cutLast? '.' dotted.toList with
      | none => simp
      | some parts =>
          obtain ⟨before, simple⟩ := parts
          obtain ⟨hdotted, _⟩ := Text.cutLast?_eq_some_iff.mp hcut
          obtain ⟨_, hslice⟩ := Text.slices_around hdotted
          cases before with
          -- the dot comes first, so its offset is `0` and nothing is cut
          | nil => simp
          | cons c before =>
              have hsize : 0 < Text.byteSize (c :: before) := by
                rw [Nat.pos_iff_ne_zero, Ne, Text.byteSize_eq_zero_iff]
                exact List.cons_ne_nil c before
              simp only [Option.map_some, if_pos hsize, hslice]

section

variable {options : Options} {draft : Draft} {c : Char} {cs : List Char}

/-- A round that does what a token asks for. -/
theorem Faithful.token (token : Token) {rest : String}
    (hscan : Token.scan (c :: cs) = token :: Token.scan rest.toList)
    (hlength : rest.toList.length ≤ cs.length) :
    Faithful options draft (c :: cs) (some ((draft.step options token).map (·, rest))) := by
  cases hstep : draft.step options token with
  | error reason => simp only [Except.map, Faithful, hscan, Draft.run, hstep]
  | ok next =>
      refine ⟨?_, Nat.lt_succ_of_le hlength⟩
      simp only [hscan, Draft.run, hstep]

/-- A round at a token of one character. -/
theorem Faithful.letter (token : Token) (hscan : Token.scan (c :: cs) = token :: Token.scan cs) :
    Faithful options draft (c :: cs)
      (some ((draft.step options token).map (·, String.ofList cs))) := by
  refine .token token ?_ ?_
  · rw [String.toList_ofList]
    exact hscan
  · rw [String.toList_ofList]

/-- A round that skips a character. -/
theorem Faithful.skip (hscan : Token.scan (c :: cs) = Token.scan cs) :
    Faithful options draft (c :: cs) (some (.ok (draft, String.ofList cs))) := by
  refine ⟨?_, ?_⟩
  · rw [hscan, String.toList_ofList]
  · rw [String.toList_ofList]
    exact Nat.lt_succ_self cs.length

/-- A round at a marker takes the whole run. It counts the run by the difference of two lengths, the
scanner by `takeWhile`. -/
theorem faithful_step?_marker {text : String} (h : text.toList = '[' :: cs) :
    Faithful options draft ('[' :: cs) (step? options draft text '[') := by
  have hcount : Text.leading? '[' text = some (1 + (cs.takeWhile (· = '[')).length) := by
    rw [Ty.Offsets.leading?_marker, h, List.takeWhile_cons_of_pos (by rfl), List.length_cons,
      Nat.add_comm]
  have hrest : (Text.trimStart '[' text).toList = cs.dropWhile (· = '[') := by
    rw [Text.trimStart, String.toList_ofList, h, List.dropWhile_cons_of_pos (by rfl)]
  have hround : Faithful options draft ('[' :: cs)
      (some ((draft.step options (.markers (1 + (cs.takeWhile (· = '[')).length))).map
        (·, Text.trimStart '[' text))) := by
    refine .token _ ?_ ?_
    · rw [hrest]
      exact Token.scan_marker cs
    · rw [hrest]
      exact (List.dropWhile_suffix _).length_le
  have htag : Tag.ofChar? '[' = some .arrayDim := rfl
  simp only [step?, Text.slice?_tail h, htag, hcount, Option.bind_eq_bind, Option.bind_some]
  -- the round asks for dimensions that are still owed before it counts, `Draft.step` after, so the
  -- case split shows that they refuse together
  unfold Draft.step at hround
  cases howed : draft.owed.isSome with
  | true =>
      simp only [howed, if_true] at hround ⊢
      exact hround
  | false =>
      simp only [howed, Bool.false_eq_true, if_false] at hround ⊢
      exact hround

/-- A round at an `L` takes the class name up to the first `;`, or refuses for want of one. -/
theorem faithful_step?_classStart {text : String} (h : text.toList = 'L' :: cs) :
    Faithful options draft ('L' :: cs) (step? options draft text 'L') := by
  have htag : Tag.ofChar? 'L' = some .classStart := rfl
  simp only [step?, Text.slice?_tail h, htag, Option.bind_eq_bind, Option.bind_some,
    Text.find?_eq_map_cut?, String.toList_ofList]
  cases hcut : Text.cut? ';' cs with
  | none =>
      -- the scanner ends with `openClass`, which the draft refuses for the same reason
      have hscan := Token.scan_openClass (Text.cut?_eq_none_iff.mp hcut)
      show draft.run options (Token.scan ('L' :: cs)) = _
      rw [hscan]
      rfl
  | some parts =>
      -- the slices around the `;` are the name and what the scanner goes on with
      obtain ⟨name, after⟩ := parts
      obtain ⟨rfl, hend⟩ := Text.cut?_eq_some_iff.mp hcut
      have hbody : (String.ofList (name ++ ';' :: after)).toList = name ++ ';' :: after :=
        String.toList_ofList
      obtain ⟨hname, hrest⟩ := Text.slices_around hbody
      simp only [Option.map_some, hrest, hname, className?_eq, String.toList_ofList,
        Option.bind_some]
      refine .token (.className name) ?_ ?_
      · rw [String.toList_ofList]
        exact Token.scan_className hend after
      · rw [String.toList_ofList, List.length_append, List.length_cons]
        omega

/-- A round is true to the tokens, whatever the first character. Markers and class names take more
than that character, any other token is the character alone (`Faithful.letter`), and what is no
token is skipped (`Faithful.skip`). -/
theorem faithful_step? {text : String} (h : text.toList = c :: cs) :
    Faithful options draft (c :: cs) (step? options draft text c) := by
  by_cases hmarker : c = '['
  · subst hmarker
    exact faithful_step?_marker h
  by_cases hclass : c = 'L'
  · subst hclass
    exact faithful_step?_classStart h
  unfold step?
  -- what follows `c` starts where `c` ends, so the one cut that is left is made
  rw [Text.slice?_tail h]
  simp only [Option.bind_eq_bind, Option.bind_some]
  cases htag : Tag.ofChar? c with
  | none =>
      -- a character without a meaning, which the scanner drops too
      refine .skip ?_
      rw [Token.scan]
      simp only [htag]
  | some tag =>
      obtain rfl := Tag.char_of_ofChar? htag
      cases tag with
      | primitive p => exact .letter (.primitive p) (Token.scan_primitive p cs)
      | arrayDim => exact absurd rfl hmarker
      | classStart => exact absurd rfl hclass
      | classEnd =>
          -- a `;` that ends no class name, which the scanner drops too
          refine .skip ?_
          rw [Token.scan]
          simp only [htag]
      | argsStart => exact .letter .argsStart (Token.scan_argsStart cs)
      | argsEnd => exact .letter .argsEnd (Token.scan_argsEnd cs)
      | annotationValue a =>
          -- the tag of an annotation value means nothing in a descriptor
          refine .skip ?_
          rw [Token.scan]
          simp only [htag]

/-- A round takes something off the text. -/
theorem length_lt_of_step? {text rest : String} {next : Draft} (h : text.toList = c :: cs)
    (hround : step? options draft text c = some (.ok (next, rest))) :
    rest.toList.length < text.toList.length := by
  have hfaithful : Faithful options draft (c :: cs) (step? options draft text c) :=
    faithful_step? h
  rw [hround] at hfaithful
  rw [h]
  exact hfaithful.2

end

/-! ## The loop -/

/-- Rounds until nothing is left. -/
def run? (options : Options) (draft : Draft) (text : String) : Option (Except Reason Draft) :=
  match htext : text.toList with
  | [] => some (.ok draft)
  | c :: _ =>
    match hround : step? options draft text c with
    | none => none
    | some (.error reason) => some (.error reason)
    | some (.ok (next, rest)) =>
      have := length_lt_of_step? htext hround
      run? options next rest
termination_by text.toList.length

/-- Render a descriptor as a declaration. -/
def render? (options : Options) (desc : String) : Option (Except DescriptorError String) := do
  match ← run? options Draft.start desc with
  | .error reason => some (.error (.malformed desc reason))
  | .ok draft => some ((draft.finish options.insert).mapError (.malformed desc))

/-- The loop gives what the fold over the tokens gives. The induction is on the rounds: each is true
to the tokens (`faithful_step?`), and the rest is the hypothesis. -/
theorem run?_eq (options : Options) (draft : Draft) (text : String) :
    run? options draft text = some (draft.run options (Token.scan text.toList)) := by
  fun_induction run? options draft text with
  | case1 draft text htext =>
      rw [htext, Token.scan]
      rfl
  | case2 draft text c cs htext hround =>
      -- a round whose cut fails is not faithful to anything, so there is none
      have hfaithful : Faithful options draft (c :: cs) (step? options draft text c) :=
        faithful_step? htext
      rw [hround] at hfaithful
      exact hfaithful.elim
  | case3 draft text c cs htext reason hround =>
      -- the round stops for the reason that the fold stops for
      have hfaithful : Faithful options draft (c :: cs) (step? options draft text c) :=
        faithful_step? htext
      rw [hround] at hfaithful
      rw [htext]
      exact congrArg some hfaithful.symm
  | case4 draft text c cs htext next rest hround _ ih =>
      -- the round is true to the first token, if it is one, and the hypothesis is about the rest
      have hfaithful : Faithful options draft (c :: cs) (step? options draft text c) :=
        faithful_step? htext
      rw [hround] at hfaithful
      rw [ih, htext, hfaithful.1]

theorem render?_eq (options : Options) (desc : String) :
    render? options desc = some (render options desc) := by
  unfold render? render renderChars
  rw [run?_eq]
  cases Draft.start.run options (Token.scan desc.toList) with
  | error reason => rfl
  | ok draft => rfl

end Offsets

end Declaration

/-- What a reading by byte offsets has to be: each cut is made, and gives what the reading by
characters has there. -/
structure CutsSucceed : Prop where
  /-- What follows a first character. -/
  behind_character (text : String) (c : Char) (cs : List Char) : text.toList = c :: cs →
    Text.slice? text c.utf8Size text.utf8ByteSize = some (String.ofList cs)
  /-- The parts around the first character of its kind. -/
  around_first (text : String) (c : Char) (before after : List Char) :
    Text.cut? c text.toList = some (before, after) →
    ∃ offset, Text.find? c text = some offset ∧
      Text.slice? text 0 offset = some (String.ofList before) ∧
      Text.slice? text (offset + c.utf8Size) text.utf8ByteSize = some (String.ofList after)
  /-- The part behind the last character of its kind. -/
  behind_last (text : String) (c : Char) (before after : List Char) :
    Text.cutLast? c text.toList = some (before, after) →
    ∃ offset, Text.findLast? c text = some offset ∧
      Text.slice? text (offset + c.utf8Size) text.utf8ByteSize = some (String.ofList after)
  /-- The difference of two lengths is the number of markers in front. -/
  markers (text : String) :
    Text.leading? '[' text = some (text.toList.takeWhile (· = '[')).length
  /-- Wherever the loop over a method descriptor stands, a step can take its slices. -/
  in_loop (desc : String) (text rest : List Char) (c : Char) (cursor : Signature.Cursor) :
    desc.toList = text ++ c :: rest →
    Signature.Cursor.initial.after? desc (Text.withOffsets 0 text) = some cursor →
    ∃ reader, Signature.Reader.start.after? desc text = some reader ∧
      Signature.Slices desc text c rest cursor reader
  type (desc : String) : Ty.Offsets.parsePrefix? desc = some (Ty.parsePrefix desc)
  signature (desc : String) : Signature.Cursor.parse? desc = some (Signature.parse desc)
  className (options : Declaration.Options) (name : String) :
    Declaration.Offsets.className? options name =
      some (Declaration.className options name.toList)
  declaration (options : Declaration.Options) (desc : String) :
    Declaration.Offsets.render? options desc = some (Declaration.render options desc)

/-- **No cut by byte offsets fails.** Whatever the text, the places that the readers and the
renderer cut at are places between its characters, in the right order, and what they cut out there
is what the reading by characters has: what follows a first character, the parts around the
character that was looked for, the number of markers, and, wherever the machine of method
descriptors stands, the character that it reads, the text behind it and the span of the argument. So
with offsets everything is read and rendered as it is without. -/
theorem cuts_by_offset_succeed : CutsSucceed where
  behind_character text c cs htext := Text.slice?_tail htext
  around_first text c before after hcut := by
    have hslices := Text.slices_around (Text.cut?_eq_some_iff.mp hcut).1
    refine ⟨Text.byteSize before, ?_, hslices⟩
    rw [Text.find?_eq_map_cut?, hcut]
    rfl
  behind_last text c before after hcut := by
    have hslices := Text.slices_around (Text.cutLast?_eq_some_iff.mp hcut).1
    refine ⟨Text.byteSize before, ?_, hslices.2⟩
    rw [Text.findLast?_eq_map_cutLast?, hcut]
    rfl
  markers := Ty.Offsets.leading?_marker
  in_loop desc text rest c cursor hdesc hafter := by
    obtain ⟨reader, hreader, htracks⟩ := Signature.Cursor.exists_tracked hdesc hafter
    exact ⟨reader, hreader, htracks.slices hdesc⟩
  type := Ty.Offsets.parsePrefix?_eq
  signature := Signature.Cursor.parse?_eq
  className := Declaration.Offsets.className?_eq
  declaration := Declaration.Offsets.render?_eq

/-- Each kind of cut in a text with characters of two bytes, where offsets and positions differ:
behind the `é`, around the first `;`, behind the last dot, and the span of the second argument. -/
theorem cuts_by_offset_succeed_between_wide_characters :
    Text.slice? "é(La;[Lß" 2 10 = some "(La;[Lß" ∧
      (∃ offset, Text.find? ';' "é(La;[Lß;)V" = some offset ∧
        Text.slice? "é(La;[Lß;)V" 0 offset = some "é(La" ∧
        Text.slice? "é(La;[Lß;)V" (offset + 1) 13 = some "[Lß;)V") ∧
      (∃ offset, Text.findLast? '.' "ß.é.n" = some offset ∧
        Text.slice? "ß.é.n" (offset + 1) 7 = some "n") ∧
      Signature.Cursor.initial.after? "é(La;[Lß;)V"
          (Text.withOffsets 0 ['é', '(', 'L', 'a', ';', '[', 'L', 'ß']) =
        some ⟨.className, #[⟨⟨.object "a", 0⟩, 0⟩], 6, none⟩ ∧
      Text.slice? "é(La;[Lß;)V" 6 11 = some "[Lß;" := by
  have hcuts := cuts_by_offset_succeed
  have hafter : Signature.Cursor.initial.after? "é(La;[Lß;)V"
      (Text.withOffsets 0 ['é', '(', 'L', 'a', ';', '[', 'L', 'ß']) =
        some ⟨.className, #[⟨⟨.object "a", 0⟩, 0⟩], 6, none⟩ := by decide +kernel
  refine ⟨?_, ?_, ?_, hafter, ?_⟩
  · exact hcuts.behind_character "é(La;[Lß" 'é' ['(', 'L', 'a', ';', '[', 'L', 'ß'] (by decide)
  · exact hcuts.around_first "é(La;[Lß;)V" ';' ['é', '(', 'L', 'a'] ['[', 'L', 'ß', ';', ')', 'V']
      (by decide)
  · exact hcuts.behind_last "ß.é.n" '.' ['ß', '.', 'é'] ['n'] (by decide)
  · obtain ⟨reader, hreader, hslices⟩ := hcuts.in_loop _ _ [')', 'V'] ';' _ (by decide) hafter
    have hspan : Signature.Reader.start.after? "é(La;[Lß;)V"
        ['é', '(', 'L', 'a', ';', '[', 'L', 'ß'] =
          some ⟨.className ['ß', 'L', '['], #[⟨⟨.object "a", 0⟩, 0⟩]⟩ := by decide
    cases hreader.symm.trans hspan
    exact hslices.span rfl

end Linkage
