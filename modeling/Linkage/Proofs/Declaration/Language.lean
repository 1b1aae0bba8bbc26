import Linkage.Proofs.Declaration.Grammar

/-!
# Only well-formed texts render

A text renders exactly when it is made up of well-formed parts, and then as the declaration of
these parts:

    render_eq_ok_iff : render options desc = .ok s ↔
      ∃ form, form.WellFormed ∧ desc.toList = form.text ∧ s = form.declaration options

`Linkage.Proofs.Declaration.Grammar` has the direction from the parts to the renderer. The other one
rests on an invariant of the draft, `Draft.Invariant`: the text consumed so far is what stands
before the current line (`Lead`), that line with the types that the draft has rendered, and markers
that wait for their element (`Pending`). A token keeps it (`Invariant.step`), skipped characters
keep it (`Invariant.fill`), and so does the whole scan (`Invariant.run`).
-/

namespace Linkage.Declaration

/-! ## Lines that grow at the end -/

namespace Line

/-- The line with one more type, where its trailing filler comes to stand before that type. -/
def push (line : Line) (ty : Ty) (gap : List Char) : Line :=
  ⟨line.items ++ [⟨line.after, ty, gap⟩], []⟩

def fill (line : Line) (c : Char) : Line := ⟨line.items, line.after ++ [c]⟩

theorem text_push (line : Line) (ty : Ty) (gap : List Char) :
    (line.push ty gap).text =
      line.text ++ (List.replicate ty.rank '[' ++ (gap ++ ty.element.spell)) := by
  simp [text, push, Item.text]

@[simp] theorem types_push (line : Line) (ty : Ty) (gap : List Char) :
    (line.push ty gap).types = line.types ++ [ty] := by
  simp [types, push]

theorem text_fill (line : Line) (c : Char) : (line.fill c).text = line.text ++ [c] := by
  simp [text, fill]

theorem types_fill (line : Line) (c : Char) : (line.fill c).types = line.types := rfl

theorem WellFormed.push {line : Line} (h : line.WellFormed) {ty : Ty} {gap : List Char}
    (hclosed : ty.element.Closed) (hgap : IsFiller gap) (hnone : ty.rank = 0 → gap = []) :
    (line.push ty gap).WellFormed := by
  refine ⟨?_, IsFiller.nil⟩
  intro item hitem
  rcases List.mem_append.mp hitem with hitem | hitem
  · exact h.items item hitem
  · -- the new item, whose filler was the trailing filler of the line
    obtain rfl := List.mem_singleton.mp hitem
    exact ⟨h.after, hclosed, hgap, hnone⟩

theorem WellFormed.fill {line : Line} (h : line.WellFormed) {c : Char} (hc : Filler c) :
    (line.fill c).WellFormed :=
  ⟨h.items, h.after.push hc⟩

end Line

/-! ## Tokens as text -/

namespace Token

def text : Token → List Char
  | primitive p => [p.tag]
  | className internalName => 'L' :: internalName ++ [';']
  | markers rank => List.replicate rank '['
  | argsStart => ['(']
  | argsEnd => [')']
  | openClass => []

/-- A token whose text the scan takes for that token. -/
def WellFormed : Token → Prop
  | className internalName => ';' ∉ internalName
  | markers rank => rank ≠ 0
  | _ => True

end Token

/-- The characters that the scan passes over are filler. -/
theorem filler_of_skipped {c : Char}
    (h : Tag.ofChar? c = some .classEnd ∨ (∃ a, Tag.ofChar? c = some (.annotationValue a)) ∨
      Tag.ofChar? c = none) : Filler c := by
  rcases h with htag | ⟨a, htag⟩ | htag
  · obtain rfl := Tag.char_of_ofChar? htag
    decide
  · obtain rfl := Tag.char_of_ofChar? htag
    cases a <;> decide
  · -- types and parentheses start with tags, and this character is none
    refine ⟨?_, ?_⟩
    · intro hmem
      simp only [List.mem_cons, List.not_mem_nil, or_false] at hmem
      rcases hmem with rfl | rfl | rfl | rfl <;> cases htag
    · cases hp : Primitive.ofTag? c with
      | none => rfl
      | some p => simp [Tag.ofChar?, hp] at htag

/-! ## The invariant -/

/-- What stands before the line that a draft is at, by its side of the argument list. -/
inductive Lead (options : Options) : Side → List Char → Prop where
  | before : Lead options .before []
  | inside {before : List Char} : IsFiller before →
      Lead options .inside (before ++ ['('])
  | after {before : List Char} {args : Line} : IsFiller before → args.WellFormed →
      Lead options (.after (args.types.map (shown options)))
        (before ++ '(' :: (args.text ++ [')']))

/-- Markers that wait for their element, and the filler behind them. -/
inductive Pending : Option Nat → List Char → Prop where
  | nothing : Pending none []
  | markers {rank : Nat} {gap : List Char} : rank ≠ 0 → IsFiller gap →
      Pending (some rank) (List.replicate rank '[' ++ gap)

/-- Either way, what waits is as many markers as are owed, and filler if there are any. -/
theorem Pending.exists_gap {owed : Option Nat} {pending : List Char} (h : Pending owed pending) :
    ∃ gap, pending = List.replicate (owed.getD 0) '[' ++ gap ∧ IsFiller gap ∧
      (owed.getD 0 = 0 → gap = []) := by
  cases h with
  | nothing => exact ⟨[], rfl, IsFiller.nil, fun _ => rfl⟩
  | @markers rank gap hrank hgap => exact ⟨gap, rfl, hgap, fun hzero => absurd hzero hrank⟩

namespace Draft

/-- What a draft of the consumed text can look like. -/
inductive Invariant (options : Options) : List Char → Draft → Prop where
  | mk {side : Side} {line : Line} {owed : Option Nat} {lead pending : List Char} :
      Lead options side lead → line.WellFormed → Pending owed pending →
      Invariant options (lead ++ line.text ++ pending)
        ⟨side, (line.types.map (shown options)).toArray, owed⟩

variable {options : Options}

theorem Invariant.start : Invariant options [] start := .mk .before Line.WellFormed.nil .nothing

/-- A skipped character is filler behind the line or behind the markers. -/
theorem Invariant.fill {text : List Char} {draft : Draft} (h : Invariant options text draft)
    {c : Char} (hc : Filler c) : Invariant options (text ++ [c]) draft := by
  cases h with
  | @mk side line owed lead pending hlead hline hpending =>
      cases hpending with
      | nothing =>
          -- nothing waits, so the character is trailing filler of the line
          have hkept := Invariant.mk hlead (hline.fill hc) .nothing
          rw [Line.text_fill, Line.types_fill] at hkept
          simpa using hkept
      | @markers rank gap hrank hgap =>
          -- markers wait, and the character comes into their gap
          have hkept := Invariant.mk hlead hline (.markers hrank (hgap.push hc))
          simpa using hkept

/-- An element is one more type, with the markers that waited for it. -/
theorem Invariant.add {text : List Char} {draft : Draft} (h : Invariant options text draft)
    {element : Element} (hclosed : element.Closed) :
    Invariant options (text ++ element.spell)
      ⟨draft.side, draft.types.push (shown options ⟨element, draft.owed.getD 0⟩), none⟩ := by
  cases h with
  | @mk side line owed lead pending hlead hline hpending =>
      obtain ⟨gap, rfl, hgap, hnone⟩ := hpending.exists_gap
      have hpushed : (line.push ⟨element, owed.getD 0⟩ gap).WellFormed :=
        hline.push hclosed hgap hnone
      have hkept := Invariant.mk hlead hpushed .nothing
      rw [Line.text_push] at hkept
      simpa using hkept

/-! ## What a step can do -/

variable {draft next : Draft}

/-- Markers are owed only once. -/
theorem step_markers_cases {rank : Nat} (h : draft.step options (.markers rank) = .ok next) :
    draft.owed = none ∧ next = { draft with owed := some rank } := by
  simp only [step] at h
  split at h
  · cases h
  · next howed =>
      cases h
      exact ⟨by simpa using howed, rfl⟩

/-- An argument list opens before any type, and only one does. -/
theorem step_argsStart_cases (h : draft.step options .argsStart = .ok next) :
    draft.owed = none ∧ draft.side = .before ∧ draft.types = #[] ∧
      next = { draft with side := .inside } := by
  simp only [step] at h
  split at h
  · cases h
  · next howed =>
      split at h
      · next hbefore =>
          cases h
          exact ⟨by simpa using howed, hbefore.1, hbefore.2, rfl⟩
      · cases h

/-- An argument list is closed only when it is open and owes nothing to a type. -/
theorem step_argsEnd_cases (h : draft.step options .argsEnd = .ok next) :
    draft.side = .inside ∧ draft.owed = none ∧
      next = ⟨.after draft.types.toList, #[], none⟩ := by
  simp only [step] at h
  split at h
  · next hinside =>
      cases h
      exact ⟨hinside.1, hinside.2, rfl⟩
  · cases h

theorem run_cons_cases {token : Token} {tokens : List Token}
    (h : draft.run options (token :: tokens) = .ok next) :
    ∃ mid, draft.step options token = .ok mid ∧ mid.run options tokens = .ok next := by
  simp only [run] at h
  split at h
  · cases h
  · next mid hstep => exact ⟨mid, hstep, h⟩

/-- A draft that can be finished owes nothing. It has no argument list, or a closed one with a type
behind it. -/
theorem finish_cases {insert s : String} (h : draft.finish insert = .ok s) :
    draft.owed = none ∧
      ((draft.side = .before ∧ s = field insert draft.types.toList) ∨
        ∃ args, draft.side = .after args ∧ draft.types ≠ #[] ∧
          s = method insert args draft.types.toList) := by
  unfold finish at h
  split at h
  · cases h
  · next howed =>
      refine ⟨by simpa using howed, ?_⟩
      split at h
      · next hside =>
          cases h
          exact .inl ⟨hside, rfl⟩
      · cases h
      · next args hside =>
          split at h
          · cases h
          · next htypes =>
              cases h
              exact .inr ⟨args, hside, htypes, rfl⟩

/-! ## Tokens keep the invariant -/

/-- A token keeps the invariant: an element becomes an item, markers wait, and a parenthesis makes
the line a part of the lead and starts the next one. -/
theorem Invariant.step {text : List Char} {token : Token} (h : Invariant options text draft)
    (htoken : token.WellFormed) (hstep : draft.step options token = .ok next) :
    Invariant options (text ++ token.text) next := by
  cases token with
  | primitive p =>
      cases hstep
      have hclosed : (Element.primitive p).Closed := trivial
      exact h.add hclosed
  | className internalName =>
      cases hstep
      have hclosed : (Element.object (String.ofList internalName)).Closed := by
        show ';' ∉ (String.ofList internalName).toList
        rw [String.toList_ofList]
        exact htoken
      have hkept := h.add hclosed
      simpa [Element.spell, shown, Token.text, Draft.add] using hkept
  | markers rank =>
      -- nothing waited before, so these are the first markers and their gap is empty
      obtain ⟨howed, rfl⟩ := step_markers_cases hstep
      cases h with
      | mk hlead hline hpending =>
          simp only at howed
          subst howed
          cases hpending
          have hmarkers : Pending (some rank) (List.replicate rank '[' ++ []) :=
            .markers htoken IsFiller.nil
          have hkept := Invariant.mk hlead hline hmarkers
          simpa [Token.text] using hkept
  | argsStart =>
      obtain ⟨howed, hside, htypes, rfl⟩ := step_argsStart_cases hstep
      cases h with
      | @mk side line owed lead pending hlead hline hpending =>
          simp only at howed hside htypes
          subst howed hside
          cases hpending
          cases hlead
          -- no type was rendered, so the line is nothing but filler
          have hitems : line.items = [] := by simpa [Line.types] using htypes
          have hinside : Lead options .inside (line.after ++ ['(']) := .inside hline.after
          have hkept := Invariant.mk hinside Line.WellFormed.nil .nothing
          simpa [Token.text, Line.text, Line.types, hitems] using hkept
  | argsEnd =>
      obtain ⟨hside, howed, rfl⟩ := step_argsEnd_cases hstep
      cases h with
      | @mk side line owed lead pending hlead hline hpending =>
          simp only at howed hside
          subst howed hside
          cases hpending
          cases hlead with
          | @inside before hbefore =>
              -- the line becomes the arguments, and the draft keeps their declarations
              have hafter : Lead options (.after (line.types.map (shown options)))
                  (before ++ '(' :: (line.text ++ [')'])) := .after hbefore hline
              have hkept := Invariant.mk hafter Line.WellFormed.nil .nothing
              simpa [Token.text, Line.text, Line.types] using hkept
  | openClass => cases hstep

/-- The first token of a run that succeeds keeps the invariant, and the others are left to run. -/
theorem Invariant.cons {text : List Char} {token : Token} {tokens : List Token}
    (h : Invariant options text draft) (htoken : token.WellFormed)
    (hrun : draft.run options (token :: tokens) = .ok next) :
    ∃ mid, Invariant options (text ++ token.text) mid ∧ mid.run options tokens = .ok next := by
  obtain ⟨mid, hstep, hrest⟩ := run_cons_cases hrun
  exact ⟨mid, h.step htoken hstep, hrest⟩

/-- Scanned tokens keep the invariant, whatever the scan skips between them. -/
theorem Invariant.run {text rest : List Char} (h : Invariant options text draft)
    (hrun : draft.run options (Token.scan rest) = .ok next) :
    Invariant options (text ++ rest) next := by
  -- on the scan of the text still to be read; what was read is in the invariant
  fun_induction Token.scan rest generalizing text draft with
  | case1 =>
      cases hrun
      rw [List.append_nil]
      exact h
  | case2 c rest p htag ih =>
      obtain rfl := Tag.char_of_ofChar? htag
      have htoken : (Token.primitive p).WellFormed := trivial
      obtain ⟨mid, hkept, hrest⟩ := h.cons htoken hrun
      simpa [Token.text, Tag.char] using ih hkept hrest
  | case3 c rest htag ih =>
      obtain rfl := Tag.char_of_ofChar? htag
      have htoken : (Token.markers (1 + (rest.takeWhile (· = '[')).length)).WellFormed := by
        show _ ≠ 0
        omega
      obtain ⟨mid, hfirst, hrest⟩ := h.cons htoken hrun
      have hmarkers := Ty.replicate_takeWhile_append_dropWhile rest
      have hkept := ih hfirst hrest
      rw [List.append_assoc, Token.text, Nat.add_comm, List.replicate_succ, List.cons_append,
        hmarkers] at hkept
      exact hkept
  | case4 c rest htag hcut =>
      -- an open class name is refused
      obtain ⟨mid, hstep, _⟩ := run_cons_cases hrun
      cases hstep
  | case5 c rest htag name after hcut _ ih =>
      obtain rfl := Tag.char_of_ofChar? htag
      obtain ⟨rfl, hend⟩ := Text.eq_of_cut? hcut
      have htoken : (Token.className name).WellFormed := hend
      obtain ⟨mid, hkept, hrest⟩ := h.cons htoken hrun
      simpa [Token.text, Tag.char] using ih hkept hrest
  | case6 c rest htag ih =>
      obtain rfl := Tag.char_of_ofChar? htag
      have htoken : Token.argsStart.WellFormed := trivial
      obtain ⟨mid, hkept, hrest⟩ := h.cons htoken hrun
      simpa [Token.text, Tag.char] using ih hkept hrest
  | case7 c rest htag ih =>
      obtain rfl := Tag.char_of_ofChar? htag
      have htoken : Token.argsEnd.WellFormed := trivial
      obtain ⟨mid, hkept, hrest⟩ := h.cons htoken hrun
      simpa [Token.text, Tag.char] using ih hkept hrest
  | case8 c rest htag ih =>
      -- the three kinds of characters that the scan passes over
      have hc : Filler c := filler_of_skipped (.inl htag)
      simpa using ih (h.fill hc) hrun
  | case9 c rest a htag ih =>
      have hc : Filler c := filler_of_skipped (.inr (.inl ⟨a, htag⟩))
      simpa using ih (h.fill hc) hrun
  | case10 c rest htag ih =>
      have hc : Filler c := filler_of_skipped (.inr (.inr htag))
      simpa using ih (h.fill hc) hrun

/-- A draft that can be finished has rendered a whole text in parts. -/
theorem Invariant.finish {text : List Char} {s : String} (h : Invariant options text draft)
    (hfinish : draft.finish options.insert = .ok s) :
    ∃ form : Form, form.WellFormed ∧ text = form.text ∧ s = form.declaration options := by
  obtain ⟨howed, hend⟩ := finish_cases hfinish
  cases h with
  | @mk side line owed lead pending hlead hline hpending =>
      simp only at howed hend
      subst howed
      cases hpending
      rcases hend with ⟨rfl, hs⟩ | ⟨args, rfl, htypes, hs⟩
      · -- no argument list: the line is all there is
        cases hlead
        exact ⟨.field line, hline, by simp [Form.text], hs⟩
      · cases hlead with
        | @after before args hbefore hargs =>
            -- behind the list, the line has a type because the draft has one
            have hsome : line.items ≠ [] := by simpa [Line.types] using htypes
            have hnone : args.types.map (shown options) = [] ↔ args.items = [] := by
              simp [Line.types]
            refine ⟨.method before args line, ⟨hbefore, hargs, hline, hsome⟩, ?_, ?_⟩
            · simp [Form.text]
            · simp only [hs, method, Form.declaration, hnone]

end Draft

/-! ## The language of the renderer -/

theorem renderChars_eq_ok_iff {options : Options} {cs : List Char} {s : String} :
    renderChars options cs = .ok s ↔
      ∃ form : Form, form.WellFormed ∧ cs = form.text ∧ s = form.declaration options := by
  constructor
  · intro h
    unfold renderChars at h
    split at h
    · cases h
    · next draft hrun =>
        have hinv : Draft.Invariant options cs draft := Draft.Invariant.start.run hrun
        exact hinv.finish h
  · rintro ⟨form, hform, rfl, rfl⟩
    exact renderChars_text hform options

/-- A text renders as `s` exactly when it is a well-formed form that declares `s`. -/
theorem render_eq_ok_iff {options : Options} {desc s : String} :
    render options desc = .ok s ↔
      ∃ form : Form, form.WellFormed ∧ desc.toList = form.text ∧ s = form.declaration options := by
  rw [render, mapError_eq_ok_iff, renderChars_eq_ok_iff]

/-! ## Texts that do not render -/

/-- Why a text does not render. -/
def reasons : List Reason :=
  [.unterminatedClass, .danglingMarkers, .unexpectedArguments, .unbalancedArguments,
    .unterminatedArguments, .missingReturnType]

namespace Draft

variable {options : Options} {draft : Draft} {reason : Reason}

theorem mem_reasons_of_step {token : Token} (h : draft.step options token = .error reason) :
    reason ∈ reasons := by
  cases token with
  | primitive p => cases h
  | className internalName => cases h
  | markers rank =>
      simp only [step] at h
      split at h
      · cases h
        decide
      · cases h
  | argsStart =>
      simp only [step] at h
      split at h
      · cases h
        decide
      · split at h
        · cases h
        · cases h
          decide
  | argsEnd =>
      simp only [step] at h
      split at h
      · cases h
      · cases h
        decide
  | openClass =>
      cases h
      decide

theorem mem_reasons_of_run {tokens : List Token} (h : draft.run options tokens = .error reason) :
    reason ∈ reasons := by
  induction tokens generalizing draft with
  | nil => cases h
  | cons token tokens ih =>
      simp only [run] at h
      split at h
      · next hstep =>
          cases h
          exact mem_reasons_of_step hstep
      · exact ih h

theorem mem_reasons_of_finish {insert : String} (h : draft.finish insert = .error reason) :
    reason ∈ reasons := by
  unfold finish at h
  split at h
  · cases h
    decide
  · split at h
    · cases h
    · cases h
      decide
    · split at h
      · cases h
        decide
      · cases h

end Draft

theorem mem_reasons_of_renderChars {options : Options} {cs : List Char} {reason : Reason}
    (h : renderChars options cs = .error reason) : reason ∈ reasons := by
  unfold renderChars at h
  split at h
  · next hrun =>
      cases h
      exact Draft.mem_reasons_of_run hrun
  · exact Draft.mem_reasons_of_finish h

/-- **The renderer accepts exactly the texts in well-formed parts**, with filler between the parts,
and it renders such a text as the declaration of its parts, whichever parts these are. Any other
text is refused as a whole, for one of the named reasons. -/
theorem render_accepts_forms (options : Options) (desc : String) :
    ((∃ s, render options desc = .ok s) ↔
      ∃ form : Form, form.WellFormed ∧ desc.toList = form.text) ∧
    (∀ form : Form, form.WellFormed → desc.toList = form.text →
      render options desc = .ok (form.declaration options)) ∧
    ∀ e, render options desc = .error e → ∃ reason, e = .malformed desc reason ∧
      reason.message ∈
        ["unterminated class reference", "array marker without element type",
          "unexpected argument list", "unbalanced argument list", "unterminated argument list",
          "missing return type"] := by
  have hforms : ∀ form : Form, form.WellFormed → desc.toList = form.text →
      render options desc = .ok (form.declaration options) := by
    intro form hform hdesc
    exact render_eq_ok_iff.mpr ⟨form, hform, hdesc, rfl⟩
  refine ⟨⟨?_, ?_⟩, hforms, ?_⟩
  · rintro ⟨s, h⟩
    obtain ⟨form, hform, hdesc, _⟩ := render_eq_ok_iff.mp h
    exact ⟨form, hform, hdesc⟩
  · rintro ⟨form, hform, hdesc⟩
    exact ⟨_, hforms form hform hdesc⟩
  · intro e h
    unfold render at h
    cases hrender : renderChars options desc.toList with
    | ok s =>
        rw [hrender] at h
        cases h
    | error reason =>
        rw [hrender] at h
        cases h
        have hmem : reason.message ∈ reasons.map Reason.message :=
          List.mem_map_of_mem (mem_reasons_of_renderChars hrender)
        exact ⟨reason, rfl, hmem⟩

/-- Filler in every place that a form has for it, with an empty class name, and markers that another
run of markers keeps from their element. -/
theorem render_accepts_forms_with_filler :
    render ⟨false, "m"⟩ "-([ -I, L;)?[Lp/a(;J" = .ok "a([] long m( int[] ,  )" ∧
      ∃ reason, render {} "[x[I" = .error (.malformed "[x[I" reason) ∧
        reason.message ∈ reasons.map Reason.message := by
  constructor
  · obtain ⟨_, hforms, _⟩ := render_accepts_forms ⟨false, "m"⟩ "-([ -I, L;)?[Lp/a(;J"
    have hbefore : IsFiller ['-'] := by decide
    have hargs : Line.WellFormed
        ⟨[⟨[], ⟨.primitive .int, 1⟩, [' ', '-']⟩, ⟨[',', ' '], ⟨.object "", 0⟩, []⟩], []⟩ := by
      decide
    have hresult : Line.WellFormed
        ⟨[⟨['?'], ⟨.object "p/a(", 1⟩, []⟩, ⟨[], ⟨.primitive .long, 0⟩, []⟩], []⟩ := by
      decide
    exact hforms (.method _ _ _) ⟨hbefore, hargs, hresult, List.cons_ne_nil _ _⟩ rfl
  · obtain ⟨_, _, hrefused⟩ := render_accepts_forms {} "[x[I"
    have herror : render {} "[x[I" = .error (.malformed "[x[I" .danglingMarkers) := by cbv
    obtain ⟨reason, hreason, hmessage⟩ := hrefused _ herror
    exact ⟨reason, hreason ▸ herror, hmessage⟩

end Linkage.Declaration
