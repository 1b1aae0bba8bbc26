import Linkage.Proofs.Declaration.Agreement

/-!
# The texts that render

The renderer takes more texts for descriptors than the readers do. It skips every character that
starts nothing (`Filler`), even between the markers of an array and its element, it takes an empty
class name, and it wants no particular number of types:

    item   ::= filler* element  |  filler* '['+ filler* element
    line   ::= item* filler*
    form   ::= line  |  filler* '(' line ')' line        with an item in the second line

A `Form` is such a text taken apart. `Form.text` puts it together again and `Form.declaration` is
the declaration it stands for. This module shows that the renderer finds it (`render_text`). That
no other text renders is in `Linkage.Proofs.Declaration.Language`.
-/

namespace Linkage.Declaration

/-! ## Texts in parts -/

/-- A character that starts no type and no parenthesis. -/
def Filler (c : Char) : Prop := c ∉ ['L', '[', '(', ')'] ∧ Primitive.ofTag? c = none

instance (c : Char) : Decidable (Filler c) :=
  inferInstanceAs (Decidable (c ∉ ['L', '[', '(', ')'] ∧ Primitive.ofTag? c = none))

/-- Text that the renderer passes over. -/
def IsFiller (cs : List Char) : Prop := ∀ c ∈ cs, Filler c

instance (cs : List Char) : Decidable (IsFiller cs) := List.decidableBAll Filler cs

theorem IsFiller.nil : IsFiller [] := List.forall_mem_nil Filler

theorem IsFiller.push {cs : List Char} (h : IsFiller cs) {c : Char} (hc : Filler c) :
    IsFiller (cs ++ [c]) := by
  intro d hd
  rcases List.mem_append.mp hd with hd | hd
  · exact h d hd
  · rw [List.mem_singleton.mp hd]
    exact hc

/-- A type in a text, with the filler around its markers. -/
structure Item where
  /-- The filler before the type. -/
  before : List Char
  type : Ty
  /-- The filler between the markers and the element. -/
  gap : List Char
  deriving DecidableEq, Repr

namespace Item

def text (item : Item) : List Char :=
  item.before ++ (List.replicate item.type.rank '[' ++ (item.gap ++ item.type.element.spell))

structure WellFormed (item : Item) : Prop where
  before : IsFiller item.before
  closed : item.type.element.Closed
  gap : IsFiller item.gap
  /-- Without markers, all filler stands before the type. -/
  no_gap : item.type.rank = 0 → item.gap = []

instance (item : Item) : Decidable item.WellFormed :=
  decidable_of_iff
    (IsFiller item.before ∧ item.type.element.Closed ∧ IsFiller item.gap ∧
      (item.type.rank = 0 → item.gap = []))
    ⟨fun h => ⟨h.1, h.2.1, h.2.2.1, h.2.2.2⟩, fun h => ⟨h.before, h.closed, h.gap, h.no_gap⟩⟩

end Item

/-- Types one after the other. -/
structure Line where
  items : List Item
  /-- The filler after the last type. -/
  after : List Char
  deriving DecidableEq, Repr

namespace Line

def text (line : Line) : List Char := line.items.flatMap Item.text ++ line.after

def types (line : Line) : List Ty := line.items.map Item.type

structure WellFormed (line : Line) : Prop where
  items : ∀ item ∈ line.items, item.WellFormed
  after : IsFiller line.after

instance (line : Line) : Decidable line.WellFormed :=
  decidable_of_iff ((∀ item ∈ line.items, item.WellFormed) ∧ IsFiller line.after)
    ⟨fun h => ⟨h.1, h.2⟩, fun h => ⟨h.items, h.after⟩⟩

theorem WellFormed.nil : WellFormed ⟨[], []⟩ := ⟨List.forall_mem_nil _, IsFiller.nil⟩

theorem WellFormed.closed {line : Line} (h : line.WellFormed) :
    ∀ ty ∈ line.types, ty.element.Closed := by
  intro ty hty
  obtain ⟨item, hitem, rfl⟩ := List.mem_map.mp hty
  exact (h.items item hitem).closed

end Line

/-- A text of the renderer in parts. -/
inductive Form where
  | field (types : Line)
  | method (before : List Char) (args result : Line)
  deriving DecidableEq, Repr

namespace Form

def text : Form → List Char
  | field types => types.text
  | method before args result => before ++ '(' :: (args.text ++ ')' :: result.text)

def WellFormed : Form → Prop
  | field types => types.WellFormed
  | method before args result =>
    IsFiller before ∧ args.WellFormed ∧ result.WellFormed ∧ result.items ≠ []

instance : (form : Form) → Decidable form.WellFormed
  | field types => inferInstanceAs (Decidable types.WellFormed)
  | method before args result => inferInstanceAs (Decidable
      (IsFiller before ∧ args.WellFormed ∧ result.WellFormed ∧ result.items ≠ []))

/-- What the text declares: a field has the insert behind its types, as far as there are any, and a
method has it between the types of its result and the list of its arguments. -/
def declaration (options : Options) : Form → String
  | field types =>
    let type := " ".intercalate (types.types.map (shown options))
    if type = "" then options.insert
    else if options.insert = "" then type
    else type ++ " " ++ options.insert
  | method _ args result =>
    " ".intercalate (result.types.map (shown options)) ++ " " ++ options.insert ++ "("
      ++ (if args.items = [] then ""
        else " " ++ " , ".intercalate (args.types.map (shown options))) ++ " )"

end Form

/-! ## The tokens of a text in parts -/

namespace Token

theorem scan_filler {filler : List Char} (h : IsFiller filler) (rest : List Char) :
    scan (filler ++ rest) = scan rest := by
  apply scan_before
  · intro c hc
    obtain ⟨hstart, hprimitive⟩ := h c hc
    simp only [List.mem_cons, not_or] at hstart
    exact ⟨hstart.1, hstart.2.1, hprimitive⟩
  · intro hopen
    exact (h '(' hopen).1 (by decide)
  · intro hclose
    exact (h ')' hclose).1 (by decide)

/-- An item leaves the tokens of its type, wherever its filler stands. -/
theorem scan_item {item : Item} (h : item.WellFormed) (rest : List Char) :
    scan (item.text ++ rest) = tokens item.type ++ scan rest := by
  obtain ⟨before, ⟨element, rank⟩, gap⟩ := item
  obtain ⟨hbefore, hclosed, hgap, hnone⟩ := h
  rw [Item.text, List.append_assoc, scan_filler hbefore, List.append_assoc, List.append_assoc]
  cases rank with
  | zero =>
      obtain rfl : gap = [] := hnone rfl
      exact scan_element hclosed rest
  | succ rank =>
      -- neither filler nor an element goes on with the run of markers
      have hhead : (gap ++ (element.spell ++ rest)).head? ≠ some '[' := by
        cases gap with
        | nil => exact Ty.head?_element_spell element rest
        | cons c gap =>
            intro hmarker
            obtain rfl : c = '[' := Option.some.inj hmarker
            exact (hgap '[' (by simp)).1 (by decide)
      rw [scan_markers hhead, scan_filler hgap, scan_element hclosed]
      rfl

theorem scan_items {items : List Item} (h : ∀ item ∈ items, item.WellFormed) (rest : List Char) :
    scan (items.flatMap Item.text ++ rest) = (items.map Item.type).flatMap tokens ++ scan rest := by
  induction items with
  | nil => rfl
  | cons item items ih =>
      rw [List.flatMap_cons, List.append_assoc, scan_item (h item (by simp)),
        ih fun other hmem => h other (by simp [hmem]), List.map_cons, List.flatMap_cons,
        List.append_assoc]

theorem scan_line {line : Line} (h : line.WellFormed) (rest : List Char) :
    scan (line.text ++ rest) = line.types.flatMap tokens ++ scan rest := by
  rw [Line.text, List.append_assoc, scan_items h.items, scan_filler h.after, Line.types]

end Token

/-! ## Rendering a text in parts -/

/-- A text in well-formed parts renders as the declaration of these parts. -/
theorem renderChars_text {form : Form} (h : form.WellFormed) (options : Options) :
    renderChars options form.text = .ok (form.declaration options) := by
  cases form with
  | field types =>
      -- a field is one line, all of it before an argument list that never comes
      have hscan := Token.scan_line h []
      rw [List.append_nil, Token.scan, List.append_nil] at hscan
      have hrun := Draft.run_field options h.closed
      simp only [renderChars, Form.text, hscan, hrun]
      rfl
  | method before args result =>
      -- a method is two lines, with the two parentheses as tokens of their own
      obtain ⟨hbefore, hargs, hresult, hsome⟩ := h
      have hscan : Token.scan (Form.method before args result).text =
          .argsStart :: (args.types.flatMap tokens ++ .argsEnd :: result.types.flatMap tokens) := by
        have hlast := Token.scan_line hresult []
        rw [List.append_nil, Token.scan, List.append_nil] at hlast
        rw [Form.text, Token.scan_filler hbefore, Token.scan_argsStart, Token.scan_line hargs,
          Token.scan_argsEnd, hlast]
      have hrun := Draft.run_method options hargs.closed hresult.closed
      have htypes : (result.types.map (shown options)).toArray ≠ #[] := by
        simpa [Line.types] using hsome
      have hnone : args.types.map (shown options) = [] ↔ args.items = [] := by
        simp [Line.types]
      have hfinish : Draft.finish options.insert ⟨.after (args.types.map (shown options)),
          (result.types.map (shown options)).toArray, none⟩ =
            .ok (Draft.method options.insert (args.types.map (shown options))
              (result.types.map (shown options))) := by
        simp [Draft.finish, htypes]
      simp only [renderChars, hscan, hrun, hfinish, Draft.method, Form.declaration, hnone]

end Linkage.Declaration
