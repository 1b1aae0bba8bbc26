import Linkage.ClassName
import Linkage.DescriptorError
import Linkage.Tag
import Linkage.Text.Cut
import Linkage.Ty.Basic

/-!
# Declarations

Renders the text of a descriptor the way a programmer would declare it:

    [I                        int[]
    (ILjava/lang/String;)V    void name( int , String )

The text `insert` of the options, here `name`, follows a field and stands before the argument list
of a method. Classes show by their simple name or, on demand, by their dotted name without
`java.lang.`.

The tokens of the text are folded into a `Draft`, which holds the declarations so far, the array
dimensions that the next element is owed, and on which side of the argument list it stands.
`Draft.finish` puts the parts together. A text without any known part is a field without a type, and
renders as `insert` alone.
-/

namespace Linkage.Declaration

/-! ### Tokens

The renderer takes any text for a descriptor and skips what it does not know. `Token.scan` finds
the parts that it does know:

* a primitive letter, or a class name between `L` and the next `;`, perhaps empty;
* a whole run of array markers;
* the two parentheses of an argument list.

A class name without its `;` takes the rest of the text with it (`Token.openClass`). Everything
else vanishes, so a run of array markers and the element it belongs to need not be neighbours. -/

/-- A part of a text that the renderer knows. -/
inductive Token where
  | primitive (p : Primitive)
  | className (internalName : List Char)
  | markers (rank : Nat)
  | argsStart
  | argsEnd
  /-- A class name that never ends. -/
  | openClass
  deriving DecidableEq, Repr

namespace Token

/-- The tokens of a text, in order. -/
def scan : List Char → List Token
  | [] => []
  | c :: rest =>
    match Tag.ofChar? c with
    | some (.primitive p) => primitive p :: scan rest
    | some .arrayDim =>
      markers (1 + (rest.takeWhile (· = '[')).length) :: scan (rest.dropWhile (· = '['))
    | some .classStart =>
      match h : Text.cut? ';' rest with
      | none => [openClass]
      | some (name, after) =>
        have := Text.length_lt_of_cut? h
        className name :: scan after
    | some .argsStart => argsStart :: scan rest
    | some .argsEnd => argsEnd :: scan rest
    | some .classEnd | some (.annotationValue _) | none => scan rest
termination_by cs => cs.length
decreasing_by
  all_goals
    have := (List.dropWhile_suffix (· = '[') (l := rest)).length_le
    simp only [List.length_cons]
    omega

end Token

/-! ### Options -/

structure Options where
  /-- Show dotted class names without `java.lang.`, not just simple ones. -/
  fullNames : Bool := false
  /-- Stands after a field, and before the argument list of a method. -/
  insert : String := ""
  deriving DecidableEq, Repr

/-! ### Class names -/

/-- The part after the last dot, unless that dot comes first. -/
def simpleName (dotted : List Char) : List Char :=
  match Text.cutLast? '.' dotted with
  | some (_ :: _, simple) => simple
  | some ([], _) | none => dotted

def corePackage : List Char := "java.lang.".toList

/-- The name without a leading `java.lang.`. -/
def withoutCorePackage (dotted : List Char) : List Char :=
  if corePackage.isPrefixOf dotted then dotted.drop corePackage.length else dotted

/-- The name under which a class shows. -/
def className (options : Options) (internalName : List Char) : String :=
  let dotted := (ClassName.dottedOfInternal (String.ofList internalName)).toList
  String.ofList (if options.fullNames then withoutCorePackage dotted else simpleName dotted)

/-! ### Drafts -/

/-- On which side of the argument list a draft stands. -/
inductive Side where
  | before
  | inside
  | after (args : List String)
  deriving DecidableEq, Repr

structure Draft where
  side : Side
  /-- The types rendered on this side. -/
  types : Array String
  /-- The array dimensions that the next element is owed. -/
  owed : Option Nat
  deriving DecidableEq, Repr

namespace Draft

def start : Draft := ⟨.before, #[], none⟩

/-- Render an element, with the dimensions it is owed. -/
def add (draft : Draft) (name : String) : Draft :=
  ⟨draft.side, draft.types.push (name ++ Ty.brackets (draft.owed.getD 0)), none⟩

def step (options : Options) (draft : Draft) : Token → Except Reason Draft
  | .primitive p => .ok (draft.add p.keyword)
  | .className internalName => .ok (draft.add (className options internalName))
  | .markers rank =>
    if draft.owed.isSome then .error .danglingMarkers
    else .ok { draft with owed := some rank }
  | .argsStart =>
    if draft.owed.isSome then .error .danglingMarkers
    else if draft.side = .before ∧ draft.types = #[] then .ok { draft with side := .inside }
    else .error .unexpectedArguments
  | .argsEnd =>
    if draft.side = .inside ∧ draft.owed = none then .ok ⟨.after draft.types.toList, #[], none⟩
    else .error .unbalancedArguments
  | .openClass => .error .unterminatedClass

def run (options : Options) : Draft → List Token → Except Reason Draft
  | draft, [] => .ok draft
  | draft, token :: tokens =>
    match draft.step options token with
    | .error reason => .error reason
    | .ok draft => run options draft tokens

/-- A field: the type and the insert, as far as there are any. -/
def field (insert : String) (types : List String) : String :=
  let type := " ".intercalate types
  if type = "" then insert
  else if insert = "" then type
  else type ++ " " ++ insert

/-- A method: the return type, the insert, and the arguments. -/
def method (insert : String) (args types : List String) : String :=
  " ".intercalate types ++ " " ++ insert ++ "("
    ++ (if args = [] then "" else " " ++ " , ".intercalate args) ++ " )"

def finish (insert : String) (draft : Draft) : Except Reason String :=
  if draft.owed.isSome then .error .danglingMarkers
  else
    match draft.side with
    | .before => .ok (field insert draft.types.toList)
    | .inside => .error .unterminatedArguments
    | .after args =>
      if draft.types = #[] then .error .missingReturnType
      else .ok (method insert args draft.types.toList)

end Draft

/-! ### Rendering -/

def renderChars (options : Options) (cs : List Char) : Except Reason String :=
  match Draft.start.run options (Token.scan cs) with
  | .error reason => .error reason
  | .ok draft => draft.finish options.insert

/-- Render a descriptor as a declaration. -/
def render (options : Options) (desc : String) : Except DescriptorError String :=
  (renderChars options desc.toList).mapError (.malformed desc)

example : render { insert := "counts" } "[[J" = .ok "long[][] counts" := by cbv
example : render {} "(Ljava/util/Map$Entry;I)V" = .ok "void ( Map$Entry , int )" := by cbv
example : render { fullNames := true } "[ - Ljava/lang/Object;" = .ok "Object[]" := by cbv
example : render { insert := "x" } "??" = .ok "x" := by cbv
example : render {} "[x[I" = .error (.malformed "[x[I" .danglingMarkers) := by cbv

end Linkage.Declaration
