/-!
# Logs

An operation that logs is a pure function to `Logged ε α`: its answer, and the events of type `ε`
that it emitted, oldest first. Running one operation after another appends their events
(`bind_log`).

An event shows in a log as a `LogRecord`: a level, the component it came from, a message and named
values.
-/

namespace Linkage

/-! ### Answers with events -/

/-- An answer, and the events emitted on the way to it, oldest first. -/
structure Logged (ε α : Type) where
  value : α
  log : List ε
  deriving DecidableEq, Repr

namespace Logged

variable {ε α β : Type}

def quiet (value : α) : Logged ε α := ⟨value, []⟩

def noting (value : α) (event : ε) : Logged ε α := ⟨value, [event]⟩

/-- The same events with another answer. -/
def map (f : α → β) (x : Logged ε α) : Logged ε β := ⟨f x.value, x.log⟩

/-- One operation, and then another that depends on its answer. -/
def bind (x : Logged ε α) (f : α → Logged ε β) : Logged ε β :=
  ⟨(f x.value).value, x.log ++ (f x.value).log⟩

instance : Monad (Logged ε) where
  pure := quiet
  bind := bind

@[simp] theorem quiet_value (a : α) : (quiet a : Logged ε α).value = a := rfl

@[simp] theorem quiet_log (a : α) : (quiet a : Logged ε α).log = [] := rfl

@[simp] theorem noting_value (a : α) (event : ε) : (noting a event).value = a := rfl

@[simp] theorem noting_log (a : α) (event : ε) : (noting a event).log = [event] := rfl

@[simp] theorem map_value (f : α → β) (x : Logged ε α) : (x.map f).value = f x.value := rfl

@[simp] theorem map_log (f : α → β) (x : Logged ε α) : (x.map f).log = x.log := rfl

@[simp] theorem pure_value (a : α) : (pure a : Logged ε α).value = a := rfl

@[simp] theorem pure_log (a : α) : (pure a : Logged ε α).log = [] := rfl

@[simp] theorem bind_value (x : Logged ε α) (f : α → Logged ε β) :
    (x >>= f).value = (f x.value).value := rfl

@[simp] theorem bind_log (x : Logged ε α) (f : α → Logged ε β) :
    (x >>= f).log = x.log ++ (f x.value).log := rfl

end Logged

/-! ### Records -/

/-- How much detail a log asks for before it shows a record. -/
inductive Level where
  | debug | trace
  deriving DecidableEq, Repr

def Level.name : Level → String
  | debug => "DEBUG"
  | trace => "TRACE"

inductive LogValue where
  | number (n : Nat)
  | text (s : String)
  deriving DecidableEq, Repr

structure LogRecord where
  level : Level
  /-- The component that logs. -/
  target : String
  message : String
  /-- The named values, in the order in which they are shown. -/
  fields : List (String × LogValue)
  deriving DecidableEq, Repr

end Linkage
