/-!
# Log records and computations that leave them

The library does no output of its own: a computation that has something to report returns its
value together with the records it leaves, the oldest first.  `Logged` is that pair, with the monad
in which records of consecutive steps follow one another.  Taking the value alone commutes with
every step (`Logged.value_bind`), so that what is computed can be stated without its log.
-/

set_option autoImplicit false

namespace LosslessAudio

/-- How severe a record is, from the most to the least severe. -/
inductive Level where
  | error
  | warn
  | info
  | debug
  | trace
  deriving DecidableEq, Repr, Inhabited

namespace Level

/-- The place of a level in the order of severity, 0 being the most severe. -/
def rank : Level → Nat
  | .error => 0
  | .warn => 1
  | .info => 2
  | .debug => 3
  | .trace => 4

/-- `a ≤ b` says that `a` is at least as severe as `b`. -/
instance : LE Level := ⟨fun a b ↦ a.rank ≤ b.rank⟩

instance (a b : Level) : Decidable (a ≤ b) :=
  inferInstanceAs (Decidable (a.rank ≤ b.rank))

/-- The name of a level in a log line. -/
def name : Level → String
  | .error => "ERROR"
  | .warn => "WARN"
  | .info => "INFO"
  | .debug => "DEBUG"
  | .trace => "TRACE"

end Level

/-- The part of the program that leaves a record. -/
inductive Origin where
  | header
  | wave
  | pendingInput
  | decoder
  | inspection
  | transcoding
  | worker
  | recorder
  deriving DecidableEq, Repr

/-- The name under which a log line reports its origin. -/
def Origin.name : Origin → String
  | .header => "shorten::structs::header"
  | .wave => "shorten::structs::wave"
  | .pendingInput => "shorten::process::input"
  | .decoder => "shorten::process::decode"
  | .inspection => "shnd::cli::info"
  | .transcoding => "shnd::cli::decode::decode_impl"
  | .worker => "shnd::cli::decode::decoder_thread"
  | .recorder => "shnd::cli::decode::handler"

/-- One entry of the log. -/
structure Record where
  level : Level
  origin : Origin
  message : String
  deriving DecidableEq, Repr

/-- A value and the records left on the way to it. -/
structure Logged (α : Type) where
  value : α
  log : List Record
  deriving Repr

namespace Logged

variable {α β : Type}

/-- The records of the first step come before those of the second. -/
protected def bind (x : Logged α) (f : α → Logged β) : Logged β :=
  ⟨(f x.value).value, x.log ++ (f x.value).log⟩

instance : Monad Logged where
  pure a := ⟨a, []⟩
  bind := Logged.bind

/-- Leaves one record. -/
def note (level : Level) (origin : Origin) (message : String) : Logged Unit :=
  ⟨(), [⟨level, origin, message⟩]⟩

@[simp] theorem value_pure (a : α) : (pure a : Logged α).value = a := rfl

@[simp] theorem log_pure (a : α) : (pure a : Logged α).log = [] := rfl

@[simp] theorem value_bind (x : Logged α) (f : α → Logged β) :
    (x >>= f).value = (f x.value).value := rfl

@[simp] theorem log_bind (x : Logged α) (f : α → Logged β) :
    (x >>= f).log = x.log ++ (f x.value).log := rfl

@[simp] theorem value_map (f : α → β) (x : Logged α) : (f <$> x).value = f x.value := rfl

@[simp] theorem log_map (f : α → β) (x : Logged α) : (f <$> x).log = x.log :=
  List.append_nil x.log

theorem ext {x y : Logged α} (hv : x.value = y.value) (hl : x.log = y.log) : x = y := by
  cases x; cases y; simp_all

instance : LawfulMonad Logged :=
  LawfulMonad.mk' Logged
    (fun x ↦ ext rfl (List.append_nil x.log))
    (fun _ _ ↦ ext rfl rfl)
    (fun _ _ _ ↦ ext rfl (List.append_assoc _ _ _))

end Logged

end LosslessAudio
