import Mathlib.Data.List.Basic

/-!
# Exceptions

The exception classes of `error.py` and `cache.py`, and those of the
language and the libraries that the modelled code raises, catches or lets
through. A class of neither kind is `other`, or `runtimeError` where it
derives from `RuntimeError`. A message is kept where the source writes
one.
-/

namespace Tydomio

/-- **An exception, by class.** -/
inductive Exc where
  /-- `TydomIoError` itself. -/
  | tydomIoError (message : String)
  /-- `CommunicationError` itself. -/
  | communicationError (message : String)
  | invalidResponse (message : String)
  | invalidRequest (message : String)
  | authorizationError (message : String)
  | invalidTarget (message : String)
  | invalidWrite (message : String)
  /-- `CacheError`, which is no `RuntimeError`. -/
  | cacheError (message : String)
  | jsonDecodeError
  | unicodeDecodeError
  | recursionError
  /-- `ValueError` itself. -/
  | valueError
  /-- `ConnectionClosed` of the websocket library. -/
  | connectionClosed
  | cancelledError
  | timeoutError
  | runtimeError (name : String)
  | other (name : String)
  deriving DecidableEq, Repr

namespace Exc

/-- Whether `except CommunicationError` catches it. -/
def isCommunication : Exc → Bool
  | communicationError _ | invalidResponse _ | invalidRequest _ | authorizationError _ => true
  | _ => false

/-- Whether `except TydomIoError` catches it. -/
def isTydomIo : Exc → Bool
  | tydomIoError _ | invalidTarget _ | invalidWrite _ => true
  | e => e.isCommunication

/-- Whether `except RuntimeError` catches it. -/
def isRuntime : Exc → Bool
  | recursionError | runtimeError _ => true
  | e => e.isTydomIo

/-- Whether `except (InvalidRequest, InvalidResponse)` catches it. -/
def isInvalidMessage : Exc → Bool
  | invalidRequest _ | invalidResponse _ => true
  | _ => false

/-- Whether `except InvalidResponse` catches it. -/
def isInvalidResponse : Exc → Bool
  | invalidResponse _ => true
  | _ => false

end Exc

theorem map_eq_ok_iff {ε α β : Type} {x : Except ε α} {f : α → β} {b : β} :
    x.map f = .ok b ↔ ∃ a, x = .ok a ∧ f a = b := by
  cases x with
  | error e => exact iff_of_false nofun fun ⟨_, h, _⟩ => nomatch h
  | ok a => exact ⟨fun h => ⟨a, rfl, Except.ok.inj h⟩, fun ⟨_, h, hb⟩ => by cases h; rw [← hb]; rfl⟩

theorem bind_eq_ok_iff {ε α β : Type} {x : Except ε α} {f : α → Except ε β} {b : β} :
    (x >>= f) = .ok b ↔ ∃ a, x = .ok a ∧ f a = .ok b := by
  cases x with
  | error e =>
      refine iff_of_false (fun h => ?_) (fun ⟨_, h, _⟩ => ?_)
      · cases h
      · cases h
  | ok a =>
      refine ⟨fun h => ⟨a, rfl, h⟩, ?_⟩
      rintro ⟨_, h, hf⟩
      cases h
      exact hf

theorem bind_eq_error_iff {ε α β : Type} {x : Except ε α} {f : α → Except ε β} {e : ε} :
    (x >>= f) = .error e ↔ x = .error e ∨ ∃ a, x = .ok a ∧ f a = .error e := by
  cases x with
  | error e' => simp [Bind.bind, Except.bind]
  | ok a => simp [Bind.bind, Except.bind]

/-- **A computation raises only exceptions of the given classes.** -/
def RaisesOnly {α : Type*} (classes : Exc → Bool) (result : Except Exc α) : Prop :=
  ∀ e, result = .error e → classes e = true

section RaisesOnly

variable {α β : Type} {classes : Exc → Bool}

theorem raisesOnly_ok (a : α) : RaisesOnly classes (.ok a) := fun _ h => nomatch h

theorem raisesOnly_error {e : Exc} :
    RaisesOnly classes (.error e : Except Exc α) ↔ classes e = true :=
  ⟨fun h => h e rfl, fun h _ he => Except.error.inj he ▸ h⟩

/-- A computation in two parts raises what its parts raise. -/
theorem RaisesOnly.bind {x : Except Exc α} {f : α → Except Exc β} (hx : RaisesOnly classes x)
    (hf : ∀ a, x = .ok a → RaisesOnly classes (f a)) : RaisesOnly classes (x >>= f) := by
  cases x with
  | error e => exact raisesOnly_error.2 (hx e rfl)
  | ok a => exact hf a rfl

theorem raisesOnly_map {x : Except Exc α} {f : α → β} :
    RaisesOnly classes (x.map f) ↔ RaisesOnly classes x := by
  cases x with
  | error e => exact raisesOnly_error.trans raisesOnly_error.symm
  | ok a => exact ⟨fun _ => raisesOnly_ok a, fun _ => raisesOnly_ok (f a)⟩

end RaisesOnly

end Tydomio
