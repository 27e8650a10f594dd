import PddlOutline.Log.Event

/-!
This module contains computations that keep a log. What was logged before a failure is kept.
-/

namespace PddlOutline

structure Traced (ε α : Type) where
  log : List Event
  outcome : Except ε α

namespace Traced

variable {ε α β : Type}

def emit (event : Event) : Traced ε Unit :=
  ⟨[event], .ok ()⟩

def ofExcept (outcome : Except ε α) : Traced ε α :=
  ⟨[], outcome⟩

def bind (x : Traced ε α) (f : α → Traced ε β) : Traced ε β :=
  match x.outcome with
  | .ok a => ⟨x.log ++ (f a).log, (f a).outcome⟩
  | .error e => ⟨x.log, .error e⟩

instance : Monad (Traced ε) where
  pure a := ⟨[], .ok a⟩
  bind := bind

def mapError {δ : Type} (f : ε → δ) (x : Traced ε α) : Traced δ α :=
  ⟨x.log, x.outcome.mapError f⟩

@[simp]
theorem log_pure (a : α) : (pure a : Traced ε α).log = [] := rfl

@[simp]
theorem outcome_pure (a : α) : (pure a : Traced ε α).outcome = .ok a := rfl

@[simp]
theorem log_emit (event : Event) : (emit event : Traced ε Unit).log = [event] := rfl

@[simp]
theorem outcome_emit (event : Event) : (emit event : Traced ε Unit).outcome = .ok () := rfl

@[simp]
theorem log_ofExcept (outcome : Except ε α) : (ofExcept outcome).log = [] := rfl

@[simp]
theorem outcome_ofExcept (outcome : Except ε α) : (ofExcept outcome).outcome = outcome := rfl

@[simp]
theorem outcome_bind (x : Traced ε α) (f : α → Traced ε β) :
    (x >>= f).outcome = x.outcome >>= fun a => (f a).outcome := by
  cases x with
  | mk log outcome => cases outcome <;> rfl

theorem log_bind_of_ok {x : Traced ε α} {a : α} (h : x.outcome = .ok a) (f : α → Traced ε β) :
    (x >>= f).log = x.log ++ (f a).log := by
  show (bind x f).log = _
  simp [bind, h]

theorem log_bind_of_error {x : Traced ε α} {e : ε} (h : x.outcome = .error e)
    (f : α → Traced ε β) : (x >>= f).log = x.log := by
  show (bind x f).log = _
  simp [bind, h]

theorem map_id (x : Traced ε α) : id <$> x = x := by
  cases x with
  | mk log outcome => cases outcome <;> simp [Functor.map, bind]

theorem bind_assoc {γ : Type} (x : Traced ε α) (f : α → Traced ε β) (g : β → Traced ε γ) :
    x >>= f >>= g = x >>= fun a => f a >>= g := by
  show bind (bind x f) g = bind x fun a => bind (f a) g
  cases x with
  | mk log outcome =>
    cases outcome with
    | ok a =>
      simp only [bind]
      split <;> simp_all
    | error e => rfl

instance : LawfulMonad (Traced ε) :=
  LawfulMonad.mk' (Traced ε) map_id (fun _ _ => rfl) bind_assoc

end Traced
end PddlOutline
