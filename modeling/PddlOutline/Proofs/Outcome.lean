/-!
This module contains how computations that may fail are taken apart: what is known of the steps of
a computation if its outcome is known, and that a change of the errors passes through the steps.
-/

namespace PddlOutline
namespace Outcome

variable {ε δ α β : Type} {x : Except ε α} {f : α → Except ε β}

theorem bind_eq_error {e : ε} :
    x >>= f = .error e ↔ x = .error e ∨ ∃ a, x = .ok a ∧ f a = .error e := by
  cases x with
  | ok a => simp [bind, Except.bind]
  | error e => simp [bind, Except.bind]

theorem bind_eq_ok {b : β} : x >>= f = .ok b ↔ ∃ a, x = .ok a ∧ f a = .ok b := by
  cases x with
  | ok a => simp [bind, Except.bind]
  | error e => simp [bind, Except.bind]

theorem map_eq_error {g : α → β} {e : ε} : x.map g = .error e ↔ x = .error e := by
  cases x with
  | ok a => simp [Except.map]
  | error e => simp [Except.map]

theorem map_eq_ok {g : α → β} {b : β} : x.map g = .ok b ↔ ∃ a, x = .ok a ∧ g a = b := by
  cases x with
  | ok a => simp [Except.map]
  | error e => simp [Except.map]

theorem exists_map_eq_ok {g : α → β} : (∃ b, x.map g = .ok b) ↔ ∃ a, x = .ok a := by
  cases x with
  | ok a => simp [Except.map]
  | error e => simp [Except.map]

@[simp]
theorem mapError_ok (g : ε → δ) (a : α) : (Except.ok a).mapError g = .ok a := rfl

@[simp]
theorem mapError_error (g : ε → δ) (e : ε) :
    (Except.error e : Except ε α).mapError g = .error (g e) := rfl

@[simp]
theorem mapError_bind (g : ε → δ) :
    (x >>= f).mapError g = x.mapError g >>= fun a => (f a).mapError g := by
  cases x with
  | ok a => rfl
  | error e => rfl

theorem mapError_eq_ok {g : ε → δ} {a : α} : x.mapError g = .ok a ↔ x = .ok a := by
  cases x with
  | ok a' => simp
  | error e => simp

theorem mapError_id (x : Except ε α) : x.mapError id = x := by
  cases x with
  | ok a => rfl
  | error e => rfl

theorem mapError_map (g : ε → δ) (h : α → β) :
    (x.map h).mapError g = (x.mapError g).map h := by
  cases x with
  | ok a => rfl
  | error e => rfl

theorem map_map {γ : Type} (g : α → β) (h : β → γ) : (x.map g).map h = x.map (h ∘ g) := by
  cases x with
  | ok a => rfl
  | error e => rfl

/--
What passes through the steps of a computation passes through the computation.
-/
theorem map_bind_eq {γ δ : Type} {h : α → γ} {f : γ → Except ε δ} {g : α → Except ε β} {k : β → δ}
    (hfg : ∀ a, f (h a) = (g a).map k) : x.map h >>= f = (x >>= g).map k := by
  cases x with
  | ok a => exact hfg a
  | error e => rfl

theorem option_map_bind_eq {γ δ : Type} {x : Option α} {h : α → γ} {f : γ → Option δ}
    {g : α → Option β} {k : β → δ} (hfg : ∀ a, f (h a) = (g a).map k) :
    x.map h >>= f = (x >>= g).map k := by
  cases x with
  | none => rfl
  | some a => exact hfg a

/--
Whether two computations fail in the same way, or both succeed with results in the relation `R`.
-/
def Agree (R : α → β → Prop) : Except ε α → Except ε β → Prop
  | .ok a, .ok b => R a b
  | .error e, .error e' => e = e'
  | _, _ => False

theorem agree_of_map_eq {γ : Type} {y : Except ε β} {g : α → γ} {h : β → γ}
    (hxy : x.map g = y.map h) : Agree (fun a b => g a = h b) x y := by
  cases x with
  | ok a =>
    cases y with
    | ok b => exact Except.ok.inj hxy
    | error e => cases hxy
  | error e =>
    cases y with
    | ok b => cases hxy
    | error e' => exact Except.error.inj hxy

theorem Agree.bind {γ δ : Type} {R : α → γ → Prop} {S : β → δ → Prop} {y : Except ε γ}
    {g : γ → Except ε δ} (hxy : Agree R x y)
    (hfg : ∀ a c, x = .ok a → R a c → Agree S (f a) (g c)) : Agree S (x >>= f) (y >>= g) := by
  cases x with
  | ok a =>
    cases y with
    | ok c => exact hfg a c rfl hxy
    | error e => cases hxy
  | error e =>
    cases y with
    | ok c => cases hxy
    | error e' => exact hxy

end Outcome
end PddlOutline
