/-!
# `WasmAssembly.Proofs.Checks`: what an accepted sequence of checks says

Declarations, encoders and validators are sequences of checks in `Except`. These lemmas turn "the
sequence gives a result" into what each check said, so that no proof opens the monad.
`FailsOnlyWith` is for the other outcome: an error of a sequence is an error of one of its steps.
-/

set_option autoImplicit false

namespace WasmAssembly

variable {ε α β : Type}

/-- A sequence succeeds exactly when each of its steps does. -/
theorem bind_eq_ok {x : Except ε α} {f : α → Except ε β} {b : β} :
    x >>= f = .ok b ↔ ∃ a, x = .ok a ∧ f a = .ok b := by
  cases x with
  | error e =>
      constructor
      · intro h
        exact absurd h nofun
      · rintro ⟨a, ha, -⟩
        exact absurd ha nofun
  | ok a =>
      constructor
      · intro h
        exact ⟨a, rfl, h⟩
      · rintro ⟨a', ha, h⟩
        rwa [← Except.ok.inj ha] at h

/-- A sequence fails at its first step, or later. -/
theorem bind_eq_error {x : Except ε α} {f : α → Except ε β} {e : ε} :
    x >>= f = .error e ↔ x = .error e ∨ ∃ a, x = .ok a ∧ f a = .error e := by
  cases x with
  | error e' =>
      constructor
      · intro h
        exact .inl (congrArg Except.error (Except.error.inj h))
      · rintro (h | ⟨a, ha, -⟩)
        · exact congrArg Except.error (Except.error.inj h)
        · exact absurd ha nofun
  | ok a =>
      constructor
      · intro h
        exact .inr ⟨a, rfl, h⟩
      · rintro (h | ⟨a', ha, h⟩)
        · exact absurd h nofun
        · rwa [← Except.ok.inj ha] at h

/-- A check in front of a sequence has no result of its own. -/
theorem check_bind_eq_ok {x : Except ε Unit} {f : Unit → Except ε β} {b : β} :
    x >>= f = .ok b ↔ x = .ok () ∧ f () = .ok b := by
  rw [bind_eq_ok]
  constructor
  · rintro ⟨⟨⟩, hx, hf⟩
    exact ⟨hx, hf⟩
  · rintro ⟨hx, hf⟩
    exact ⟨(), hx, hf⟩

/-- A result that is only rewritten is there if the result is. -/
theorem map_eq_ok {x : Except ε α} {f : α → β} {b : β} :
    x.map f = .ok b ↔ ∃ a, x = .ok a ∧ f a = b := by
  cases x with
  | error e => simp only [Except.map, reduceCtorEq, false_and, exists_false]
  | ok a => simp only [Except.map, Except.ok.injEq, exists_eq_left']

/-- A result without a check is accepted. -/
theorem pure_eq_ok {a b : α} : (pure a : Except ε α) = .ok b ↔ a = b := by
  show (Except.ok a : Except ε α) = .ok b ↔ a = b
  rw [Except.ok.injEq]

/-- A rule whose breach is an error. -/
theorem require_eq_ok {p : Prop} [Decidable p] {e : ε} :
    (if p then .ok () else .error e : Except ε Unit) = .ok () ↔ p := by
  by_cases hp : p
  · rw [if_pos hp]
    exact ⟨fun _ => hp, fun _ => rfl⟩
  · rw [if_neg hp]
    exact ⟨nofun, fun h => absurd h hp⟩

/-- A rule that forbids something. -/
theorem forbid_eq_ok {p : Prop} [Decidable p] {e : ε} :
    (if p then .error e else .ok () : Except ε Unit) = .ok () ↔ ¬p := by
  by_cases hp : p
  · rw [if_pos hp]
    exact ⟨nofun, fun h => absurd hp h⟩
  · rw [if_neg hp]
    exact ⟨fun _ => hp, fun _ => rfl⟩

/-! ### Errors -/

/-- Each error that is given is of some kind. -/
def FailsOnlyWith (P : ε → Prop) (x : Except ε α) : Prop :=
  ∀ e, x = .error e → P e

variable {P : ε → Prop}

/-- What succeeds fails with nothing. -/
theorem failsOnlyWith_ok (a : α) : FailsOnlyWith P (.ok a : Except ε α) :=
  nofun

/-- A failure is one of its error. -/
theorem failsOnlyWith_error {e : ε} (h : P e) : FailsOnlyWith P (.error e : Except ε α) := by
  rintro _ ⟨⟩
  exact h

/-- The errors of a sequence are those of its steps. -/
theorem FailsOnlyWith.bind {x : Except ε α} {f : α → Except ε β} (hx : FailsOnlyWith P x)
    (hf : ∀ a, FailsOnlyWith P (f a)) : FailsOnlyWith P (x >>= f) := by
  cases x with
  | error e => exact failsOnlyWith_error (hx e rfl)
  | ok a => exact hf a

/-- To rewrite a result leaves the errors as they are. -/
theorem FailsOnlyWith.map {x : Except ε α} (hx : FailsOnlyWith P x) (f : α → β) :
    FailsOnlyWith P (x.map f) := by
  cases x with
  | error e => exact failsOnlyWith_error (hx e rfl)
  | ok a => exact failsOnlyWith_ok _

/-- A rule whose breach is an error of the kind. -/
theorem failsOnlyWith_require {p : Prop} [Decidable p] {a : α} {e : ε} (h : P e) :
    FailsOnlyWith P (if p then .ok a else .error e : Except ε α) := by
  split
  · exact failsOnlyWith_ok a
  · exact failsOnlyWith_error h

/-- A rule that forbids something, with an error of the kind. -/
theorem failsOnlyWith_forbid {p : Prop} [Decidable p] {a : α} {e : ε} (h : P e) :
    FailsOnlyWith P (if p then .error e else .ok a : Except ε α) := by
  split
  · exact failsOnlyWith_error h
  · exact failsOnlyWith_ok a

end WasmAssembly
