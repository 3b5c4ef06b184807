/-!
# Steps that may fail

A row of steps succeeds if each of them does, and it is then enough to know what each
of them gives.
-/

namespace ElmAtlas

theorem bind_eq_ok {ε α β : Type} {first : Except ε α} {next : α → Except ε β} {result : β} :
    (first >>= next) = .ok result ↔ ∃ value, first = .ok value ∧ next value = .ok result := by
  cases first <;> simp [bind, Except.bind]

/-- What comes next has to agree only on what the first step gives. -/
theorem bind_congr_ok {ε α β : Type} {first : Except ε α} {left right : α → Except ε β}
    (same : ∀ value, first = .ok value → left value = right value) :
    (first >>= left) = (first >>= right) := by
  cases first with
  | ok value => exact same value rfl
  | error fault => rfl

theorem toOption_eq_some {ε α : Type} {outcome : Except ε α} {value : α} :
    outcome.toOption = some value ↔ outcome = .ok value := by
  cases outcome <;> simp [Except.toOption]

end ElmAtlas
