import AriaShell.Executor.Executor
/-! The `int64_t` arithmetic of the executor. `applyArithmetic` and the unary minus compute on the
machine word: `+`, `-`, `*` and the unary minus never throw and return the exact result wrapped to
64 bits, which is the exact result only when it fits in `int64_t`; `/` throws on division by zero
and kills the process on `INT64_MIN / -1`. -/
namespace AriaShell.Executor

open AriaShell.Parser

/-- The range of `int64_t`. -/
def InInt64 (v : Int) : Prop := -2 ^ 63 ≤ v ∧ v < 2 ^ 63

instance (v : Int) : Decidable (InInt64 v) := inferInstanceAs (Decidable (_ ∧ _))

/-- What a 64-bit operation with exact result `m` returns: no exception, and a value in range,
congruent to `m` modulo `2^64`, equal to `m` exactly when `m` is in range. -/
def WrapsTo {ε : Type} (m : Int) (x : Except ε Value) : Prop :=
  ∃ v, x = .ok (.int v) ∧ InInt64 v ∧ v % 2 ^ 64 = m % 2 ^ 64 ∧ (v = m ↔ InInt64 m)

private theorem wrap_spec (v : Int) :
    InInt64 (wrap v) ∧ wrap v % 2 ^ 64 = v % 2 ^ 64 ∧ (wrap v = v ↔ InInt64 v) := by
  unfold wrap InInt64 Int.bmod
  dsimp only
  split <;> omega

private theorem wrapsTo_wrap {ε : Type} (m : Int) : WrapsTo m (.ok (.int (wrap m)) : Except ε Value) :=
  ⟨_, rfl, wrap_spec m⟩

example : wrap (2 ^ 63) = -2 ^ 63 := by decide

/-- `l + r`, `l - r`, `l * r` and `-l` on `int64_t` operands wrap silently, with no throw; `l / r`
throws on division by zero, kills the process on `INT64_MIN / -1`, and is exact otherwise. -/
theorem int64_arithmetic_wraps_silently (l r : Int) :
    WrapsTo (l + r) (applyArithmetic .plus (.int l) (.int r)) ∧
      WrapsTo (l - r) (applyArithmetic .minus (.int l) (.int r)) ∧
      WrapsTo (l * r) (applyArithmetic .star (.int l) (.int r)) ∧
      (r ≠ 0 → ¬(l = -2 ^ 63 ∧ r = -1) → WrapsTo (l.tdiv r) (applyArithmetic .slash (.int l) (.int r))) ∧
      applyArithmetic .slash (.int (-2 ^ 63)) (.int (-1)) = .error .divisionTrap ∧
      WrapsTo (-l) (unaryOp .minus (.int l)) :=
  ⟨wrapsTo_wrap _, wrapsTo_wrap _, wrapsTo_wrap _,
    fun hr ht => by simpa only [applyArithmetic, if_neg hr, if_neg ht] using wrapsTo_wrap (l.tdiv r), rfl,
    wrapsTo_wrap _⟩

/-- `INT64_MAX + 1` returns a value, and not `2^63`. -/
theorem int64_arithmetic_wraps_silently_max :
    ∃ v, applyArithmetic .plus (.int (2 ^ 63 - 1)) (.int 1) = .ok (.int v) ∧ v ≠ 2 ^ 63 := by
  obtain ⟨v, h, hin, -⟩ := (int64_arithmetic_wraps_silently (2 ^ 63 - 1) 1).1
  exact ⟨v, h, Int.ne_of_lt hin.2⟩

end AriaShell.Executor
