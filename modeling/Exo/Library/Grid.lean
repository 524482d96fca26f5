import Mathlib.Order.Monotone.Basic
import Mathlib.Tactic.Ring

/-!
# Equidistant grids

The points `anchor + n * interval` with `1 ≤ n`, and the first of them strictly after a time.
-/

namespace Exo.Library.Grid

/-- The grid's points; the anchor itself is none of them. -/
def Point (anchor interval time : ℕ) : Prop := ∃ n, 1 ≤ n ∧ time = anchor + n * interval

/-- The first point after a time. -/
def nextAfter (anchor interval after : ℕ) : ℕ :=
  anchor + ((after - anchor) / interval + 1) * interval

theorem point_nextAfter (anchor interval after : ℕ) :
    Point anchor interval (nextAfter anchor interval after) :=
  ⟨(after - anchor) / interval + 1, Nat.le_add_left _ _, rfl⟩

theorem lt_nextAfter {interval : ℕ} (hinterval : 0 < interval) (anchor after : ℕ) :
    after < nextAfter anchor interval after := by
  have hmod := Nat.mod_lt (after - anchor) hinterval
  have hdiv := Nat.div_add_mod' (after - anchor) interval
  calc after ≤ anchor + (after - anchor) := by omega
    _ = anchor + ((after - anchor) / interval * interval + (after - anchor) % interval) := by
        rw [hdiv]
    _ < anchor + ((after - anchor) / interval * interval + interval) := by omega
    _ = nextAfter anchor interval after := by rw [nextAfter, add_one_mul]

theorem nextAfter_le {anchor interval after time : ℕ} (hpoint : Point anchor interval time)
    (hafter : after < time) : nextAfter anchor interval after ≤ time := by
  obtain ⟨n, hn, rfl⟩ := hpoint
  have hquotient : (after - anchor) / interval < n := by
    rcases Nat.eq_zero_or_pos interval with rfl | hinterval
    · simpa using Nat.lt_of_succ_le hn
    · rw [Nat.div_lt_iff_lt_mul hinterval]
      have hpos : 0 < n * interval := Nat.mul_pos hn hinterval
      omega
  exact Nat.add_le_add_left (Nat.mul_le_mul_right interval hquotient) anchor

/-- Two points differ by a multiple of the interval. -/
theorem Point.exists_add {anchor interval first second : ℕ} (hfirst : Point anchor interval first)
    (hsecond : Point anchor interval second) (hle : first ≤ second) (hinterval : 0 < interval) :
    ∃ k, second = first + k * interval := by
  obtain ⟨m, -, rfl⟩ := hfirst
  obtain ⟨n, -, rfl⟩ := hsecond
  have hmn : m ≤ n := by
    by_contra hlt
    have hmul : n * interval < m * interval := Nat.mul_lt_mul_of_pos_right (by omega) hinterval
    omega
  obtain ⟨k, rfl⟩ := Nat.exists_eq_add_of_le hmn
  exact ⟨k, by ring⟩

end Exo.Library.Grid
