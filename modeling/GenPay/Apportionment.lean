import Mathlib.Algebra.BigOperators.Group.Finset.Piecewise
import Mathlib.Algebra.BigOperators.Ring.Finset
import Mathlib.Algebra.Order.BigOperators.Group.Finset
import Mathlib.Data.Finset.Max
import Mathlib.Tactic.Linarith
import Mathlib.Tactic.Ring

/-!
# The method of largest remainders

A total is apportioned among parties with quotas in units of `1/base`: each gets the whole part of its quota, and
the seats left over go to the parties with the largest remainders.  The seats add up to the total (`sum_seats`),
every party rounded up has a remainder (`rest_pos`), and no other apportionment deviates less from the quotas
(`deviation_le`).
-/

namespace Apportionment

variable {ι : Type}

/-- The whole part of a quota. -/
def lower (base : ℤ) (quota : ι → ℤ) (i : ι) : ℤ := quota i / base

/-- The remainder of a quota. -/
def rest (base : ℤ) (quota : ι → ℤ) (i : ι) : ℤ := quota i % base

theorem lower_add_rest (base : ℤ) (quota : ι → ℤ) (i : ι) :
    base * lower base quota i + rest base quota i = quota i := Int.mul_ediv_add_emod _ _

theorem rest_nonneg {base : ℤ} {quota : ι → ℤ} (hb : 0 < base) (i : ι) : 0 ≤ rest base quota i :=
  Int.emod_nonneg _ hb.ne'

theorem rest_lt {base : ℤ} {quota : ι → ℤ} (hb : 0 < base) (i : ι) : rest base quota i < base :=
  Int.emod_lt_of_pos _ hb

/-- The parties of `up` take the seats left over, and no other party has a larger remainder. -/
structure LargestRemainders (base : ℤ) (quota : ι → ℤ) (s up : Finset ι) (total : ℤ) : Prop where
  base_pos : 0 < base
  exact : ∑ i ∈ s, quota i = base * total
  subset : up ⊆ s
  card : (up.card : ℤ) = total - ∑ i ∈ s, lower base quota i
  largest : ∀ i ∈ up, ∀ j ∈ s, j ∉ up → rest base quota j ≤ rest base quota i

variable {base total : ℤ} {quota : ι → ℤ} {s up : Finset ι}

/-- The remainders make up the seats left over. -/
theorem sum_rest (h : ∑ i ∈ s, quota i = base * total) :
    ∑ i ∈ s, rest base quota i = base * (total - ∑ i ∈ s, lower base quota i) := by
  have hsum : ∑ i ∈ s, quota i = base * ∑ i ∈ s, lower base quota i + ∑ i ∈ s, rest base quota i := by
    rw [Finset.mul_sum, ← Finset.sum_add_distrib]
    exact Finset.sum_congr rfl fun i _ => (lower_add_rest base quota i).symm
  rw [mul_sub, ← h, hsum]
  ring

theorem leftover_nonneg (hb : 0 < base) (h : ∑ i ∈ s, quota i = base * total) :
    0 ≤ total - ∑ i ∈ s, lower base quota i := by
  have hrest : 0 ≤ base * (total - ∑ i ∈ s, lower base quota i) := by
    rw [← sum_rest h]
    exact Finset.sum_nonneg fun i _ => rest_nonneg hb i
  exact nonneg_of_mul_nonneg_right hrest hb

/-- There are fewer seats left over than parties. -/
theorem leftover_lt_card (hb : 0 < base) (h : ∑ i ∈ s, quota i = base * total) (hs : s.Nonempty) :
    total - ∑ i ∈ s, lower base quota i < s.card := by
  have hrest : base * (total - ∑ i ∈ s, lower base quota i) < base * s.card := by
    rw [← sum_rest h]
    have hlt : ∑ i ∈ s, rest base quota i < ∑ _i ∈ s, base :=
      Finset.sum_lt_sum_of_nonempty hs fun i _ => rest_lt hb i
    rw [Finset.sum_const, nsmul_eq_mul] at hlt
    linarith
  exact lt_of_mul_lt_mul_left hrest hb.le

/-- There are more parties with a remainder than seats left over. -/
theorem LargestRemainders.rest_pos (h : LargestRemainders base quota s up total) {i : ι} (hi : i ∈ up) : 0 < rest base quota i := by
  by_contra hnot
  have hzero : rest base quota i = 0 := le_antisymm (not_lt.1 hnot) (rest_nonneg h.base_pos i)
  -- then only the parties rounded up have one, and theirs are smaller than the base
  have hout : ∀ j ∈ s, j ∉ up → rest base quota j = 0 := fun j hj hju =>
    le_antisymm (hzero ▸ h.largest i hi j hj hju) (rest_nonneg h.base_pos j)
  have hsum : ∑ j ∈ up, rest base quota j = base * up.card := by
    rw [h.card, ← sum_rest h.exact]
    exact Finset.sum_subset h.subset hout
  have hlt : ∑ j ∈ up, rest base quota j < ∑ _j ∈ up, base :=
    Finset.sum_lt_sum_of_nonempty ⟨i, hi⟩ fun j _ => rest_lt h.base_pos j
  rw [Finset.sum_const, nsmul_eq_mul] at hlt
  linarith

/-- Some price separates the remainders that are rounded up from the others. -/
private theorem LargestRemainders.exists_price (h : LargestRemainders base quota s up total) :
    ∃ t, 0 ≤ t ∧ t ≤ base ∧ (∀ i ∈ up, t ≤ rest base quota i) ∧ ∀ j ∈ s, j ∉ up → rest base quota j ≤ t := by
  by_cases hne : up.Nonempty
  · obtain ⟨i, hi, hmin⟩ := up.exists_min_image (rest base quota) hne
    exact ⟨rest base quota i, rest_nonneg h.base_pos i, (rest_lt h.base_pos i).le, hmin,
      fun j hj hju => h.largest i hi j hj hju⟩
  · rw [Finset.not_nonempty_iff_eq_empty] at hne
    exact ⟨base, h.base_pos.le, le_refl _, by simp [hne], fun j _ _ => (rest_lt h.base_pos j).le⟩

variable [DecidableEq ι]

/-- One more seat for the parties in `up`. -/
def seats (base : ℤ) (quota : ι → ℤ) (up : Finset ι) (i : ι) : ℤ := lower base quota i + if i ∈ up then 1 else 0

/-- The first parties of a list in the order of decreasing remainders. -/
theorem LargestRemainders.of_take {order : List ι} {n : ℕ} (hb : 0 < base)
    (h : ∑ i ∈ order.toFinset, quota i = base * total) (hnodup : order.Nodup)
    (hsorted : order.Pairwise fun i j => rest base quota j ≤ rest base quota i) (hne : order ≠ [])
    (hn : (n : ℤ) = total - ∑ i ∈ order.toFinset, lower base quota i) :
    LargestRemainders base quota order.toFinset (order.take n).toFinset total where
  base_pos := hb
  exact := h
  subset i hi := by
    rw [List.mem_toFinset] at hi ⊢
    exact List.mem_of_mem_take hi
  card := by
    have hlt := leftover_lt_card hb h (List.toFinset_nonempty_iff order |>.2 hne)
    rw [← hn, List.toFinset_card_of_nodup hnodup] at hlt
    rw [List.toFinset_card_of_nodup (hnodup.sublist (List.take_sublist n order)), List.length_take, ← hn]
    have : n < order.length := by exact_mod_cast hlt
    congr 1
    omega
  largest i hi j hj hju := by
    rw [List.mem_toFinset] at hi hj hju
    rw [← List.take_append_drop n order] at hj hsorted
    have hdrop : j ∈ order.drop n := (List.mem_append.1 hj).resolve_left hju
    exact (List.pairwise_append.1 hsorted).2.2 i hi j hdrop

namespace LargestRemainders

variable (h : LargestRemainders base quota s up total)

include h

/-- The seats add up to the total. -/
theorem sum_seats : ∑ i ∈ s, seats base quota up i = total := by
  have hcard : (∑ i ∈ s, if i ∈ up then (1 : ℤ) else 0) = up.card := by
    rw [Finset.sum_ite_mem, Finset.inter_eq_right.2 h.subset, Finset.sum_const, nsmul_eq_mul, mul_one]
  unfold seats
  rw [Finset.sum_add_distrib, hcard, h.card]
  ring

theorem seats_eq_lower {i : ι} (hrest : rest base quota i = 0) : seats base quota up i = lower base quota i := by
  unfold seats
  rw [if_neg fun hi => (h.rest_pos hi).ne' hrest, add_zero]

omit h in
/-- What one party deviates from its quota, less a price `base - 2 * t` for each seat, is smallest without a further
seat if its remainder is at most `t`, and with one if it is at least `t`. -/
private theorem priced_deviation_le (base : ℤ) {r t y c : ℤ} (hb : 0 < base) (hr : 0 ≤ r) (hrb : r < base) (ht : 0 ≤ t)
    (htb : t ≤ base) (hc : (c = 0 ∧ r ≤ t) ∨ (c = 1 ∧ t ≤ r)) :
    |base * c - r| - (base - 2 * t) * c ≤ |base * y - r| - (base - 2 * t) * y := by
  rcases lt_trichotomy y 0 with hy | rfl | hy
  · have hdev : |base * y - r| = r - base * y := by
      rw [abs_of_neg (by nlinarith)]
      ring
    rcases hc with ⟨rfl, -⟩ | ⟨rfl, htr⟩
    · rw [hdev, mul_zero, mul_zero, zero_sub, abs_neg, abs_of_nonneg hr]
      nlinarith
    · rw [hdev, mul_one, mul_one, abs_of_pos (by linarith)]
      have hprice : 0 ≤ (base - t) * -y := mul_nonneg (by linarith) (by linarith)
      linarith
  · rcases hc with ⟨rfl, -⟩ | ⟨rfl, htr⟩
    · exact le_refl _
    · rw [mul_zero, mul_zero, mul_one, mul_one, zero_sub, abs_neg, abs_of_nonneg hr, abs_of_pos (by linarith)]
      linarith
  · have hdev : |base * y - r| = base * y - r := abs_of_pos (by nlinarith)
    rcases hc with ⟨rfl, hrt⟩ | ⟨rfl, -⟩
    · rw [hdev, mul_zero, mul_zero, zero_sub, abs_neg, abs_of_nonneg hr]
      nlinarith
    · rw [hdev, mul_one, mul_one, abs_of_pos (by linarith)]
      nlinarith

/-- No apportionment of the total deviates less from the quotas. -/
theorem deviation_le {x : ι → ℤ} (hx : ∑ i ∈ s, x i = total) :
    ∑ i ∈ s, |base * seats base quota up i - quota i| ≤ ∑ i ∈ s, |base * x i - quota i| := by
  obtain ⟨t, ht, htb, hin, hout⟩ := h.exists_price
  have hparty : ∀ i ∈ s, |base * seats base quota up i - quota i| - (base - 2 * t) * seats base quota up i ≤
      |base * x i - quota i| - (base - 2 * t) * x i := by
    intro i hi
    have hq := lower_add_rest base quota i
    have hle := priced_deviation_le base (r := rest base quota i) (t := t) (y := x i - lower base quota i)
      (c := if i ∈ up then 1 else 0) h.base_pos (rest_nonneg h.base_pos i) (rest_lt h.base_pos i) ht htb (by
        by_cases hiu : i ∈ up
        · exact Or.inr ⟨if_pos hiu, hin i hiu⟩
        · exact Or.inl ⟨if_neg hiu, hout i hi hiu⟩)
    have hup : base * (if i ∈ up then 1 else 0) - rest base quota i = base * seats base quota up i - quota i := by
      rw [seats, ← hq]
      ring
    have hxi : base * (x i - lower base quota i) - rest base quota i = base * x i - quota i := by
      rw [← hq]
      ring
    rw [hup, hxi] at hle
    have hseats : seats base quota up i = lower base quota i + if i ∈ up then 1 else 0 := rfl
    rw [hseats] at hle ⊢
    linarith
  have hsum := Finset.sum_le_sum hparty
  rw [Finset.sum_sub_distrib, Finset.sum_sub_distrib, ← Finset.mul_sum, ← Finset.mul_sum, h.sum_seats, hx] at hsum
  linarith

end LargestRemainders

end Apportionment
