import GenPay.Apportionment
import GenPay.RevenueSplit
import Mathlib.Data.Rat.Floor

/-!
# The revenue split is Hamilton's method

The loop of `split_amount` gives at most one cent to each party, so its result is an apportionment by largest
remainders (`splitWith_share`).  Hence the shares are those of Hamilton's method (`split_hamilton`), and no other
split of the total into integers is closer to the exact shares (`split_fairest`).
-/

namespace GenPay

open Apportionment (LargestRemainders lower rest seats)

/-- The exact share of a party in cents. -/
def exactShare (totalCents : Int) (c : RevenueSplitConfig) (p : Party) : ℚ :=
  ((totalCents * c.bps p : Int) : ℚ) / (basisPointsTotal : ℚ)

def RevenueSplitResult.share (r : RevenueSplitResult) : Party → Int
  | .archive => r.archiveCents
  | .transcriptionist => r.transcriptionistCents
  | .platform => r.platformCents

/-- `order` lists the parties by decreasing remainder, ties in the order of `_PARTIES`. -/
def Ranked (totalCents : Int) (c : RevenueSplitConfig) (order : List Party) : Prop :=
  order.Perm parties ∧ order.Pairwise fun p q => remainder totalCents c q < remainder totalCents c p ∨
    (remainder totalCents c p = remainder totalCents c q ∧ p.index < q.index)

/-- What Hamilton's method says of the shares of a total. -/
structure IsHamilton (totalCents : Int) (c : RevenueSplitConfig) (r : RevenueSplitResult) : Prop where
  nonneg : ∀ p, 0 ≤ r.share p
  sum : r.archiveCents + r.transcriptionistCents + r.platformCents = totalCents
  rounded : ∀ p, r.share p = ⌊exactShare totalCents c p⌋ ∨ r.share p = ⌈exactShare totalCents c p⌉
  whole : ∀ p, c.bps p = 0 ∨ (∃ n : Int, exactShare totalCents c p = n) → (r.share p : ℚ) = exactShare totalCents c p
  leftover : 0 ≤ leftoverCents totalCents c ∧ leftoverCents totalCents c ≤ 2
  first : ∃ order, Ranked totalCents c order ∧ ∀ p, r.share p = ⌊exactShare totalCents c p⌋ +
    if p ∈ order.take (leftoverCents totalCents c).toNat then 1 else 0

variable {totalCents : Int} {c : RevenueSplitConfig}

/-! ### The order of the parties -/

theorem Party.index_inj {p q : Party} (h : p.index = q.index) : p = q := by
  cases p <;> cases q <;> first | rfl | cases h

instance : Std.Total (comesBefore totalCents c) where
  total p q := by
    unfold comesBefore
    omega

instance : IsTrans Party (comesBefore totalCents c) where
  trans p q r hpq hqr := by
    unfold comesBefore at *
    omega

theorem parties_nodup : parties.Nodup := by decide

theorem order_perm : (order totalCents c).Perm parties := List.perm_insertionSort _ _

theorem order_nodup : (order totalCents c).Nodup := order_perm.nodup_iff.2 parties_nodup

theorem mem_order (p : Party) : p ∈ order totalCents c := by
  rw [order_perm.mem_iff]
  cases p <;> decide

/-- The sort leaves no ties, as no two parties have the same index. -/
theorem order_ranked : Ranked totalCents c (order totalCents c) := by
  refine ⟨order_perm, ?_⟩
  have hsorted : (order totalCents c).Pairwise (comesBefore totalCents c) := List.pairwise_insertionSort _ _
  refine (hsorted.and order_nodup).imp ?_
  rintro p q ⟨hlt | ⟨heq, hle⟩, hne⟩
  · exact Or.inl hlt
  · exact Or.inr ⟨heq, lt_of_le_of_ne hle fun he => hne (Party.index_inj he)⟩

/-! ### The loop -/

/-- As long as there are no more cents than parties, each of the first ones gets one. -/
theorem distribute_eq {order : List Party} (hn : order.Nodup) (amounts : Party → Int) {leftover : Nat}
    (hl : leftover ≤ order.length) (p : Party) :
    distribute order amounts leftover p = amounts p + if p ∈ order.take leftover then 1 else 0 := by
  induction leftover with
  | zero => simp [distribute]
  | succ n ih =>
    have hlt : n < order.length := hl
    have hstep : distribute order amounts (n + 1) = giveCent (distribute order amounts n) order[n] := by
      unfold distribute
      rw [List.range_succ, List.foldl_append]
      simp [Nat.mod_eq_of_lt hlt, hlt]
    have hnot : order[n] ∉ order.take n := by
      intro hmem
      rw [← List.take_append_drop n order] at hn
      refine (List.nodup_append.1 hn).2.2 _ hmem order[n] ?_ rfl
      rw [List.drop_eq_getElem_cons hlt]
      exact List.mem_cons_self ..
    have htake : p ∈ order.take (n + 1) ↔ p ∈ order.take n ∨ p = order[n] := by
      rw [List.take_succ_eq_append_getElem hlt, List.mem_append, List.mem_singleton]
    rw [hstep]
    unfold giveCent
    by_cases hp : p = order[n]
    · have hold : p ∉ order.take n := hp ▸ hnot
      rw [if_pos hp, ih hlt.le, if_neg hold, if_pos (htake.2 (Or.inr hp)), add_zero]
    · rw [if_neg hp, ih hlt.le]
      simp only [htake, hp, or_false]

/-! ### The split as an apportionment -/

/-- The quotas, in ten-thousandths of a cent. -/
def quotas (totalCents : Int) (c : RevenueSplitConfig) (p : Party) : Int := totalCents * c.bps p

theorem sum_parties (f : Party → Int) : ∑ p ∈ parties.toFinset, f p = f .archive + f .transcriptionist + f .platform := by
  simp [parties, add_assoc]

theorem sum_quotas : ∑ p ∈ parties.toFinset, quotas totalCents c p = basisPointsTotal * totalCents := by
  rw [sum_parties, ← c.sum_eq]
  simp only [quotas, RevenueSplitConfig.bps]
  ring

theorem leftoverCents_eq : leftoverCents totalCents c =
    totalCents - ∑ p ∈ parties.toFinset, lower basisPointsTotal (quotas totalCents c) p := by
  rw [sum_parties]
  rfl

theorem leftoverCents_nonneg : 0 ≤ leftoverCents totalCents c :=
  leftoverCents_eq (c := c) ▸ Apportionment.leftover_nonneg (by decide) sum_quotas

/-- There are three parties. -/
theorem leftoverCents_le : leftoverCents totalCents c ≤ 2 := by
  have hlt := Apportionment.leftover_lt_card (by decide) (@sum_quotas totalCents c) (by decide)
  rw [← leftoverCents_eq] at hlt
  have hcard : (parties.toFinset.card : Int) = 3 := by decide
  omega

/-- The parties that get a leftover cent. -/
def roundedUp (totalCents : Int) (c : RevenueSplitConfig) : List Party :=
  (order totalCents c).take (leftoverCents totalCents c).toNat

theorem largestRemainders : LargestRemainders basisPointsTotal (quotas totalCents c) parties.toFinset
    (roundedUp totalCents c).toFinset totalCents := by
  have hset : (order totalCents c).toFinset = parties.toFinset := List.toFinset_eq_of_perm _ _ order_perm
  rw [← hset]
  refine LargestRemainders.of_take (by decide) (hset ▸ sum_quotas) order_nodup ?_ ?_ ?_
  · exact order_ranked.2.imp fun h => h.elim le_of_lt fun h => h.1.ge
  · exact List.ne_nil_of_mem (mem_order .archive)
  · rw [hset, ← leftoverCents_eq, Int.toNat_of_nonneg leftoverCents_nonneg]

theorem splitWith_share (p : Party) : (splitWith totalCents c).share p =
    seats basisPointsTotal (quotas totalCents c) (roundedUp totalCents c).toFinset p := by
  have hle : (leftoverCents totalCents c).toNat ≤ (order totalCents c).length := by
    have := @leftoverCents_le totalCents c
    rw [order_perm.length_eq]
    show _ ≤ 3
    omega
  have hshare : (splitWith totalCents c).share p = distribute (order totalCents c) (floorAmount totalCents c)
      (leftoverCents totalCents c).toNat p := by
    cases p <;> rfl
  rw [hshare, distribute_eq order_nodup _ hle, seats]
  simp only [List.mem_toFinset]
  rfl

theorem splitAmount_pos (settings : Settings) (h : 0 < totalCents) :
    splitAmount settings totalCents (some c) = .ok (splitWith totalCents c) :=
  if_neg (not_le.2 h)

/-! ### Hamilton's method -/

theorem floor_exactShare (p : Party) : ⌊exactShare totalCents c p⌋ = lower basisPointsTotal (quotas totalCents c) p :=
  Rat.floor_intCast_div_natCast (totalCents * c.bps p) 10000

theorem ceil_exactShare (p : Party) : ⌈exactShare totalCents c p⌉ = -(-(totalCents * c.bps p) / basisPointsTotal) :=
  Rat.ceil_intCast_div_natCast (totalCents * c.bps p) 10000

/-- A whole share leaves no remainder. -/
theorem rest_of_whole {p : Party} {n : Int} (h : exactShare totalCents c p = n) :
    rest basisPointsTotal (quotas totalCents c) p = 0 := by
  have hq : quotas totalCents c p = basisPointsTotal * n := by
    have hb : (basisPointsTotal : ℚ) ≠ 0 := by simp [basisPointsTotal]
    unfold exactShare at h
    rw [div_eq_iff hb] at h
    have : totalCents * c.bps p = n * basisPointsTotal := by exact_mod_cast h
    rw [quotas, this, mul_comm]
  rw [rest, hq]
  exact Int.mul_emod_right _ _

theorem splitWith_isHamilton (h : 0 < totalCents) : IsHamilton totalCents c (splitWith totalCents c) := by
  have hlr := @largestRemainders totalCents c
  have hshare : ∀ p, (splitWith totalCents c).share p = ⌊exactShare totalCents c p⌋ +
      if p ∈ roundedUp totalCents c then 1 else 0 := by
    intro p
    rw [splitWith_share, seats, floor_exactShare]
    simp only [List.mem_toFinset]
  refine ⟨fun p => ?_, ?_, fun p => ?_, fun p hp => ?_, ⟨leftoverCents_nonneg, leftoverCents_le⟩,
    order totalCents c, order_ranked, hshare⟩
  · have hfloor : 0 ≤ floorAmount totalCents c p := floorAmount_nonneg h.le c p
    rw [hshare, floor_exactShare]
    change 0 ≤ floorAmount totalCents c p + _
    split <;> omega
  · have hsum := hlr.sum_seats
    rw [sum_parties, ← splitWith_share, ← splitWith_share, ← splitWith_share] at hsum
    exact hsum
  · by_cases hup : p ∈ roundedUp totalCents c
    · -- a party rounded up has a remainder, so one more than the floor is the ceiling
      right
      have hpos := hlr.rest_pos (List.mem_toFinset.2 hup)
      rw [hshare, if_pos hup, floor_exactShare, ceil_exactShare]
      simp only [rest, lower, quotas, basisPointsTotal] at *
      omega
    · left
      rw [hshare, if_neg hup, add_zero]
  · obtain ⟨n, hn⟩ : ∃ n : Int, exactShare totalCents c p = n := by
      rcases hp with hzero | hwhole
      · exact ⟨0, by simp [exactShare, hzero]⟩
      · exact hwhole
    rw [splitWith_share, hlr.seats_eq_lower (rest_of_whole hn), ← floor_exactShare, hn, Int.floor_intCast]

/-- `split_amount` is Hamilton's method. -/
theorem split_hamilton (settings : Settings) {totalCents : Int} (c : RevenueSplitConfig) (h : 0 < totalCents) :
    ∃ r, splitAmount settings totalCents (some c) = .ok r ∧ IsHamilton totalCents c r :=
  ⟨_, splitAmount_pos settings h, splitWith_isHamilton h⟩

/-- The default shares of `app/config.py`. -/
def Sample.defaultSplit : RevenueSplitConfig := ⟨7000, 2000, 1000, by decide, by decide, by decide, by decide⟩

def Sample.defaultSettings : Settings := ⟨"change-me", "change-me", 7000, 2000, 1000⟩

theorem split_hamilton_twoCents : 0 < (2 : Int) ∧
    splitAmount Sample.defaultSettings 2 (some Sample.defaultSplit) = .ok ⟨2, 0, 0⟩ ∧
    ∃ r, splitAmount Sample.defaultSettings 2 (some Sample.defaultSplit) = .ok r ∧
      IsHamilton 2 Sample.defaultSplit r :=
  ⟨by decide, by decide, split_hamilton Sample.defaultSettings Sample.defaultSplit (by decide)⟩

/-! ### The fairest split -/

/-- How far integer shares are from the exact ones, in ten-thousandths of a cent. -/
def deviation (totalCents : Int) (c : RevenueSplitConfig) (archive transcriptionist platform : Int) : Int :=
  |10000 * archive - totalCents * c.archiveBps| + |10000 * transcriptionist - totalCents * c.transcriptionistBps| +
    |10000 * platform - totalCents * c.platformBps|

/-- No three integers with the same sum deviate less from the exact shares than `split_amount`. -/
theorem split_fairest (settings : Settings) {totalCents : Int} (c : RevenueSplitConfig) (h : 0 < totalCents)
    {x y z : Int} (hsum : x + y + z = totalCents) :
    ∃ r, splitAmount settings totalCents (some c) = .ok r ∧
      deviation totalCents c r.archiveCents r.transcriptionistCents r.platformCents ≤ deviation totalCents c x y z := by
  refine ⟨_, splitAmount_pos settings h, ?_⟩
  have hle := (@largestRemainders totalCents c).deviation_le
    (x := (⟨x, y, z⟩ : RevenueSplitResult).share) (by rw [sum_parties]; exact hsum)
  rw [sum_parties, sum_parties] at hle
  simp only [← splitWith_share] at hle
  exact hle

theorem split_fairest_twoCents : 0 < (2 : Int) ∧ (1 : Int) + 1 + 0 = 2 ∧
    ∃ r, splitAmount Sample.defaultSettings 2 (some Sample.defaultSplit) = .ok r ∧
      deviation 2 Sample.defaultSplit r.archiveCents r.transcriptionistCents r.platformCents ≤
        deviation 2 Sample.defaultSplit 1 1 0 :=
  ⟨by decide, by decide, split_fairest Sample.defaultSettings Sample.defaultSplit (by decide) (by decide)⟩

end GenPay
