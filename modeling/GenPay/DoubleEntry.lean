import Mathlib.Algebra.BigOperators.Group.List.Basic
import Mathlib.Data.List.Dedup
import Mathlib.Tactic.Linarith

/-!
# Sums of entries by a key

The entries of a ledger carry amounts and keys (an account, a settlement).  `net key delta k l` is the sum of the
amounts under one key; summed over all keys it is the sum of all amounts (`sum_net`), whatever the key.  Hence a
ledger whose amounts cancel under one key cancels in total, and so do its balances under any other key.
-/

namespace DoubleEntry

variable {Entry Key : Type} [DecidableEq Key] {key : Entry → Key} {delta : Entry → Int} {k : Key}
  {l l' : List Entry}

/-- The sum of the amounts of the entries under the key `k`. -/
def net (key : Entry → Key) (delta : Entry → Int) (k : Key) (l : List Entry) : Int :=
  ((l.filter fun x => decide (key x = k)).map delta).sum

@[simp] theorem net_nil : net key delta k [] = 0 := rfl

theorem net_cons (x : Entry) (l : List Entry) :
    net key delta k (x :: l) = (if key x = k then delta x else 0) + net key delta k l := by
  unfold net
  by_cases h : key x = k
  · simp [h]
  · simp [h]

@[simp] theorem net_append : net key delta k (l ++ l') = net key delta k l + net key delta k l' := by
  simp [net]

theorem net_perm (h : l.Perm l') : net key delta k l = net key delta k l' := ((h.filter _).map _).sum_eq

theorem net_eq_zero (h : ∀ x ∈ l, key x ≠ k) : net key delta k l = 0 := by
  induction l with
  | nil => rfl
  | cons x l ih =>
    rw [net_cons, if_neg (h x (by simp)), ih fun y hy => h y (by simp [hy]), add_zero]

/-- All entries are under the key. -/
theorem net_eq_sum (h : ∀ x ∈ l, key x = k) : net key delta k l = (l.map delta).sum := by
  unfold net
  rw [List.filter_eq_self.2 fun x hx => by simpa using h x hx]

theorem net_congr {Entry' : Type} {key' : Entry' → Key} {delta' : Entry' → Int} {m : List Entry'} {γ : Type}
    {f : Entry → γ} {g : Entry' → γ} {c : γ → Key} {e : γ → Int} (hkey : ∀ x, c (f x) = key x)
    (hdelta : ∀ x, e (f x) = delta x) (hkey' : ∀ x, c (g x) = key' x) (hdelta' : ∀ x, e (g x) = delta' x)
    (h : l.map f = m.map g) : net key delta k l = net key' delta' k m := by
  have hl : net key delta k l = net c e k (l.map f) := by
    simp [net, List.filter_map, Function.comp_def, hkey, hdelta]
  have hm : net key' delta' k m = net c e k (m.map g) := by
    simp [net, List.filter_map, Function.comp_def, hkey', hdelta']
  rw [hl, hm, h]

/-- Adding one entry in each of the sums of a covering list of keys adds its amount once. -/
private theorem sum_ite_of_mem {ks : List Key} (hn : ks.Nodup) {k₀ : Key} (h : k₀ ∈ ks) (n : Int) :
    (ks.map fun k => if k₀ = k then n else 0).sum = n := by
  induction ks with
  | nil => cases h
  | cons k ks ih =>
    rw [List.nodup_cons] at hn
    simp only [List.map_cons, List.sum_cons]
    by_cases hk : k₀ = k
    · subst hk
      have hzero : (ks.map fun k => if k₀ = k then n else 0).sum = 0 := by
        rw [List.map_congr_left (g := fun _ => (0 : Int))]
        · simp
        · intro k hk
          rw [if_neg]
          rintro rfl
          exact hn.1 hk
      rw [if_pos rfl, hzero, add_zero]
    · rw [if_neg hk, zero_add]
      exact ih hn.2 ((List.mem_cons.1 h).resolve_left hk)

/-- Summed over all keys, the nets are the sum of all amounts. -/
theorem sum_net {ks : List Key} (hn : ks.Nodup) (hc : ∀ x ∈ l, key x ∈ ks) :
    (ks.map fun k => net key delta k l).sum = (l.map delta).sum := by
  induction l with
  | nil => simp
  | cons x l ih =>
    have hadd : (ks.map fun k => net key delta k (x :: l)).sum =
        (ks.map fun k => if key x = k then delta x else 0).sum + (ks.map fun k => net key delta k l).sum := by
      rw [← List.sum_map_add]
      simp only [net_cons]
    rw [hadd, sum_ite_of_mem hn (hc x (by simp)), ih fun y hy => hc y (by simp [hy])]
    simp

/-- The net under one key is the sum of its parts by another key. -/
theorem sum_net_filter {Key' : Type} [DecidableEq Key'] {key' : Entry → Key'} {ks : List Key'} (hn : ks.Nodup)
    (hc : ∀ x ∈ l, key' x ∈ ks) :
    (ks.map fun k' => net key delta k (l.filter fun x => decide (key' x = k'))).sum = net key delta k l := by
  have hsum : (ks.map fun k' => net key' delta k' (l.filter fun x => decide (key x = k))).sum = net key delta k l :=
    sum_net hn fun x hx => hc x (List.mem_of_mem_filter hx)
  rw [← hsum]
  simp only [net, List.filter_filter, Bool.and_comm]

/-- Entries that cancel under every key cancel in total. -/
theorem total_eq_zero (h : ∀ k, net key delta k l = 0) : (l.map delta).sum = 0 := by
  rw [← sum_net (List.nodup_dedup (l.map key)) fun x hx => by simpa using ⟨x, hx, rfl⟩]
  simp [h]

/-- Entries that offset others, one by one, net to their negation. -/
theorem net_map_neg {f : Entry → Entry} (hkey : ∀ x ∈ l, key (f x) = key x) (hdelta : ∀ x ∈ l, delta (f x) = -delta x) :
    net key delta k (l.map f) = -net key delta k l := by
  induction l with
  | nil => simp
  | cons x l ih =>
    rw [List.map_cons, net_cons, net_cons, hkey x (by simp), hdelta x (by simp),
      ih (fun y hy => hkey y (by simp [hy])) fun y hy => hdelta y (by simp [hy])]
    split <;> omega

end DoubleEntry
