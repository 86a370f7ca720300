import Mathlib.Data.Fintype.EquivFin
import Mathlib.Data.List.FinRange
import Mathlib.Data.List.Nodup
import Mathlib.Data.List.Sort

/-!
# Windows of an ordered answer

A query that orders its rows by a key may return rows of the same key in any order (`Ordered`), and an order of its
own each time it is asked.  If the keys are distinct there is one answer (`Ordered.unique`), and consecutive windows
make it up (`windows_perm`).  If two rows have the same key, two answers differ by a swap of neighbours
(`Ordered.exists_tie`), and a window boundary between the two repeats one and loses the other
(`keys_nodup_of_windows`).
-/

namespace Windows

variable {Row Key : Type} [LinearOrder Key] {key : Row → Key} {rows l l' : List Row}

/-- An answer to `SELECT rows ORDER BY key`. -/
structure Ordered (key : Row → Key) (rows l : List Row) : Prop where
  perm : l.Perm rows
  sorted : l.Pairwise fun x y => key x ≤ key y

/-- `LIMIT limit OFFSET offset`. -/
def window (l : List Row) (limit offset : Nat) : List Row := (l.drop offset).take limit

/-- A window that the query may return. -/
def Window (key : Row → Key) (rows : List Row) (limit offset : Nat) (page : List Row) : Prop :=
  ∃ l, Ordered key rows l ∧ window l limit offset = page

theorem ordered_insertionSort (h : l.Perm rows) : Ordered key rows (l.insertionSort fun x y => key x ≤ key y) where
  perm := (List.perm_insertionSort _ l).trans h
  sorted := by
    have : Std.Total fun x y : Row => key x ≤ key y := ⟨fun x y => le_total (key x) (key y)⟩
    have : IsTrans Row fun x y => key x ≤ key y := ⟨fun _ _ _ => le_trans⟩
    exact List.pairwise_insertionSort _ l

theorem Ordered.insertionSort_eq (h : Ordered key rows l) : (l.insertionSort fun x y => key x ≤ key y) = l :=
  h.sorted.insertionSort_eq

/-- With distinct keys there is one order. -/
theorem Ordered.unique (hkeys : (rows.map key).Nodup) (h : Ordered key rows l) (h' : Ordered key rows l') : l = l' := by
  refine List.Perm.eq_of_pairwise ?_ h.sorted h'.sorted (h.perm.trans h'.perm.symm)
  intro x y hx hy hxy hyx
  exact List.inj_on_of_nodup_map hkeys (h.perm.mem_iff.1 hx) (h'.perm.mem_iff.1 hy) (le_antisymm hxy hyx)

theorem windows_take (l : List Row) (limit n : Nat) :
    ((List.range n).flatMap fun i => window l limit (i * limit)) = l.take (n * limit) := by
  induction n with
  | zero => simp
  | succ n ih =>
    rw [List.range_succ, List.flatMap_append, ih, Nat.succ_mul, List.take_add]
    simp [window]

/-- With distinct keys, windows up to the end are the rows, whatever the query returned in between. -/
theorem windows_perm {limit n : Nat} {pages : Nat → List Row} (hkeys : (rows.map key).Nodup)
    (hpages : ∀ i, Window key rows limit (i * limit) (pages i)) (hn : rows.length ≤ n * limit) :
    ((List.range n).flatMap pages).Perm rows := by
  obtain ⟨l, hl, -⟩ := hpages 0
  have hpage : ∀ i, pages i = window l limit (i * limit) := by
    intro i
    obtain ⟨l', hl', he⟩ := hpages i
    rw [← he, hl'.unique hkeys hl]
  rw [show pages = fun i => window l limit (i * limit) from funext hpage, windows_take,
    List.take_of_length_le (hl.perm.length_eq ▸ hn)]
  exact hl.perm

/-- The first match in a window from the start: the least one of all, if it is in the window. -/
theorem Ordered.head_filter_take (hkeys : (rows.map key).Nodup) (h : Ordered key rows l) {p : Row → Bool} {u : Row}
    (hu : u ∈ rows) (hpu : p u = true) (hleast : ∀ v ∈ rows, p v = true → key u ≤ key v) (limit : Nat) :
    ((l.take limit).filter p).head? =
      if (rows.filter fun v => decide (key v < key u)).length < limit then some u else none := by
  obtain ⟨A, B, rfl⟩ := List.append_of_mem (h.perm.mem_iff.2 hu)
  have hsorted := h.sorted
  have hnodup : ((A ++ u :: B).map key).Nodup := (h.perm.map key).nodup_iff.2 hkeys
  simp only [List.pairwise_append, List.pairwise_cons, List.mem_cons] at hsorted
  obtain ⟨-, ⟨hB, -⟩, hA⟩ := hsorted
  have hbefore : ∀ v ∈ A, key v < key u := by
    intro v hv
    refine lt_of_le_of_ne (hA v hv u (Or.inl rfl)) fun he => ?_
    rw [List.map_append, List.nodup_append] at hnodup
    exact hnodup.2.2 (key v) (List.mem_map_of_mem hv) (key u) (by simp) he
  have hnone : A.filter p = [] := by
    rw [List.filter_eq_nil_iff]
    intro v hv hpv
    exact absurd (hleast v (h.perm.mem_iff.1 (by simp [hv])) hpv) (hbefore v hv).not_ge
  have hlength : (rows.filter fun v => decide (key v < key u)).length = A.length := by
    rw [← (h.perm.filter _).length_eq, List.filter_append, List.filter_eq_self.2 (by simpa using hbefore),
      List.filter_eq_nil_iff.2 (by simpa using hB), List.append_nil]
  rw [hlength]
  by_cases hlimit : A.length < limit
  · obtain ⟨m, rfl⟩ : ∃ m, limit = A.length + (m + 1) := ⟨limit - A.length - 1, by omega⟩
    rw [if_pos hlimit, List.take_length_add_append, List.filter_append, hnone, List.take_succ_cons,
      List.filter_cons_of_pos hpu]
    rfl
  · rw [if_neg hlimit, List.take_append_of_le_length (by omega)]
    have : (A.take limit).filter p = [] := List.filter_eq_nil_iff.2 fun v hv =>
      List.filter_eq_nil_iff.1 hnone v (List.mem_of_mem_take hv)
    rw [this]
    rfl

/-! ### Ties -/

/-- In a sorted list rows of the same key are neighbours. -/
theorem exists_tie (hsorted : l.Pairwise fun x y => key x ≤ key y) (htie : ¬ (l.map key).Nodup) :
    ∃ A a b B, l = A ++ a :: b :: B ∧ key a = key b := by
  induction l with
  | nil => exact absurd List.nodup_nil htie
  | cons x l ih =>
    rw [List.pairwise_cons] at hsorted
    by_cases hl : (l.map key).Nodup
    · -- the key of `x` occurs again, so that it is the least of `l`
      have hx : key x ∈ l.map key := by
        by_contra hx
        exact htie (List.nodup_cons.2 ⟨hx, hl⟩)
      obtain ⟨z, hz, hzx⟩ := List.mem_map.1 hx
      cases l with
      | nil => cases hz
      | cons y l =>
        refine ⟨[], x, y, l, rfl, le_antisymm (hsorted.1 y (List.mem_cons_self ..)) ?_⟩
        rcases List.mem_cons.1 hz with rfl | hz
        · exact hzx.le
        · exact ((List.pairwise_cons.1 hsorted.2).1 z hz).trans hzx.le
    · obtain ⟨A, a, b, B, rfl, hab⟩ := ih hsorted.2 hl
      exact ⟨x :: A, a, b, B, rfl, hab⟩

theorem Ordered.swap {A B : List Row} {a b : Row} (h : Ordered key rows (A ++ a :: b :: B)) (hab : key a = key b) :
    Ordered key rows (A ++ b :: a :: B) where
  perm := (List.Perm.append_left A (List.Perm.swap a b B)).trans h.perm
  sorted := by
    have hs := h.sorted
    simp only [List.pairwise_append, List.pairwise_cons, List.mem_cons] at hs ⊢
    obtain ⟨hA, ⟨ha, hb, hB⟩, hAB⟩ := hs
    refine ⟨hA, ⟨?_, fun y hy => ha y (Or.inr hy), hB⟩, fun x hx y hy => hAB x hx y (by tauto)⟩
    rintro y (rfl | hy)
    · exact hab.ge
    · exact hb y hy

/-- Two rows of the same key are returned in either order. -/
theorem Ordered.exists_tie (htie : ¬ (rows.map key).Nodup) : ∃ A a b B, key a = key b ∧
    Ordered key rows (A ++ a :: b :: B) ∧ Ordered key rows (A ++ b :: a :: B) := by
  have h : Ordered key rows _ := ordered_insertionSort (List.Perm.refl rows)
  obtain ⟨A, a, b, B, he, hab⟩ := Windows.exists_tie h.sorted fun hnodup => htie ((h.perm.map key).nodup_iff.1 hnodup)
  rw [he] at h
  exact ⟨A, a, b, B, hab, h, h.swap hab⟩

theorem window_middle {limit : Nat} (hlimit : 1 ≤ limit) (A B : List Row) (a : Row) :
    window (A ++ a :: B) limit A.length = a :: B.take (limit - 1) := by
  obtain ⟨m, rfl⟩ : ∃ m, limit = m + 1 := ⟨limit - 1, by omega⟩
  simp [window]

/-- If any two answers agree in their windows, the keys are distinct. -/
theorem keys_nodup_of_window {limit : Nat} (hlimit : 1 ≤ limit) (hrows : rows.Nodup)
    (h : ∀ k page page', Window key rows limit k page → Window key rows limit k page' → page = page') :
    (rows.map key).Nodup := by
  by_contra htie
  obtain ⟨A, a, b, B, -, hl, hl'⟩ := Ordered.exists_tie htie
  have heq := h A.length _ _ ⟨_, hl, rfl⟩ ⟨_, hl', rfl⟩
  rw [window_middle hlimit, window_middle hlimit] at heq
  obtain rfl : a = b := (List.cons.inj heq).1
  have hnodup := hl.perm.nodup_iff.2 hrows
  simp [List.nodup_append] at hnodup

/-- If windows of single rows always make up the rows, the keys are distinct. -/
theorem keys_nodup_of_windows (hrows : rows.Nodup)
    (h : ∀ pages : Nat → List Row, (∀ i, Window key rows 1 (i * 1) (pages i)) →
      ((List.range rows.length).flatMap pages).Perm rows) : (rows.map key).Nodup := by
  by_contra htie
  obtain ⟨A, a, b, B, -, hl, hl'⟩ := Ordered.exists_tie htie
  -- the answer changes between the rows of the same key, and `a` is returned twice
  let pages : Nat → List Row := fun i =>
    window (if i = A.length then A ++ a :: b :: B else A ++ b :: a :: B) 1 (i * 1)
  have hfirst : pages A.length = [a] := by
    simp only [pages, if_true, Nat.mul_one]
    exact window_middle (le_refl 1) A (b :: B) a
  have hsecond : pages (A.length + 1) = [a] := by
    simp only [pages, Nat.succ_ne_self, if_false, Nat.mul_one]
    simpa using window_middle (le_refl 1) (A ++ [b]) B a
  have hperm := h pages fun i => by
    by_cases hi : i = A.length
    · exact ⟨_, hl, by simp only [pages, if_pos hi]⟩
    · exact ⟨_, hl', by simp only [pages, if_neg hi]⟩
  have hlength : A.length + 1 < rows.length := by
    have := hl.perm.length_eq
    simp at this
    omega
  have hdisjoint := (List.nodup_flatMap.1 (hperm.nodup_iff.2 hrows)).2
  rw [List.pairwise_iff_getElem] at hdisjoint
  have := hdisjoint A.length (A.length + 1) (by simp; omega) (by simpa using hlength) (by omega)
  simp [Function.onFun, hfirst, hsecond] at this

/-! ### Arranging rows -/

/-- Every answer is an arrangement of the rows by a permutation of their positions. -/
theorem exists_arrangement (hrows : rows.Nodup) (h : l.Perm rows) :
    ∃ σ : Equiv.Perm (Fin rows.length), (List.ofFn fun i => rows.get (σ i)) = l := by
  classical
  have hindex : ∀ i : Fin rows.length, l.get (i.cast h.length_eq.symm) ∈ rows := fun i => h.mem_iff.1 (l.get_mem _)
  choose f hf using fun i => List.mem_iff_get.1 (hindex i)
  have hinj : Function.Injective f := by
    intro i j hij
    have hget := (hf i).symm.trans ((congrArg rows.get hij).trans (hf j))
    have := List.nodup_iff_injective_get.1 (h.nodup_iff.2 hrows) hget
    exact Fin.ext (by simpa using congrArg Fin.val this)
  refine ⟨Equiv.ofBijective f (Finite.injective_iff_bijective.1 hinj), ?_⟩
  refine List.ext_get (by simp [h.length_eq]) fun n h₁ h₂ => ?_
  simp only [List.get_ofFn, Equiv.ofBijective_apply]
  rw [hf]
  rfl

end Windows
