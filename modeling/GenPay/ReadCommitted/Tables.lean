import GenPay.ReadCommitted.Program

/-!
# Tables that only grow

A table is the list of its rows; a write inserts at most one row and may update the rows that are there.  The
rows of a view are the updated old rows followed by the inserted ones (`Table.rows_view`).  `Grows r l l'` says
that `l'` is `l` with rows replaced along `r` and further rows appended; it is a preorder when `r` is.
-/

namespace ReadCommitted

variable {Db Write Error Row γ : Type}

structure Table (E : Engine Db Write Error) (Row : Type) where
  rows : Db → List Row
  inserted : Write → Option Row
  update : Write → Row → Row
  rows_apply : ∀ d w, rows (E.apply d w) = (rows d).map (update w) ++ (inserted w).toList

namespace Table

variable {E : Engine Db Write Error} (T : Table E Row)

def updateAll (ws : List Write) (r : Row) : Row := ws.foldl (fun r w => T.update w r) r

/-- The rows that a list of writes inserts, as the last of them leaves them. -/
def insertedAll : List Write → List Row
  | [] => []
  | w :: ws => ((T.inserted w).map (T.updateAll ws)).toList ++ insertedAll ws

theorem rows_view (d : Db) (ws : List Write) :
    T.rows (E.view d ws) = (T.rows d).map (T.updateAll ws) ++ T.insertedAll ws := by
  induction ws generalizing d with
  | nil =>
    have hid : T.updateAll [] = id := rfl
    simp [insertedAll, hid]
  | cons w ws ih =>
    rw [Engine.view_cons, ih, T.rows_apply, List.map_append, List.map_map, List.append_assoc]
    congr 1
    simp only [insertedAll]
    cases T.inserted w <;> rfl

theorem updateAll_cons (w : Write) (ws : List Write) (r : Row) :
    T.updateAll (w :: ws) r = T.updateAll ws (T.update w r) := rfl

theorem updateAll_append (ws ws' : List Write) (r : Row) :
    T.updateAll (ws ++ ws') r = T.updateAll ws' (T.updateAll ws r) := by
  unfold updateAll; exact List.foldl_append

theorem updateAll_of_fixed {ws : List Write} {r : Row} (h : ∀ w ∈ ws, T.update w r = r) : T.updateAll ws r = r := by
  induction ws with
  | nil => rfl
  | cons w ws ih =>
    rw [updateAll_cons, h w (List.mem_cons_self ..)]
    exact ih fun w' hw' => h w' (List.mem_cons_of_mem _ hw')

/-- Updates that leave a row alone or set it to `g` of it. -/
theorem updateAll_cases {g : Row → Row} (hg : ∀ r, g (g r) = g r) {ws : List Write}
    (h : ∀ w ∈ ws, ∀ r, T.update w r = r ∨ T.update w r = g r) (r : Row) :
    (T.updateAll ws r = r ∧ ∀ w ∈ ws, T.update w r = r) ∨ (T.updateAll ws r = g r ∧ ∃ w ∈ ws, T.update w r = g r) := by
  induction ws generalizing r with
  | nil => exact Or.inl ⟨rfl, by simp⟩
  | cons w ws ih =>
    have ih' := fun r => ih (fun w' hw' => h w' (List.mem_cons_of_mem _ hw')) r
    rw [updateAll_cons]
    rcases h w (List.mem_cons_self ..) r with hw | hw
    · rw [hw]
      rcases ih' r with ⟨he, hall⟩ | ⟨he, w', hw', hu⟩
      · exact Or.inl ⟨he, by simpa using ⟨hw, hall⟩⟩
      · exact Or.inr ⟨he, w', List.mem_cons_of_mem _ hw', hu⟩
    · refine Or.inr ⟨?_, w, List.mem_cons_self .., hw⟩
      rw [hw]
      rcases ih' (g r) with ⟨he, -⟩ | ⟨he, -⟩
      · exact he
      · rw [he, hg]

/-- What no update changes of a row, no list of updates does. -/
theorem updateAll_keeps {f : Row → γ} {ws : List Write} (h : ∀ w ∈ ws, ∀ r, f (T.update w r) = f r) (r : Row) :
    f (T.updateAll ws r) = f r := by
  induction ws generalizing r with
  | nil => rfl
  | cons w ws ih =>
    rw [updateAll_cons, ih fun w' hw' => h w' (List.mem_cons_of_mem _ hw')]
    exact h w (List.mem_cons_self ..) r

theorem map_insertedAll {f : Row → γ} {ws : List Write} (h : ∀ w ∈ ws, ∀ r, f (T.update w r) = f r) :
    (T.insertedAll ws).map f = (ws.filterMap T.inserted).map f := by
  induction ws with
  | nil => rfl
  | cons w ws ih =>
    have htail : ∀ w' ∈ ws, ∀ r, f (T.update w' r) = f r := fun w' hw' => h w' (List.mem_cons_of_mem _ hw')
    simp only [insertedAll, List.map_append, ih htail, List.filterMap_cons]
    cases T.inserted w with
    | none => rfl
    | some r => simp [T.updateAll_keeps htail]

/-- The columns that no write updates. -/
theorem map_rows_view {f : Row → γ} {ws : List Write} (h : ∀ w ∈ ws, ∀ r, f (T.update w r) = f r) (d : Db) :
    (T.rows (E.view d ws)).map f = (T.rows d).map f ++ (ws.filterMap T.inserted).map f := by
  rw [rows_view, List.map_append, T.map_insertedAll h, List.map_map]
  congr 1
  exact List.map_congr_left fun r _ => T.updateAll_keeps h r

theorem rows_view_of_untouched {ws : List Write} (hu : ∀ w ∈ ws, ∀ r, T.update w r = r) (d : Db) :
    T.rows (E.view d ws) = T.rows d ++ ws.filterMap T.inserted := by
  simpa using T.map_rows_view (f := id) hu d

theorem mem_rows_view_of_untouched {ws : List Write} (hu : ∀ w ∈ ws, ∀ r, T.update w r = r) {d : Db} {r : Row} :
    r ∈ T.rows (E.view d ws) ↔ r ∈ T.rows d ∨ ∃ w ∈ ws, T.inserted w = some r := by
  rw [T.rows_view_of_untouched hu, List.mem_append, List.mem_filterMap]

/-! ### The order of rows -/

theorem rows_apply_congr {d d' : Db} (h : T.rows d' = T.rows d) (w : Write) :
    T.rows (E.apply d' w) = T.rows (E.apply d w) := by
  rw [T.rows_apply, T.rows_apply, h]

theorem perm_apply {d d' : Db} (h : (T.rows d').Perm (T.rows d)) (w : Write) :
    (T.rows (E.apply d' w)).Perm (T.rows (E.apply d w)) := by
  rw [T.rows_apply, T.rows_apply]
  exact (h.map _).append_right _

/-- Two writes in either order, neither of which updates the row the other inserts. -/
theorem perm_comm {w w' : Write} (hu : ∀ r, T.update w' (T.update w r) = T.update w (T.update w' r))
    (hi : ∀ r, T.inserted w = some r → T.update w' r = r) (hi' : ∀ r, T.inserted w' = some r → T.update w r = r)
    (d : Db) : (T.rows (E.apply (E.apply d w) w')).Perm (T.rows (E.apply (E.apply d w') w)) := by
  have hfix : ∀ {w w' : Write}, (∀ r, T.inserted w = some r → T.update w' r = r) →
      (T.inserted w).toList.map (T.update w') = (T.inserted w).toList := by
    intro w w' h
    refine (List.map_congr_left fun r hr => ?_).trans (List.map_id _)
    exact h r (Option.mem_toList.1 hr)
  have hold : ((T.rows d).map (T.update w)).map (T.update w') = ((T.rows d).map (T.update w')).map (T.update w) := by
    rw [List.map_map, List.map_map]
    exact List.map_congr_left fun r _ => hu r
  rw [T.rows_apply, T.rows_apply, T.rows_apply, T.rows_apply, List.map_append, List.map_append, hfix hi, hfix hi', hold,
    List.append_assoc, List.append_assoc]
  exact (List.perm_append_comm).append_left _

theorem mem_insertedAll {ws : List Write} {r : Row} (h : r ∈ T.insertedAll ws) :
    ∃ ws₁ w ws₂ r₀, ws = ws₁ ++ w :: ws₂ ∧ T.inserted w = some r₀ ∧ r = T.updateAll ws₂ r₀ := by
  induction ws with
  | nil => simp [insertedAll] at h
  | cons w ws ih =>
    rcases List.mem_append.1 h with h | h
    · rw [Option.mem_toList, Option.map_eq_some_iff] at h
      obtain ⟨r₀, hr₀, rfl⟩ := h
      exact ⟨[], w, ws, r₀, rfl, hr₀, rfl⟩
    · obtain ⟨ws₁, w', ws₂, r₀, rfl, hr₀, hr⟩ := ih h
      exact ⟨w :: ws₁, w', ws₂, r₀, rfl, hr₀, hr⟩

theorem insertedAll_of_none {ws : List Write} (h : ∀ w ∈ ws, T.inserted w = none) : T.insertedAll ws = [] := by
  induction ws with
  | nil => rfl
  | cons w ws ih =>
    rw [insertedAll, h w (by simp), ih fun w' hw' => h w' (by simp [hw'])]
    rfl

/-- Rows that the writes after their insert leave alone. -/
theorem insertedAll_of_fixed {ws : List Write} (h : ∀ w ∈ ws, ∀ r ∈ ws.filterMap T.inserted, T.update w r = r) :
    T.insertedAll ws = ws.filterMap T.inserted := by
  induction ws with
  | nil => rfl
  | cons w ws ih =>
    have htail : T.insertedAll ws = ws.filterMap T.inserted := ih fun w' hw' r hr =>
      h w' (List.mem_cons_of_mem _ hw') r (by rw [List.filterMap_cons]; split <;> simp [hr])
    rw [insertedAll, htail, List.filterMap_cons]
    cases hi : T.inserted w with
    | none => rfl
    | some r =>
      have hr : T.updateAll ws r = r := T.updateAll_of_fixed fun w' hw' =>
        h w' (List.mem_cons_of_mem _ hw') r (by simp [hi])
      simp [hr]

theorem rows_view_of_fixed {ws : List Write} (h : ∀ w ∈ ws, ∀ r ∈ ws.filterMap T.inserted, T.update w r = r)
    (d : Db) : T.rows (E.view d ws) = (T.rows d).map (T.updateAll ws) ++ ws.filterMap T.inserted := by
  rw [rows_view, T.insertedAll_of_fixed h]

end Table

/-! ### Growth -/

def Grows (r : Row → Row → Prop) (l l' : List Row) : Prop :=
  ∃ (f : Row → Row) (new : List Row), l' = l.map f ++ new ∧ ∀ x ∈ l, r x (f x)

namespace Grows

variable {r : Row → Row → Prop} {l l' l'' : List Row}

theorem refl (h : ∀ x, r x x) (l : List Row) : Grows r l l := ⟨id, [], by simp, fun x _ => h x⟩

theorem trans (ht : ∀ x y z, r x y → r y z → r x z) (h : Grows r l l') (h' : Grows r l' l'') : Grows r l l'' := by
  obtain ⟨f, new, rfl, hf⟩ := h
  obtain ⟨g, new', rfl, hg⟩ := h'
  refine ⟨g ∘ f, new.map g ++ new', by simp, fun x hx => ht _ _ _ (hf x hx) (hg _ ?_)⟩
  exact List.mem_append_left _ (List.mem_map_of_mem hx)

theorem mem (h : Grows r l l') {x : Row} (hx : x ∈ l) : ∃ y ∈ l', r x y := by
  obtain ⟨f, new, rfl, hf⟩ := h
  exact ⟨f x, List.mem_append_left _ (List.mem_map_of_mem hx), hf x hx⟩

theorem mem_of_eq (h : Grows Eq l l') {x : Row} (hx : x ∈ l) : x ∈ l' := by
  obtain ⟨y, hy, rfl⟩ := h.mem hx
  exact hy

theorem of_view {E : Engine Db Write Error} (T : Table E Row) {d : Db} {ws : List Write}
    (h : ∀ x ∈ T.rows d, r x (T.updateAll ws x)) : Grows r (T.rows d) (T.rows (E.view d ws)) :=
  ⟨T.updateAll ws, T.insertedAll ws, T.rows_view d ws, h⟩

end Grows

end ReadCommitted
