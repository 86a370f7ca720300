import GenPay.ReadCommitted.System
import Mathlib.Logic.Relation
import Mathlib.Data.Nat.Basic

/-!
# Locks

A write that locks a row waits for the open transaction that has locked it, so that each row is locked by one
(`Run.exclusive`).  Sessions wait for each other in a cycle only if one of them asks for a row that is not above
those it has (`Exclusive.not_deadlocked`); if they all climb, rows apart that they lock first, none does
(`Exclusive.not_deadlocked_of_climbs`).
-/

namespace ReadCommitted

variable {Db Write Error Choice Job α Row : Type} {S : Service Db Write Error Choice Job α}
  {G : Session Db Write Error Choice Job α → Db → Prop} {d₀ : Db} {s s' : System Db Write Error Choice Job α}
  {lock : Write → Option Row}

/-- The rows that a session has locked, in this order. -/
def Session.locked (lock : Write → Option Row) (t : Session Db Write Error Choice Job α) : List Row :=
  t.held.filterMap lock

/-- The row that a session asks for. -/
def Session.asks (lock : Write → Option Row) (t : Session Db Write Error Choice Job α) : Option Row :=
  t.sends.bind lock

/-- Session `i` asks for a row that session `j` has locked. -/
def System.WaitsFor (lock : Write → Option Row) (s : System Db Write Error Choice Job α) (i j : Nat) : Prop :=
  i ≠ j ∧ ∃ t u row, s.sessions[i]? = some t ∧ s.sessions[j]? = some u ∧ t.asks lock = some row ∧ row ∈ u.locked lock

instance [DecidableEq Row] {i j : Nat} : Decidable (s.WaitsFor lock i j) :=
  decidable_of_iff (i ≠ j ∧ ∃ t ∈ s.sessions[i]?, ∃ u ∈ s.sessions[j]?, ∃ row ∈ t.asks lock, row ∈ u.locked lock) <|
    and_congr_right fun _ =>
      ⟨fun ⟨t, ht, u, hu, row, hrow, hmem⟩ => ⟨t, u, row, ht, hu, hrow, hmem⟩,
        fun ⟨t, u, row, ht, hu, hrow, hmem⟩ => ⟨t, ht, u, hu, row, hrow, hmem⟩⟩

/-- Some sessions wait each for the next. -/
def System.Deadlocked (lock : Write → Option Row) (s : System Db Write Error Choice Job α) : Prop :=
  ∃ i, Relation.TransGen (s.WaitsFor lock) i i

/-- No two sessions have locked the same row. -/
def System.Exclusive (lock : Write → Option Row) (s : System Db Write Error Choice Job α) : Prop :=
  ∀ (i j : Nat) t u row, s.sessions[i]? = some t → s.sessions[j]? = some u → row ∈ t.locked lock →
    row ∈ u.locked lock → i = j

/-! ### One holder a row -/

theorem Session.asks_eq_some {t : Session Db Write Error Choice Job α} {row : Row} :
    t.asks lock = some row ↔ ∃ w, t.sends = some w ∧ lock w = some row := Option.bind_eq_some_iff

/-- What a session has locked after a move it had before, or has asked for. -/
theorem Session.Moves.locked {t t' : Session Db Write Error Choice Job α} {d d' : Db} (hm : t.Moves S d d' t')
    {row : Row} (h : row ∈ t'.locked lock) : row ∈ t.locked lock ∨ t.asks lock = some row := by
  unfold Session.locked at h ⊢
  cases hm with
  | commit hp | fail hp | rollback hp => cases h
  | select hp =>
    left
    rw [Session.held, hp]
    exact h
  | refused hp hv =>
    left
    rw [Session.held, hp]
    exact h
  | write hp hv =>
    obtain ⟨w, hw, hlock⟩ := List.mem_filterMap.1 h
    rcases List.mem_append.1 hw with hw | hw
    · left
      rw [Session.held, hp]
      exact List.mem_filterMap.2 ⟨w, hw, hlock⟩
    · right
      rw [List.mem_singleton.1 hw] at hlock
      exact Session.asks_eq_some.2 ⟨_, by rw [Session.sends, hp], hlock⟩

/-- A session that waits takes no step. -/
theorem System.WaitsFor.blocked (hlock : ∀ w w' row, lock w = some row → lock w' = some row → S.waits w w' = true)
    {i j : Nat} (h : s.WaitsFor lock i j) : s.step S (.exec i) = none := by
  obtain ⟨hij, t, u, row, ht, hu, hasks, hrow⟩ := h
  obtain ⟨w, hw, hwrow⟩ := Session.asks_eq_some.1 hasks
  obtain ⟨w', hw', hw'row⟩ := List.mem_filterMap.1 hrow
  have hblocked : s.blocked S i t = true := by
    by_contra hb
    have hwaits := System.blocked_eq_false.1 (by simpa using hb) w hw j u hij.symm hu w' hw'
    rw [hlock w w' row hwrow hw'row] at hwaits
    cases hwaits
  simp [System.step, ht, hblocked]

theorem Run.exclusive (hlock : ∀ w w' row, lock w = some row → lock w' = some row → S.waits w w' = true)
    (h : Run S G (System.initial d₀) s) : s.Exclusive lock := by
  induction h with
  | refl => intro i j t u row ht; simp [System.initial] at ht
  | @tail s s' l hrun hstep _ ih =>
    intro i j t u row ht hu hrow hrow'
    cases System.step_cases hstep with
    | start r o =>
      rcases getElem?_concat_cases ht with ht | ⟨-, rfl⟩
      · rcases getElem?_concat_cases hu with hu | ⟨-, rfl⟩
        · exact ih i j t u row ht hu hrow hrow'
        · cases hrow'
      · cases hrow
    | @abort k v p hv hp =>
      rcases getElem?_set_cases ht with ⟨rfl, rfl⟩ | ⟨-, ht⟩
      · cases hrow
      · rcases getElem?_set_cases hu with ⟨rfl, rfl⟩ | ⟨-, hu⟩
        · cases hrow'
        · exact ih i j t u row ht hu hrow hrow'
    | @exec k v d' v' hv hb ha =>
      have hm := Session.advance_moves ha
      -- a row that the session has just locked is locked by no other
      have hnew : ∀ (n : Nat) x, n ≠ k → s.sessions[n]? = some x → row ∈ x.locked lock → v.asks lock ≠ some row := by
        intro n x hne hx hmem hasks
        obtain ⟨w, hw, hwrow⟩ := Session.asks_eq_some.1 hasks
        obtain ⟨w', hw', hw'row⟩ := List.mem_filterMap.1 hmem
        have hwaits := System.blocked_eq_false.1 hb w hw n x hne hx w' hw'
        rw [hlock w w' row hwrow hw'row] at hwaits
        cases hwaits
      rcases getElem?_set_cases ht with ⟨rfl, rfl⟩ | ⟨hi, hti⟩
      · rcases getElem?_set_cases hu with ⟨rfl, rfl⟩ | ⟨hj, huj⟩
        · rfl
        · rcases hm.locked hrow with hold | hasks
          · exact ih _ j v u row hv huj hold hrow'
          · exact absurd hasks (hnew j u hj huj hrow')
      · rcases getElem?_set_cases hu with ⟨rfl, rfl⟩ | ⟨hj, huj⟩
        · rcases hm.locked hrow' with hold | hasks
          · exact ih i _ t v row hti hv hrow hold
          · exact absurd hasks (hnew i t hi hti hrow)
        · exact ih i j t u row hti huj hrow hrow'

/-! ### Orders -/

/-- Along the sessions that wait the rows asked for increase. -/
theorem System.Exclusive.not_deadlocked {R : Type} [Preorder R] (hex : s.Exclusive lock) (rank : Row → R)
    (horder : ∀ t ∈ s.sessions, ∀ row, t.asks lock = some row →
      row ∈ t.locked lock ∨ ∀ x ∈ t.locked lock, rank x < rank row) : ¬ s.Deadlocked lock := by
  have hnext : ∀ {i j : Nat} {t u x y}, s.WaitsFor lock i j → s.sessions[i]? = some t → s.sessions[j]? = some u →
      t.asks lock = some x → u.asks lock = some y → (∃ k, s.WaitsFor lock j k) → rank x < rank y := by
    rintro i j t u x y ⟨-, t', u', x', ht', hu', hx', hheld⟩ ht hu hx hy ⟨k, hjk, u'', v, y', hu'', hv, hy', hheld'⟩
    rw [ht] at ht'
    rw [hu] at hu' hu''
    cases ht'
    cases hu'
    cases hu''
    rw [hx] at hx'
    rw [hy] at hy'
    cases hx'
    cases hy'
    rcases horder u (List.mem_of_getElem? hu) y hy with hown | habove
    · exact absurd (hex j k u v y hu hv hown hheld') hjk
    · exact habove x hheld
  have hchain : ∀ {i j : Nat}, Relation.TransGen (s.WaitsFor lock) i j → (∃ k, s.WaitsFor lock j k) →
      ∀ {t u x y}, s.sessions[i]? = some t → s.sessions[j]? = some u → t.asks lock = some x → u.asks lock = some y →
        rank x < rank y := by
    intro i j h
    induction h with
    | single h => exact fun hk _ _ _ _ ht hu hx hy => hnext h ht hu hx hy hk
    | @tail j k _ h ih =>
      intro hk t u x y ht hu hx hy
      obtain ⟨-, v, -, z, hv, -, hz, -⟩ := id h
      exact lt_trans (ih ⟨k, h⟩ ht hv hx hz) (hnext h hv hu hz hy hk)
  rintro ⟨i, h⟩
  obtain ⟨k, hik, -⟩ := Relation.TransGen.head'_iff.1 h
  obtain ⟨-, t, -, x, ht, -, hx, -⟩ := id hik
  exact lt_irrefl _ (hchain h ⟨k, hik⟩ ht ht hx hx)

/-- Each element is there before, or ranked above all before but the first. -/
def Climbs (rank : Row → Nat) (l : List Row) : Prop :=
  ∀ pre x post, l = pre ++ x :: post → x ∈ pre ∨ ∀ y ∈ pre, pre.head? = some y ∨ rank y < rank x

section Climbs

variable {rank rank' : Row → Nat} {l l' : List Row} {a : Row}

theorem climbs_nil : Climbs rank [] := by
  intro pre x post h
  simp at h

theorem Climbs.of_append (h : Climbs rank (l ++ l')) : Climbs rank l := by
  rintro pre x post rfl
  exact h pre x (post ++ l') (by simp)

/-- After the first, ranks increase. -/
theorem climbs_cons (h : l.Pairwise fun x y => rank x < rank y) : Climbs rank (a :: l) := by
  intro pre x post he
  cases pre with
  | nil => exact Or.inr fun y hy => by cases hy
  | cons b pre =>
    obtain ⟨rfl, rfl⟩ := List.cons.inj he
    refine Or.inr fun y hy => ?_
    rcases List.mem_cons.1 hy with rfl | hy
    · exact Or.inl rfl
    · exact Or.inr ((List.pairwise_append.1 h).2.2 y hy x (List.mem_cons_self ..))

/-- What is there already may be asked for again. -/
theorem Climbs.append_subset (h : Climbs rank l) (hsub : ∀ x ∈ l', x ∈ l) : Climbs rank (l ++ l') := by
  intro pre x post he
  rcases List.append_eq_append_iff.1 he with ⟨mid, rfl, hl'⟩ | ⟨mid, rfl, hmid⟩
  · exact Or.inl (List.mem_append_left _ (hsub x (by simp [hl'])))
  · cases mid with
    | nil => exact Or.inl (by simpa using hsub x (by simp at hmid; simp [← hmid]))
    | cons z mid =>
      obtain ⟨rfl, -⟩ := List.cons.inj hmid
      exact h pre x mid rfl

theorem Climbs.congr (h : Climbs rank l) (he : ∀ x ∈ l, rank' x = rank x) : Climbs rank' l := by
  rintro pre x post rfl
  refine (h pre x post rfl).imp_right fun hall y hy => (hall y hy).imp_right fun hlt => ?_
  rw [he y (by simp [hy]), he x (by simp)]
  exact hlt

end Climbs

open Classical in
/-- Sessions that climb do not wait in a cycle, if rows that one asks for first are asked for first by all. -/
theorem System.Exclusive.not_deadlocked_of_climbs (hex : s.Exclusive lock) (rank : Row → Nat)
    (queue : Session Db Write Error Choice Job α → List Row)
    (hqueue : ∀ t ∈ s.sessions, ∀ row, t.asks lock = some row →
      queue t = t.locked lock ++ [row] ∧ Climbs rank (queue t))
    (hfirst : ∀ t ∈ s.sessions, ∀ u ∈ s.sessions, ∀ row ∈ (queue t).head?, row ∈ queue u →
      (queue u).head? = some row) : ¬ s.Deadlocked lock := by
  refine hex.not_deadlocked (fun row => if ∃ t ∈ s.sessions, (queue t).head? = some row then 0 else rank row + 1)
    fun t ht row hasks => ?_
  obtain ⟨hq, hclimbs⟩ := hqueue t ht row hasks
  rcases hclimbs (t.locked lock) row [] hq with hmem | habove
  · exact Or.inl hmem
  by_cases hown : (t.locked lock).head? = some row
  · exact Or.inl (List.mem_of_mem_head? hown)
  by_cases hnil : t.locked lock = []
  · exact Or.inr fun x hx => by simp [hnil] at hx
  have hhead : (queue t).head? = (t.locked lock).head? := by
    obtain ⟨x, xs, hx⟩ := List.exists_cons_of_ne_nil hnil
    rw [hq, hx]
    rfl
  -- the row is first for no session
  have hlater : ¬ ∃ u ∈ s.sessions, (queue u).head? = some row := by
    rintro ⟨u, hu, hrow⟩
    exact hown (hhead ▸ hfirst u hu t ht row hrow (by simp [hq]))
  refine Or.inr fun x hx => ?_
  show (if _ then 0 else rank x + 1) < if _ then 0 else rank row + 1
  rw [if_neg hlater]
  split
  · exact Nat.succ_pos _
  · rename_i hx'
    rcases habove x hx with hfirst | hlt
    · exact absurd ⟨t, ht, hhead.trans hfirst⟩ hx'
    · exact Nat.succ_lt_succ hlt

end ReadCommitted
