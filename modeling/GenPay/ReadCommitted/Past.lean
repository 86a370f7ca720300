import GenPay.ReadCommitted.Discipline
import GenPay.ReadCommitted.Sends
import GenPay.ReadCommitted.Tables

/-!
# The past of a run

The databases a run has passed since a state (`Passed`).  A session sees databases that were committed between its
start and its end only (`Run.seen_since`), and what a discipline says of the whole run holds between a passed
database and the last one (`Passed.evolves`).  A session that has ended has done so as its program may
(`Run.ends_as`) and stays as it is (`Run.ended_stays`), so that whatever starts after a commit sees what was
committed.  `Log` is a run with the sessions it commits in their order;
a machine that simulates each commit simulates the run (`Log.simulated`).
-/

namespace ReadCommitted

variable {Db Write Error Choice Job α Key : Type} {S : Service Db Write Error Choice Job α}
  {G : Session Db Write Error Choice Job α → Db → Prop} {s₀ s s' : System Db Write Error Choice Job α} {d d₀ : Db}

/-- A transaction only adds to what it has seen. -/
theorem Prog.wp_seen {E : Engine Db Write Error} {o : Nat → Choice} (p : Prog Db Write Error Choice α) (t : Txn Db Write) :
    p.wp E o (fun _ t' => t.seen <+: t'.seen) t := by
  have hsaw : ∀ {p : Prog Db Write Error Choice α} {t u : Txn Db Write}, (∃ d, u.seen = t.seen ++ [d]) →
      p.wp E o (fun _ t' => u.seen <+: t'.seen) u → p.wp E o (fun _ t' => t.seen <+: t'.seen) u := by
    intro p t u hu hp
    obtain ⟨d, hd⟩ := hu
    refine Prog.wp_mono hp fun _ t' h => ?_
    rw [hd] at h
    exact (List.prefix_append _ _).trans h
  induction p generalizing t with
  | ret a => exact List.prefix_rfl
  | raise e => exact List.prefix_rfl
  | select q k ih => exact fun d => hsaw ⟨d, rfl⟩ (ih _ _)
  | write w k ih =>
    intro d
    cases E.violation (E.view d t.writes) w with
    | none => exact hsaw ⟨d, rfl⟩ (ih _ _)
    | some e => exact hsaw ⟨d, rfl⟩ (ih _ _)
  | rollback k ih => exact fun d => hsaw ⟨d, rfl⟩ (ih _)

/-- A database the run from `s₀` to `s` has passed. -/
def Passed (S : Service Db Write Error Choice Job α) (G : Session Db Write Error Choice Job α → Db → Prop)
    (s₀ s : System Db Write Error Choice Job α) (d : Db) : Prop :=
  ∃ s', Run S G s₀ s' ∧ Run S G s' s ∧ s'.db = d

theorem Passed.tail (h : Passed S G s₀ s d) (l : Label Choice Job) (hstep : s.step S l = some s')
    (hG : ∀ t, s.committing l = some t → G t s.db) : Passed S G s₀ s' d := by
  obtain ⟨s₁, h₁, h₂, hd⟩ := h
  exact ⟨s₁, h₁, h₂.tail l hstep hG, hd⟩

theorem Passed.here (h : Run S G s₀ s) : Passed S G s₀ s s.db := ⟨s, h, .refl s, rfl⟩

/-- A session that was started after `s₀` has seen databases of the run from there on. -/
theorem Run.seen_since (h : Run S G s₀ s) : ∀ (i : Nat) t, s₀.sessions.length ≤ i → s.sessions[i]? = some t →
    ∀ d ∈ t.txn.seen, Passed S G s₀ s d := by
  induction h with
  | refl =>
    intro i t hi ht
    rw [List.getElem?_eq_none hi] at ht
    cases ht
  | @tail s s' l hrun hstep hG ih =>
    intro i t hi ht d hd
    rcases (System.step_cases hstep).session ht with ht | ⟨r, o, rfl, -⟩ | ⟨u, hu, -, hm⟩ | ⟨u, p, hu, -, rfl⟩
    · exact (ih i t hi ht d hd).tail l hstep hG
    · exact absurd hd List.not_mem_nil
    · rcases hm.mem_seen hd with hold | rfl
      · exact (ih i u hi hu d hold).tail l hstep hG
      · exact (Passed.here hrun).tail l hstep hG
    · exact (ih i u hi hu d hd).tail l hstep hG

theorem Run.seen_passed (h : Run S G (System.initial d₀) s) {t : Session Db Write Error Choice Job α} (ht : t ∈ s.sessions)
    (hd : d ∈ t.txn.seen) : Passed S G (System.initial d₀) s d := by
  obtain ⟨i, hi⟩ := List.getElem?_of_mem ht
  exact h.seen_since i t (Nat.zero_le i) hi d hd

/-- What a discipline says of a passed database and the last one. -/
theorem Passed.evolves {K : Keys S.toEngine Key} (D : Discipline S K G) (h₀ : D.inv d₀)
    (hrun : Run S G (System.initial d₀) s₀) (h : Passed S G s₀ s d) :
    D.inv d ∧ D.evolves s₀.db d ∧ D.evolves d s.db := by
  obtain ⟨s₁, h₁, h₂, rfl⟩ := h
  obtain ⟨hbefore, hrun₁⟩ := Discipline.evolves_run h₀ hrun h₁
  exact ⟨(Discipline.inv_run h₀ hrun₁).db, hbefore, (Discipline.evolves_run h₀ hrun₁ h₂).1⟩

/-- A session that has ended stays as it is. -/
theorem Run.ended_stays (h : Run S G s s') {i : Nat} {t : Session Db Write Error Choice Job α} (ht : s.sessions[i]? = some t)
    (hend : ∀ p, t.phase ≠ .running p) : s'.sessions[i]? = some t := by
  induction h with
  | refl => exact ht
  | tail l _ hstep _ ih =>
    have hi := (List.getElem?_eq_some_iff.1 ih).1
    cases System.step_cases hstep with
    | start r o =>
      rw [List.getElem?_append_left hi]
      exact ih
    | @exec j u d' u' hu hb ha =>
      by_cases hij : j = i
      · subst hij
        rw [ih] at hu
        cases hu
        cases Session.advance_moves ha with
        | _ hp => exact absurd hp (hend _)
      · rw [List.getElem?_set_ne hij]
        exact ih
    | @abort j u p hu hp =>
      by_cases hij : j = i
      · subst hij
        rw [ih] at hu
        cases hu
        exact absurd hp (hend p)
      · rw [List.getElem?_set_ne hij]
        exact ih

/-- A session that has published something has committed, and stays. -/
theorem Run.published_stays (h : Run S G s s') {t : Session Db Write Error Choice Job α} (ht : t ∈ s.sessions) {w : Write}
    (hw : w ∈ t.published) : t ∈ s'.sessions := by
  obtain ⟨i, hi⟩ := List.getElem?_of_mem ht
  refine List.mem_of_getElem? (h.ended_stays hi fun p hp => ?_)
  rw [Session.published, hp] at hw
  cases hw

/-- What the database holds was there at first or has been published. -/
theorem Run.source {Row : Type} (holds : Db → Row → Prop) (puts : Write → Row → Prop)
    (hview : ∀ d ws r, holds (S.view d ws) r → holds d r ∨ ∃ w ∈ ws, puts w r) (h : Run S G (System.initial d₀) s)
    {r : Row} (hr : holds s.db r) : holds d₀ r ∨ ∃ t ∈ s.sessions, ∃ w ∈ t.published, puts w r := by
  induction h with
  | refl => exact Or.inl hr
  | @tail s s' l hrun hstep hG ih =>
    have hlast : Run S G s s' := (Run.refl s).tail l hstep hG
    have hold : holds s.db r → holds d₀ r ∨ ∃ t ∈ s'.sessions, ∃ w ∈ t.published, puts w r := by
      intro hb
      rcases ih hb with h₀ | ⟨t, ht, w, hw, hputs⟩
      · exact Or.inl h₀
      · exact Or.inr ⟨t, hlast.published_stays ht hw, w, hw, hputs⟩
    rcases (System.step_cases hstep).db with he | ⟨i, t, a, rfl, ht, hp, he⟩
    · rw [he] at hr
      exact hold hr
    · rw [he] at hr
      rcases hview _ _ _ hr with hb | ⟨w, hw, hputs⟩
      · exact hold hb
      · have hs' := (System.step_commit ht hp).symm.trans hstep
        cases hs'
        have hi := (List.getElem?_eq_some_iff.1 ht).1
        exact Or.inr ⟨{ t with phase := .committed a }, List.mem_of_getElem? (i := i) (by simp [hi]), w, hw, hputs⟩

/-- A row with `P` was there at first or has been published, unless an update has brought about `P`. -/
theorem Run.row_source {Row : Type} (T : Table S.toEngine Row) {P : Row → Prop} {Q : Write → Prop}
    (hupdate : ∀ w r, P (T.update w r) → P r ∨ Q w) (h : Run S G (System.initial d₀) s) (hr : ∃ r ∈ T.rows s.db, P r) :
    (∃ r ∈ T.rows d₀, P r) ∨ ∃ t ∈ s.sessions, ∃ w ∈ t.published, (∃ r, T.inserted w = some r ∧ P r) ∨ Q w := by
  refine Run.source (fun d (_ : Unit) => ∃ r ∈ T.rows d, P r)
    (fun w _ => (∃ r, T.inserted w = some r ∧ P r) ∨ Q w) (fun d ws _ hview => ?_) h (r := ()) hr
  induction ws generalizing d with
  | nil => exact Or.inl hview
  | cons w ws ih =>
    rw [Engine.view_cons] at hview
    rcases ih (S.apply d w) hview with ⟨r, hr, hP⟩ | ⟨w', hw', hputs⟩
    · rw [T.rows_apply, List.mem_append, List.mem_map, Option.mem_toList] at hr
      rcases hr with ⟨r₀, hr₀, rfl⟩ | hr
      · rcases hupdate w r₀ hP with hP | hQ
        · exact Or.inl ⟨r₀, hr₀, hP⟩
        · exact Or.inr ⟨w, List.mem_cons_self .., Or.inr hQ⟩
      · exact Or.inr ⟨w, List.mem_cons_self .., Or.inl ⟨r, hr, hP⟩⟩
    · exact Or.inr ⟨w', List.mem_cons_of_mem _ hw', hputs⟩

/-- A row of a table that no write updates stays. -/
theorem Run.row_stays {Row : Type} (T : Table S.toEngine Row) (hT : ∀ w r, T.update w r = r) (h : Run S G s s') {r : Row}
    (hr : r ∈ T.rows s.db) : r ∈ T.rows s'.db := by
  induction h with
  | refl => exact hr
  | tail l _ hstep _ ih =>
    rcases (System.step_cases hstep).db with he | ⟨i, t, a, -, -, -, he⟩
    · rw [he]
      exact ih
    · rw [he]
      exact (T.mem_rows_view_of_untouched fun w _ => hT w).2 (Or.inl ih)

/-! ### How sessions end -/

/-- The session has ended as `Q` says, or its program will; it may be ended by the engine. -/
def Session.EndsAs (S : Service Db Write Error Choice Job α) (Q : Prog.Post Db Write Error α)
    (t : Session Db Write Error Choice Job α) : Prop :=
  match t.phase with
  | .running p => p.wp S.toEngine t.oracle Q t.txn
  | .committed a => Q (.ok a) t.txn
  | .failed e => e = S.aborted ∨ ∃ ws, Q (.error e) ⟨ws, t.txn.seen⟩

theorem Session.EndsAs.running {Q : Prog.Post Db Write Error α} {t : Session Db Write Error Choice Job α} {p}
    (h : t.EndsAs S Q) (hp : t.phase = .running p) : p.wp S.toEngine t.oracle Q t.txn := by
  rwa [EndsAs, hp] at h

theorem Session.EndsAs.committed {Q : Prog.Post Db Write Error α} {t : Session Db Write Error Choice Job α} {a : α}
    (h : t.EndsAs S Q) (ha : t.phase = .committed a) : Q (.ok a) t.txn := by
  rwa [EndsAs, ha] at h

theorem Session.EndsAs.failed {Q : Prog.Post Db Write Error α} {t : Session Db Write Error Choice Job α} {e : Error}
    (h : t.EndsAs S Q) (he : t.phase = .failed e) : e = S.aborted ∨ ∃ ws, Q (.error e) ⟨ws, t.txn.seen⟩ := by
  rwa [EndsAs, he] at h

theorem Session.EndsAs.moves {Q : Prog.Post Db Write Error α} {t t' : Session Db Write Error Choice Job α} {d d' : Db}
    (h : t.EndsAs S Q) (hm : t.Moves S d d' t') : t'.EndsAs S Q := by
  cases hm with
  | commit hp => exact h.running hp
  | fail hp => exact Or.inr ⟨_, h.running hp⟩
  | select hp => exact h.running hp d
  | write hp hv =>
    have hw := h.running hp d
    rw [hv] at hw
    exact hw
  | refused hp hv =>
    have hw := h.running hp d
    rw [hv] at hw
    exact hw
  | rollback hp => exact h.running hp d

/-- The sessions of a job end as its program does among others. -/
theorem Run.ends_as {Q : Prog.Post Db Write Error α} {r : Job} {o : Nat → Choice}
    (hp : (S.handle r).wp S.toEngine o Q Txn.fresh) (h : Run S G (System.initial d₀) s) :
    ∀ t ∈ s.sessions, t.job = r → t.oracle = o → t.EndsAs S Q := by
  induction h with
  | refl => intro t ht; simp [System.initial] at ht
  | tail l _ hstep _ ih =>
    intro u hu hr ho
    obtain ⟨j, hj⟩ := List.getElem?_of_mem hu
    rcases (System.step_cases hstep).session hj with hj | ⟨r', o', rfl, -⟩ | ⟨t, ht, -, hm⟩ | ⟨t, p, ht, -, rfl⟩
    · exact ih u (List.mem_of_getElem? hj) hr ho
    · cases hr
      cases ho
      exact hp
    · exact (ih t (List.mem_of_getElem? ht) (hm.job ▸ hr) (hm.oracle ▸ ho)).moves hm
    · exact Or.inl rfl

/-! ### The order of the commits -/

/-- The session that commits with a step has returned; the step applies its statements. -/
theorem System.committing_some {l : Label Choice Job} {t : Session Db Write Error Choice Job α}
    (h : s.committing l = some t) : ∃ (i : Nat) (a : α), l = .exec i ∧ s.sessions[i]? = some t ∧
      t.phase = .running (.ret a) := by
  unfold System.committing at h
  cases l with
  | exec i =>
    simp only at h
    cases hi : s.sessions[i]? with
    | none =>
      rw [hi] at h
      cases h
    | some u =>
      simp only [hi, Option.ite_none_right_eq_some, Option.some.injEq] at h
      obtain ⟨hcommits, rfl⟩ := h
      unfold Session.commits at hcommits
      split at hcommits
      · rename_i a hp
        exact ⟨i, a, rfl, hi, hp⟩
      · cases hcommits
  | _ => cases h

/-- A run with the sessions it commits, in the order of their commits, each as it is when it commits. -/
inductive Log (S : Service Db Write Error Choice Job α) (G : Session Db Write Error Choice Job α → Db → Prop)
    (s₀ : System Db Write Error Choice Job α) :
    List (Session Db Write Error Choice Job α) → System Db Write Error Choice Job α → Prop
  | nil : Log S G s₀ [] s₀
  | step {ts s s'} (l : Label Choice Job) (h : Log S G s₀ ts s) (hstep : s.step S l = some s')
      (hG : ∀ t, s.committing l = some t → G t s.db) : Log S G s₀ (ts ++ (s.committing l).toList) s'

theorem Log.run {ts : List (Session Db Write Error Choice Job α)} (h : Log S G s₀ ts s) : Run S G s₀ s := by
  induction h with
  | nil => exact .refl _
  | step l _ hstep hG ih => exact ih.tail l hstep hG

theorem Run.log (h : Run S G s₀ s) : ∃ ts, Log S G s₀ ts s := by
  induction h with
  | refl => exact ⟨[], .nil⟩
  | tail l _ hstep hG ih =>
    obtain ⟨ts, hts⟩ := ih
    exact ⟨_, hts.step l hstep hG⟩

/-- Forward simulation: where each step is matched by the move of the session it commits, or by none, the moves of
a run are those of the machine. -/
theorem Log.simulated {σ Move : Type} {next : σ → Move → Option σ} {move : Session Db Write Error Choice Job α → Option Move}
    {R : System Db Write Error Choice Job α → σ → Prop} {a₀ : σ} (h₀ : R s₀ a₀)
    (hmatch : ∀ s s' l a, Run S G s₀ s → s.step S l = some s' → (∀ t, s.committing l = some t → G t s.db) → R s a →
      ∃ a', ((s.committing l).bind move).toList.foldlM next a = some a' ∧ R s' a')
    {ts : List (Session Db Write Error Choice Job α)} (h : Log S G s₀ ts s) :
    ∃ a, (ts.filterMap move).foldlM next a₀ = some a ∧ R s a := by
  induction h with
  | nil => exact ⟨a₀, rfl, h₀⟩
  | @step ts s s' l h hstep hG ih =>
    obtain ⟨a, ha, hR⟩ := ih
    obtain ⟨a', ha', hR'⟩ := hmatch s s' l a h.run hstep hG hR
    refine ⟨a', ?_, hR'⟩
    have hmoves : (s.committing l).toList.filterMap move = ((s.committing l).bind move).toList := by
      cases s.committing l with
      | none => rfl
      | some t => cases ht : move t <;> simp [ht]
    rw [List.filterMap_append, hmoves, List.foldlM_append, ha]
    exact ha'

end ReadCommitted
