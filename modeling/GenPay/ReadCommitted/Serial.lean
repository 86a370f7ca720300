import GenPay.ReadCommitted.Discipline

/-!
# One request at a time, and requests that leave nothing behind

`Service.serve` answers a job with no other session open.  It is the special case of a run in which the job's
session takes all the steps (`serve_run`), so a discipline covers it (`Discipline.serve`).

A session that published nothing (it failed, or its transaction wrote nothing) can be taken out of a run: the
same steps of the others lead to the same database and the same other sessions (`Run.erase`).
-/

namespace ReadCommitted

variable {Db Write Error Choice Job α Key : Type}

/-- A program run alone on the committed database `d`. -/
def Prog.run (E : Engine Db Write Error) (o : Nat → Choice) (d : Db) :
    Prog Db Write Error Choice α → Txn Db Write → Except Error α × Txn Db Write
  | .ret a, t => (.ok a, t)
  | .raise e, t => (.error e, t)
  | .select q k, t => (k (q (o t.seen.length) (E.view d t.writes))).run E o d (t.saw d)
  | .write w k, t =>
    match E.violation (E.view d t.writes) w with
    | none => (k none).run E o d (t.wrote d w)
    | some e => (k (some e)).run E o d (t.saw d)
  | .rollback k, t => k.run E o d (t.dropped d)

/-- The answer to a job and the database it leaves, with no other session open. -/
def Service.serve (S : Service Db Write Error Choice Job α) (r : Job) (o : Nat → Choice) (d : Db) :
    Except Error α × Db :=
  match (S.handle r).run S.toEngine o d Txn.fresh with
  | (.ok a, t) => (.ok a, S.view d t.writes)
  | (.error e, _) => (.error e, d)

/-- Jobs answered one after the other. -/
def Service.serveAll (S : Service Db Write Error Choice Job α) (d : Db) : List (Job × (Nat → Choice)) → Db
  | [] => d
  | r :: rs => S.serveAll (S.serve r.1 r.2 d).2 rs

/-- The answers depend on the programs of the jobs only. -/
theorem Service.serveAll_handle {S : Service Db Write Error Choice Job α}
    {handle : Job → Prog Db Write Error Choice α} {rs : List (Job × (Nat → Choice))}
    (h : ∀ r ∈ rs, handle r.1 = S.handle r.1) (d : Db) :
    S.serveAll d rs = Service.serveAll { S with handle := handle } d rs := by
  induction rs generalizing d with
  | nil => rfl
  | cons r rs ih =>
    have hserve : Service.serve { S with handle := handle } r.1 r.2 d = S.serve r.1 r.2 d := by
      simp only [Service.serve, h r (List.mem_cons_self ..)]
    simp only [Service.serveAll, hserve]
    exact ih (fun r hr => h r (List.mem_cons_of_mem _ hr)) _

theorem Service.serveAll_append (S : Service Db Write Error Choice Job α) (d : Db) (rs rs' : List (Job × (Nat → Choice))) :
    S.serveAll d (rs ++ rs') = S.serveAll (S.serveAll d rs) rs' := by
  induction rs generalizing d with
  | nil => rfl
  | cons r rs ih => exact ih _

/-- What holds after some jobs, and not before, one of them has brought about. -/
theorem Service.exists_first (S : Service Db Write Error Choice Job α) {P : Db → Prop} {rs : List (Job × (Nat → Choice))} :
    ∀ {d : Db}, ¬ P d → P (S.serveAll d rs) → ∃ rs₁ r rs₂, rs = rs₁ ++ r :: rs₂ ∧ ¬ P (S.serveAll d rs₁) ∧
      P (S.serve r.1 r.2 (S.serveAll d rs₁)).2 := by
  induction rs with
  | nil => exact fun hnot h => absurd h hnot
  | cons r rs ih =>
    intro d hnot h
    by_cases hr : P (S.serve r.1 r.2 d).2
    · exact ⟨[], r, rs, rfl, hnot, hr⟩
    · obtain ⟨rs₁, r', rs₂, rfl, hbefore, hafter⟩ := ih hr h
      exact ⟨r :: rs₁, r', rs₂, rfl, hbefore, hafter⟩

/-- The databases on which the jobs are answered. -/
def Service.history (S : Service Db Write Error Choice Job α) (d : Db) : List (Job × (Nat → Choice)) → List Db
  | [] => []
  | r :: rs => d :: S.history (S.serve r.1 r.2 d).2 rs

/-- The invariant rule for jobs answered one after the other; the invariant may speak of the past. -/
theorem Service.history_induction (S : Service Db Write Error Choice Job α) {P : List Db → Db → Prop}
    (hstep : ∀ h d r o, P h d → P (h ++ [d]) (S.serve r o d).2) (rs : List (Job × (Nat → Choice))) :
    ∀ {h : List Db} {d : Db}, P h d → P (h ++ S.history d rs) (S.serveAll d rs) := by
  induction rs with
  | nil => intro h d hP; simpa [Service.history, Service.serveAll] using hP
  | cons r rs ih =>
    intro h d hP
    simpa [Service.history, Service.serveAll] using ih (hstep h d r.1 r.2 hP)

section Run

variable {E : Engine Db Write Error} {o : Nat → Choice} {d : Db}

theorem Prog.run_wp {p : Prog Db Write Error Choice α} {Q : Prog.Post Db Write Error α} {t : Txn Db Write}
    (h : p.wp E o Q t) : Q (p.run E o d t).1 (p.run E o d t).2 := by
  induction p generalizing t with
  | ret a => exact h
  | raise e => exact h
  | select q k ih => exact ih _ (h d)
  | write w k ih =>
    have hd := h d
    unfold Prog.run
    cases hv : E.violation (E.view d t.writes) w with
    | none => rw [hv] at hd; exact ih _ hd
    | some e => rw [hv] at hd; exact ih _ hd
  | rollback k ih => exact ih (h d)

/-- A program run alone only sees the database it runs on. -/
theorem Prog.run_seen (p : Prog Db Write Error Choice α) (t : Txn Db Write) :
    ∀ x ∈ (p.run E o d t).2.seen, x ∈ t.seen ∨ x = d := by
  induction p generalizing t with
  | ret a => exact fun x hx => Or.inl hx
  | raise e => exact fun x hx => Or.inl hx
  | select q k ih =>
    intro x hx
    have := ih _ _ x hx
    simp only [Txn.saw_seen, List.mem_append, List.mem_singleton] at this
    tauto
  | write w k ih =>
    intro x hx
    unfold Prog.run at hx
    split at hx
    · have := ih _ _ x hx
      simp only [Txn.wrote_seen, List.mem_append, List.mem_singleton] at this
      tauto
    · have := ih _ _ x hx
      simp only [Txn.saw_seen, List.mem_append, List.mem_singleton] at this
      tauto
  | rollback k ih =>
    intro x hx
    have := ih _ x hx
    simp only [Txn.dropped_seen, List.mem_append, List.mem_singleton] at this
    tauto

theorem Prog.run_free (K : Keys E Key) (p : Prog Db Write Error Choice α) (t : Txn Db Write)
    (h : K.Free d t.writes) : K.Free d (p.run E o d t).2.writes := by
  induction p generalizing t with
  | ret a => exact h
  | raise e => exact h
  | select q k ih => exact ih _ _ h
  | write w k ih =>
    unfold Prog.run
    split
    · rename_i hv
      exact ih _ _ (h.concat hv)
    · exact ih _ _ h
  | rollback k ih => exact ih _ (Keys.free_nil d)

end Run

section Serve

variable {S : Service Db Write Error Choice Job α} {K : Keys S.toEngine Key}
  {G : Session Db Write Error Choice Job α → Db → Prop} {D : Discipline S K G} {d : Db}

/-- What a discipline says of a job answered alone: its transaction commits on the database it has seen. -/
theorem Discipline.serve_ok (hG : ∀ t d, G t d) (hd : D.inv d) {r : Job} {o : Nat → Choice} {a : α} {d' : Db}
    (h : S.serve r o d = (.ok a, d')) :
    ∃ t : Txn Db Write, D.AtCommit ⟨r, o, .running (.ret a), t⟩ a d ∧ (∀ x ∈ t.seen, x = d) ∧
      d' = S.view d t.writes := by
  unfold Service.serve at h
  split at h
  · rename_i b t hrun
    cases h
    have hwp := Prog.run_wp (d := d) (D.program r o)
    have hseen := Prog.run_seen (E := S.toEngine) (o := o) (d := d) (S.handle r) Txn.fresh
    have hfree := Prog.run_free (E := S.toEngine) (o := o) (d := d) K (S.handle r) Txn.fresh (Keys.free_nil d)
    rw [hrun] at hwp hseen hfree
    have hs : ∀ x ∈ t.seen, x = d := fun x hx => by simpa using hseen x hx
    refine ⟨t, ⟨rfl, hwp, hG _ _, hd, fun x hx => ?_, ?_, hfree⟩, hs, rfl⟩
    · rw [hs x hx]
      exact ⟨hd, D.refl d⟩
    · rw [List.eq_replicate_of_mem hs]
      exact List.pairwise_replicate.2 (Or.inr (D.refl d))
  · cases h

theorem Service.serve_error {r : Job} {o : Nat → Choice} {e : Error} {d' : Db}
    (h : S.serve r o d = (.error e, d')) : d' = d := by
  unfold Service.serve at h
  split at h
  · cases h
  · cases h; rfl

theorem Discipline.serve (hG : ∀ t d, G t d) (hd : D.inv d) (r : Job) (o : Nat → Choice) :
    D.inv (S.serve r o d).2 ∧ D.evolves d (S.serve r o d).2 := by
  rcases h : S.serve r o d with ⟨a | a, d'⟩
  · rw [Service.serve_error h]; exact ⟨hd, D.refl d⟩
  · obtain ⟨t, hat, -, rfl⟩ := Discipline.serve_ok hG hd h
    exact hat.next

end Serve

section Embedding

variable {S : Service Db Write Error Choice Job α} {G : Session Db Write Error Choice Job α → Db → Prop}

/-- One step of the last session of a system whose other sessions hold nothing. -/
private theorem exec_last {d d' : Db} {ts : List (Session Db Write Error Choice Job α)}
    {t t' : Session Db Write Error Choice Job α} (hidle : ∀ u ∈ ts, u.held = [])
    (ha : t.advance S d = some (d', t')) (hG : ∀ t d, G t d) :
    Run S G ⟨d, ts ++ [t]⟩ ⟨d', ts ++ [t']⟩ := by
  refine (Run.refl _).tail (.exec ts.length) ?_ (fun t _ => hG t _)
  have ht : (ts ++ [t])[ts.length]? = some t := by simp
  have hb : System.blocked S ⟨d, ts ++ [t]⟩ ts.length t = false := by
    rw [System.blocked_eq_false]
    intro w _ j u hj hu w' hw'
    rcases getElem?_concat_cases hu with hu | ⟨rfl, -⟩
    · rw [hidle u (List.mem_of_getElem? hu)] at hw'
      cases hw'
    · exact absurd rfl hj
  have hset : (ts ++ [t]).set ts.length t' = ts ++ [t'] := by simp
  simp only [System.step, ht, hb, ha, hset, Bool.false_eq_true, ↓reduceIte]

private theorem run_last (hG : ∀ t d, G t d) (p : Prog Db Write Error Choice α) {d : Db}
    {ts : List (Session Db Write Error Choice Job α)} (hidle : ∀ u ∈ ts, u.held = []) (r : Job)
    (o : Nat → Choice) (t : Txn Db Write) :
    Run S G ⟨d, ts ++ [⟨r, o, .running p, t⟩]⟩
      (match p.run S.toEngine o d t with
        | (.ok a, t') => ⟨S.view d t'.writes, ts ++ [⟨r, o, .committed a, t'⟩]⟩
        | (.error e, t') => ⟨d, ts ++ [⟨r, o, .failed e, { t' with writes := [] }⟩]⟩) := by
  induction p generalizing t with
  | ret a => exact exec_last hidle rfl hG
  | raise e => exact exec_last hidle rfl hG
  | select q k ih => exact (exec_last hidle rfl hG).trans (ih _ _)
  | write w k ih =>
    simp only [Prog.run]
    cases hv : S.violation (S.view d t.writes) w with
    | none => exact (exec_last hidle (by simp only [Session.advance, hv]) hG).trans (ih _ _)
    | some e => exact (exec_last hidle (by simp only [Session.advance, hv]) hG).trans (ih _ _)
  | rollback k ih => exact (exec_last hidle rfl hG).trans (ih _)

/-- Answering a job alone is a run: its session is started and takes every step. -/
theorem serve_run (hG : ∀ t d, G t d) {d : Db} {ts : List (Session Db Write Error Choice Job α)}
    (hidle : ∀ u ∈ ts, u.held = []) (r : Job) (o : Nat → Choice) :
    ∃ t : Session Db Write Error Choice Job α, t.job = r ∧ t.oracle = o ∧ t.held = [] ∧
      Run S G ⟨d, ts⟩ ⟨(S.serve r o d).2, ts ++ [t]⟩ ∧ (S.serve r o d).2 = S.view d t.published ∧
      (match (S.serve r o d).1 with
        | .ok a => t.phase = .committed a
        | .error e => t.phase = .failed e) := by
  have hstart : Run S G ⟨d, ts⟩ ⟨d, ts ++ [Session.started S r o]⟩ :=
    (Run.refl _).tail (.start r o) rfl (fun t h => by cases h)
  have hrun := run_last (S := S) hG (S.handle r) hidle (d := d) r o Txn.fresh
  unfold Service.serve
  split
  · rename_i a t he
    rw [he] at hrun
    exact ⟨_, rfl, rfl, rfl, hstart.trans hrun, rfl, rfl⟩
  · rename_i e t he
    rw [he] at hrun
    exact ⟨_, rfl, rfl, rfl, hstart.trans hrun, rfl, rfl⟩

/-- Jobs answered one after the other are a run. -/
theorem serveAll_run (hG : ∀ t d, G t d) (rs : List (Job × (Nat → Choice))) {d : Db}
    {ts : List (Session Db Write Error Choice Job α)} (hidle : ∀ u ∈ ts, u.held = []) :
    ∃ us : List (Session Db Write Error Choice Job α), (∀ u ∈ us, u.held = []) ∧
      Run S G ⟨d, ts⟩ ⟨S.serveAll d rs, ts ++ us⟩ := by
  induction rs generalizing d ts with
  | nil => exact ⟨[], by simp, by simpa [Service.serveAll] using Run.refl _⟩
  | cons r rs ih =>
    obtain ⟨t, -, -, ht, hrun, -⟩ := serve_run (S := S) (G := G) (d := d) hG hidle r.1 r.2
    have hidle' : ∀ u ∈ ts ++ [t], u.held = [] := by
      intro u hu
      rcases List.mem_append.1 hu with hu | hu
      · exact hidle u hu
      · rw [List.mem_singleton.1 hu]; exact ht
    obtain ⟨us, hus, hrest⟩ := ih (d := (S.serve r.1 r.2 d).2) hidle'
    refine ⟨t :: us, ?_, ?_⟩
    · intro u hu
      rcases List.mem_cons.1 hu with rfl | hu
      · exact ht
      · exact hus u hu
    · simpa [Service.serveAll] using hrun.trans hrest

/-- Two systems that differ at most in session `i`, which holds nothing in the second one. -/
structure SameBut (i : Nat) (s s₂ : System Db Write Error Choice Job α) : Prop where
  db : s₂.db = s.db
  length : s₂.sessions.length = s.sessions.length
  others : ∀ j, j ≠ i → s₂.sessions[j]? = s.sessions[j]?
  idle : ∀ t, s₂.sessions[i]? = some t → t.held = []

/-- Some run in which session `i` never takes a step leads to the same database and the same other sessions. -/
def Erasable (S : Service Db Write Error Choice Job α) (G : Session Db Write Error Choice Job α → Db → Prop)
    (d₀ : Db) (i : Nat) (s : System Db Write Error Choice Job α) : Prop :=
  ∃ s₂, Run S G (System.initial d₀) s₂ ∧ SameBut i s s₂ ∧
    ∀ t, s₂.sessions[i]? = some t → ∃ r o, t = Session.started S r o

private theorem SameBut.blocked {i j : Nat} {s s₂ : System Db Write Error Choice Job α} (h : SameBut i s s₂)
    {t : Session Db Write Error Choice Job α} (hb : s.blocked S j t = false) : s₂.blocked S j t = false := by
  rw [System.blocked_eq_false] at hb ⊢
  intro w hw k u hk hu w' hw'
  by_cases hki : k = i
  · subst hki
    rw [h.idle u hu] at hw'
    cases hw'
  · rw [h.others k hki] at hu
    exact hb w hw k u hk hu w' hw'

/-- A step of another session is a step of both systems. -/
private theorem SameBut.set {i j : Nat} {s s₂ : System Db Write Error Choice Job α} (h : SameBut i s s₂)
    (hj : j ≠ i) (d : Db) (t : Session Db Write Error Choice Job α) :
    SameBut i ⟨d, s.sessions.set j t⟩ ⟨d, s₂.sessions.set j t⟩ where
  db := rfl
  length := by simp [h.length]
  others k hk := by
    simp only [List.getElem?_set, h.length]
    rw [h.others k hk]
  idle u hu := by
    rw [List.getElem?_set_ne hj] at hu
    exact h.idle u hu

/-- A step of session `i` that leaves the database as it is is no step of the second system. -/
private theorem SameBut.own {i : Nat} {s s₂ : System Db Write Error Choice Job α} (h : SameBut i s s₂)
    (t : Session Db Write Error Choice Job α) : SameBut i ⟨s.db, s.sessions.set i t⟩ s₂ where
  db := h.db
  length := by simp [h.length]
  others k hk := by
    rw [h.others k hk, List.getElem?_set_ne hk.symm]
  idle := h.idle

private theorem SameBut.start {i : Nat} {s s₂ : System Db Write Error Choice Job α} (h : SameBut i s s₂) (r : Job)
    (o : Nat → Choice) : SameBut i ⟨s.db, s.sessions ++ [Session.started S r o]⟩
      ⟨s₂.db, s₂.sessions ++ [Session.started S r o]⟩ where
  db := h.db
  length := by simp [h.length]
  others k hk := by
    simp only [List.getElem?_append, h.length]
    rw [h.others k hk]
  idle u hu := by
    rcases getElem?_concat_cases hu with hu | ⟨-, rfl⟩
    · exact h.idle u hu
    · rfl

/-- A session that published nothing had published nothing before. -/
private theorem StepCase.published_before {s s' : System Db Write Error Choice Job α} {l : Label Choice Job}
    (h : StepCase S s l s') {i : Nat} (hn : ∀ t, s'.sessions[i]? = some t → t.published = []) :
    ∀ t, s.sessions[i]? = some t → t.published = [] := by
  intro t ht
  have hi := (List.getElem?_eq_some_iff.1 ht).1
  cases hp : t.phase with
  | running p => simp [Session.published, hp]
  | failed e => simp [Session.published, hp]
  | committed a =>
    cases h with
    | start r o =>
      refine hn t ?_
      simp only
      rw [List.getElem?_append_left hi]; exact ht
    | @exec j u d' u' hu hb ha =>
      by_cases hij : j = i
      · subst hij
        rw [ht] at hu
        cases hu
        simp [Session.advance, hp] at ha
      · exact hn t (by simpa [List.getElem?_set, hij] using ht)
    | @abort j u p hu hpu =>
      by_cases hij : j = i
      · subst hij
        rw [ht] at hu
        cases hu
        rw [hp] at hpu; cases hpu
      · exact hn t (by simpa [List.getElem?_set, hij] using ht)

/-- The step of `s₂` that goes with a step of `s`: the same one, or none if session `i` moves. -/
private theorem SameBut.step {i : Nat} {s s' s₂ : System Db Write Error Choice Job α} {l : Label Choice Job}
    (h : SameBut i s s₂) (hst : ∀ t, s₂.sessions[i]? = some t → ∃ r o, t = Session.started S r o)
    (hc : StepCase S s l s') (hG : ∀ t, s.committing l = some t → G t s.db)
    (hn : ∀ t, s'.sessions[i]? = some t → t.published = []) :
    ∃ s₂', Run S G s₂ s₂' ∧ SameBut i s' s₂' ∧
      ∀ t, s₂'.sessions[i]? = some t → ∃ r o, t = Session.started S r o := by
  cases hc with
  | start r o =>
    refine ⟨⟨s₂.db, s₂.sessions ++ [Session.started S r o]⟩,
      (Run.refl _).tail (.start r o) rfl (fun t h => by cases h), h.start r o, fun t ht => ?_⟩
    rcases getElem?_concat_cases ht with ht | ⟨-, rfl⟩
    · exact hst t ht
    · exact ⟨r, o, rfl⟩
  | @exec j t d' t' ht hb ha =>
    by_cases hj : j = i
    · subst hj
      have hpub : t'.published = [] := hn t' (by simp [(List.getElem?_eq_some_iff.1 ht).1])
      -- if the step is the commit, it commits nothing
      have hd' : d' = s.db := by
        rcases (Session.advance_moves ha).writes with ⟨a, hp, rfl, hp', htx⟩ | ⟨rfl, -⟩
        · have hw : t.txn.writes = [] := by simpa [Session.published, hp', htx] using hpub
          rw [hw]
          rfl
        · rfl
      rw [hd']
      exact ⟨s₂, Run.refl _, h.own t', hst⟩
    · have ht₂ : s₂.sessions[j]? = some t := by rw [h.others j hj]; exact ht
      refine ⟨⟨d', s₂.sessions.set j t'⟩, (Run.refl _).tail (.exec j) ?_ fun u hu => ?_, h.set hj d' t',
        fun u hu => ?_⟩
      · rw [← h.db] at ha
        simp only [System.step, ht₂, h.blocked hb, ha, Bool.false_eq_true, ↓reduceIte]
      · rw [h.db]
        refine hG u ?_
        simpa [System.committing, ht₂, ht] using hu
      · rw [List.getElem?_set_ne hj] at hu
        exact hst u hu
  | @abort j t p ht hp =>
    by_cases hj : j = i
    · subst hj
      exact ⟨s₂, Run.refl _, h.own _, hst⟩
    · have ht₂ : s₂.sessions[j]? = some t := by rw [h.others j hj]; exact ht
      refine ⟨⟨s.db, s₂.sessions.set j (t.ended S.aborted)⟩,
        (Run.refl _).tail (.abort j) ?_ (fun u hu => by cases hu), h.set hj s.db _, fun u hu => ?_⟩
      · simp only [System.step, ht₂, Session.abort, hp, ← h.db]
        rfl
      · rw [List.getElem?_set_ne hj] at hu
        exact hst u hu

private theorem erase_unpublished {d₀ : Db} {s : System Db Write Error Choice Job α}
    (h : Run S G (System.initial d₀) s) {i : Nat} (hn : ∀ t, s.sessions[i]? = some t → t.published = []) :
    Erasable S G d₀ i s := by
  induction h with
  | refl => exact ⟨_, Run.refl _, ⟨rfl, rfl, fun _ _ => rfl, fun t ht => by simp [System.initial] at ht⟩,
      fun t ht => by simp [System.initial] at ht⟩
  | tail l hr hstep hG ih =>
    have hc := System.step_cases hstep
    obtain ⟨s₂, hr₂, hsame, hst⟩ := ih (hc.published_before hn)
    obtain ⟨s₂', hr₂', hsame', hst'⟩ := hsame.step hst hc hG hn
    exact ⟨s₂', hr₂.trans hr₂', hsame', hst'⟩

/-- A session that published nothing can be erased: without its steps the others do what they did, and the
committed database is the same. -/
theorem Run.erase {d₀ : Db} {s : System Db Write Error Choice Job α} (h : Run S G (System.initial d₀) s) {i : Nat}
    {t : Session Db Write Error Choice Job α} (ht : s.sessions[i]? = some t) (hn : t.published = []) :
    Erasable S G d₀ i s := by
  refine erase_unpublished h fun u hu => ?_
  rw [ht] at hu
  cases hu
  exact hn

end Embedding

end ReadCommitted
