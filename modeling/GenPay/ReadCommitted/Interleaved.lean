import GenPay.ReadCommitted.Alike

/-!
# Sessions with frames apart

However the statements of sessions with frames apart interleave, each session comes to what its job comes to alone
on the database they all started from (`Session.AsAlone`, one step at a time in `AsAlone.moves`).  The database is
then that of the committed jobs, served one after the other in the order of their commits (`Run.served`).
-/

namespace ReadCommitted

variable {Db Write Error Choice Job α : Type} {S : Service Db Write Error Choice Job α}
  {G : Session Db Write Error Choice Job α → Db → Prop}

/-- The job of a session with what its statements draw on. -/
def Session.asked (t : Session Db Write Error Choice Job α) : Job × (Nat → Choice) := (t.job, t.oracle)

def Session.isRunning (t : Session Db Write Error Choice Job α) : Bool :=
  match t.phase with
  | .running _ => true
  | _ => false

def Session.isCommitted (t : Session Db Write Error Choice Job α) : Bool :=
  match t.phase with
  | .committed _ => true
  | _ => false

theorem Session.isRunning_of {t : Session Db Write Error Choice Job α} {p} (hp : t.phase = .running p) :
    t.isRunning = true := by
  unfold Session.isRunning
  rw [hp]

theorem Session.isCommitted_of_running {t : Session Db Write Error Choice Job α} {p} (hp : t.phase = .running p) :
    t.isCommitted = false := by
  unfold Session.isCommitted
  rw [hp]

/-! ### One session -/

/-- What a session has come to is what its job comes to alone on the database `d`: the rest of its program is the
rest of the one that runs there, up to reading databases in agreement. -/
def Session.AsAlone (S : Service Db Write Error Choice Job α) (A : Frame S.toEngine) (d : Db)
    (t : Session Db Write Error Choice Job α) : Prop :=
  match t.phase with
  | .running p => (∀ w ∈ t.txn.writes, A.own w) ∧ ∃ p₀ u, Prog.Alike A t.oracle Eq p₀ p ∧
      u.writes = t.txn.writes ∧ u.seen.length = t.txn.seen.length ∧
      (S.handle t.job).run S.toEngine t.oracle d Txn.fresh = p₀.run S.toEngine t.oracle d u
  | .committed a => (S.serve t.job t.oracle d).1 = .ok a ∧ S.written t.asked d = t.txn.writes
  | .failed e => e = S.aborted ∨ (S.serve t.job t.oracle d).1 = .error e

section AsAlone

variable {A : Frame S.toEngine} {d : Db} {t : Session Db Write Error Choice Job α}

theorem Session.asAlone_started {r : Job × (Nat → Choice)} (h : (S.handle r.1).Alike A r.2 Eq (S.handle r.1)) :
    (Session.started S r.1 r.2).AsAlone S A d := by
  exact ⟨fun w hw => absurd hw List.not_mem_nil, S.handle r.1, Txn.fresh, h, rfl, rfl, rfl⟩

theorem Session.asAlone_ended (t : Session Db Write Error Choice Job α) : (t.ended S.aborted).AsAlone S A d := Or.inl rfl

theorem Session.AsAlone.running {p} (h : t.AsAlone S A d) (hp : t.phase = .running p) :
    (∀ w ∈ t.txn.writes, A.own w) ∧ ∃ p₀ u, Prog.Alike A t.oracle Eq p₀ p ∧ u.writes = t.txn.writes ∧
      u.seen.length = t.txn.seen.length ∧
      (S.handle t.job).run S.toEngine t.oracle d Txn.fresh = p₀.run S.toEngine t.oracle d u := by
  unfold Session.AsAlone at h
  rwa [hp] at h

theorem Session.AsAlone.committed {a : α} (h : t.AsAlone S A d) (hp : t.phase = .committed a) :
    (S.serve t.job t.oracle d).1 = .ok a ∧ S.written t.asked d = t.txn.writes := by
  unfold Session.AsAlone at h
  rwa [hp] at h

theorem Session.AsAlone.failed {e : Error} (h : t.AsAlone S A d) (hp : t.phase = .failed e) :
    e = S.aborted ∨ (S.serve t.job t.oracle d).1 = .error e := by
  unfold Session.AsAlone at h
  rwa [hp] at h

/-- The answer to a job is the end of its program. -/
theorem Service.serve_fst (r : Job) (o : Nat → Choice) (d : Db) :
    (S.serve r o d).1 = ((S.handle r).run S.toEngine o d Txn.fresh).1 := by
  unfold Service.serve
  split <;> rename_i he <;> rw [he]

/-- A statement that sees a database in agreement with `d` does what it does alone on `d`. -/
theorem Session.AsAlone.moves {x x' : Db} {t' : Session Db Write Error Choice Job α} (h : t.AsAlone S A d)
    (hd : A.agree d x) (hm : t.Moves S x x' t') : t'.AsAlone S A d := by
  have hviolation : ∀ (u : Txn Db Write) w, (∀ w ∈ t.txn.writes, A.own w) → u.writes = t.txn.writes → A.own w →
      S.violation (u.view S.toEngine d) w = S.violation (S.view x t.txn.writes) w := by
    intro u w hown hw hwown
    rw [A.violation (A.view hown hd) hwown]
    unfold Txn.view
    rw [hw]
  cases hm with
  | @commit a hp =>
    obtain ⟨-, p₀, u, halike, hw, -, hrun⟩ := h.running hp
    cases halike with
    | ret he =>
      subst he
      refine ⟨?_, ?_⟩
      · show (S.serve t.job t.oracle d).1 = _
        rw [Service.serve_fst, hrun]
        rfl
      · show S.written (t.job, t.oracle) d = t.txn.writes
        simp only [Service.written, hrun, Prog.run, hw]
  | @fail e hp =>
    obtain ⟨-, p₀, u, halike, -, -, hrun⟩ := h.running hp
    cases halike
    refine Or.inr ?_
    show (S.serve t.job t.oracle d).1 = .error e
    rw [Service.serve_fst, hrun]
    rfl
  | select hp =>
    obtain ⟨hown, p₀, u, halike, hw, hn, hrun⟩ := h.running hp
    cases halike with
    | @select _ _ q₀ _ k₀ _ hk =>
      refine ⟨hown, k₀ (q₀ (t.oracle t.txn.seen.length) (S.view d t.txn.writes)), u.saw d, ?_, hw, ?_, ?_⟩
      · exact hk _ _ _ (A.view hown hd)
      · simp [hn]
      · rw [hrun, ← hn, ← hw]
        rfl
  | @write w k hp hv =>
    obtain ⟨hown, p₀, u, halike, hw, hn, hrun⟩ := h.running hp
    cases halike with
    | @write _ k₀ _ hwown hk =>
      have hv₀ : S.violation (u.view S.toEngine d) w = none := (hviolation u w hown hw hwown).trans hv
      refine ⟨fun x hx => ?_, k₀ none, u.wrote d w, hk none, by simp [hw], by simp [hn], ?_⟩
      · rcases List.mem_append.1 hx with hx | hx
        · exact hown x hx
        · exact List.mem_singleton.1 hx ▸ hwown
      · show (S.handle t.job).run S.toEngine t.oracle d Txn.fresh = _
        rw [hrun, Prog.run_write, hv₀]
  | @refused w k e hp hv =>
    obtain ⟨hown, p₀, u, halike, hw, hn, hrun⟩ := h.running hp
    cases halike with
    | @write _ k₀ _ hwown hk =>
      have hv₀ : S.violation (u.view S.toEngine d) w = some e := (hviolation u w hown hw hwown).trans hv
      refine ⟨hown, k₀ (some e), u.saw d, hk (some e), by simp [hw], by simp [hn], ?_⟩
      show (S.handle t.job).run S.toEngine t.oracle d Txn.fresh = _
      rw [hrun, Prog.run_write, hv₀]
  | rollback hp =>
    obtain ⟨-, p₀, u, halike, hw, hn, hrun⟩ := h.running hp
    cases halike with
    | @rollback k₀ _ hk =>
      refine ⟨fun w hw => absurd hw List.not_mem_nil, k₀, u.dropped d, hk, rfl, by simp [hn], ?_⟩
      show (S.handle t.job).run S.toEngine t.oracle d Txn.fresh = _
      rw [hrun]
      rfl

end AsAlone

/-! ### The system -/

/-- The sessions `us` run on `d` as each would alone, and the database is `d` with the writes of the committed
ones, in the order of their commits. -/
structure Served (S : Service Db Write Error Choice Job α) (F : Job × (Nat → Choice) → Frame S.toEngine) (d : Db)
    (us : List (Session Db Write Error Choice Job α)) (order : List (Session Db Write Error Choice Job α)) (x : Db) :
    Prop where
  alone : ∀ t ∈ us, t.AsAlone S (F t.asked) d
  committed : order.Perm (us.filter (·.isCommitted))
  db : x = S.view d (order.flatMap fun t => t.txn.writes)

/-- The jobs have frames apart on `d`. -/
structure FramesApart (S : Service Db Write Error Choice Job α) (F : Job × (Nat → Choice) → Frame S.toEngine)
    (sim : Db → Db → Prop) (d : Db) (rs : List (Job × (Nat → Choice))) : Prop where
  alike : ∀ r ∈ rs, (S.handle r.1).Alike (F r) r.2 Eq (S.handle r.1)
  agree : ∀ r ∈ rs, (F r).agree d d
  apart : rs.Pairwise fun r r' => (F r).Apart sim (F r')

section Serving

variable {F : Job × (Nat → Choice) → Frame S.toEngine} {sim : Db → Db → Prop} {d x : Db}
  {us order : List (Session Db Write Error Choice Job α)}

theorem Session.isCommitted_iff {t : Session Db Write Error Choice Job α} :
    t.isCommitted = true ↔ ∃ a, t.phase = .committed a := by
  unfold Session.isCommitted
  cases t.phase <;> simp

/-- The committed sessions have written what concerns their own frames. -/
theorem Served.own (h : Served S F d us order x) (hF : FramesApart S F sim d (us.map Session.asked))
    {c : Session Db Write Error Choice Job α} (hc : c ∈ order) :
    c ∈ us ∧ S.written c.asked d = c.txn.writes ∧ ∀ w ∈ c.txn.writes, (F c.asked).own w := by
  obtain ⟨hmem, hcommitted⟩ := List.mem_filter.1 (h.committed.mem_iff.1 hc)
  obtain ⟨a, ha⟩ := Session.isCommitted_iff.1 hcommitted
  have hasked : c.asked ∈ us.map Session.asked := List.mem_map_of_mem hmem
  have hwritten := ((h.alone c hmem).committed ha).2
  refine ⟨hmem, hwritten, ?_⟩
  rw [← hwritten]
  exact (Service.serve_alike (hF.alike _ hasked) (hF.agree _ hasked)).2.2

/-- For a session that still runs, the database is as it was in all that its frame asks for. -/
theorem Served.agree (h : Served S F d us order x) (hsim : Similarity S.toEngine sim)
    (hF : FramesApart S F sim d (us.map Session.asked)) {t : Session Db Write Error Choice Job α} (ht : t ∈ us)
    {p} (hp : t.phase = .running p) : (F t.asked).agree d x := by
  rw [h.db]
  have hpair : us.Pairwise fun t u => (F t.asked).Apart sim (F u.asked) := by
    have := hF.apart
    rwa [List.pairwise_map] at this
  have hsymm : Std.Symm fun t u : Session Db Write Error Choice Job α => (F t.asked).Apart sim (F u.asked) :=
    ⟨fun _ _ h => h.symm hsim⟩
  have hstep : ∀ l : List (Session Db Write Error Choice Job α), (∀ c ∈ l, c ∈ order) → ∀ y, (F t.asked).agree d y →
      (F t.asked).agree d (S.view y (l.flatMap fun t => t.txn.writes)) := by
    intro l
    induction l with
    | nil => exact fun _ y hy => hy
    | cons c l ih =>
      intro hl y hy
      obtain ⟨hmem, -, hown⟩ := h.own hF (hl c (List.mem_cons_self ..))
      have hne : t ≠ c := by
        rintro rfl
        have := (List.mem_filter.1 (h.committed.mem_iff.1 (hl t (List.mem_cons_self ..)))).2
        rw [Session.isCommitted_of_running hp] at this
        cases this
      rw [List.flatMap_cons, S.view_append]
      exact ih (fun c hc => hl c (List.mem_cons_of_mem _ hc)) _ ((hpair.forall ht hmem hne).agree hown hy)
  exact hstep order (fun c hc => hc) d (hF.agree _ (List.mem_map_of_mem ht))

/-- The committed jobs, served in the order of their commits, lead to the same database. -/
theorem Served.serveAll (h : Served S F d us order x) (hsim : Similarity S.toEngine sim)
    (hF : FramesApart S F sim d (us.map Session.asked)) : x = S.serveAll d (order.map Session.asked) := by
  have hsub : ((us.filter (·.isCommitted)).map Session.asked).Sublist (us.map Session.asked) := List.filter_sublist.map _
  have hperm := h.committed.map Session.asked
  have hmem : ∀ r ∈ order.map Session.asked, r ∈ us.map Session.asked := fun r hr => hsub.subset (hperm.mem_iff.1 hr)
  have hserve := (Service.answers_apart hsim (fun r hr => hF.alike r (hmem r hr))
    (hperm.symm.pairwise (hF.apart.sublist hsub) fun hij => hij.symm hsim) d
    (fun r hr => hF.agree r (hmem r hr)) fun r hr => hF.agree r (hmem r hr)).2
  rw [hserve, h.db, List.flatMap_map]
  refine congrArg (S.view d) (List.flatMap_congr fun c hc => ?_)
  exact (h.own hF hc).2.1.symm

theorem FramesApart.sublist {rs rs' : List (Job × (Nat → Choice))} (h : FramesApart S F sim d rs)
    (hsub : rs'.Sublist rs) : FramesApart S F sim d rs' where
  alike r hr := h.alike r (hsub.subset hr)
  agree r hr := h.agree r (hsub.subset hr)
  apart := h.apart.sublist hsub

theorem Served.start (h : Served S F d us order x) {r : Job × (Nat → Choice)}
    (hr : (S.handle r.1).Alike (F r) r.2 Eq (S.handle r.1)) :
    Served S F d (us ++ [Session.started S r.1 r.2]) order x where
  alone t ht := by
    rcases List.mem_append.1 ht with ht | ht
    · exact h.alone t ht
    · rw [List.mem_singleton.1 ht]
      exact Session.asAlone_started hr
  committed := by simpa [Session.isCommitted, Session.started] using h.committed
  db := h.db

variable {l l' : List (Session Db Write Error Choice Job α)} {t t' : Session Db Write Error Choice Job α}

/-- The alone sessions after one of them has moved. -/
private theorem alone_replaced (h : ∀ u ∈ l ++ t :: l', u.AsAlone S (F u.asked) d) (ht' : t'.AsAlone S (F t'.asked) d) :
    ∀ u ∈ l ++ t' :: l', u.AsAlone S (F u.asked) d := by
  intro u hu
  rcases List.mem_append.1 hu with hu | hu
  · exact h u (List.mem_append_left _ hu)
  · rcases List.mem_cons.1 hu with rfl | hu
    · exact ht'
    · exact h u (List.mem_append_right _ (List.mem_cons_of_mem _ hu))

private theorem filter_open (ht : t.isCommitted = false) :
    (l ++ t :: l').filter (·.isCommitted) = l.filter (·.isCommitted) ++ l'.filter (·.isCommitted) := by
  simp [List.filter_append, ht]

/-- A session that moves without committing. -/
theorem Served.move (h : Served S F d (l ++ t :: l') order x) {p} (hp : t.phase = .running p)
    (ht' : t'.AsAlone S (F t'.asked) d) (hopen : t'.isCommitted = false) :
    Served S F d (l ++ t' :: l') order x where
  alone := alone_replaced h.alone ht'
  committed := by
    have := h.committed
    rwa [filter_open (Session.isCommitted_of_running hp), ← filter_open hopen] at this
  db := h.db

/-- A session that commits is the last one. -/
theorem Served.commit (h : Served S F d (l ++ t :: l') order x) {p} (hp : t.phase = .running p)
    (ht' : t'.AsAlone S (F t'.asked) d) (hcommitted : t'.isCommitted = true) (htxn : t'.txn = t.txn) :
    Served S F d (l ++ t' :: l') (order ++ [t']) (S.view x t.txn.writes) where
  alone := alone_replaced h.alone ht'
  committed := by
    have := h.committed
    rw [filter_open (Session.isCommitted_of_running hp)] at this
    rw [List.filter_append, List.filter_cons, if_pos hcommitted]
    exact (List.perm_append_singleton _ _).trans ((this.cons t').trans List.perm_middle.symm)
  db := by
    rw [h.db, List.flatMap_append, S.view_append, List.flatMap_singleton, htxn]

/-- A list with one element replaced. -/
private theorem exists_split {β : Type*} {l : List β} {i : Nat} {x : β} (h : l[i]? = some x) :
    ∃ m m', l = m ++ x :: m' ∧ ∀ y, l.set i y = m ++ y :: m' := by
  obtain ⟨hi, hx⟩ := List.getElem?_eq_some_iff.1 h
  refine ⟨l.take i, l.drop (i + 1), ?_, fun y => ?_⟩
  · rw [← hx, List.getElem_cons_drop, List.take_append_drop]
  · rw [List.set_eq_take_append_cons_drop, if_pos hi]

theorem StepCase.served {ts : List (Session Db Write Error Choice Job α)} {s s' : System Db Write Error Choice Job α}
    {label : Label Choice Job} (hsim : Similarity S.toEngine sim) (hidle : ∀ t ∈ ts, t.isRunning = false)
    (hs : s.sessions = ts ++ us) (h : FramesApart S F sim d (us.map Session.asked) → ∃ order, Served S F d us order s.db)
    (hstep : StepCase S s label s') : ∃ us', s'.sessions = ts ++ us' ∧
      (FramesApart S F sim d (us'.map Session.asked) → ∃ order, Served S F d us' order s'.db) := by
  -- the session that moves is one of `us`
  have hmoving : ∀ {i t p}, s.sessions[i]? = some t → t.phase = .running p → ∃ m m', us = m ++ t :: m' ∧
      ∀ u, s.sessions.set i u = ts ++ (m ++ u :: m') := by
    intro i t p ht hp
    rw [hs] at ht
    have hi : ts.length ≤ i := by
      by_contra hlt
      rw [List.getElem?_append_left (by omega)] at ht
      have := hidle t (List.mem_of_getElem? ht)
      rw [Session.isRunning_of hp] at this
      cases this
    rw [List.getElem?_append_right hi] at ht
    obtain ⟨m, m', hus, hset⟩ := exists_split ht
    refine ⟨m, m', hus, fun u => ?_⟩
    rw [hs, List.set_append_right _ _ hi, hset]
  have hasked : ∀ {m m' : List (Session Db Write Error Choice Job α)} {t u : Session Db Write Error Choice Job α},
      u.asked = t.asked → (m ++ u :: m').map Session.asked = (m ++ t :: m').map Session.asked := by
    intro m m' t u hu
    simp [hu]
  cases hstep with
  | start r o =>
    refine ⟨us ++ [Session.started S r o], by simp [hs], fun hF => ?_⟩
    obtain ⟨order, hserved⟩ := h (hF.sublist (by simp))
    exact ⟨order, hserved.start (r := (r, o)) (hF.alike (r, o) (by simp [Session.asked, Session.started]))⟩
  | @exec i t d' t' ht hb ha =>
    have hm := Session.advance_moves ha
    have hrunning : ∃ p, t.phase = .running p := by
      cases hm <;> exact ⟨_, ‹_›⟩
    obtain ⟨p, hp⟩ := hrunning
    obtain ⟨m, m', rfl, hset⟩ := hmoving ht hp
    have hsame : t'.asked = t.asked := by rw [Session.asked, hm.job, hm.oracle]; rfl
    refine ⟨m ++ t' :: m', hset t', fun hF => ?_⟩
    rw [hasked hsame] at hF
    obtain ⟨order, hserved⟩ := h hF
    have hmem : t ∈ m ++ t :: m' := by simp
    have halone := (hserved.alone t hmem).moves (hserved.agree hsim hF hmem hp) hm
    cases hm with
    | commit hp => exact ⟨_, hserved.commit hp halone rfl rfl⟩
    | fail hp => exact ⟨order, hserved.move hp halone rfl⟩
    | select hp => exact ⟨order, hserved.move hp halone rfl⟩
    | write hp hv => exact ⟨order, hserved.move hp halone rfl⟩
    | refused hp hv => exact ⟨order, hserved.move hp halone rfl⟩
    | rollback hp => exact ⟨order, hserved.move hp halone rfl⟩
  | @abort i t p ht hp =>
    obtain ⟨m, m', rfl, hset⟩ := hmoving ht hp
    refine ⟨m ++ t.ended S.aborted :: m', hset _, fun hF => ?_⟩
    have hsame : (t.ended S.aborted).asked = t.asked := rfl
    rw [hasked hsame] at hF
    obtain ⟨order, hserved⟩ := h hF
    exact ⟨order, hserved.move hp t.asAlone_ended rfl⟩

/-- Sessions with frames apart, interleaved in any way, are served one after the other. -/
theorem Run.served (hsim : Similarity S.toEngine sim) {s s' : System Db Write Error Choice Job α} (h : Run S G s s')
    (hidle : ∀ t ∈ s.sessions, t.isRunning = false) : ∃ us, s'.sessions = s.sessions ++ us ∧
      (FramesApart S F sim s.db (us.map Session.asked) → ∃ order, Served S F s.db us order s'.db) := by
  induction h with
  | refl =>
    refine ⟨[], by simp, fun _ => ⟨[], ?_⟩⟩
    exact ⟨fun t ht => absurd ht List.not_mem_nil, .refl _, rfl⟩
  | tail l _ hstep _ ih =>
    obtain ⟨us, hs, hserved⟩ := ih
    exact (System.step_cases hstep).served hsim hidle hs hserved

end Serving

/-! ### What a schedule starts -/

/-- The job that a label starts. -/
def Label.started : Label Choice Job → Option (Job × (Nat → Choice))
  | .start r o => some (r, o)
  | _ => none

theorem StepCase.asked {s s' : System Db Write Error Choice Job α} {l : Label Choice Job} (h : StepCase S s l s') :
    s'.sessions.map Session.asked = s.sessions.map Session.asked ++ l.started.toList := by
  have hset : ∀ {i : Nat} {t u : Session Db Write Error Choice Job α}, s.sessions[i]? = some t → u.asked = t.asked →
      (s.sessions.set i u).map Session.asked = s.sessions.map Session.asked := by
    intro i t u ht hu
    obtain ⟨m, m', hm, hset⟩ := exists_split ht
    rw [hset, hm, List.map_append, List.map_append, List.map_cons, List.map_cons, hu]
  cases h with
  | start r o => simp [Label.started, Session.started, Session.asked]
  | exec ht hb ha =>
    have hm := Session.advance_moves ha
    exact (hset ht (by rw [Session.asked, hm.job, hm.oracle]; rfl)).trans (List.append_nil _).symm
  | @abort i t p ht hp => exact (hset (u := t.ended S.aborted) ht rfl).trans (List.append_nil _).symm

/-- The sessions that a schedule leads to are those it starts, in this order. -/
theorem schedule_asked {g : Session Db Write Error Choice Job α → Db → Bool} {ls : List (Label Choice Job)} :
    ∀ {s s' : System Db Write Error Choice Job α}, s.schedule S g ls = some s' →
      s'.sessions.map Session.asked = s.sessions.map Session.asked ++ ls.filterMap Label.started := by
  induction ls with
  | nil =>
    intro s s' h
    cases h
    simp
  | cons l ls ih =>
    intro s s' h
    simp only [System.schedule] at h
    split at h
    · split at h
      · cases h
      · rename_i s₁ hstep
        rw [ih h, (System.step_cases hstep).asked, List.append_assoc, List.filterMap_cons]
        cases l.started <;> rfl
    · cases h

end ReadCommitted
