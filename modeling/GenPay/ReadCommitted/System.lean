import GenPay.ReadCommitted.Program

/-!
# Concurrent sessions under READ COMMITTED

A service answers each job by one transaction: the job's program runs in a session of its own, its normal return
is followed by the commit and an exception by the rollback.  `System.step` lets one session execute one
statement, or the engine end a session's transaction; a schedule is a list of labels, so `Run` ranges over every
interleaving.  A write waits while another open transaction holds a conflicting one.

`Run S G` is one whose commits all satisfy `G`, and `Reachable` asks nothing of them.  What a step can do is said
once (`System.step_cases`); every invariant of runs is derived from that.
-/

namespace ReadCommitted

/-- An engine with the program that answers each job. -/
structure Service (Db Write Error Choice Job α : Type) extends Engine Db Write Error where
  handle : Job → Prog Db Write Error Choice α

inductive Phase (Db Write Error Choice α : Type) : Type 1
  | running (p : Prog Db Write Error Choice α)
  | committed (a : α)
  | failed (e : Error)

structure Session (Db Write Error Choice Job α : Type) : Type 1 where
  job : Job
  oracle : Nat → Choice
  phase : Phase Db Write Error Choice α
  txn : Txn Db Write

/-- The committed database and all sessions ever started, finished ones included. -/
structure System (Db Write Error Choice Job α : Type) : Type 1 where
  db : Db
  sessions : List (Session Db Write Error Choice Job α)

inductive Label (Choice Job : Type)
  | start (r : Job) (o : Nat → Choice)
  | exec (i : Nat)
  | abort (i : Nat)

variable {Db Write Error Choice Job α : Type}

namespace Session

/-- The writes whose locks the session holds. -/
def held (t : Session Db Write Error Choice Job α) : List Write :=
  match t.phase with
  | .running _ => t.txn.writes
  | _ => []

/-- The writes the session has committed. -/
def published (t : Session Db Write Error Choice Job α) : List Write :=
  match t.phase with
  | .committed _ => t.txn.writes
  | _ => []

/-- The write the session sends next. -/
def sends (t : Session Db Write Error Choice Job α) : Option Write :=
  match t.phase with
  | .running (.write w _) => some w
  | _ => none

/-- The result of a session whose next step is its commit. -/
def commits (t : Session Db Write Error Choice Job α) : Option α :=
  match t.phase with
  | .running (.ret a) => some a
  | _ => none

/-- The next statement of a session, or the commit or rollback that ends it. -/
def advance (S : Service Db Write Error Choice Job α) (d : Db) (t : Session Db Write Error Choice Job α) :
    Option (Db × Session Db Write Error Choice Job α) :=
  match t.phase with
  -- the commit applies the writes to the database as it is by then
  | .running (.ret a) => some (S.view d t.txn.writes, { t with phase := .committed a })
  | .running (.raise e) => some (d, { t with phase := .failed e, txn := { t.txn with writes := [] } })
  | .running (.select q k) =>
    some (d, { t with
      phase := .running (k (q (t.oracle t.txn.seen.length) (S.view d t.txn.writes)))
      txn := t.txn.saw d })
  | .running (.write w k) =>
    match S.violation (S.view d t.txn.writes) w with
    | none => some (d, { t with phase := .running (k none), txn := t.txn.wrote d w })
    | some e => some (d, { t with phase := .running (k (some e)), txn := t.txn.saw d })
  | .running (.rollback k) => some (d, { t with phase := .running k, txn := t.txn.dropped d })
  | .committed _ => none
  | .failed _ => none

/-- The engine ends the transaction of a running session. -/
def abort (S : Service Db Write Error Choice Job α) (t : Session Db Write Error Choice Job α) :
    Option (Session Db Write Error Choice Job α) :=
  match t.phase with
  | .running _ => some { t with phase := .failed S.aborted, txn := { t.txn with writes := [] } }
  | _ => none

end Session

namespace System

def initial (d : Db) : System Db Write Error Choice Job α := ⟨d, []⟩

/-- Some open transaction other than that of session `i` holds a write the next write of `t` waits for. -/
def blocked (S : Service Db Write Error Choice Job α) (s : System Db Write Error Choice Job α) (i : Nat)
    (t : Session Db Write Error Choice Job α) : Bool :=
  match t.sends with
  | none => false
  | some w => s.sessions.zipIdx.any fun u => u.2 != i && u.1.held.any (S.waits w)

def step (S : Service Db Write Error Choice Job α) (s : System Db Write Error Choice Job α) :
    Label Choice Job → Option (System Db Write Error Choice Job α)
  | .start r o => some { s with sessions := s.sessions ++ [⟨r, o, .running (S.handle r), Txn.fresh⟩] }
  | .exec i =>
    match s.sessions[i]? with
    | none => none
    | some t =>
      -- a session that waits can take its step once the other transaction has ended
      if s.blocked S i t then none
      else match t.advance S s.db with
        | none => none
        | some (d, t') => some ⟨d, s.sessions.set i t'⟩
  | .abort i =>
    match s.sessions[i]? with
    | none => none
    | some t =>
      match t.abort S with
      | none => none
      | some t' => some { s with sessions := s.sessions.set i t' }

/-- The session whose commit a label is. -/
def committing (s : System Db Write Error Choice Job α) : Label Choice Job →
    Option (Session Db Write Error Choice Job α)
  | .exec i =>
    match s.sessions[i]? with
    | some t => if t.commits.isSome then some t else none
    | none => none
  | _ => none

/-- What a schedule leads to; a commit that fails the test `g` ends it. -/
def schedule (S : Service Db Write Error Choice Job α) (g : Session Db Write Error Choice Job α → Db → Bool)
    (s : System Db Write Error Choice Job α) :
    List (Label Choice Job) → Option (System Db Write Error Choice Job α)
  | [] => some s
  | l :: ls =>
    if (s.committing l).all (g · s.db) then
      match s.step S l with
      | none => none
      | some s' => s'.schedule S g ls
    else none

end System

/-- The runs in which every commit of a session `t` on a database `d` satisfies `G t d`. -/
inductive Run (S : Service Db Write Error Choice Job α) (G : Session Db Write Error Choice Job α → Db → Prop) :
    System Db Write Error Choice Job α → System Db Write Error Choice Job α → Prop
  | refl (s) : Run S G s s
  | tail {s s' s''} (l : Label Choice Job) (h : Run S G s s') (hstep : s'.step S l = some s'')
      (hG : ∀ t, s'.committing l = some t → G t s'.db) : Run S G s s''

/-- The states any interleaving reaches from a committed database. -/
def Reachable (S : Service Db Write Error Choice Job α) (d : Db) (s : System Db Write Error Choice Job α) : Prop :=
  Run S (fun _ _ => True) (System.initial d) s

/-- The session that answers a job, before its first statement. -/
def Session.started (S : Service Db Write Error Choice Job α) (r : Job) (o : Nat → Choice) :
    Session Db Write Error Choice Job α :=
  ⟨r, o, .running (S.handle r), Txn.fresh⟩

def Session.ended (t : Session Db Write Error Choice Job α) (e : Error) : Session Db Write Error Choice Job α :=
  { t with phase := .failed e, txn := { t.txn with writes := [] } }

/-- The steps of one session on the committed database `d`; only a commit changes it. -/
inductive Session.Moves (S : Service Db Write Error Choice Job α) (d : Db)
    (t : Session Db Write Error Choice Job α) : Db → Session Db Write Error Choice Job α → Prop
  | commit {a} (hp : t.phase = .running (.ret a)) :
      Moves S d t (S.view d t.txn.writes) { t with phase := .committed a }
  | fail {e} (hp : t.phase = .running (.raise e)) : Moves S d t d (t.ended e)
  | select {β : Type} {q : Choice → Db → β} {k} (hp : t.phase = .running (.select q k)) :
      Moves S d t d { t with
        phase := .running (k (q (t.oracle t.txn.seen.length) (S.view d t.txn.writes)))
        txn := t.txn.saw d }
  | write {w k} (hp : t.phase = .running (.write w k)) (hv : S.violation (S.view d t.txn.writes) w = none) :
      Moves S d t d { t with phase := .running (k none), txn := t.txn.wrote d w }
  | refused {w k e} (hp : t.phase = .running (.write w k))
      (hv : S.violation (S.view d t.txn.writes) w = some e) :
      Moves S d t d { t with phase := .running (k (some e)), txn := t.txn.saw d }
  | rollback {k} (hp : t.phase = .running (.rollback k)) :
      Moves S d t d { t with phase := .running k, txn := t.txn.dropped d }

section Steps

variable {S : Service Db Write Error Choice Job α} {s s' : System Db Write Error Choice Job α}

theorem Session.advance_moves {d d' : Db} {t t' : Session Db Write Error Choice Job α}
    (h : t.advance S d = some (d', t')) : t.Moves S d d' t' := by
  unfold Session.advance at h
  split at h
  · rename_i a hp
    cases h; exact Moves.commit hp
  · rename_i e hp
    cases h; exact Moves.fail hp
  · rename_i hp
    cases h; exact Moves.select hp
  · rename_i w k hp
    split at h
    · rename_i hv
      cases h; exact Moves.write hp hv
    · rename_i e hv
      cases h; exact Moves.refused hp hv
  · rename_i hp
    cases h; exact Moves.rollback hp
  · cases h
  · cases h

/-- The move into `committed a` is the commit of the result `a`. -/
theorem Session.Moves.committed {d d' : Db} {t u : Session Db Write Error Choice Job α} {a : α}
    (h : t.Moves S d d' u) (hu : u.phase = .committed a) :
    t.phase = .running (.ret a) ∧ d' = S.view d t.txn.writes ∧ u = { t with phase := .committed a } := by
  cases h with
  | commit hp => cases hu; exact ⟨hp, rfl, rfl⟩
  | fail hp => cases hu
  | select hp => cases hu
  | write hp hv => cases hu
  | refused hp hv => cases hu
  | rollback hp => cases hu

/-- What a step can do: start a session, move one that waits for no other, or end one. -/
inductive StepCase (S : Service Db Write Error Choice Job α) (s : System Db Write Error Choice Job α) :
    Label Choice Job → System Db Write Error Choice Job α → Prop
  | start (r : Job) (o : Nat → Choice) :
      StepCase S s (.start r o) ⟨s.db, s.sessions ++ [Session.started S r o]⟩
  | exec {i t d' t'} (ht : s.sessions[i]? = some t) (hb : s.blocked S i t = false)
      (ha : t.advance S s.db = some (d', t')) : StepCase S s (.exec i) ⟨d', s.sessions.set i t'⟩
  | abort {i t p} (ht : s.sessions[i]? = some t) (hp : t.phase = .running p) :
      StepCase S s (.abort i) ⟨s.db, s.sessions.set i (t.ended S.aborted)⟩

theorem System.blocked_eq_false {i : Nat} {t : Session Db Write Error Choice Job α} :
    s.blocked S i t = false ↔ ∀ w, t.sends = some w → ∀ (j : Nat) u, j ≠ i → s.sessions[j]? = some u →
      ∀ w' ∈ u.held, S.waits w w' = false := by
  unfold System.blocked
  cases hw : t.sends with
  | none => simp
  | some w =>
    simp only [List.any_eq_false, Option.some.injEq, forall_eq', bne_iff_ne, ne_eq, Bool.and_eq_true, not_and,
      Bool.not_eq_true]
    constructor
    · intro h j u hj hu w' hw'
      exact h (u, j) (List.mk_mem_zipIdx_iff_getElem?.2 hu) hj w' hw'
    · intro h x hx hj w' hw'
      exact h x.2 x.1 hj (List.mk_mem_zipIdx_iff_getElem?.1 hx) w' hw'

theorem System.step_cases {l : Label Choice Job} (h : s.step S l = some s') : StepCase S s l s' := by
  cases l with
  | start r o =>
    cases h
    exact StepCase.start r o
  | exec i =>
    simp only [System.step] at h
    split at h
    · cases h
    · rename_i t ht
      split at h
      · cases h
      · rename_i hb
        split at h
        · cases h
        · rename_i d t' ha
          cases h
          exact StepCase.exec ht (by simpa using hb) ha
  | abort i =>
    simp only [System.step] at h
    split at h
    · cases h
    · rename_i t ht
      split at h
      · cases h
      · rename_i t' ha
        cases h
        unfold Session.abort at ha
        split at ha
        · rename_i p hp
          cases ha
          exact StepCase.abort ht hp
        · cases ha

theorem System.committing_exec {i : Nat} {t : Session Db Write Error Choice Job α} {a : α}
    (ht : s.sessions[i]? = some t) (hp : t.phase = .running (.ret a)) :
    s.committing (.exec i) = some t := by
  simp [System.committing, ht, Session.commits, hp]

/-- A session that has returned commits with its next step; it waits for no one. -/
theorem System.step_commit {i : Nat} {t : Session Db Write Error Choice Job α} {a : α}
    (ht : s.sessions[i]? = some t) (hp : t.phase = .running (.ret a)) : s.step S (.exec i) =
      some ⟨S.view s.db t.txn.writes, s.sessions.set i { t with phase := .committed a }⟩ := by
  have hb : s.blocked S i t = false := by simp [System.blocked, Session.sends, hp]
  simp [System.step, ht, hb, Session.advance, hp]

theorem getElem?_concat_cases {β : Type*} {l : List β} {i : Nat} {x u : β} (h : (l ++ [x])[i]? = some u) :
    l[i]? = some u ∨ (i = l.length ∧ u = x) := by
  rw [List.getElem?_append] at h
  split at h
  · exact Or.inl h
  · rename_i hi
    rw [List.getElem?_singleton] at h
    split at h
    · exact Or.inr ⟨by omega, (Option.some.inj h).symm⟩
    · cases h

theorem getElem?_set_cases {β : Type*} {l : List β} {i j : Nat} {x u : β} (h : (l.set i x)[j]? = some u) :
    (j = i ∧ u = x) ∨ (j ≠ i ∧ l[j]? = some u) := by
  rw [List.getElem?_set] at h
  split at h
  · rename_i hij
    split at h
    · exact Or.inl ⟨hij.symm, (Option.some.inj h).symm⟩
    · cases h
  · rename_i hij
    exact Or.inr ⟨Ne.symm hij, h⟩

/-- A session after a step: the one before it, a new one, or the one that moved. -/
theorem StepCase.session {l : Label Choice Job} (h : StepCase S s l s') {j : Nat}
    {u : Session Db Write Error Choice Job α} (hu : s'.sessions[j]? = some u) :
    s.sessions[j]? = some u ∨ (∃ r o, u = Session.started S r o ∧ s.sessions[j]? = none) ∨
      (∃ t, s.sessions[j]? = some t ∧ l = .exec j ∧ t.Moves S s.db s'.db u) ∨
      (∃ t p, s.sessions[j]? = some t ∧ t.phase = .running p ∧ u = t.ended S.aborted) := by
  cases h with
  | start r o =>
    rcases getElem?_concat_cases hu with hu | ⟨hj, rfl⟩
    · exact Or.inl hu
    · exact Or.inr (Or.inl ⟨r, o, rfl, by simp [hj]⟩)
  | @exec i t d' t' ht hb ha =>
    rcases getElem?_set_cases hu with ⟨rfl, rfl⟩ | ⟨-, hu⟩
    · exact Or.inr (Or.inr (Or.inl ⟨t, ht, rfl, Session.advance_moves ha⟩))
    · exact Or.inl hu
  | @abort i t p ht hp =>
    rcases getElem?_set_cases hu with ⟨rfl, rfl⟩ | ⟨-, hu⟩
    · exact Or.inr (Or.inr (Or.inr ⟨t, p, ht, hp, rfl⟩))
    · exact Or.inl hu

/-- A step that changes the committed database is a commit. -/
theorem StepCase.db {l : Label Choice Job} (h : StepCase S s l s') :
    s'.db = s.db ∨ ∃ i t a, l = .exec i ∧ s.sessions[i]? = some t ∧ t.phase = .running (.ret a) ∧
      s' = ⟨S.view s.db t.txn.writes, s.sessions.set i { t with phase := .committed a }⟩ := by
  cases h with
  | start r o => exact Or.inl rfl
  | abort ht hp => exact Or.inl rfl
  | exec ht hb ha =>
    cases Session.advance_moves ha with
    | commit hp => exact Or.inr ⟨_, _, _, rfl, ht, hp, rfl⟩
    | fail hp => exact Or.inl rfl
    | select hp => exact Or.inl rfl
    | write hp hv => exact Or.inl rfl
    | refused hp hv => exact Or.inl rfl
    | rollback hp => exact Or.inl rfl

end Steps

/-! ### Schedules are runs -/

section Schedules

variable {S : Service Db Write Error Choice Job α} {G : Session Db Write Error Choice Job α → Db → Prop}
  {g : Session Db Write Error Choice Job α → Db → Bool}

theorem Run.trans {s₁ s₂ s₃ : System Db Write Error Choice Job α} (h : Run S G s₁ s₂) (h' : Run S G s₂ s₃) :
    Run S G s₁ s₃ := by
  induction h' with
  | refl => exact h
  | tail l _ hstep hG ih => exact ih.tail l hstep hG

/-- A schedule depends on the programs of the jobs it starts only. -/
theorem schedule_handle {handle : Job → Prog Db Write Error Choice α} {ls : List (Label Choice Job)}
    (h : ∀ r o, Label.start r o ∈ ls → handle r = S.handle r) (s : System Db Write Error Choice Job α) :
    s.schedule S g ls = s.schedule { S with handle := handle } g ls := by
  induction ls generalizing s with
  | nil => rfl
  | cons l ls ih =>
    have hstep : s.step { S with handle := handle } l = s.step S l := by
      cases l with
      | start r o => simp only [System.step, h r o (List.mem_cons_self ..)]
      | exec i => rfl
      | abort i => rfl
    simp only [System.schedule, hstep]
    split
    · split
      · rfl
      · exact ih (fun r o hr => h r o (List.mem_cons_of_mem _ hr)) _
    · rfl

theorem Session.Moves.job {d d' : Db} {t u : Session Db Write Error Choice Job α} (h : t.Moves S d d' u) :
    u.job = t.job := by
  cases h <;> rfl

theorem Session.Moves.oracle {d d' : Db} {t u : Session Db Write Error Choice Job α} (h : t.Moves S d d' u) :
    u.oracle = t.oracle := by
  cases h <;> rfl

theorem System.mem_of_committing {s : System Db Write Error Choice Job α} {l : Label Choice Job}
    {t : Session Db Write Error Choice Job α} (h : s.committing l = some t) : t ∈ s.sessions := by
  cases l with
  | exec i =>
    simp only [System.committing] at h
    split at h
    · rename_i u hu
      split at h
      · cases h
        exact List.mem_of_getElem? hu
      · cases h
    · cases h
  | start r o => cases h
  | abort i => cases h

/-- The jobs of the sessions are those that have been started. -/
theorem StepCase.job {s s' : System Db Write Error Choice Job α} {l : Label Choice Job} (h : StepCase S s l s')
    {u : Session Db Write Error Choice Job α} (hu : u ∈ s'.sessions) :
    (∃ t ∈ s.sessions, u.job = t.job) ∨ ∃ o, l = .start u.job o := by
  cases h with
  | start r o =>
    rcases List.mem_append.1 hu with hu | hu
    · exact Or.inl ⟨u, hu, rfl⟩
    · rw [List.mem_singleton.1 hu]
      exact Or.inr ⟨o, rfl⟩
  | exec ht hb ha =>
    rcases List.mem_or_eq_of_mem_set hu with hu | rfl
    · exact Or.inl ⟨u, hu, rfl⟩
    · exact Or.inl ⟨_, List.mem_of_getElem? ht, (Session.advance_moves ha).job⟩
  | abort ht hp =>
    rcases List.mem_or_eq_of_mem_set hu with hu | rfl
    · exact Or.inl ⟨u, hu, rfl⟩
    · exact Or.inl ⟨_, List.mem_of_getElem? ht, rfl⟩

/-- The sessions that a schedule leads to are those it starts. -/
theorem started_of_schedule {ls : List (Label Choice Job)} {s s' : System Db Write Error Choice Job α}
    (h : s.schedule S g ls = some s') {u : Session Db Write Error Choice Job α} (hu : u ∈ s'.sessions) :
    (∃ t ∈ s.sessions, u.job = t.job ∧ u.oracle = t.oracle) ∨ .start u.job u.oracle ∈ ls := by
  induction ls generalizing s with
  | nil =>
    cases h
    exact Or.inl ⟨u, hu, rfl, rfl⟩
  | cons l ls ih =>
    simp only [System.schedule] at h
    split at h
    · split at h
      · cases h
      · rename_i s₁ hstep
        rcases ih h with ⟨t, ht, hjob, ho⟩ | hmem
        · obtain ⟨j, hj⟩ := List.getElem?_of_mem ht
          cases hc : System.step_cases hstep with
          | start r o =>
            rcases List.mem_append.1 ht with ht | ht
            · exact Or.inl ⟨t, ht, hjob, ho⟩
            · rw [List.mem_singleton.1 ht] at hjob ho
              exact Or.inr (hjob ▸ ho ▸ List.mem_cons_self ..)
          | exec hi hb ha =>
            rcases List.mem_or_eq_of_mem_set ht with ht | rfl
            · exact Or.inl ⟨t, ht, hjob, ho⟩
            · have hm := Session.advance_moves ha
              exact Or.inl ⟨_, List.mem_of_getElem? hi, hjob.trans hm.job, ho.trans hm.oracle⟩
          | abort hi hp =>
            rcases List.mem_or_eq_of_mem_set ht with ht | rfl
            · exact Or.inl ⟨t, ht, hjob, ho⟩
            · exact Or.inl ⟨_, List.mem_of_getElem? hi, hjob, ho⟩
        · exact Or.inr (List.mem_cons_of_mem _ hmem)
    · cases h

/-- A schedule is a run if its test implies `G` for the jobs it starts. -/
theorem schedule_run {P : Job → Prop} (hg : ∀ t d, P t.job → g t d = true → G t d) {ls : List (Label Choice Job)}
    (hl : ∀ r o, Label.start r o ∈ ls → P r) {s s' : System Db Write Error Choice Job α}
    (hs : ∀ t ∈ s.sessions, P t.job) (h : s.schedule S g ls = some s') : Run S G s s' := by
  induction ls generalizing s with
  | nil => cases h; exact Run.refl _
  | cons l ls ih =>
    simp only [System.schedule] at h
    split at h
    · rename_i hall
      split at h
      · cases h
      · rename_i s₁ hstep
        have hs₁ : ∀ t ∈ s₁.sessions, P t.job := by
          intro t ht
          rcases (System.step_cases hstep).job ht with ⟨u, hu, he⟩ | ⟨o, rfl⟩
          · rw [he]
            exact hs u hu
          · exact hl _ o (List.mem_cons_self ..)
        have hrest := ih (fun r o hr => hl r o (List.mem_cons_of_mem _ hr)) hs₁ h
        refine ((Run.refl s).tail l hstep fun t ht => ?_).trans hrest
        refine hg t s.db (hs t (System.mem_of_committing ht)) ?_
        rw [ht] at hall
        exact hall
    · cases h

/-- Where a schedule leads; one that gets stuck leads nowhere. -/
theorem run_schedule_getD {P : Job → Prop} (hg : ∀ t d, P t.job → g t d = true → G t d) {ls : List (Label Choice Job)}
    (hl : ∀ r o, Label.start r o ∈ ls → P r) {s : System Db Write Error Choice Job α} (hs : ∀ t ∈ s.sessions, P t.job) :
    Run S G s ((s.schedule S g ls).getD s) := by
  cases hled : s.schedule S g ls with
  | none => exact Run.refl _
  | some s' => exact schedule_run hg hl hs hled

end Schedules

end ReadCommitted
