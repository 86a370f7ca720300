import GenPay.ReadCommitted.Alone

/-!
# Engines that refuse more

`Engine.refusing` also refuses, with an error of its own, the writes that do not fit: a number outside the range of
its column, say.  Where this error ends the program (`Prog.Passes`), a session that meets it is one whose transaction
the engine has ended, so every run is one of the engine that refuses less (`Run.of_refusing`), and what holds in all
of these holds here.  Run alone, a straight program returns as before if all that it writes fits, and only then
(`Prog.Straight.run_refusing`).
-/

namespace ReadCommitted

variable {Db Write Error Choice Job α β : Type}

/-- The engine that also refuses what does not fit. -/
def Engine.refusing (E : Engine Db Write Error) (fits : Db → Write → Bool) (e : Error) : Engine Db Write Error :=
  { E with violation := fun d w => if fits d w then E.violation d w else some e }

variable {E : Engine Db Write Error} {fits : Db → Write → Bool} {e : Error} {o : Nat → Choice} {d : Db}
  {t t' : Txn Db Write}

@[simp] theorem Engine.view_refusing (ws : List Write) : (E.refusing fits e).view d ws = E.view d ws := rfl

@[simp] theorem Txn.view_refusing : t.view (E.refusing fits e) d = t.view E d := rfl

theorem Engine.violation_of_fits {w : Write} (h : fits d w = true) :
    (E.refusing fits e).violation d w = E.violation d w := if_pos h

theorem Engine.violation_of_not_fits {w : Write} (h : ¬ fits d w = true) :
    (E.refusing fits e).violation d w = some e := if_neg h

/-- Each of the writes fits where it is made. -/
def Engine.AllFit (E : Engine Db Write Error) (fits : Db → Write → Bool) : Db → List Write → Prop
  | _, [] => True
  | d, w :: ws => fits d w = true ∧ E.AllFit fits (E.apply d w) ws

@[simp] theorem Engine.allFit_nil : E.AllFit fits d [] := True.intro

theorem Engine.allFit_cons {w : Write} {ws : List Write} :
    E.AllFit fits d (w :: ws) ↔ fits d w = true ∧ E.AllFit fits (E.apply d w) ws := Iff.rfl

namespace Prog

/-- If a write fails with `e`, so does the program. -/
def Passes (e : Error) : Prog Db Write Error Choice α → Prop
  | ret _ => True
  | raise _ => True
  | select _ k => ∀ b, (k b).Passes e
  | write _ k => k (some e) = raise e ∧ ∀ r, (k r).Passes e
  | rollback k => k.Passes e

/-- If a write fails, so does the program; nothing written is taken back. -/
def Straight : Prog Db Write Error Choice α → Prop
  | ret _ => True
  | raise _ => True
  | select _ k => ∀ b, (k b).Straight
  | write _ k => (∀ e, k (some e) = raise e) ∧ (k none).Straight
  | rollback _ => False

section Rules

variable {p : Prog Db Write Error Choice α} {f : α → Prog Db Write Error Choice β}

theorem Passes.bind (hp : p.Passes e) (hf : ∀ a, (f a).Passes e) : (p >>= f).Passes e := by
  show (p.bind f).Passes e
  induction p with
  | ret a => exact hf a
  | raise e' => exact True.intro
  | select q k ih => exact fun b => ih b (hp b)
  | write w k ih => exact ⟨congrArg (Prog.bind · f) hp.1, fun r => ih r (hp.2 r)⟩
  | rollback k ih => exact ih hp

/-- The handler lets the error through. -/
theorem Passes.tryCatch {h : Error → Prog Db Write Error Choice α} (hp : p.Passes e) (he : h e = raise e)
    (hh : ∀ e', (h e').Passes e) : (p.tryCatch h).Passes e := by
  induction p with
  | ret a => exact True.intro
  | raise e' => exact hh e'
  | select q k ih => exact fun b => ih b (hp b)
  | write w k ih => exact ⟨(congrArg (Prog.tryCatch · h) hp.1).trans he, fun r => ih r (hp.2 r)⟩
  | rollback k ih => exact ih hp

theorem Straight.passes (h : p.Straight) : p.Passes e := by
  induction p with
  | ret a => exact True.intro
  | raise e' => exact True.intro
  | select q k ih => exact fun b => ih b (h b)
  | write w k ih =>
    refine ⟨h.1 e, fun r => ?_⟩
    cases r with
    | none => exact ih none h.2
    | some e' =>
      rw [h.1 e']
      exact True.intro
  | rollback k ih => exact h.elim

theorem Straight.bind (hp : p.Straight) (hf : ∀ a, (f a).Straight) : (p >>= f).Straight := by
  show (p.bind f).Straight
  induction p with
  | ret a => exact hf a
  | raise e => exact True.intro
  | select q k ih => exact fun b => ih b (hp b)
  | write w k ih => exact ⟨fun e => congrArg (Prog.bind · f) (hp.1 e), ih none hp.2⟩
  | rollback k ih => exact hp.elim

theorem straight_ret (a : α) : (ret a : Prog Db Write Error Choice α).Straight := True.intro

theorem straight_raise (e : Error) : (raise e : Prog Db Write Error Choice α).Straight := True.intro

theorem straight_query {q : Choice → Db → α} : (query q : Prog Db Write Error Choice α).Straight := fun _ => True.intro

theorem straight_exec {w : Write} : (exec w : Prog Db Write Error Choice Unit).Straight := ⟨fun _ => rfl, True.intro⟩

end Rules

/-! ### A program that runs alone -/

section Run

variable {p : Prog Db Write Error Choice α} {a : α}

theorem Straight.run_write_ok {w : Write} {k : Option Error → Prog Db Write Error Choice α} (h : (write w k).Straight) :
    (write w k).run E o d t = (.ok a, t') ↔
      E.violation (t.view E d) w = none ∧ (k none).run E o d (t.wrote d w) = (.ok a, t') := by
  rw [run_write]
  cases E.violation (t.view E d) w with
  | none => simp
  | some e' =>
    dsimp only
    rw [h.1 e']
    simp [Prog.run]

/-- A straight program that returns has taken nothing back. -/
theorem Straight.run_writes (hp : p.Straight) (h : p.run E o d t = (.ok a, t')) : ∃ ws, t'.writes = t.writes ++ ws := by
  induction p generalizing t with
  | ret b =>
    cases h
    exact ⟨[], (List.append_nil _).symm⟩
  | raise e' => cases h
  | select q k ih => exact ih _ (hp _) (t := t.saw d) h
  | write w k ih =>
    obtain ⟨ws, hws⟩ := ih none hp.2 (hp.run_write_ok.1 h).2
    exact ⟨w :: ws, by simpa using hws⟩
  | rollback k ih => exact hp.elim

/-- A straight program returns what it would without the refusals, if all that it writes fits, and only then. -/
theorem Straight.run_refusing (hp : p.Straight) : p.run (E.refusing fits e) o d t = (.ok a, t') ↔
    p.run E o d t = (.ok a, t') ∧ ∃ ws, t'.writes = t.writes ++ ws ∧ E.AllFit fits (t.view E d) ws := by
  induction p generalizing t with
  | ret b =>
    refine ⟨fun h => ⟨h, [], ?_, True.intro⟩, And.left⟩
    cases h
    simp
  | raise e' => exact ⟨fun h => (by cases h), fun h => (by cases h.1)⟩
  | select q k ih => exact ih _ (hp _) (t := t.saw d)
  | write w k ih =>
    rw [hp.run_write_ok, hp.run_write_ok, Txn.view_refusing, ih none hp.2]
    constructor
    · rintro ⟨hv, hrun, ws, hws, hall⟩
      by_cases hfits : fits (t.view E d) w = true
      · rw [Engine.violation_of_fits hfits] at hv
        exact ⟨⟨hv, hrun⟩, w :: ws, by simpa using hws, hfits, by simpa using hall⟩
      · rw [Engine.violation_of_not_fits hfits] at hv
        cases hv
    · rintro ⟨⟨hv, hrun⟩, ws, hws, hall⟩
      -- what the program writes from here on begins with `w`
      obtain ⟨ws', hws'⟩ := hp.2.run_writes hrun
      obtain rfl : ws = w :: ws' := List.append_cancel_left (hws.symm.trans (by simpa using hws'))
      refine ⟨?_, hrun, ws', hws', by simpa using hall.2⟩
      rw [Engine.violation_of_fits hall.1]
      exact hv
  | rollback k ih => exact hp.elim

end Run

end Prog

/-! ### Runs -/

variable {S : Service Db Write Error Choice Job α} {G : Session Db Write Error Choice Job α → Db → Prop}

/-- The service on an engine that also refuses what does not fit. -/
def Service.refusing (S : Service Db Write Error Choice Job α) (fits : Db → Write → Bool) (e : Error) :
    Service Db Write Error Choice Job α :=
  { S with toEngine := S.toEngine.refusing fits e }

/-- Where the engine has refused `u` a write, `u` fails with `e` and `t` has ended; else the sessions are the same. -/
inductive Session.Mirrors (e : Error) (u t : Session Db Write Error Choice Job α) : Prop
  | same (h : u = t) (hp : ∀ p, t.phase = .running p → p.Passes e)
  | refused (hu : u.phase = .running (.raise e) ∨ ∃ e', u.phase = .failed e') (ht : t.held = [])

structure System.Mirrors (e : Error) (s s' : System Db Write Error Choice Job α) : Prop where
  db : s'.db = s.db
  length : s'.sessions.length = s.sessions.length
  session : ∀ (i : Nat) u t, s.sessions[i]? = some u → s'.sessions[i]? = some t → u.Mirrors e t

namespace System.Mirrors

variable {s s' s₁ : System Db Write Error Choice Job α} {u t : Session Db Write Error Choice Job α} {i : Nat}

theorem exists_session (h : Mirrors e s s') (hu : s.sessions[i]? = some u) :
    ∃ t, s'.sessions[i]? = some t ∧ u.Mirrors e t := by
  have hi : i < s'.sessions.length := by
    rw [h.length]
    exact (List.getElem?_eq_some_iff.1 hu).1
  exact ⟨_, List.getElem?_eq_getElem hi, h.session i u _ hu (List.getElem?_eq_getElem hi)⟩

/-- The sessions of the second system hold no more. -/
theorem blocked (h : Mirrors e s s') (hb : s.blocked (S.refusing fits e) i t = false) : s'.blocked S i t = false := by
  rw [System.blocked_eq_false] at hb ⊢
  intro w hw j v hj hv w' hw'
  obtain ⟨u, hu⟩ : ∃ u, s.sessions[j]? = some u :=
    ⟨_, List.getElem?_eq_getElem (h.length ▸ (List.getElem?_eq_some_iff.1 hv).1)⟩
  cases h.session j u v hu hv with
  | same he _ => exact hb w hw j u hj hu w' (he ▸ hw')
  | refused _ hnone =>
    rw [hnone] at hw'
    cases hw'

theorem set (h : Mirrors e s s') (d : Db) (hut : u.Mirrors e t) :
    Mirrors e ⟨d, s.sessions.set i u⟩ ⟨d, s'.sessions.set i t⟩ where
  db := rfl
  length := by simp [h.length]
  session j v v' hv hv' := by
    rcases getElem?_set_cases hv with ⟨rfl, rfl⟩ | ⟨hj, hv⟩
    · rcases getElem?_set_cases hv' with ⟨-, rfl⟩ | ⟨hj, -⟩
      · exact hut
      · exact absurd rfl hj
    · rw [List.getElem?_set_ne hj.symm] at hv'
      exact h.session j v v' hv hv'

/-- A session that has been refused a write moves alone. -/
theorem own (h : Mirrors e s s') (ht : s'.sessions[i]? = some t) (hut : u.Mirrors e t) :
    Mirrors e ⟨s.db, s.sessions.set i u⟩ s' where
  db := h.db
  length := by simp [h.length]
  session j v v' hv hv' := by
    rcases getElem?_set_cases hv with ⟨rfl, rfl⟩ | ⟨-, hv⟩
    · rw [ht] at hv'
      cases hv'
      exact hut
    · exact h.session j v v' hv hv'

end System.Mirrors

/-- A move with the additional refusals is one without them, or the refusal of a write. -/
theorem Session.advance_refusing {t u : Session Db Write Error Choice Job α} {d d' : Db}
    (hp : ∀ p, t.phase = .running p → p.Passes e) (h : t.advance (S.refusing fits e) d = some (d', u)) :
    (t.advance S d = some (d', u) ∧ ∀ p, u.phase = .running p → p.Passes e) ∨
      d' = d ∧ (∃ p, t.phase = .running p) ∧ u.phase = .running (.raise e) := by
  cases Session.advance_moves h with
  | commit hph => exact Or.inl ⟨by simp only [Session.advance, hph]; rfl, fun p hu => by cases hu⟩
  | fail hph => exact Or.inl ⟨by simp only [Session.advance, hph]; rfl, fun p hu => by cases hu⟩
  | select hph =>
    refine Or.inl ⟨by simp only [Session.advance, hph]; rfl, fun p hu => ?_⟩
    cases hu
    exact hp _ hph _
  | @write w k hph hv =>
    have hfits : fits (S.view d t.txn.writes) w = true := by
      by_contra hn
      exact Option.some_ne_none e ((Engine.violation_of_not_fits (E := S.toEngine) hn).symm.trans hv)
    have hv' : S.violation (S.view d t.txn.writes) w = none := (Engine.violation_of_fits hfits).symm.trans hv
    refine Or.inl ⟨by simp only [Session.advance, hph, hv'], fun p hu => ?_⟩
    cases hu
    exact (hp _ hph).2 none
  | @refused w k e' hph hv =>
    by_cases hfits : fits (S.view d t.txn.writes) w = true
    · have hv' : S.violation (S.view d t.txn.writes) w = some e' := (Engine.violation_of_fits hfits).symm.trans hv
      refine Or.inl ⟨by simp only [Session.advance, hph, hv'], fun p hu => ?_⟩
      cases hu
      exact (hp _ hph).2 (some e')
    · obtain rfl : e = e' := Option.some.inj ((Engine.violation_of_not_fits (E := S.toEngine) hfits).symm.trans hv)
      exact Or.inr ⟨rfl, ⟨_, hph⟩, congrArg Phase.running (hp _ hph).1⟩
  | @rollback k hph =>
    refine Or.inl ⟨by simp only [Session.advance, hph], fun p hu => ?_⟩
    cases hu
    exact (show (Prog.rollback k).Passes e from hp _ hph)

/-- The step of the second system that goes with a step of the first: the same one, the end of a session that has
been refused a write, or none. -/
theorem System.Mirrors.step {s s' s₁ : System Db Write Error Choice Job α} {l : Label Choice Job}
    (hS : ∀ r, (S.handle r).Passes e) (h : System.Mirrors e s s') (hc : StepCase (S.refusing fits e) s l s₁)
    (hG : ∀ t, s.committing l = some t → G t s.db) : ∃ s₁', Run S G s' s₁' ∧ System.Mirrors e s₁ s₁' := by
  cases hc with
  | start r o =>
    refine ⟨⟨s'.db, s'.sessions ++ [Session.started S r o]⟩, (Run.refl _).tail (.start r o) rfl (fun t h => by cases h),
      h.db, by simp [h.length], fun i u t hu ht => ?_⟩
    rcases getElem?_concat_cases hu with hu | ⟨hi, rfl⟩
    · rcases getElem?_concat_cases ht with ht | ⟨hi, -⟩
      · exact h.session i u t hu ht
      · rw [hi, h.length] at hu
        simp at hu
    · rcases getElem?_concat_cases ht with ht | ⟨-, rfl⟩
      · rw [hi, ← h.length] at ht
        simp at ht
      · refine Session.Mirrors.same rfl fun p hp => ?_
        cases hp
        exact hS r
  | @exec i u d u' hu hb ha =>
    obtain ⟨t, ht, hut⟩ := h.exists_session hu
    cases hut with
    | same he hp =>
      subst he
      rcases Session.advance_refusing hp ha with ⟨ha', hp'⟩ | ⟨rfl, ⟨p, hph⟩, hraise⟩
      · refine ⟨⟨d, s'.sessions.set i u'⟩, (Run.refl _).tail (.exec i) ?_ fun v hv => ?_, h.set d (.same rfl hp')⟩
        · rw [← h.db] at ha'
          simp only [System.step, ht, h.blocked hb, ha', Bool.false_eq_true, ↓reduceIte]
        · rw [h.db]
          refine hG v ?_
          simpa [System.committing, ht, hu] using hv
      · -- the refused session fails, so the other system ends it
        refine ⟨⟨s'.db, s'.sessions.set i (u.ended S.aborted)⟩, (Run.refl _).tail (.abort i) ?_ (fun v hv => by cases hv), ?_⟩
        · simp only [System.step, ht, Session.abort, hph]
          rfl
        · rw [h.db]
          exact h.set s.db (.refused (Or.inl hraise) rfl)
    | refused hfail hnone =>
      refine ⟨s', Run.refl _, ?_⟩
      rcases hfail with hfail | ⟨e', hfail⟩
      · simp only [Session.advance, hfail, Option.some.injEq, Prod.mk.injEq] at ha
        obtain ⟨rfl, rfl⟩ := ha
        exact h.own ht (.refused (Or.inr ⟨e, rfl⟩) hnone)
      · simp [Session.advance, hfail] at ha
  | @abort i u p hu hp =>
    obtain ⟨t, ht, hut⟩ := h.exists_session hu
    cases hut with
    | same he _ =>
      subst he
      refine ⟨⟨s'.db, s'.sessions.set i (u.ended S.aborted)⟩, (Run.refl _).tail (.abort i) ?_ (fun v hv => by cases hv), ?_⟩
      · simp only [System.step, ht, Session.abort, hp]
        rfl
      · rw [h.db]
        exact h.set s.db (.same rfl fun p hp => by cases hp)
    | refused hfail hnone =>
      exact ⟨s', Run.refl _, h.own ht (.refused (Or.inr ⟨_, rfl⟩) hnone)⟩

/-- Every run with the additional refusals leads to a database that a run without them leads to. -/
theorem Run.of_refusing (hS : ∀ r, (S.handle r).Passes e) {d₀ : Db} {s : System Db Write Error Choice Job α}
    (h : Run (S.refusing fits e) G (System.initial d₀) s) :
    ∃ s', Run S G (System.initial d₀) s' ∧ System.Mirrors e s s' := by
  induction h with
  | refl => exact ⟨_, Run.refl _, rfl, rfl, fun i u t hu => by simp [System.initial] at hu⟩
  | tail l _ hstep hG ih =>
    obtain ⟨s', hrun, hm⟩ := ih
    obtain ⟨s₁', hrun', hm'⟩ := hm.step hS (System.step_cases hstep) hG
    exact ⟨s₁', hrun.trans hrun', hm'⟩

end ReadCommitted
