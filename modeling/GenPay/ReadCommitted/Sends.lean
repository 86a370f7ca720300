import GenPay.ReadCommitted.System

/-!
# What a program sends

`Prog.sends` is a weakest precondition for the writes on the way: whatever others commit between the statements, each
write is sent from a trace from which `R` allows it.  In a run this holds of the write that a session sends next
(`Run.sends_next`), and where `R` looks at the write only, of all writes that sessions hold or have committed, so that
the database keeps what these writes keep (`Run.keeps`).
-/

namespace ReadCommitted

variable {Db Write Error Choice Job α β : Type} {E : Engine Db Write Error} {o : Nat → Choice}

namespace Prog

/-- Every write the program sends is allowed. -/
def sends (E : Engine Db Write Error) (o : Nat → Choice) (R : Txn Db Write → Write → Prop) :
    Prog Db Write Error Choice α → Txn Db Write → Prop
  | ret _, _ => True
  | raise _, _ => True
  | select q k, t => ∀ d, (k (q (o t.seen.length) (E.view d t.writes))).sends E o R (t.saw d)
  | write w k, t => R t w ∧ ∀ d,
      match E.violation (E.view d t.writes) w with
      | none => (k none).sends E o R (t.wrote d w)
      | some e => (k (some e)).sends E o R (t.saw d)
  | rollback k, t => ∀ d, k.sends E o R (t.dropped d)

variable {R R' : Txn Db Write → Write → Prop} {t : Txn Db Write} {p : Prog Db Write Error Choice α}

theorem sends_mono (h : p.sends E o R t) (hR : ∀ t w, R t w → R' t w) : p.sends E o R' t := by
  induction p generalizing t with
  | ret a => exact True.intro
  | raise e => exact True.intro
  | select q k ih => exact fun d => ih _ (h d)
  | write w k ih =>
    refine ⟨hR _ _ h.1, fun d => ?_⟩
    have hd := h.2 d
    cases hv : E.violation (E.view d t.writes) w with
    | none => rw [hv] at hd; exact ih _ hd
    | some e => rw [hv] at hd; exact ih _ hd
  | rollback k ih => exact fun d => ih (h d)

/-- Two programs in sequence; of the first its specification is used. -/
theorem sends_seq {f : α → Prog Db Write Error Choice β} {P : α → Txn Db Write → Prop} (h : p.sends E o R t)
    (hp : p.wp E o (onOk P) t) (hf : ∀ a t', P a t' → (f a).sends E o R t') : (p >>= f).sends E o R t := by
  show (p.bind f).sends E o R t
  induction p generalizing t with
  | ret a => exact hf a t hp
  | raise e => exact True.intro
  | select q k ih => exact fun d => ih _ (h d) (hp d)
  | write w k ih =>
    refine ⟨h.1, fun d => ?_⟩
    have hd := h.2 d
    have hpd := hp d
    cases hv : E.violation (E.view d t.writes) w with
    | none => rw [hv] at hd hpd; exact ih _ hd hpd
    | some e => rw [hv] at hd hpd; exact ih _ hd hpd
  | rollback k ih => exact fun d => ih (h d) (hp d)

theorem sends_tryCatch {h : Error → Prog Db Write Error Choice α} {P : α → Txn Db Write → Prop}
    {F : Error → Txn Db Write → Prop} (hsends : p.sends E o R t) (hp : p.wp E o (onEnd P F) t)
    (hh : ∀ e t', F e t' → (h e).sends E o R t') : (p.tryCatch h).sends E o R t := by
  induction p generalizing t with
  | ret a => exact True.intro
  | raise e => exact hh e t hp
  | select q k ih => exact fun d => ih _ (hsends d) (hp d)
  | write w k ih =>
    refine ⟨hsends.1, fun d => ?_⟩
    have hd := hsends.2 d
    have hpd := hp d
    cases hv : E.violation (E.view d t.writes) w with
    | none => rw [hv] at hd hpd; exact ih _ hd hpd
    | some e => rw [hv] at hd hpd; exact ih _ hd hpd
  | rollback k ih => exact fun d => ih (hsends d) (hp d)

theorem sends_exec {w : Write} (h : R t w) : (exec w : Prog Db Write Error Choice Unit).sends E o R t := by
  refine ⟨h, fun d => ?_⟩
  cases E.violation (E.view d t.writes) w with
  | none => exact True.intro
  | some e => exact True.intro

theorem sends_query {q : Choice → Db → α} : (query q : Prog Db Write Error Choice α).sends E o R t :=
  fun _ => True.intro

end Prog

/-! ### Assertions -/

/-- What holds of a trace between the statements, and the writes that may be sent from it. -/
structure Assertion (Db Write : Type) where
  holds : Txn Db Write → Prop
  allows : Txn Db Write → Write → Prop
  saw : ∀ {t} d, holds t → holds (t.saw d)
  dropped : ∀ {t} d, holds t → holds (t.dropped d)

/-- The write may be sent whenever the assertion holds, and keeps it. -/
def Assertion.Quiet (A : Assertion Db Write) (w : Write) : Prop :=
  ∀ t, A.holds t → A.allows t w ∧ ∀ d, A.holds (t.wrote d w)

/-- The program keeps the assertion and sends what it allows. -/
structure Prog.Within (E : Engine Db Write Error) (o : Nat → Choice) (A : Assertion Db Write)
    (p : Prog Db Write Error Choice α) : Prop where
  sends : ∀ t, A.holds t → p.sends E o A.allows t
  ends : ∀ t, A.holds t → p.wp E o (Prog.onEnd (fun _ t' => A.holds t') fun _ t' => A.holds t') t

/-- So it does from this trace. -/
structure Prog.WithinAt (E : Engine Db Write Error) (o : Nat → Choice) (A : Assertion Db Write)
    (p : Prog Db Write Error Choice α) (t : Txn Db Write) : Prop where
  sends : p.sends E o A.allows t
  ends : p.wp E o (Prog.onEnd (fun _ t' => A.holds t') fun _ t' => A.holds t') t

namespace Prog.Within

variable {A : Assertion Db Write} {p : Prog Db Write Error Choice α} {f : α → Prog Db Write Error Choice β}

theorem ret (a : α) : (Prog.ret a : Prog Db Write Error Choice α).Within E o A := ⟨fun _ _ => True.intro, fun _ h => h⟩

theorem raise (e : Error) : (Prog.raise e : Prog Db Write Error Choice α).Within E o A :=
  ⟨fun _ _ => True.intro, fun _ h => h⟩

theorem query {q : Choice → Db → α} : (Prog.query q : Prog Db Write Error Choice α).Within E o A :=
  ⟨fun _ _ => sends_query, fun _ h d => A.saw d h⟩

/-- What a query answers is drawn from the oracle. -/
theorem query_bind {q : Choice → Db → β} {g : β → Prog Db Write Error Choice α} (hg : ∀ n d, (g (q (o n) d)).Within E o A) :
    (Prog.query q >>= g).Within E o A :=
  ⟨fun _ h d => (hg _ _).sends _ (A.saw d h), fun _ h d => (hg _ _).ends _ (A.saw d h)⟩

theorem write {w : Write} {k : Option Error → Prog Db Write Error Choice α} (hw : A.Quiet w)
    (hk : ∀ r, (k r).Within E o A) : (Prog.write w k).Within E o A := by
  constructor
  · refine fun t h => ⟨(hw t h).1, fun d => ?_⟩
    cases E.violation (E.view d t.writes) w with
    | none => exact (hk none).sends _ ((hw t h).2 d)
    | some e => exact (hk (some e)).sends _ (A.saw d h)
  · intro t h d
    cases E.violation (E.view d t.writes) w with
    | none => exact (hk none).ends _ ((hw t h).2 d)
    | some e => exact (hk (some e)).ends _ (A.saw d h)

theorem exec {w : Write} (hw : A.Quiet w) : (Prog.exec w : Prog Db Write Error Choice Unit).Within E o A := by
  refine write hw fun r => ?_
  cases r with
  | none => exact ret ()
  | some e => exact raise e

theorem rollback (h : p.Within E o A) : (Prog.rollback p).Within E o A :=
  ⟨fun _ ht d => h.sends _ (A.dropped d ht), fun _ ht d => h.ends _ (A.dropped d ht)⟩

theorem bind (hp : p.Within E o A) (hf : ∀ a, (f a).Within E o A) : (p >>= f).Within E o A := by
  constructor
  · intro t h
    refine sends_seq (hp.sends t h) (P := fun _ t' => A.holds t') ?_ fun a t' h' => (hf a).sends t' h'
    refine wp_mono (hp.ends t h) fun r t' hr => ?_
    cases r with
    | ok a => exact hr
    | error e => exact True.intro
  · exact fun t h => wp_seq_end (hp.ends t h) fun a t' h' => (hf a).ends t' h'

theorem withinAt (h : p.Within E o A) {t : Txn Db Write} (ht : A.holds t) : p.WithinAt E o A t := ⟨h.sends t ht, h.ends t ht⟩

theorem of_at (h : ∀ t, A.holds t → p.WithinAt E o A t) : p.Within E o A :=
  ⟨fun t ht => (h t ht).sends, fun t ht => (h t ht).ends⟩

end Prog.Within

/-- Two programs in sequence; of the first also its specification is used. -/
theorem Prog.WithinAt.seq {A : Assertion Db Write} {p : Prog Db Write Error Choice α}
    {f : α → Prog Db Write Error Choice β} {P : α → Txn Db Write → Prop} {t : Txn Db Write} (hp : p.WithinAt E o A t)
    (hP : p.wp E o (onOk P) t) (hf : ∀ a t', A.holds t' → P a t' → (f a).WithinAt E o A t') :
    (p >>= f).WithinAt E o A t := by
  have hand := wp_and hp.ends hP
  constructor
  · refine sends_seq hp.sends (P := fun a t' => A.holds t' ∧ P a t') (wp_mono hand fun r t' hr => ?_)
      fun a t' h => (hf a t' h.1 h.2).sends
    cases r with
    | ok a => exact hr
    | error e => exact True.intro
  · refine wp_bind (wp_mono hand fun r t' hr => ?_)
    cases r with
    | ok a => exact (hf a t' hr.1 hr.2).ends
    | error e => exact hr.1

theorem Prog.WithinAt.bind {A : Assertion Db Write} {p : Prog Db Write Error Choice α}
    {f : α → Prog Db Write Error Choice β} {t : Txn Db Write} (hp : p.WithinAt E o A t) (hf : ∀ a, (f a).Within E o A) :
    (p >>= f).WithinAt E o A t := by
  refine hp.seq (P := fun _ _ => True) (wp_mono hp.ends fun r t' _ => ?_) fun a t' ht' _ => (hf a).withinAt ht'
  cases r with
  | ok a => exact True.intro
  | error e => exact True.intro

theorem Prog.WithinAt.tryCatch {A : Assertion Db Write} {p : Prog Db Write Error Choice α}
    {h : Error → Prog Db Write Error Choice α} {t : Txn Db Write} (hp : p.WithinAt E o A t)
    (hh : ∀ e, (h e).Within E o A) : (p.tryCatch h).WithinAt E o A t := by
  constructor
  · exact sends_tryCatch hp.sends hp.ends fun e t' h' => (hh e).sends t' h'
  · refine wp_handled (wp_mono hp.ends fun r t' hr => ?_)
    cases r with
    | ok a => exact hr
    | error e => exact (hh e).ends t' hr

theorem Prog.Within.tryCatch {A : Assertion Db Write} {p : Prog Db Write Error Choice α}
    {h : Error → Prog Db Write Error Choice α} (hp : p.Within E o A) (hh : ∀ e, (h e).Within E o A) :
    (p.tryCatch h).Within E o A := Within.of_at fun _ ht => (hp.withinAt ht).tryCatch hh

/-- An assertion about single writes. -/
def Assertion.each (P : Write → Prop) : Assertion Db Write := ⟨fun _ => True, fun _ w => P w, fun _ h => h, fun _ h => h⟩

theorem Assertion.each_quiet {P : Write → Prop} {w : Write} : (Assertion.each P : Assertion Db Write).Quiet w ↔ P w :=
  ⟨fun h => (h Txn.fresh True.intro).1, fun h _ _ => ⟨h, fun _ => True.intro⟩⟩

section Traces

variable (good : Db → Prop) (I Q : List Write → Prop)

/-- An assertion about the writes so far, as long as only good databases are seen: between statements they satisfy
`I`, and at any time `Q`. -/
def Assertion.traces (hnil : I []) : Assertion Db Write where
  holds t := (∀ d ∈ t.seen, good d) → I t.writes
  allows t w := (∀ d ∈ t.seen, good d) → Q (t.writes ++ [w])
  saw _ h hgood := h fun x hx => hgood x (List.mem_append_left _ hx)
  dropped _ _ _ := hnil

variable {good I Q} {hnil : I []}

theorem Assertion.traces_quiet {w : Write} (h : ∀ ws, I ws → I (ws ++ [w])) (hQ : ∀ ws, I ws → Q ws) :
    (Assertion.traces good I Q hnil).Quiet w := by
  intro t ht
  refine ⟨fun hgood => hQ _ (h _ (ht hgood)), fun d hgood => h _ (ht fun x hx => ?_)⟩
  exact hgood x (List.mem_append_left _ hx)

/-- Once it has seen a database that is not good, a program may do anything. -/
theorem Prog.withinAt_of_bad {p : Prog Db Write Error Choice α} {t : Txn Db Write} (hbad : ¬ ∀ d ∈ t.seen, good d) :
    p.WithinAt E o (Assertion.traces good I Q hnil) t := by
  have hsaw : ∀ {t : Txn Db Write} (x : Db), (¬ ∀ d ∈ t.seen, good d) → ¬ ∀ d ∈ t.seen ++ [x], good d :=
    fun x h hgood => h fun d hd => hgood d (List.mem_append_left _ hd)
  induction p generalizing t with
  | ret a => exact ⟨True.intro, fun hgood => absurd hgood hbad⟩
  | raise e => exact ⟨True.intro, fun hgood => absurd hgood hbad⟩
  | select q k ih => exact ⟨fun d => (ih _ (hsaw d hbad)).sends, fun d => (ih _ (hsaw d hbad)).ends⟩
  | write w k ih =>
    refine ⟨⟨fun hgood => absurd hgood hbad, fun d => ?_⟩, fun d => ?_⟩
    · cases E.violation (E.view d t.writes) w with
      | none => exact (ih none (t := t.wrote d w) (hsaw d hbad)).sends
      | some e => exact (ih (some e) (t := t.saw d) (hsaw d hbad)).sends
    · cases E.violation (E.view d t.writes) w with
      | none => exact (ih none (t := t.wrote d w) (hsaw d hbad)).ends
      | some e => exact (ih (some e) (t := t.saw d) (hsaw d hbad)).ends
  | rollback k ih => exact ⟨fun d => (ih (hsaw d hbad)).sends, fun d => (ih (hsaw d hbad)).ends⟩

end Traces

/-! ### Runs -/

section Runs

variable {S : Service Db Write Error Choice Job α} {G : Session Db Write Error Choice Job α → Db → Prop}
  {d₀ : Db} {s : System Db Write Error Choice Job α}

/-- What is left of the program of a session sends as `R` allows. -/
def Session.Sends (S : Service Db Write Error Choice Job α) (R : Txn Db Write → Write → Prop)
    (t : Session Db Write Error Choice Job α) : Prop :=
  ∀ p, t.phase = .running p → p.sends S.toEngine t.oracle R t.txn

theorem Session.Sends.moves {R : Txn Db Write → Write → Prop} {t t' : Session Db Write Error Choice Job α} {d d' : Db}
    (h : t.Sends S R) (hm : t.Moves S d d' t') : t'.Sends S R := by
  intro p' hp'
  cases hm with
  | commit hp => cases hp'
  | fail hp => cases hp'
  | select hp =>
    cases hp'
    exact h _ hp d
  | write hp hv =>
    cases hp'
    have hw := (h _ hp).2 d
    rw [hv] at hw
    exact hw
  | refused hp hv =>
    cases hp'
    have hw := (h _ hp).2 d
    rw [hv] at hw
    exact hw
  | rollback hp =>
    cases hp'
    exact h _ hp d

theorem Session.Sends.writes {P : Write → Prop} {t t' : Session Db Write Error Choice Job α} {d d' : Db}
    (h : t.Sends S fun _ w => P w) (hm : t.Moves S d d' t') (hw : ∀ w ∈ t.txn.writes, P w) :
    ∀ w ∈ t'.txn.writes, P w := by
  cases hm with
  | write hp hv =>
    intro w hmem
    rcases List.mem_append.1 hmem with hmem | hmem
    · exact hw w hmem
    · rw [List.mem_singleton.1 hmem]
      exact (h _ hp).1
  | fail hp | rollback hp =>
    intro w hmem
    cases hmem
  | _ => exact hw

theorem Session.Sends.traces {good : Db → Prop} {Q : List Write → Prop} {t t' : Session Db Write Error Choice Job α}
    {d d' : Db} (h : t.Sends S fun t w => (∀ d ∈ t.seen, good d) → Q (t.writes ++ [w])) (hm : t.Moves S d d' t')
    (hd : good d) (hnil : Q []) (ht : (∀ d ∈ t.txn.seen, good d) ∧ Q t.txn.writes) :
    (∀ d ∈ t'.txn.seen, good d) ∧ Q t'.txn.writes := by
  have hsaw : ∀ x ∈ t.txn.seen ++ [d], good x := by
    intro x hx
    rcases List.mem_append.1 hx with hx | hx
    · exact ht.1 x hx
    · rw [List.mem_singleton.1 hx]
      exact hd
  cases hm with
  | commit hp => exact ht
  | fail hp => exact ⟨ht.1, hnil⟩
  | select hp => exact ⟨hsaw, ht.2⟩
  | write hp hv => exact ⟨hsaw, (h _ hp).1 ht.1⟩
  | refused hp hv => exact ⟨hsaw, ht.2⟩
  | rollback hp => exact ⟨hsaw, hnil⟩

/-- What the program for a job sends among others, the sessions of that job do. -/
theorem Run.sends {R : Txn Db Write → Write → Prop} {r : Job} {o : Nat → Choice}
    (hp : (S.handle r).sends S.toEngine o R Txn.fresh) (h : Run S G (System.initial d₀) s) :
    ∀ t ∈ s.sessions, t.job = r → t.oracle = o → t.Sends S R := by
  induction h with
  | refl => intro t ht; simp [System.initial] at ht
  | tail l _ hstep _ ih =>
    intro u hu hr ho
    obtain ⟨j, hj⟩ := List.getElem?_of_mem hu
    rcases (System.step_cases hstep).session hj with hj | ⟨r', o', rfl, -⟩ | ⟨t, ht, -, hm⟩ | ⟨t, p, ht, -, rfl⟩
    · exact ih u (List.mem_of_getElem? hj) hr ho
    · cases hr
      cases ho
      rintro p ⟨⟩
      exact hp
    · exact (ih t (List.mem_of_getElem? ht) (hm.job ▸ hr) (hm.oracle ▸ ho)).moves hm
    · rintro p ⟨⟩

/-- The next write of a session is allowed. -/
theorem Run.sends_next {R : Txn Db Write → Write → Prop} (h : Run S G (System.initial d₀) s)
    {t : Session Db Write Error Choice Job α} (ht : t ∈ s.sessions)
    (hp : (S.handle t.job).sends S.toEngine t.oracle R Txn.fresh) {w : Write} (hw : t.sends = some w) : R t.txn w := by
  have hsends := Run.sends hp h t ht rfl rfl
  unfold Session.sends at hw
  split at hw
  · rename_i w' k hphase
    cases hw
    exact (hsends _ hphase).1
  · cases hw

theorem Session.Moves.mem_seen {t t' : Session Db Write Error Choice Job α} {d d' x : Db} (hm : t.Moves S d d' t')
    (hx : x ∈ t'.txn.seen) : x ∈ t.txn.seen ∨ x = d := by
  have happend : ∀ {xs : List Db}, x ∈ xs ++ [d] → x ∈ xs ∨ x = d := by
    intro xs h
    simpa using h
  cases hm with
  | commit hp | fail hp => exact Or.inl hx
  | _ => exact happend hx

/-- A session has seen what was committed at some time of the run. -/
theorem Run.seen (h : Run S G (System.initial d₀) s) {t : Session Db Write Error Choice Job α} (ht : t ∈ s.sessions)
    {d : Db} (hd : d ∈ t.txn.seen) : ∃ s', Run S G (System.initial d₀) s' ∧ s'.db = d := by
  induction h generalizing t with
  | refl => simp [System.initial] at ht
  | @tail s s' l hrun hstep _ ih =>
    obtain ⟨j, hj⟩ := List.getElem?_of_mem ht
    rcases (System.step_cases hstep).session hj with hj | ⟨r, o, rfl, -⟩ | ⟨u, hu, -, hm⟩ | ⟨u, p, hu, -, rfl⟩
    · exact ih (List.mem_of_getElem? hj) hd
    · cases hd
    · have hmem := List.mem_of_getElem? hu
      rcases hm.mem_seen hd with hold | rfl
      · exact ih hmem hold
      · exact ⟨s, hrun, rfl⟩
    · exact ih (List.mem_of_getElem? hu) hd

/-- The writes that the sessions of a job have sent are of the kind that its program sends. -/
theorem Run.writes_of {P : Write → Prop} {r : Job} {o : Nat → Choice}
    (hp : (S.handle r).Within S.toEngine o (Assertion.each P)) (h : Run S G (System.initial d₀) s) :
    ∀ t ∈ s.sessions, t.job = r → t.oracle = o → ∀ w ∈ t.txn.writes, P w := by
  induction h with
  | refl => intro t ht; simp [System.initial] at ht
  | tail l hrun hstep _ ih =>
    intro u hu hr ho w hw
    obtain ⟨j, hj⟩ := List.getElem?_of_mem hu
    rcases (System.step_cases hstep).session hj with hj | ⟨r, o, rfl, -⟩ | ⟨t, ht, -, hm⟩ | ⟨t, p, ht, -, rfl⟩
    · exact ih u (List.mem_of_getElem? hj) hr ho w hw
    · cases hw
    · have hmem := List.mem_of_getElem? ht
      have hr' := hm.job ▸ hr
      have ho' := hm.oracle ▸ ho
      exact (Run.sends (hp.sends _ True.intro) hrun t hmem hr' ho').writes hm (ih t hmem hr' ho') w hw
    · cases hw

/-- All writes that sessions have sent are of the kind that programs send. -/
theorem Run.writes {P : Write → Prop} (hp : ∀ r o, (S.handle r).Within S.toEngine o (Assertion.each P))
    (h : Run S G (System.initial d₀) s) : ∀ t ∈ s.sessions, ∀ w ∈ t.txn.writes, P w :=
  fun t ht => h.writes_of (hp t.job t.oracle) t ht rfl rfl

/-- What single writes of this kind keep, the database keeps. -/
theorem Run.keeps {P : Write → Prop} {I : Db → Prop}
    (hp : ∀ r o, (S.handle r).Within S.toEngine o (Assertion.each P))
    (hkeep : ∀ d w, P w → I d → I (S.apply d w)) (h₀ : I d₀) (h : Run S G (System.initial d₀) s) : I s.db := by
  have hview : ∀ ws : List Write, (∀ w ∈ ws, P w) → ∀ d, I d → I (S.view d ws) := by
    intro ws
    induction ws with
    | nil => exact fun _ d hd => hd
    | cons w ws ih =>
      intro hws d hd
      exact ih (fun x hx => hws x (List.mem_cons_of_mem _ hx)) _ (hkeep d w (hws w (List.mem_cons_self ..)) hd)
  induction h with
  | refl => exact h₀
  | tail l hrun hstep _ ih =>
    rcases (System.step_cases hstep).db with he | ⟨i, t, a, -, ht, -, rfl⟩
    · rw [he]
      exact ih
    · exact hview _ (Run.writes hp hrun t (List.mem_of_getElem? ht)) _ ih

/-- What programs say of their writes as long as databases are good holds of the writes of all sessions, if writes of
which it holds leave a good database good. -/
theorem Run.traces {good : Db → Prop} {Q : List Write → Prop} (hnil : Q [])
    (hp : ∀ r o, (S.handle r).sends S.toEngine o (fun t w => (∀ d ∈ t.seen, good d) → Q (t.writes ++ [w])) Txn.fresh)
    (hkeep : ∀ d ws, good d → Q ws → good (S.view d ws)) (h₀ : good d₀) (h : Run S G (System.initial d₀) s) :
    good s.db ∧ ∀ t ∈ s.sessions, (∀ d ∈ t.txn.seen, good d) ∧ Q t.txn.writes := by
  induction h with
  | refl => exact ⟨h₀, fun t ht => by simp [System.initial] at ht⟩
  | @tail s s' l hrun hstep _ ih =>
    obtain ⟨hdb, hsessions⟩ := ih
    constructor
    · rcases (System.step_cases hstep).db with he | ⟨i, t, a, -, ht, -, he⟩
      · rw [he]
        exact hdb
      · rw [he]
        exact hkeep _ _ hdb (hsessions t (List.mem_of_getElem? ht)).2
    · intro u hu
      obtain ⟨j, hj⟩ := List.getElem?_of_mem hu
      rcases (System.step_cases hstep).session hj with hj | ⟨r, o, rfl, -⟩ | ⟨t, ht, -, hm⟩ | ⟨t, p, ht, -, rfl⟩
      · exact hsessions u (List.mem_of_getElem? hj)
      · exact ⟨fun d hd => absurd hd List.not_mem_nil, hnil⟩
      · have hmem := List.mem_of_getElem? ht
        exact (Run.sends (hp t.job t.oracle) hrun t hmem rfl rfl).traces hm hdb hnil (hsessions t hmem)
      · exact ⟨(hsessions t (List.mem_of_getElem? ht)).1, hnil⟩

end Runs

end ReadCommitted
