import GenPay.Invariant
import GenPay.ReadCommitted.Serial

/-!
# Runs of the service

Runs start from a freshly seeded database.  `committed_action` says what a committed session has done.  The last
section has an environment and requests with which runs can be executed.
-/

namespace GenPay

open ReadCommitted

/-- The service's sessions and systems. -/
abbrev AppSession := Session Db Write Exc Choice Job Response

abbrev AppSystem := System Db Write Exc Choice Job Response

/-- What `create_all` and `seed` leave on an empty database. -/
def Seeded (env : Env) (d : Db) : Prop := ∃ o, d = ((genPay env).serve .seed o Db.empty).2

section

variable {env : Env} {G : AppSession → Db → Prop} {d₀ : Db} {s : AppSystem}

theorem Seeded.sound (h : Seeded env d₀) : d₀.Sound := by
  obtain ⟨o, rfl⟩ := h
  exact (Discipline.serve (D := ledger env fun _ _ => True) (fun _ _ => True.intro) Db.sound_empty .seed o).1

/-- Seeding posts nothing. -/
theorem Seeded.no_ledger (h : Seeded env d₀) : d₀.authorizations = [] ∧ d₀.settlements = [] ∧
    d₀.transactions = [] ∧ d₀.idempotencyKeys = [] ∧ d₀.events = [] := by
  obtain ⟨o, rfl⟩ := h
  rcases hs : (genPay env).serve .seed o Db.empty with ⟨e | a, d⟩
  · rw [Service.serve_error hs]
    exact ⟨rfl, rfl, rfl, rfl, rfl⟩
  · obtain ⟨t, hat, -, rfl⟩ := Discipline.serve_ok (D := ledger env fun _ _ => True) (fun _ _ => True.intro)
      Db.sound_empty hs
    obtain ⟨act, hw, -, hans⟩ := hat.post
    change Answers env a act t.seen .seed at hans
    change t.writes = act.writes at hw
    rw [hw]
    cases act with
    | quiet => exact ⟨rfl, rfl, rfl, rfl, rfl⟩
    | seeded => exact ⟨rfl, rfl, rfl, rfl, rfl⟩
    | _ => exact hans.elim

theorem run_sound (h₀ : d₀.Sound) (h : Run (genPay env) G (System.initial d₀) s) : s.db.Sound :=
  (Discipline.inv_run (D := ledger env G) h₀ h).db

/-- What a committed session has published, and what it had seen. -/
theorem committed_action (h₀ : d₀.Sound) (h : Run (genPay env) G (System.initial d₀) s) {t : AppSession} {a : Response}
    (ht : t ∈ s.sessions) (ha : t.phase = .committed a) : Committed env t.job a t.txn :=
  ((Discipline.inv_run (D := ledger env G) h₀ h).keeps t ht).committed ha

theorem published_of_committed {t : AppSession} {a : Response} (ha : t.phase = .committed a) :
    t.published = t.txn.writes := by simp [Session.published, ha]

theorem published_of_not_committed {t : AppSession} (hn : ∀ a, t.phase ≠ .committed a) : t.published = [] := by
  unfold Session.published
  split
  · rename_i a ha
    exact absurd ha (hn a)
  · rfl

/-- What a session has published is nothing, or the writes of the action it has committed. -/
theorem published_action (h₀ : d₀.Sound) (h : Run (genPay env) G (System.initial d₀) s) {t : AppSession}
    (ht : t ∈ s.sessions) {w : Write} (hw : w ∈ t.published) :
    ∃ a act, t.phase = .committed a ∧ t.published = Action.writes act ∧ act.Grounded env t.txn.seen ∧
      Answers env a act t.txn.seen t.job := by
  cases hp : t.phase with
  | running p => simp [Session.published, hp] at hw
  | failed e => simp [Session.published, hp] at hw
  | committed a =>
    obtain ⟨act, hwrites, hgr, hans⟩ := committed_action h₀ h ht hp
    exact ⟨a, act, rfl, (published_of_committed hp).trans hwrites, hgr, hans⟩

/-- A session publishes no unique value twice. -/
theorem published_nodup (h₀ : d₀.Sound) (h : Run (genPay env) G (System.initial d₀) s) {t : AppSession}
    (ht : t ∈ s.sessions) : ((uniqueKeys env.foreignKeys).all t.published).Nodup := by
  cases hp : t.phase with
  | running p => simp [Session.published, hp]
  | failed e => simp [Session.published, hp]
  | committed a =>
    rw [published_of_committed hp]
    exact Discipline.facts (D := ledger env G) (fun t _ => ((uniqueKeys env.foreignKeys).all t.txn.writes).Nodup)
      (fun t a d hat => hat.free.nodup) (fun _ _ _ _ _ hn _ _ => hn) h₀ h t ht a hp

/-- The action of a transaction that is about to commit. -/
theorem Committed.commits {job : Job} {a : Response} {t : Txn Db Write} {d : Db} (h : Committed env job a t)
    (hd : d.Sound) (hseen : ∀ d' ∈ t.seen, d'.Sound ∧ d'.Extends d) (hord : t.seen.Pairwise Db.Extends)
    (hfree : (uniqueKeys env.foreignKeys).Free d t.writes) :
    ∃ act : Action, t.writes = act.writes ∧ act.Commits env t.seen d ∧ Answers env a act t.seen job := by
  obtain ⟨act, hw, hgr, hans⟩ := h
  exact ⟨act, hw, ⟨hgr, hd, hseen, hord, hw ▸ hfree⟩, hans⟩

theorem commits_of_atCommit {t : AppSession} {a : Response} {d : Db} (h : (ledger env G).AtCommit t a d) :
    ∃ act : Action, t.txn.writes = act.writes ∧ act.Commits env t.txn.seen d ∧ Answers env a act t.txn.seen t.job :=
  Committed.commits h.post h.inv h.seen h.ordered h.free

/-- A job that is answered alone has committed an action on the database it has seen. -/
theorem serve_commits {d d' : Db} (hd : d.Sound) {job : Job} {o : Nat → Choice} {a : Response}
    (h : (genPay env).serve job o d = (.ok a, d')) : ∃ (act : Action) (ds : List Db), act.Commits env ds d ∧
      Answers env a act ds job ∧ (∀ x ∈ ds, x = d) ∧ d' = Action.Commits.after env d act := by
  obtain ⟨t, hat, hseen, rfl⟩ := Discipline.serve_ok (D := ledger env fun _ _ => True) (fun _ _ => True.intro) hd h
  obtain ⟨act, hw, hc, hans⟩ := commits_of_atCommit hat
  change t.writes = act.writes at hw
  exact ⟨act, _, hc, hans, hseen, by rw [hw]; rfl⟩

theorem serve_sound {d : Db} (hd : d.Sound) (job : Job) (o : Nat → Choice) : ((genPay env).serve job o d).2.Sound :=
  (Discipline.serve (D := ledger env fun _ _ => True) (fun _ _ => True.intro) hd job o).1

theorem serve_extends {d : Db} (hd : d.Sound) (job : Job) (o : Nat → Choice) :
    d.Extends ((genPay env).serve job o d).2 :=
  (Discipline.serve (D := ledger env fun _ _ => True) (fun _ _ => True.intro) hd job o).2

theorem serveAll_sound {d : Db} (hd : d.Sound) (rs : List (Job × (Nat → Choice))) : ((genPay env).serveAll d rs).Sound := by
  induction rs generalizing d with
  | nil => exact hd
  | cons r rs ih => exact ih (serve_sound hd r.1 r.2)

theorem serveAll_extends {d : Db} (hd : d.Sound) (rs : List (Job × (Nat → Choice))) :
    d.Extends ((genPay env).serveAll d rs) := by
  induction rs generalizing d with
  | nil => exact Db.Extends.refl d
  | cons r rs ih => exact (serve_extends hd r.1 r.2).trans (ih (serve_sound hd r.1 r.2))

/-- The commit of a session that has returned. -/
theorem commits_of_returned (h₀ : d₀.Sound) (h : Run (genPay env) G (System.initial d₀) s) {i : Nat} {t : AppSession}
    {a : Response} (ht : s.sessions[i]? = some t) (hp : t.phase = .running (.ret a)) (hG : G t s.db) {s' : AppSystem}
    (hs : s.step (genPay env) (.exec i) = some s') :
    ∃ act : Action, act.Commits env t.txn.seen s.db ∧ Answers env a act t.txn.seen t.job ∧
      s'.db = Action.Commits.after env s.db act := by
  have hat := (Discipline.inv_run (D := ledger env G) h₀ h).atCommit (Keys.inv_run h) (List.mem_of_getElem? ht) hp hG
  obtain ⟨act, hw, hc, hans⟩ := commits_of_atCommit hat
  rw [System.step_commit ht hp] at hs
  cases hs
  exact ⟨act, hc, hans, by rw [hw]; rfl⟩

/-- A step that changes the committed database is the commit of an action. -/
theorem step_commits (h₀ : d₀.Sound) (h : Run (genPay env) G (System.initial d₀) s) {l : Label Choice Job}
    {s' : AppSystem} (hs : s.step (genPay env) l = some s') (hG : ∀ t, s.committing l = some t → G t s.db) :
    s'.db = s.db ∨ ∃ (i : Nat) (t : AppSession) (a : Response) (act : Action), l = .exec i ∧
      s.sessions[i]? = some t ∧ t.phase = .running (.ret a) ∧ act.Commits env t.txn.seen s.db ∧
      Answers env a act t.txn.seen t.job ∧ s'.db = Action.Commits.after env s.db act := by
  rcases (System.step_cases hs).db with he | ⟨i, t, a, rfl, ht, hp, rfl⟩
  · exact Or.inl he
  · have hat := (Discipline.inv_run (D := ledger env G) h₀ h).atCommit (Keys.inv_run h)
      (List.mem_of_getElem? ht) hp (hG t (System.committing_exec ht hp))
    obtain ⟨act, hw, hc, hans⟩ := commits_of_atCommit hat
    exact Or.inr ⟨i, t, a, act, rfl, ht, hp, hc, hans, by rw [hw]; rfl⟩

/-- The response of a session that has committed. -/
def answer (t : AppSession) : Option Response :=
  match t.phase with
  | .committed a => some a
  | _ => none

theorem answer_eq_some {t : AppSession} {a : Response} : answer t = some a ↔ t.phase = .committed a := by
  unfold answer
  split
  · rename_i b hb
    simp [hb]
  · rename_i hn
    simpa using hn a

/-- A test finds a session that has committed. -/
theorem exists_committed {p : AppSession → Response → Bool}
    (h : (s.sessions.any fun t => (answer t).any (p t)) = true) :
    ∃ t ∈ s.sessions, ∃ a, t.phase = .committed a ∧ p t a = true := by
  obtain ⟨t, ht, hp⟩ := List.any_eq_true.1 h
  obtain ⟨a, ha, hpa⟩ := (Option.any_eq_true _ _).1 hp
  exact ⟨t, ht, a, answer_eq_some.1 ha, hpa⟩

/-- A test finds a session that is about to commit. -/
theorem returned_at {i : Nat} {p : AppSession → Response → Bool}
    (h : ((s.sessions[i]?).any fun t => t.commits.any (p t)) = true) :
    ∃ t a, s.sessions[i]? = some t ∧ t.phase = .running (.ret a) ∧ p t a = true := by
  obtain ⟨t, ht, hp⟩ := (Option.any_eq_true _ _).1 h
  obtain ⟨a, ha, hpa⟩ := (Option.any_eq_true _ _).1 hp
  unfold Session.commits at ha
  split at ha
  · rename_i b hb
    cases ha
    exact ⟨t, a, ht, hb, hpa⟩
  · cases ha

theorem committed_at {i : Nat} {p : AppSession → Response → Bool}
    (h : ((s.sessions[i]?).any fun t => (answer t).any (p t)) = true) :
    ∃ t a, s.sessions[i]? = some t ∧ t.phase = .committed a ∧ p t a = true := by
  obtain ⟨t, ht, hp⟩ := (Option.any_eq_true _ _).1 h
  obtain ⟨a, ha, hpa⟩ := (Option.any_eq_true _ _).1 hp
  exact ⟨t, a, ht, answer_eq_some.1 ha, hpa⟩

end

/-! ### Which requests act -/

/-- The event that an action claims. -/
def Action.event? : Action → Option ProcessedWebhookEvent
  | .created e _ => some e
  | .decided e .. => some e
  | .batch e _ => some e
  | _ => none

theorem AnswersEvent.event {env : Env} {envelope : ProcessorEventEnvelope} {act : Action}
    (h : AnswersEvent env envelope act) : act.event? = some envelope.event := by
  unfold AnswersEvent at h
  split at h
  · obtain ⟨data, x, -, -, rfl⟩ := h; rfl
  · obtain ⟨data, x, -, -, rfl⟩ := h; rfl
  · obtain ⟨data, x, -, -, rfl⟩ := h; rfl
  · obtain ⟨data, ps, -, -, rfl⟩ := h; rfl

/-- Which jobs act how, and what a request that acts has shown before. -/
inductive Acts (env : Env) (a : Response) (ds : List Db) : Job → Action → Prop
  | quiet {job} : Acts env a ds job .quiet
  | seeded {a₁ a₂ a₃ a₄ a₅ a₆ a₇ a₈ a₉ a₁₀} : Acts env a ds .seed (.seeded a₁ a₂ a₃ a₄ a₅ a₆ a₇ a₈ a₉ a₁₀)
  | entity {r act} (hkey : ∃ d ∈ ds, KeyAccepted env r d) (hact : act.isEntity = true) :
      Acts env a ds (.request r) act
  | purchase {r data k p} (hr : r.route = .purchase data (some k)) (hkey : ∃ d ∈ ds, KeyAccepted env r d)
      (ha : a = .purchase p.result) : Acts env a ds (.request r) (.purchase (some k) p)
  | refund {r data x xs ys} (hr : r.route = .refundPurchase x.authorizationId data)
      (hkey : ∃ d ∈ ds, KeyAccepted env r d) : Acts env a ds (.request r) (.refund x xs ys)
  | card {r p} (hr : r.route = .cardAuthorization) (ha : a = .purchase p.result) :
      Acts env a ds (.request r) (.purchase none p)
  | event {r act envelope result} (hr : r.route = .processorEvents)
      (hsig : Verifies env env.settings.webhookSigningSecret r.clock r.xGenPaySignature r.rawBody)
      (hparse : env.parseEnvelope r.rawBody = .ok envelope) (ha : a = .processed envelope.eventId result)
      (hact : AnswersEvent env envelope act) : Acts env a ds (.request r) act

theorem Answers.acts {env : Env} {job : Job} {a : Response} {act : Action} {ds : List Db}
    (h : Answers env a act ds job) : Acts env a ds job act := by
  cases job with
  | seed =>
    cases act with
    | quiet => exact Acts.quiet
    | seeded => exact Acts.seeded
    | _ => exact h.elim
  | reconcileScript =>
    obtain ⟨rfl, -⟩ := h
    exact Acts.quiet
  | request r =>
    change AnswersRequest env r a act ds at h
    unfold AnswersRequest at h
    split at h
    case h_4 data key hr =>
      obtain ⟨hkey, k, result, rfl, rfl, ⟨rfl, -⟩ | ⟨p, rfl, rfl⟩⟩ := h
      · exact Acts.quiet
      · exact Acts.purchase hr hkey rfl
    case h_5 aid data hr =>
      obtain ⟨hkey, x, xs, ys, rfl, rfl⟩ := h
      exact Acts.refund hr hkey
    case h_6 hr =>
      obtain ⟨p, rfl, rfl⟩ := h
      exact Acts.card hr rfl
    case h_7 hr =>
      obtain ⟨hsig, envelope, hparse, ⟨rfl, -⟩ | ⟨⟨result, rfl⟩, hact⟩⟩ := h
      · exact Acts.quiet
      · exact Acts.event hr hsig hparse rfl hact
    case h_8 hr =>
      obtain ⟨rfl, -⟩ := h
      exact Acts.quiet
    case h_9 =>
      subst h
      exact Acts.quiet
    all_goals exact Acts.entity h.1 h.2

/-- A delivery that writes anything has handled its event. -/
theorem Answers.event {env : Env} {r : Request} {a : Response} {act : Action} {ds : List Db}
    (h : Answers env a act ds (.request r)) (hr : r.route = .processorEvents) {envelope : ProcessorEventEnvelope}
    (hparse : env.parseEnvelope r.rawBody = .ok envelope) (hne : act.writes ≠ []) :
    AnswersEvent env envelope act ∧ ∃ result, a = .processed envelope.eventId result := by
  simp only [Answers, AnswersRequest, hr] at h
  obtain ⟨-, envelope', hparse', ⟨rfl, -⟩ | ⟨ha, hact⟩⟩ := h
  · exact absurd rfl hne
  · rw [hparse] at hparse'
    cases hparse'
    exact ⟨hact, ha⟩

/-- A refund is asked for by a request with an accepted key that names its authorization. -/
theorem Answers.refund {env : Env} {job : Job} {a : Response} {ds : List Db} {x : Settlement}
    {xs ys : List Transaction} (h : Answers env a (.refund x xs ys) ds job) :
    ∃ r data, job = .request r ∧ r.route = .refundPurchase x.authorizationId data ∧
      ∃ d ∈ ds, KeyAccepted env r d := by
  cases h.acts with
  | entity _ hact => cases hact
  | refund hr hkey => exact ⟨_, _, rfl, hr, hkey⟩
  | event _ _ _ _ hact => cases hact.event

/-- Users, archives and records are inserted by requests with an accepted key. -/
theorem Acts.of_isEntity {env : Env} {job : Job} {a : Response} {act : Action} {ds : List Db}
    (h : Acts env a ds job act) (hact : act.isEntity = true) : ∃ r, ∃ d ∈ ds, KeyAccepted env r d := by
  cases h with
  | entity hkey _ => exact ⟨_, hkey⟩
  | event _ _ _ _ hans =>
    have := hans.event
    cases act <;> cases hact <;> cases this
  | _ => cases hact

/-! ### An environment to run in -/

namespace Sample

/-- The id that statement `n` of a session draws, `a` telling sessions apart. -/
def uuid (a n : Nat) : String := toString (10000000 + 1000 * a + n) ++ "-0000-4000-8000-000000000000"

theorem uuid_inj {a b m n : Nat} (h : uuid a m = uuid b n) : 1000 * a + m = 1000 * b + n := by
  have htext := congrArg String.toList h
  simp only [uuid, String.toList_append, List.append_cancel_right_eq] at htext
  have hdigits := congrArg (fun ds => Nat.ofDigitChars 10 ds 0) htext
  simp only [Nat.toString_eq_repr, Nat.toList_repr, Nat.ofDigitChars_ten_toDigits] at hdigits
  omega

def oracle (a n : Nat) : Choice := ⟨uuid a n, 1000 * a + n, fun m => Equiv.refl (Fin m)⟩

/-- Events of one authorization: it is created, approved, declined, and settled in either of two batches. -/
inductive Event
  | created | approved | declined | settled | settledAgain
  deriving DecidableEq

namespace Event

def all : List Event := [created, approved, declined, settled, settledAgain]

def number : Event → Nat
  | created => 0
  | approved => 1
  | declined => 2
  | settled => 3
  | settledAgain => 4

def body : Event → String
  | .created =>
    "\x7b\"event_id\": \"evt_1\", \"event_type\": \"authorization.created\", \"occurred_at\": " ++
      "\"2026-01-01T00:00:00Z\", \"data\": \x7b\"authorization_id\": \"auth_1\", \"merchant_reference\": " ++
      "\x7b\"research_record_id\": \"10000020-0000-4000-8000-000000000000\", \"user_id\": " ++
      "\"10000016-0000-4000-8000-000000000000\"\x7d, \"amount_cents\": 599, \"currency\": \"USD\", " ++
      "\"card_last4\": \"4242\", \"card_network\": \"visa\"\x7d\x7d"
  | .approved =>
    "\x7b\"event_id\": \"evt_2\", \"event_type\": \"authorization.approved\", \"occurred_at\": " ++
      "\"2026-01-01T00:00:00Z\", \"data\": \x7b\"authorization_id\": \"auth_1\", \"hold_expires_at\": " ++
      "\"2026-01-08T00:00:00Z\"\x7d\x7d"
  | .declined =>
    "\x7b\"event_id\": \"evt_3\", \"event_type\": \"authorization.declined\", \"occurred_at\": " ++
      "\"2026-01-01T00:00:00Z\", \"data\": \x7b\"authorization_id\": \"auth_1\", \"decline_reason\": " ++
      "\"insufficient_funds\"\x7d\x7d"
  | .settled =>
    "\x7b\"event_id\": \"evt_4\", \"event_type\": \"settlement.completed\", \"occurred_at\": " ++
      "\"2026-01-01T00:00:00Z\", \"data\": \x7b\"settlement_batch_id\": \"batch_1\", \"authorization_ids\": " ++
      "[\"auth_1\"], \"total_amount_cents\": 599\x7d\x7d"
  | .settledAgain =>
    "\x7b\"event_id\": \"evt_5\", \"event_type\": \"settlement.completed\", \"occurred_at\": " ++
      "\"2026-01-01T00:00:00Z\", \"data\": \x7b\"settlement_batch_id\": \"batch_2\", \"authorization_ids\": " ++
      "[\"auth_1\"], \"total_amount_cents\": 599\x7d\x7d"

/-- The HMAC of `"1767225600." ++ body` under the default secret. -/
def digest : Event → String
  | .created => "7f74a1245a59facea3823868fe8b59c7fbf479d1e2f27b6dd6534ec235ce8c6e"
  | .approved => "694e51aee0bbcf45cc098462e760451d1fc311ed2780672811ad64b457b791be"
  | .declined => "6b0106e4f5ffe78cbc3fa62858d5e3a292ff2a1f0de4fa7f78a18433d3fafb70"
  | .settled => "182f2a6d5789711a139c9c0053d62341ed04f6eed453849d5b09fc5b232e0178"
  | .settledAgain => "3f4d6df5e548e4ce6eb87bbf97e556a6bfbe2b33acbadaf069d07b819a9783e4"

/-- What the body is the text of. -/
def envelope : Event → ProcessorEventEnvelope
  | .created => ⟨"evt_1", .authorizationCreated, [("authorization_id", .str "auth_1"),
      ("merchant_reference", .obj [("research_record_id", uuid 0 20), ("user_id", uuid 0 16)]),
      ("amount_cents", .int 599), ("currency", .str "USD"), ("card_last4", .str "4242"),
      ("card_network", .str "visa")]⟩
  | .approved => ⟨"evt_2", .authorizationApproved,
      [("authorization_id", .str "auth_1"), ("hold_expires_at", .str "2026-01-08T00:00:00Z")]⟩
  | .declined => ⟨"evt_3", .authorizationDeclined,
      [("authorization_id", .str "auth_1"), ("decline_reason", .str "insufficient_funds")]⟩
  | .settled => ⟨"evt_4", .settlementCompleted, [("settlement_batch_id", .str "batch_1"),
      ("authorization_ids", .strs ["auth_1"]), ("total_amount_cents", .int 599)]⟩
  | .settledAgain => ⟨"evt_5", .settlementCompleted, [("settlement_batch_id", .str "batch_2"),
      ("authorization_ids", .strs ["auth_1"]), ("total_amount_cents", .int 599)]⟩

def header (e : Event) : String := "t=1767225600,v1=" ++ e.digest

end Event

def cardBody : String :=
  "\x7b\"event_type\": \"card_authorization\", \"amount\": \"5.99\", \"record_id\": \"CENSUS-1880-004\"\x7d"

/-- The default settings; digests and schemas are given on the keys and bodies that occur here. -/
def env : Env where
  settings := ⟨"change-me", "change-me", 7000, 2000, 1000⟩
  foreignKeys := true
  sha256 key :=
    if key = "change-me" then "e2186dbdb1bb4193608605e84f33208765b5693b55edd4f730a719a100eeea6f"
    else if key = uuid 0 3 then "bef72dbd766495d736d4e895d932a9b5e9aef2329f647ff74cf13a834344125b"
    else ""
  hmacSha256 key message :=
    match Event.all.find? fun e => message = "1767225600." ++ e.body with
    | some e => if key = "change-me" then e.digest else ""
    | none => ""
  parseCardAuthorization body :=
    if String.fromUTF8? body = some cardBody then .ok ⟨"card_authorization", ⟨599, -2⟩, "CENSUS-1880-004", none⟩
    else .error "Invalid JSON"
  parseEnvelope body :=
    match Event.all.find? fun e => String.fromUTF8? body = some e.body with
    | some e => .ok e.envelope
    | none => .error "Invalid JSON"
  validateCreated data :=
    match data with
    | [(_, .str reference), (_, .obj [(_, recordId), (_, userId)]), (_, .int amount), (_, .str currency),
        (_, .str last4), (_, .str network)] =>
      .ok ⟨reference, ⟨recordId, userId⟩, amount, currency, last4, network⟩
    | _ => .error "Field required"
  validateApproved data :=
    match data with
    | [(_, .str reference), (_, .str _)] => .ok ⟨reference⟩
    | _ => .error "Field required"
  validateDeclined data :=
    match data with
    | [(_, .str reference), (_, .str reason)] => .ok ⟨reference, reason⟩
    | _ => .error "Field required"
  validateSettlement data :=
    match data with
    | [(_, .str batchId), (_, .strs references), (_, .int total)] => .ok ⟨batchId, references, total⟩
    | _ => .error "Field required"

/-- The database after `seed`: record, researcher and accounts have the ids that statements 20, 16 and so on draw. -/
def seeded : Db := ((genPay env).serve .seed (oracle 0) Db.empty).2

theorem seeded_env : Seeded env seeded := ⟨oracle 0, rfl⟩

/-- What sessions are started for: the researcher buys the record under a key, the purchase of session 0 is
refunded, a reconciliation, a card authorization, the delivery of an event. -/
inductive Case
  | buys (key : String)
  | refunds
  | reconciles
  | card
  | delivers (e : Event)

def keyed (route : Route) : Request := ⟨route, some "change-me", none, ByteArray.empty, 1767225600⟩

/-- A delivery arrives as many seconds after it was signed as its number says. -/
def delivery (e : Event) : Request :=
  ⟨.processorEvents, none, some e.header, e.body.toUTF8, 1767225600 + e.number⟩

def Case.job : Case → Job
  | buys key => .request (keyed (.purchase (some ⟨uuid 0 20, uuid 0 16⟩) (some key)))
  | refunds => .request (keyed (.refundPurchase (uuid 1 6) (some none)))
  | reconciles => .reconcileScript
  | card => .request ⟨.cardAuthorization, none, none, cardBody.toUTF8, 1767225600⟩
  | delivers e => .request (delivery e)

/-! ### Running it

The programs of deliveries are evaluated with their signature already verified and their body parsed. -/

def handleVerified (job : Job) : Tx Response :=
  match job with
  | .request r =>
    match r.route, Event.all[(r.clock.num - 1767225600).toNat]? with
    | .processorEvents, some e => processEnvelope env e.envelope
    | _, _ => route env r
  | job => handle env job

theorem body_ne {e e' : Event} (h : e'.number < e.number) : e.body ≠ e'.body := by
  cases e <;> cases e' <;> first | exact absurd h (by decide) | decide +kernel

theorem find_event {p : Event → Bool} {e : Event} (hp : p e = true)
    (hne : ∀ e', e'.number < e.number → p e' = false) : Event.all.find? p = some e := by
  have hbefore : ∀ e' ∈ Event.all.take e.number, e'.number < e.number := by
    cases e <;> simp [Event.all, Event.number]
  refine List.find?_eq_some_iff_append.2
    ⟨hp, Event.all.take e.number, Event.all.drop (e.number + 1), by cases e <;> rfl, fun e' he' => ?_⟩
  simp [hne e' (hbefore e' he')]

theorem parse_body (e : Event) : env.parseEnvelope e.body.toUTF8 = .ok e.envelope := by
  have htext : String.fromUTF8? e.body.toUTF8 = some e.body := dif_pos e.body.isValidUTF8
  have hfind : Event.all.find? (fun e' => decide (String.fromUTF8? e.body.toUTF8 = some e'.body)) = some e := by
    refine find_event (decide_eq_true htext) fun e' h => decide_eq_false ?_
    rw [htext]
    exact fun he => body_ne h (Option.some.inj he)
  simp only [env, hfind]

theorem signed_text (text : String) : s!"{(1767225600 : Int)}.{text}" = "1767225600." ++ text := by
  have hprefix : toString (1767225600 : Int) ++ "." = "1767225600." := by decide +kernel
  rw [← hprefix]
  rfl

theorem digest_body (e : Event) : payloadDigest env "change-me" e.body 1767225600 = e.digest := by
  have hfind : Event.all.find? (fun e' => decide ("1767225600." ++ e.body = "1767225600." ++ e'.body)) = some e :=
    find_event (decide_eq_true rfl) fun e' h => decide_eq_false fun he => body_ne h (by simpa using he)
  unfold payloadDigest
  rw [signed_text]
  simp only [env, hfind, ↓reduceIte]

theorem header_parsed (e : Event) : parseHeader e.header = some (1767225600, e.digest) := by
  cases e <;> decide +kernel

theorem digest_ascii (e : Event) : (e.digest.toList.any fun c => 128 ≤ c.toNat) = false := by
  cases e <;> decide +kernel

theorem verified (e : Event) : verify env "change-me" (delivery e).clock (some e.header) e.body.toUTF8 =
    .ok e.body.toUTF8 := by
  refine verify_of_parse 1767225600 ?_ ?_ (by decide +kernel) ?_ ?_
  · cases e <;> decide +kernel
  · rw [digest_body]; exact header_parsed e
  · cases e <;> decide +kernel
  · rw [digest_body]; exact digest_ascii e

theorem handleVerified_job (c : Case) : handleVerified c.job = handle env c.job := by
  cases c with
  | delivers e =>
    have hnumber : Event.all[((delivery e).clock.num - 1767225600).toNat]? = some e := by
      cases e <;> decide +kernel
    have hroute := route_processorEvents (r := delivery e) rfl (verified e) (parse_body e)
    refine Eq.trans ?_ hroute.symm
    simp only [handleVerified, Case.job, hnumber]
    rfl
  | _ => rfl

/-- A part of a schedule: session `a`, the `a`th one started, begins with its case, takes `n` steps, or is ended
by the engine. -/
inductive Move
  | start (a : Nat) (c : Case)
  | steps (a n : Nat)
  | kill (a : Nat)

def Move.labels : Move → List (Label Choice Job)
  | .start a c => [.start c.job (oracle (a + 1))]
  | .steps a n => List.replicate n (.exec a)
  | .kill a => [.abort a]

/-- Where a schedule leads; its commits have to pass the test `g`. -/
def after (g : AppSession → Db → Bool) (ms : List Move) : AppSystem :=
  ((System.initial seeded).schedule (genPay env) g (ms.flatMap Move.labels)).getD (System.initial seeded)

theorem start_case {ms : List Move} {r : Job} {o : Nat → Choice} (h : Label.start r o ∈ ms.flatMap Move.labels) :
    ∃ c : Case, r = c.job := by
  obtain ⟨m, -, hm⟩ := List.mem_flatMap.1 h
  cases m with
  | start a c =>
    cases List.mem_singleton.1 hm
    exact ⟨c, rfl⟩
  | steps a n => cases List.eq_of_mem_replicate hm
  | kill a => cases List.mem_singleton.1 hm

theorem run_after {G : AppSession → Db → Prop} {g : AppSession → Db → Bool}
    (hg : ∀ (c : Case) t d, t.job = c.job → g t d = true → G t d) (ms : List Move) :
    Run (genPay env) G (System.initial seeded) (after g ms) :=
  run_schedule_getD (P := fun r => ∃ c : Case, r = c.job) (fun t d ⟨c, hc⟩ => hg c t d hc) (fun _ _ hr => start_case hr)
    (by simp [System.initial])

theorem reachable_after (ms : List Move) :
    Reachable (genPay env) seeded (after (fun _ _ => true) ms) := run_after (fun _ _ _ _ _ => True.intro) ms

/-- A schedule of cases runs the programs whose deliveries are verified. -/
theorem schedule_verified {S : Service Db Write Exc Choice Job Response} (hS : S.handle = handle env)
    (g : AppSession → Db → Bool) (ms : List Move) (s : AppSystem) : s.schedule S g (ms.flatMap Move.labels) =
      s.schedule { S with handle := handleVerified } g (ms.flatMap Move.labels) := by
  refine schedule_handle (fun r o hr => ?_) s
  obtain ⟨c, rfl⟩ := start_case hr
  rw [hS, handleVerified_job c]

theorem after_eq (g : AppSession → Db → Bool) (ms : List Move) : after g ms =
    ((System.initial seeded).schedule { genPay env with handle := handleVerified } g
      (ms.flatMap Move.labels)).getD (System.initial seeded) := by
  unfold after
  rw [schedule_verified rfl]

/-- Where a schedule leads whose labels are given one by one. -/
def scheduled (env : Env) (d : Db) (g : AppSession → Db → Bool) (ls : List (Label Choice Job)) : AppSystem :=
  ((System.initial d).schedule (genPay env) g ls).getD (System.initial d)

theorem run_scheduled {env : Env} {d : Db} {G : AppSession → Db → Prop} {g : AppSession → Db → Bool}
    (hg : ∀ t d, g t d = true → G t d) (ls : List (Label Choice Job)) :
    Run (genPay env) G (System.initial d) (scheduled env d g ls) :=
  run_schedule_getD (P := fun _ => True) (fun t d _ => hg t d) (fun _ _ _ => True.intro) fun _ _ => True.intro

/-- The sessions are those that the labels start. -/
theorem started_of_scheduled {env : Env} {d : Db} {g : AppSession → Db → Bool} {ls : List (Label Choice Job)}
    {t : AppSession} (ht : t ∈ (scheduled env d g ls).sessions) : .start t.job t.oracle ∈ ls := by
  unfold scheduled at ht
  cases hs : (System.initial d).schedule (genPay env) g ls with
  | none =>
    rw [hs] at ht
    simp [System.initial] at ht
  | some s =>
    rw [hs] at ht
    rcases started_of_schedule hs ht with ⟨u, hu, -⟩ | hmem
    · simp [System.initial] at hu
    · exact hmem

/-- The authorization is created by session 0 and approved by session 1. -/
def authorized : List Move :=
  [.start 0 (.delivers .created), .steps 0 8, .start 1 (.delivers .approved), .steps 1 4]

end Sample

end GenPay
