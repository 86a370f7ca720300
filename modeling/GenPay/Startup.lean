import GenPay.ReadCommitted.Past
import GenPay.Authentication
import GenPay.Seeding
import GenPay.Sending
import GenPay.Signing
import GenPay.Sufficiency

/-!
# Starting up

`main.py` does not start in production with a secret that is the default one, and seeds the database otherwise.  Only
seeding inserts clients, so that from an empty database the routes behind `require_api_key` answer who shows the
internal key or one that a seeding has drawn, once the seeding has published it (`key_issued`): nobody with the default
key (`default_refused`).  The shares are not checked at the start; where they are no split nothing is ever settled
(`misconfigured_unsold`).
-/

namespace GenPay

open ReadCommitted
open Prog (onOk wp_seq wp_imp)

/-! ### `main.py` -/

/-- The settings of `app/config.py` that the start-up reads too. -/
structure AppSettings extends Settings where
  env : String
  secretKey : String
  deriving DecidableEq, Repr

/-- `_DEFAULT_SECRETS` -/
def defaultSecrets (s : AppSettings) : List (String × String) :=
  [("secret_key", s.secretKey), ("webhook_signing_secret", s.webhookSigningSecret), ("internal_api_key", s.internalApiKey)]

/-- The names of the secrets that nobody has set. -/
def defaulted (s : AppSettings) : List String := ((defaultSecrets s).filter (·.2 == "change-me")).map (·.1)

/-- The text is that of the `RuntimeError`. -/
def checkSecretsAreNotDefaults (s : AppSettings) : Except String Unit :=
  if s.env = "production" then
    if defaulted s = [] then .ok ()
    else .error ("Refusing to start in production with default secret(s): " ++ ", ".intercalate (defaulted s) ++
      ". Set them via environment variables.")
  else .ok ()

/-- `lifespan` up to its `yield`: the check, and what runs in a session then. -/
def lifespan (s : AppSettings) : Except String Job := do
  checkSecretsAreNotDefaults s
  return .seed

theorem secrets_of_lifespan {s : AppSettings} {job : Job} (h : lifespan s = .ok job) (hprod : s.env = "production") :
    ∀ secret ∈ defaultSecrets s, secret.2 ≠ "change-me" := by
  intro secret hmem he
  have hnone : defaulted s = [] := by
    by_contra hne
    simp only [lifespan, checkSecretsAreNotDefaults, if_pos hprod, if_neg hne] at h
    cases h
  have hdefaulted : secret.1 ∈ defaulted s := List.mem_map_of_mem (List.mem_filter.2 ⟨hmem, by simp [he]⟩)
  rw [hnone] at hdefaulted
  cases hdefaulted

example : defaulted ⟨⟨"change-me", "key", 7000, 2000, 1000⟩, "production", "change-me"⟩ =
    ["secret_key", "webhook_signing_secret"] := by decide

/-! ### Who has a key -/

/-- The routes behind `Depends(require_api_key)`. -/
def Route.isGated : Route → Bool
  | .listArchives .. | .getArchive _ | .listRecords .. | .getRecord _ | .cardAuthorization | .processorEvents | .health => false
  | _ => true

section Programs

variable {env : Env} {fk : Bool} {o : Nat → Choice} {r : Request}

def unauthorized : Exc := httpError 401 "Invalid or missing X-API-Key"

theorem requireApiKey_gates {t : Txn Db Write} (h : t.writes = []) : (requireApiKey env r.xApiKey).wp (engine fk) o
    (Prog.onEnd (fun _ t' => t'.writes = [] ∧ ∃ d ∈ t'.seen, KeyAccepted env r d) fun e _ => e = unauthorized) t := by
  unfold requireApiKey
  cases hkey : r.xApiKey with
  | none => exact rfl
  | some key =>
    have hread : (ApiClientRepository.getByKey env key).wp (engine fk) o (Prog.onEnd (fun c t' => ∃ d, t' = t.saw d ∧
        ∀ x, c = some x → x ∈ d.clients ∧ x.apiKeyHash = env.sha256 key) fun e _ => e = unauthorized) t := by
      intro d
      refine ⟨d, rfl, fun x hx => ?_⟩
      rw [h, Engine.view_nil] at hx
      obtain ⟨hmem, hhash⟩ := List.mem_filter.1 (Choice.mem_arrange.1 (List.mem_of_mem_head? hx))
      exact ⟨hmem, by simpa [ApiClientRepository.hashKey] using hhash⟩
    refine Prog.wp_seq_end hread fun client t' hc => ?_
    obtain ⟨d, rfl, hc⟩ := hc
    cases client with
    | none => exact rfl
    | some client =>
      obtain ⟨hmem, hhash⟩ := hc client rfl
      show Prog.wp _ _ (if client.isActive = true then _ else _) _ _
      by_cases hactive : client.isActive = true
      · rw [if_pos hactive]
        exact ⟨h, d, by simp, key, hkey, client, hmem, hhash, hactive⟩
      · rw [if_neg hactive]
        exact rfl

/-- Whoever gets past the gate has shown the key of an active client; the others are told so. -/
theorem withApiKey_shown {β : Type} {p : ApiClient → Tx β} : (withApiKey env r p).wp (engine fk) o
    (fun e t' => (∃ d ∈ t'.seen, KeyAccepted env r d) ∨ e = .error unauthorized) Txn.fresh := by
  refine Prog.wp_bind (Prog.wp_mono (requireApiKey_gates rfl) fun e t' hend => ?_)
  cases e with
  | error e => exact Or.inr (congrArg _ hend)
  | ok client =>
    obtain ⟨-, d, hd, hkey⟩ := hend
    exact Prog.wp_mono (Prog.wp_seen (p client) t') fun _ t'' hseen => Or.inl ⟨d, hseen.subset hd, hkey⟩

theorem route_shown (hr : r.route.isGated = true) : (route env r).wp (engine fk) o
    (fun e t' => (∃ d ∈ t'.seen, KeyAccepted env r d) ∨ e = .error unauthorized) Txn.fresh := by
  unfold route
  cases hroute : r.route with
  | listArchives | getArchive | listRecords | getRecord | cardAuthorization | processorEvents | health =>
    rw [hroute] at hr
    cases hr
  | _ => exact withApiKey_shown

/-- The write inserts no client, or one with the internal key or with a drawn one. -/
def Write.Issues (env : Env) (o : Nat → Choice) : Write → Prop
  | .insertClient c => c.apiKeyHash = env.sha256 env.settings.internalApiKey ∨ ∃ n, c.apiKeyHash = env.sha256 (o n).uuid
  | _ => True

theorem seed_issues : (seed env).Within (engine fk) o (Assertion.each (Write.Issues env o)) := by
  have other : ∀ w : Write, w.client? = none → (Assertion.each (Write.Issues env o) : Assertion Db Write).Quiet w := by
    intro w hw
    refine Assertion.each_quiet.2 ?_
    cases w <;> first | exact True.intro | cases hw
  have account : ∀ type u a, (LedgerAccountRepository.createAccount type u a).Within (engine fk) o
      (Assertion.each (Write.Issues env o)) := fun _ _ _ => insert_within (w := .insertAccount) fun _ => other _ rfl
  have user : ∀ data, (createUser data).Within (engine fk) o (Assertion.each (Write.Issues env o)) := fun _ =>
    (insert_within (w := .insertUser) fun _ => other _ rfl).bind fun _ => (account _ _ _).bind fun _ => .ret _
  have archive : ∀ data, (createArchive data).Within (engine fk) o (Assertion.each (Write.Issues env o)) := fun _ =>
    (insert_within (w := .insertArchive) fun _ => other _ rfl).bind fun _ => (account _ _ _).bind fun _ => .ret _
  have client : ∀ name key, (∀ c : ApiClient, c.apiKeyHash = env.sha256 key → Write.Issues env o (.insertClient c)) →
      (ApiClientRepository.create env name key).Within (engine fk) o (Assertion.each (Write.Issues env o)) :=
    fun _ _ hkey => insert_within (w := .insertClient) fun _ => Assertion.each_quiet.2 (hkey _ rfl)
  unfold seed
  refine Prog.Within.query.bind fun platform => ?_
  cases platform with
  | some _ => exact .ret _
  | none =>
    refine Prog.Within.tryCatch ?_ fun e => ?_
    · unfold seedRows
      refine (client _ _ fun c hc => Or.inl hc).bind fun _ => ?_
      refine Prog.Within.query_bind fun n _ => ?_
      refine (client _ _ fun c hc => Or.inr ⟨n, hc⟩).bind fun _ => (account _ _ _).bind fun _ => ?_
      refine (archive _).bind fun a => (user _).bind fun u => (user _).bind fun _ => ?_
      exact (insert_within (w := .insertRecord) fun _ => other _ rfl).bind fun _ => .ret _
    · cases e <;> first | exact .raise _ | exact .rollback (.ret _)

end Programs

section Runs

variable {env : Env} {G : AppSession → Db → Prop} {d₀ : Db} {s : AppSystem} {t : AppSession} {a : Response} {r : Request}

/-- Clients are inserted by seeding only. -/
theorem Action.seeded_of_client {act : Action} {c : ApiClient} (hw : .insertClient c ∈ act.writes) :
    ∃ a₁ a₂ a₃ a₄ a₅ a₆ a₇ a₈ a₉ a₁₀, act = .seeded a₁ a₂ a₃ a₄ a₅ a₆ a₇ a₈ a₉ a₁₀ := by
  rcases Action.entity_cases hw rfl with hact | hact
  · cases act with
    | user | archive | record => simp [Action.writes] at hw
    | _ => cases hact
  · exact hact

theorem Answers.seed_of_seeded {ds : List Db} {job : Job} {a₁ a₂ a₃ a₄ a₅ a₆ a₇ a₈ a₉ a₁₀}
    (h : Answers env a (.seeded a₁ a₂ a₃ a₄ a₅ a₆ a₇ a₈ a₉ a₁₀) ds job) : job = .seed := by
  cases h.acts with
  | seeded => rfl
  | entity _ hact => cases hact
  | event _ _ _ _ hact => cases hact.event

theorem committed_of_run (h : Run (genPay env) G (System.initial d₀) s) (ht : t ∈ s.sessions) (ha : t.phase = .committed a) :
    Committed env t.job a t.txn := (Run.follows (handle_spec env t.job t.oracle) h t ht rfl rfl).committed ha

/-- A published client is that of a seeding. -/
theorem issued_of_published (h : Run (genPay env) G (System.initial d₀) s) (ht : t ∈ s.sessions) {c : ApiClient}
    (hw : .insertClient c ∈ t.published) : t.job = .seed ∧ Write.Issues env t.oracle (.insertClient c) := by
  obtain ⟨a, ha⟩ : ∃ a, t.phase = .committed a := by
    by_contra hno
    rw [published_of_not_committed fun a ha => hno ⟨a, ha⟩] at hw
    cases hw
  rw [published_of_committed ha] at hw
  obtain ⟨act, hwrites, -, hans⟩ := committed_of_run h ht ha
  obtain ⟨a₁, a₂, a₃, a₄, a₅, a₆, a₇, a₈, a₉, a₁₀, rfl⟩ := Action.seeded_of_client (hwrites ▸ hw)
  have hjob : t.job = .seed := hans.seed_of_seeded
  have hseed : (seed env).Within (engine env.foreignKeys) t.oracle (Assertion.each (Write.Issues env t.oracle)) := seed_issues
  exact ⟨hjob, h.writes_of hseed t ht hjob rfl _ hw⟩

/-- The clients of a database are those at first and those that seedings have published. -/
theorem client_source (h : Run (genPay env) G (System.initial d₀) s) {c : ApiClient} (hc : c ∈ s.db.clients) :
    c ∈ d₀.clients ∨ ∃ t ∈ s.sessions, .insertClient c ∈ t.published := by
  rcases Run.row_source (clientTable env.foreignKeys) (P := (· = c)) (Q := fun _ => False) (fun _ _ hc => Or.inl hc) h
    ⟨c, hc, rfl⟩ with ⟨c', hc', rfl⟩ | ⟨t, ht, w, hw, ⟨c', hins, rfl⟩ | hno⟩
  · exact Or.inl hc'
  · refine Or.inr ⟨t, ht, ?_⟩
    cases w with
    | insertClient c'' =>
      cases hins
      exact hw
    | _ => cases hins
  · exact hno.elim

/-- A seeding has published a client of this key, which is the internal key or one that the seeding has drawn. -/
def Issued (env : Env) (s : AppSystem) (key : String) : Prop :=
  ∃ t ∈ s.sessions, t.job = .seed ∧ (∃ c, .insertClient c ∈ t.published ∧ c.apiKeyHash = env.sha256 key) ∧
    (key = env.settings.internalApiKey ∨ ∃ n, key = (t.oracle n).uuid)

/-- A session of a route behind the gate that has ended has read a client whose key the request shows, or refused it,
unless the engine has ended it. -/
theorem gate_ends (h : Run (genPay env) G (System.initial d₀) s) (ht : t ∈ s.sessions) (hjob : t.job = .request r)
    (hr : r.route.isGated = true) : t.EndsAs (genPay env)
      fun e t' => (∃ d ∈ t'.seen, KeyAccepted env r d) ∨ e = .error unauthorized := by
  refine Run.ends_as ?_ h t ht rfl rfl
  rw [hjob]
  exact route_shown hr

theorem shown_of_committed (h : Run (genPay env) G (System.initial d₀) s) (ht : t ∈ s.sessions)
    (hjob : t.job = .request r) (hr : r.route.isGated = true) (ha : t.phase = .committed a) :
    ∃ d ∈ t.txn.seen, KeyAccepted env r d := by
  rcases (gate_ends h ht hjob hr).committed ha with hshown | he
  · exact hshown
  · cases he

/-- From an empty database, who gets past the gate has shown a key with the digest of one that was issued. -/
theorem key_issued (h : Run (genPay env) G (System.initial Db.empty) s) (ht : t ∈ s.sessions) (hjob : t.job = .request r)
    (hr : r.route.isGated = true) (ha : t.phase = .committed a) :
    ∃ key, r.xApiKey = some key ∧ ∃ key', Issued env s key' ∧ env.sha256 key = env.sha256 key' := by
  obtain ⟨d, hd, key, hkey, c, hc, hhash, -⟩ := shown_of_committed h ht hjob hr ha
  refine ⟨key, hkey, ?_⟩
  obtain ⟨s₁, h₁, h₂, rfl⟩ := h.seen_passed ht hd
  rcases client_source h₁ hc with hno | ⟨u, hu, hw⟩
  · cases hno
  · obtain ⟨hseed, hissues⟩ := issued_of_published h₁ hu hw
    have hstays := h₂.published_stays hu hw
    rcases hissues with hinternal | ⟨n, hdrawn⟩
    · exact ⟨_, ⟨u, hstays, hseed, ⟨c, hw, hinternal⟩, Or.inl rfl⟩, hhash.symm.trans hinternal⟩
    · exact ⟨_, ⟨u, hstays, hseed, ⟨c, hw, hdrawn⟩, Or.inr ⟨n, rfl⟩⟩, hhash.symm.trans hdrawn⟩

/-- What has started in production answers nobody with the default key, and only who shows one that was issued: if no
key that is shown collides with an issued one, and none that is drawn is the default. -/
theorem default_refused {config : AppSettings} {job : Job} (hstarted : lifespan config = .ok job)
    (hprod : config.env = "production") (hconfig : env.settings = config.toSettings)
    (hsha : ∀ key key', r.xApiKey = some key → Issued env s key' → env.sha256 key = env.sha256 key' → key = key')
    (h : Reachable (genPay env) Db.empty s) (hdrawn : ∀ u ∈ s.sessions, u.job = .seed → ∀ n, (u.oracle n).uuid ≠ "change-me")
    (ht : t ∈ s.sessions) (hjob : t.job = .request r) (hr : r.route.isGated = true) (ha : t.phase = .committed a) :
    ∃ key, r.xApiKey = some key ∧ Issued env s key ∧ key ≠ "change-me" := by
  obtain ⟨key, hkey, key', hissued, hdigest⟩ := key_issued h ht hjob hr ha
  obtain rfl := hsha key key' hkey hissued hdigest
  refine ⟨key, hkey, hissued, ?_⟩
  obtain ⟨u, hu, hseed, -, rfl | ⟨n, rfl⟩⟩ := hissued
  · rw [hconfig]
    exact secrets_of_lifespan hstarted hprod ("internal_api_key", config.internalApiKey) (by simp [defaultSecrets])
  · exact hdrawn u hu hseed n

end Runs

namespace Sample

def productionSettings : AppSettings := ⟨⟨"signing-secret", "internal-key", 7000, 2000, 1000⟩, "production", "secret-key"⟩

/-- The environment of these settings, with a digest function that is injective and agrees with SHA-256 on the keys of
the first seeding. -/
def productionEnv : Env where
  __ := env
  settings := productionSettings.toSettings
  sha256 key :=
    if key = "internal-key" then "8fc93558851b7fb33d65cd8d865482ebc898481f30e99121ccf1ac4d077ffa8b"
    else if key = uuid 0 3 then "bef72dbd766495d736d4e895d932a9b5e9aef2329f647ff74cf13a834344125b"
    else String.ofList (spell key)

theorem sha256_head (key : String) : (productionEnv.sha256 key).toList.head? =
    if key = "internal-key" then some '8' else if key = uuid 0 3 then some 'b' else some 'f' := by
  unfold productionEnv
  dsimp only
  split_ifs
  · decide
  · decide
  · rw [String.toList_ofList]
    rfl

theorem injective_sha256 : Function.Injective productionEnv.sha256 := by
  intro a b h
  have hhead := (sha256_head a).symm.trans ((congrArg (fun digest => digest.toList.head?) h).trans (sha256_head b))
  split_ifs at hhead with ha hb hb ha' hb hb' hb hb'
  · rw [ha, hb]
  · cases hhead
  · cases hhead
  · cases hhead
  · rw [ha', hb']
  · cases hhead
  · cases hhead
  · cases hhead
  · unfold productionEnv at h
    dsimp only at h
    rw [if_neg ha, if_neg ha', if_neg hb, if_neg hb'] at h
    exact spell_inj (String.ofList_inj.1 h)

theorem uuid_ne_default (a n : Nat) : uuid a n ≠ "change-me" := by
  intro he
  have hlast : (uuid a n).toList.getLast? = some '0' := by simp [uuid]
  rw [he] at hlast
  revert hlast
  decide

/-- An instance starts, and a request shows the internal key. -/
def production : AppSystem :=
  scheduled productionEnv Db.empty (fun _ _ => true) (.start .seed (oracle 0) :: (List.replicate 23 (.exec 0) ++
    .start (.request ⟨.listUsers 50 0, some "internal-key", none, ByteArray.empty, 1767225600⟩) (oracle 1) ::
    List.replicate 3 (.exec 1)))

end Sample

open Sample in
theorem default_refused_production : ∃ t r a, t ∈ production.sessions ∧ t.job = .request r ∧ r.route.isGated = true ∧
    t.phase = .committed a ∧ ∃ key, r.xApiKey = some key ∧ Issued productionEnv production key ∧ key ≠ "change-me" := by
  obtain ⟨t, a, ht, ha, hr⟩ := committed_at (s := production) (i := 1)
    (p := fun t _ => t.job.request?.any fun r => r.route.isGated) (by decide +kernel)
  obtain ⟨r, hr, hgated⟩ := (Option.any_eq_true _ _).1 hr
  have hjob := Job.request?_eq_some.1 hr
  have hmem := List.mem_of_getElem? ht
  refine ⟨t, r, a, hmem, hjob, hgated, ha, ?_⟩
  have hstarted : lifespan productionSettings = .ok .seed := rfl
  refine default_refused hstarted rfl rfl (fun _ _ _ _ he => injective_sha256 he) (run_scheduled (fun _ _ _ => True.intro) _)
    ?_ hmem hjob hgated ha
  intro u hu hseed n
  have hstart := started_of_scheduled hu
  simp only [List.mem_cons, List.mem_append, List.mem_replicate] at hstart
  rcases hstart with he | ⟨-, he⟩ | he | ⟨-, he⟩
  · rw [(Label.start.inj he).2]
    exact uuid_ne_default 0 n
  · cases he
  · rw [(Label.start.inj he).1] at hseed
    cases hseed
  · cases he

/-! ### A split that is none -/

section Splits

variable {env : Env} {d : Db} {act : Action} {ds : List Db} {s : AppSystem}

/-- Nothing has ever been settled. -/
structure Db.Unsold (d : Db) : Prop where
  settlements : d.settlements = []
  transactions : d.transactions = []

theorem Purchase.Grounded.splits {p : Purchase} (h : p.Grounded env ds) : env.settings.Splits :=
  settings_of_splitAmount h.split

/-- Without a split nobody buys, and what a batch settles is nothing. -/
theorem Action.Commits.unsold (h : act.Commits env ds d) (hd : d.Unsold) (hsplit : ¬ env.settings.Splits) :
    (after env d act).Unsold := by
  have hnone : act.settlements = [] ∧ act.transactions = [] := by
    cases act with
    | purchase key p => exact absurd (Purchase.Grounded.splits h.grounded) hsplit
    | batch event ps =>
      cases ps with
      | nil => exact ⟨rfl, rfl⟩
      | cons p ps => exact absurd (h.grounded p (List.mem_cons_self ..)).1.splits hsplit
    | refund x xs ys =>
      -- the settlement would have to be there
      obtain ⟨y, hy, -⟩ := h.reversed
      rw [settlements_after, hd.settlements] at hy
      cases hy
    | _ => exact ⟨rfl, rfl⟩
  refine ⟨?_, ?_⟩
  · rw [settlements_after, hd.settlements, hnone.1]
    rfl
  · rw [h.transactions_after, hd.transactions, hnone.2]
    rfl

def unsoldRule (env : Env) (hsplit : ¬ env.settings.Splits) :
    Discipline (genPay env) (uniqueKeys env.foreignKeys) fun _ _ => True where
  inv d := d.Sound ∧ d.Unsold
  evolves := Db.Extends
  post := Committed env
  refl := Db.Extends.refl
  trans := Db.Extends.trans
  program := fun r o => handle_spec env r o
  commit := by
    intro t a d hpost _ hd hseen hord hfree
    obtain ⟨act, hw, hc, -⟩ := Committed.commits hpost hd.1 (fun d' hd' => ⟨(hseen d' hd').1.1, (hseen d' hd').2⟩)
      hord hfree
    rw [hw]
    exact ⟨⟨hc.sound_after, hc.unsold hd.2 hsplit⟩, hc.extends_after⟩

/-- The requests that buy. -/
def Route.isPurchase : Route → Bool
  | .purchase .. | .cardAuthorization => true
  | _ => false

/-- The start-up does not check the shares, but with shares that are no split the service comes to no harm: nothing is
ever settled, no balance changes, and no request that buys is answered, though authorizations are held and decided. -/
theorem misconfigured_unsold (hsplit : ¬ env.settings.Splits) (h : Reachable (genPay env) Db.empty s) :
    s.db.Unsold ∧ (∀ a ∈ s.db.accounts, a.balanceCents = 0) ∧
      ∀ t ∈ s.sessions, ∀ r, t.job = .request r → r.route.isPurchase = true → ∀ a, t.phase ≠ .committed a := by
  have hinv := Discipline.inv_run (D := unsoldRule env hsplit) ⟨Db.sound_empty, rfl, rfl⟩ h
  obtain ⟨hsound, hunsold⟩ := hinv.db
  refine ⟨hunsold, fun a ha => ?_, fun t ht r hjob hr a ha => ?_⟩
  · rw [hsound.balanced a ha, hunsold.transactions]
    rfl
  · obtain ⟨act, hw, hgr, hans⟩ := committed_of_run h ht ha
    have hbuys : ∀ key p, act ≠ .purchase key p := by
      rintro key p rfl
      exact hsplit (Purchase.Grounded.splits hgr)
    simp only [hjob, Answers, AnswersRequest] at hans
    cases hroute : r.route with
    | purchase data key =>
      rw [hroute] at hans
      obtain ⟨-, key, result, rfl, -, ⟨-, d, hd, hrow⟩ | ⟨p, hact, -⟩⟩ := hans
      · -- a stored response names a settlement
        obtain ⟨hsound', hunsold'⟩ := (hinv.seen t ht d hd).1
        obtain ⟨_, -, hid⟩ := hsound'.cached _ hrow
        rw [Db.column, hunsold'.settlements] at hid
        cases hid
      · exact hbuys _ p hact
    | cardAuthorization =>
      rw [hroute] at hans
      obtain ⟨p, -, hact⟩ := hans
      exact hbuys _ p hact
    | _ => simp [hroute, Route.isPurchase] at hr

end Splits

namespace Sample

/-- Shares of 90% in all. -/
def misconfiguredEnv : Env where
  __ := env
  settings := { env.settings with archiveShareBps := 6000 }

theorem not_splits : ¬ misconfiguredEnv.settings.Splits := by
  rintro ⟨c, hc⟩
  have herror : (RevenueSplitConfig.fromSettings misconfiguredEnv.settings).isOk = false := by decide
  rw [hc] at herror
  cases herror

/-- An instance starts, and a researcher tries to buy. -/
def misconfigured : AppSystem :=
  scheduled misconfiguredEnv Db.empty (fun _ _ => true) (.start .seed (oracle 0) :: (List.replicate 23 (.exec 0) ++
    .start (Case.job (.buys "key")) (oracle 1) :: List.replicate 11 (.exec 1)))

end Sample

open Sample in
theorem misconfigured_unsold_trial :
    (misconfigured.sessions.map fun t => (t.published.length, (answer t).isSome)) = [(10, true), (0, false)] ∧
    misconfigured.db.Unsold ∧ (∀ a ∈ misconfigured.db.accounts, a.balanceCents = 0) ∧
      ∀ t ∈ misconfigured.sessions, ∀ r, t.job = .request r → r.route.isPurchase = true → ∀ a, t.phase ≠ .committed a :=
  ⟨by decide +kernel, misconfigured_unsold not_splits (run_scheduled (fun _ _ _ => True.intro) _)⟩

end GenPay
