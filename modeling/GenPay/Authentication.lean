import GenPay.Runs

/-!
# Authentication

A request that writes the ledger has shown an accepted API key or a valid signature, unless it is one to
`/webhooks/card-auth`: that route has no gate (`ledger_write_authenticated_iff`).
-/

namespace GenPay

open ReadCommitted

def Job.request? : Job → Option Request
  | .request r => some r
  | _ => none

theorem Job.request?_eq_some {job : Job} {r : Request} : job.request? = some r ↔ job = .request r := by
  cases job <;> simp [Job.request?]

/-- The request carries the key of an active client, or a signature that verifies. -/
def Authenticated (env : Env) (r : Request) (d : Db) : Prop :=
  KeyAccepted env r d ∨ Verifies env env.settings.webhookSigningSecret r.clock r.xGenPaySignature r.rawBody

/-- From `d` to `d'` an authorization, a settlement, a transaction or a balance is new or has changed. -/
def Db.LedgerChanged (d d' : Db) : Prop :=
  (∃ a ∈ d'.authorizations, a ∉ d.authorizations) ∨ (∃ x ∈ d'.settlements, x ∉ d.settlements) ∨
    (∃ t ∈ d'.transactions, t ∉ d.transactions) ∨
    ∃ a ∈ d'.accounts, ∀ b ∈ d.accounts, b.id = a.id → b.balanceCents ≠ a.balanceCents

instance (d d' : Db) : Decidable (d.LedgerChanged d') :=
  inferInstanceAs (Decidable ((∃ a ∈ d'.authorizations, a ∉ d.authorizations) ∨
    (∃ x ∈ d'.settlements, x ∉ d.settlements) ∨ (∃ t ∈ d'.transactions, t ∉ d.transactions) ∨
    ∃ a ∈ d'.accounts, ∀ b ∈ d.accounts, b.id = a.id → b.balanceCents ≠ a.balanceCents))

theorem Db.not_ledgerChanged_self (d : Db) : ¬ d.LedgerChanged d := by
  rintro (⟨a, ha, hn⟩ | ⟨x, hx, hn⟩ | ⟨t, ht, hn⟩ | ⟨a, ha, hn⟩)
  · exact hn ha
  · exact hn hx
  · exact hn ht
  · exact hn a ha rfl rfl

/-- An accepted key stays accepted. -/
theorem KeyAccepted.mono {env : Env} {r : Request} {d d' : Db} (h : KeyAccepted env r d) (hext : d.Extends d') :
    KeyAccepted env r d' := by
  obtain ⟨key, hkey, c, hc, hhash, hactive⟩ := h
  obtain ⟨c', hc', rfl⟩ := hext.clients.mem hc
  exact ⟨key, hkey, c, hc', hhash, hactive⟩

namespace Action.Commits

variable {env : Env} {ds : List Db} {d : Db} {act : Action}

theorem keyAccepted (h : act.Commits env ds d) {r : Request} (hkey : ∃ d' ∈ ds, KeyAccepted env r d') :
    KeyAccepted env r d := by
  obtain ⟨d', hd', hk⟩ := hkey
  exact hk.mono (h.seen d' hd').2

/-- The authorization of a purchase is a new row. -/
theorem purchase_changes {key : Option String} {p : Purchase} (h : (Action.purchase key p).Commits env ds d) :
    d.LedgerChanged (after env d (.purchase key p)) := by
  have hw : .insertAuthorization p.authorization ∈ writes (.purchase key p) := by cases key <;> simp [writes]
  refine Or.inl ⟨p.authorization, ?_, fun hmem => ?_⟩
  · rw [authorizations_after]
    exact List.mem_append_right _ (by simp [authorizations])
  · exact h.fresh hw (c := .authorizationsId) (x := p.authorization.id) (by simp [Write.keys])
      (List.mem_map_of_mem (f := Authorization.id) hmem)

end Action.Commits

section Runs

variable {env : Env} {d₀ : Db} {s s' : AppSystem} {i : Nat} {t : AppSession} {r : Request} {a : Response}

/-- What a request commits to the ledger is authenticated, for all routes but one: for `/webhooks/card-auth` it is
if and only if the request happens to be. -/
theorem ledger_write_authenticated_iff (h₀ : Seeded env d₀) (h : Reachable (genPay env) d₀ s)
    (ht : s.sessions[i]? = some t) (hjob : t.job = .request r) (hp : t.phase = .running (.ret a))
    (hs : s.step (genPay env) (.exec i) = some s') :
    (s.db.LedgerChanged s'.db → Authenticated env r s.db) ↔
      (r.route = .cardAuthorization → Authenticated env r s.db) := by
  obtain ⟨act, hc, hans, he⟩ := commits_of_returned h₀.sound h ht hp True.intro hs
  rw [hjob] at hans
  rw [he]
  constructor
  · intro hchanged hroute
    change AnswersRequest env r a act t.txn.seen at hans
    simp only [AnswersRequest, hroute] at hans
    obtain ⟨p, -, rfl⟩ := hans
    exact hchanged hc.purchase_changes
  · intro hcard hchanged
    cases hans.acts with
    | quiet => exact absurd hchanged (Db.not_ledgerChanged_self _)
    | entity hkey hact => exact Or.inl (hc.keyAccepted hkey)
    | purchase hr hkey ha => exact Or.inl (hc.keyAccepted hkey)
    | refund hr hkey => exact Or.inl (hc.keyAccepted hkey)
    | card hr ha => exact hcard hr
    | event hr hsig hparse ha hact => exact Or.inr hsig

end Runs

/-- A purchase up to its commit. -/
def Sample.purchasing : AppSystem := after (fun _ _ => true) [.start 0 (.buys "key"), .steps 0 34]

theorem ledger_write_authenticated_iff_purchasing :
    ∃ t r a s', Sample.purchasing.sessions[0]? = some t ∧ t.job = .request r ∧ t.phase = .running (.ret a) ∧
      Sample.purchasing.step (genPay Sample.env) (.exec 0) = some s' ∧
      ((Sample.purchasing.db.LedgerChanged s'.db → Authenticated Sample.env r Sample.purchasing.db) ↔
        (r.route = .cardAuthorization → Authenticated Sample.env r Sample.purchasing.db)) := by
  obtain ⟨t, a, ht, hp, hr⟩ := returned_at (s := Sample.purchasing) (i := 0)
    (p := fun t _ => t.job.request?.isSome) (by rw [Sample.purchasing, Sample.after_eq]; decide +kernel)
  obtain ⟨r, hr⟩ := Option.isSome_iff_exists.1 hr
  have hs := System.step_commit (S := genPay Sample.env) ht hp
  have hjob := Job.request?_eq_some.1 hr
  exact ⟨t, r, a, _, ht, hjob, hp, hs,
    ledger_write_authenticated_iff Sample.seeded_env (Sample.reachable_after _) ht hjob hp hs⟩

/-- A card authorization up to its commit. -/
def Sample.cardAuthorizing : AppSystem := after (fun _ _ => true) [.start 0 .card, .steps 0 32]

/-- A request without any credentials posts a purchase. -/
theorem cardAuthorization_unauthenticated :
    Reachable (genPay Sample.env) Sample.seeded Sample.cardAuthorizing ∧
    ∃ t r a s', Sample.cardAuthorizing.sessions[0]? = some t ∧ t.job = .request r ∧ t.phase = .running (.ret a) ∧
      Sample.cardAuthorizing.step (genPay Sample.env) (.exec 0) = some s' ∧
      Sample.cardAuthorizing.db.LedgerChanged s'.db ∧
      ¬ Authenticated Sample.env r Sample.cardAuthorizing.db := by
  refine ⟨Sample.reachable_after _, ?_⟩
  obtain ⟨t, a, ht, hp, hr⟩ := returned_at (s := Sample.cardAuthorizing) (i := 0)
    (p := fun t _ => decide (Sample.cardAuthorizing.db.LedgerChanged
        ((engine true).view Sample.cardAuthorizing.db t.txn.writes)) &&
      t.job.request?.any fun r => r.xApiKey.isNone && r.xGenPaySignature.isNone)
    (by rw [Sample.cardAuthorizing, Sample.after_eq]; decide +kernel)
  obtain ⟨hchanged, hr⟩ := Bool.and_eq_true_iff.1 hr
  obtain ⟨r, hr, hnone⟩ := (Option.any_eq_true _ _).1 hr
  obtain ⟨hkey, hsig⟩ := Bool.and_eq_true_iff.1 hnone
  refine ⟨t, r, a, _, ht, Job.request?_eq_some.1 hr, hp, System.step_commit ht hp, of_decide_eq_true hchanged, ?_⟩
  rintro (⟨key, hk, -⟩ | ⟨header, timestamp, text, hh, -⟩)
  · rw [hk] at hkey
    cases hkey
  · rw [hh] at hsig
    cases hsig

end GenPay
