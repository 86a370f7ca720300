import GenPay.Vouching

/-!
# Concurrent start-ups

Any number of instances seed an empty database at the same time, while others already answer requests.  No constraint
is on the platform's account itself, but whoever inserts any row of users, archives, records, accounts or clients has
seeded or shown the key of a seeded client, so a constraint that fails in `seed` proves that another one has
committed (`Db.Rooted`).  Hence one seeds, and all that return find its rows (`seeded_once`).
-/

namespace GenPay

open ReadCommitted
open Prog (onOk onEnd wp_imp wp_mono wp_seq_end wp_exec_end wp_catch)

/-- The unique columns of the tables that `seed` inserts into. -/
def Column.isEntity : Column → Bool
  | .usersId | .usersEmail | .archivesId | .recordsId | .recordsReference | .accountsId | .accountsOwnerUser
  | .accountsOwnerArchive | .clientsId | .clientsName | .clientsKeyHash => true
  | _ => false

/-- Some row is committed that seeding may clash with. -/
def Db.Occupied (d : Db) : Prop := ∃ c x, c.isEntity = true ∧ x ∈ d.column c

/-- The platform's account and both clients are committed. -/
structure Db.HasSeed (d : Db) : Prop where
  platform : ∃ a ∈ d.accounts, a.ownerType = .platform
  admin : internalAdminClientName ∈ d.column .clientsName
  processor : processorWebhookClientName ∈ d.column .clientsName

/-- Nothing else is committed before the seed. -/
def Db.Rooted (d : Db) : Prop := d.Occupied → d.HasSeed

theorem Db.rooted_empty : Db.empty.Rooted := by
  rintro ⟨c, x, -, hx⟩
  cases c <;> cases hx

variable {env : Env} {G : AppSession → Db → Prop} {d₀ d d' : Db} {s : AppSystem} {t : AppSession} {a : Response}
  {act : Action} {ds : List Db}

theorem Db.Extends.occupied (h : d.Extends d') (ho : d.Occupied) : d'.Occupied := by
  obtain ⟨c, x, hc, hx⟩ := ho
  exact ⟨c, x, hc, h.column c x hx⟩

theorem Db.Extends.hasSeed (h : d.Extends d') (hs : d.HasSeed) : d'.HasSeed where
  platform := by
    obtain ⟨a, ha, hp⟩ := hs.platform
    obtain ⟨b, hb, hstep⟩ := h.accounts.mem ha
    exact ⟨b, hb, hstep.ownerType.trans hp⟩
  admin := h.column _ _ hs.admin
  processor := h.column _ _ hs.processor

/-! ### Nothing is committed before the seed -/

theorem Write.isEntity_key {w : Write} {k : Column × String} (hk : k ∈ w.keys) : k.1.isEntity = w.isEntity := by
  cases w with
  | insertAccount r =>
    simp only [keys, List.mem_append, List.mem_singleton, Option.mem_toList, Option.map_eq_some_iff] at hk
    rcases hk with (rfl | ⟨u, -, rfl⟩) | ⟨u, -, rfl⟩ <;> rfl
  | _ =>
    simp only [keys, List.mem_cons, List.not_mem_nil, or_false] at hk
    try rcases hk with rfl | rfl | rfl
    all_goals rfl

/-- The actions that insert rows of these tables. -/
theorem Action.entity_cases {w : Write} (hw : w ∈ act.writes) (he : w.isEntity = true) :
    act.isEntity = true ∨ ∃ a₁ a₂ a₃ a₄ a₅ a₆ a₇ a₈ a₉ a₁₀, act = .seeded a₁ a₂ a₃ a₄ a₅ a₆ a₇ a₈ a₉ a₁₀ := by
  have purchase : ∀ p : Purchase, w ∉ p.writes := by
    intro p hp
    rw [(Purchase.writes_kind hp).1] at he
    cases he
  cases act with
  | user => exact Or.inl rfl
  | archive => exact Or.inl rfl
  | record => exact Or.inl rfl
  | seeded a₁ a₂ a₃ a₄ a₅ a₆ a₇ a₈ a₉ a₁₀ => exact Or.inr ⟨a₁, a₂, a₃, a₄, a₅, a₆, a₇, a₈, a₉, a₁₀, rfl⟩
  | quiet => cases hw
  | purchase key p =>
    cases key with
    | none =>
      rcases List.mem_cons.1 hw with rfl | hw
      · cases he
      · exact absurd hw (purchase p)
    | some key =>
      simp only [writes, List.mem_append, List.mem_cons, List.not_mem_nil, or_false] at hw
      rcases hw with (rfl | rfl | hw) | rfl
      · cases he
      · cases he
      · exact absurd hw (purchase p)
      · cases he
  | created event b =>
    rcases List.mem_pair.1 hw with rfl | rfl <;> cases he
  | decided event b status reason =>
    rcases List.mem_pair.1 hw with rfl | rfl <;> cases he
  | batch event ps =>
    rcases List.mem_cons.1 hw with rfl | hw
    · cases he
    · obtain ⟨p, -, hp⟩ := List.mem_flatMap.1 hw
      exact absurd hp (purchase p)
  | refund x xs ys =>
    simp only [writes, List.mem_append, List.mem_singleton] at hw
    rcases hw with (hw | hw) | rfl
    · obtain ⟨y, -, rfl | rfl⟩ := mem_postings.1 hw <;> cases he
    · obtain ⟨y, -, -, rfl⟩ := mem_marks.1 hw
      cases he
    · cases he

open Action.Commits in
theorem hasSeed_of_seeded {a₁ a₂ a₃ a₄ a₅ a₆ a₇ a₈ a₉ a₁₀}
    (h : (Action.seeded a₁ a₂ a₃ a₄ a₅ a₆ a₇ a₈ a₉ a₁₀).Commits env ds d) :
    (after env d (.seeded a₁ a₂ a₃ a₄ a₅ a₆ a₇ a₈ a₉ a₁₀)).HasSeed := by
  obtain ⟨⟨hadmin, -, -⟩, hprocessor, hplatform, -⟩ := h.grounded
  refine ⟨⟨a₃, ?_, hplatform.1⟩, ?_, ?_⟩
  · rw [accounts_after]
    exact List.mem_append_right _ (by simp [Action.accounts])
  · exact inserted (w := .insertClient a₁) (by simp [Action.writes]) (by simp [Write.keys, hadmin])
  · exact inserted (w := .insertClient a₂) (by simp [Action.writes]) (by simp [Write.keys, hprocessor])

theorem CommitsVouched.rooted (h : CommitsVouched env t a act d) (hd : d.Rooted) :
    (Action.Commits.after env d act).Rooted := by
  rintro ⟨c, x, hc, hx⟩
  have hext := h.commits.extends_after
  rcases Action.Commits.column_after.1 hx with hold | hnew
  · exact hext.hasSeed (hd ⟨c, x, hc, hold⟩)
  · obtain ⟨w, hw, hk⟩ := List.mem_flatMap.1 hnew
    rcases Action.entity_cases hw ((Write.isEntity_key hk).symm.trans hc) with hact | ⟨_, _, _, _, _, _, _, _, _, _, rfl⟩
    · -- the request has shown the key of a client
      obtain ⟨r, d', hd', key, -, client, hclient, -⟩ := h.answers.acts.of_isEntity hact
      have hmem : client.id ∈ d'.column .clientsId := List.mem_map_of_mem (f := ApiClient.id) hclient
      exact hext.hasSeed (hd ⟨.clientsId, _, rfl, (h.commits.seen d' hd').2.column _ _ hmem⟩)
    · exact hasSeed_of_seeded h.commits

theorem run_rooted (h : Run (genPay env) G (System.initial Db.empty) s) : s.db.Rooted :=
  commit_induction Db.rooted_empty (fun _ _ _ _ hc _ hd => hc.rooted hd) Db.sound_empty h

/-! ### Why seeding fails -/

/-- `uuid4` does not repeat an id in the session, nor a key of the digest of the internal one. -/
structure Draws (env : Env) (o : Nat → Choice) : Prop where
  distinct : ∀ i j, (o i).uuid = (o j).uuid → i = j
  key : ∀ i, env.sha256 (o i).uuid ≠ env.sha256 env.settings.internalApiKey

section Seed

variable {fk : Bool} {o : Nat → Choice} {t : Txn Db Write}

/-- An insert whose keys the transaction does not hold itself and whose references it does: if it fails, then by a
committed row. -/
theorem exec_end {w : Write} (hentity : w.isEntity = true) (hnew : ∀ k ∈ w.keys, k ∉ (uniqueKeys fk).all t.writes)
    (href : ∀ k ∈ w.references, k ∈ (uniqueKeys fk).all t.writes) (hchecked : w.checked = true) :
    (Prog.exec w : Tx Unit).wp (engine fk) o (onEnd (fun _ t' => ∃ d, t' = t.wrote d w)
      fun _ t' => ∃ d ∈ t'.seen, d.Occupied) t := by
  refine wp_exec_end (fun d _ => ⟨d, rfl⟩) fun d e hv => ⟨d, by simp, ?_⟩
  have hviolation : Db.violation fk ((engine fk).view d t.writes) w = some e := hv
  by_contra hno
  have hnone : Db.violation fk ((engine fk).view d t.writes) w = none := by
    refine Db.violation_eq_none.2 ⟨fun k hk hmem => ?_, fun _ k hk => ?_, hchecked⟩
    · rcases (uniqueKeys fk).mem_view.1 hmem with hold | hown
      · exact hno ⟨k.1, k.2, (Write.isEntity_key hk).trans hentity, hold⟩
      · exact hnew k hk hown
    · exact (uniqueKeys fk).mem_view.2 (Or.inr (href k hk))
  rw [hnone] at hviolation
  cases hviolation

theorem insert_end {β : Type} (row : Choice → β) (w : β → Write) {ws : List Write} {n : Nat}
    (ht : t.writes = ws ∧ t.seen.length = n) (hentity : (w (row (o n))).isEntity = true)
    (hnew : ∀ k ∈ (w (row (o n))).keys, k ∉ (uniqueKeys fk).all ws)
    (href : ∀ k ∈ (w (row (o n))).references, k ∈ (uniqueKeys fk).all ws) (hchecked : (w (row (o n))).checked = true) :
    (do let c ← draw; Prog.exec (w (row c)); return row c : Tx β).wp (engine fk) o
      (onEnd (fun a t' => a = row (o n) ∧ t'.writes = ws ++ [w (row (o n))] ∧ t'.seen.length = n + 2)
        fun _ t' => ∃ d ∈ t'.seen, d.Occupied) t := by
  obtain ⟨rfl, rfl⟩ := ht
  refine wp_seq_end (P := fun c t' => c = o t.seen.length ∧ ∃ d, t' = t.saw d) (fun d => ⟨rfl, d, rfl⟩) ?_
  rintro _ _ ⟨rfl, d, rfl⟩
  refine wp_seq_end (exec_end hentity hnew href hchecked) ?_
  rintro _ _ ⟨d', rfl⟩
  exact ⟨rfl, by simp, by simp⟩

theorem createAccount_end {ownerType : LedgerAccountOwnerType} {u x : Option String} {ws : List Write} {n : Nat}
    (ht : t.writes = ws ∧ t.seen.length = n)
    (hnew : ∀ k ∈ (Write.insertAccount ⟨(o n).uuid, ownerType, u, x, 0, "USD", .active, (o n).now⟩).keys,
      k ∉ (uniqueKeys fk).all ws)
    (href : ∀ k ∈ (Write.insertAccount ⟨(o n).uuid, ownerType, u, x, 0, "USD", .active, (o n).now⟩).references,
      k ∈ (uniqueKeys fk).all ws)
    (hchecked : LedgerAccount.ownerMatchesType ⟨(o n).uuid, ownerType, u, x, 0, "USD", .active, (o n).now⟩ = true) :
    (LedgerAccountRepository.createAccount ownerType u x).wp (engine fk) o
      (onEnd (fun a t' => t'.writes = ws ++ [.insertAccount a] ∧
          a = ⟨(o n).uuid, ownerType, u, x, 0, "USD", .active, (o n).now⟩ ∧ t'.seen.length = n + 2)
        fun _ t' => ∃ d ∈ t'.seen, d.Occupied) t := by
  refine wp_mono (insert_end (fun c => (⟨c.uuid, ownerType, u, x, 0, "USD", .active, c.now⟩ : LedgerAccount))
    .insertAccount ht rfl hnew href hchecked) fun r t' hr => ?_
  cases r with
  | ok a => exact ⟨hr.1 ▸ hr.2.1, hr.1, hr.2.2⟩
  | error e => exact hr

/-- A user with its account. -/
theorem createUser_end {data : UserCreate} {ws : List Write} {n : Nat}
    (ht : t.writes = ws ∧ t.seen.length = n) (hemail : (.usersEmail, data.email) ∉ (uniqueKeys fk).all ws)
    (hids : ∀ c ∈ [Column.usersId, .accountsId, .accountsOwnerUser], ∀ m, n ≤ m → (c, (o m).uuid) ∉ (uniqueKeys fk).all ws) :
    (createUser data).wp (engine fk) o (onEnd (fun u t' => u = ⟨(o n).uuid, data.name, data.email, data.role, (o n).now⟩ ∧
        t'.writes = ws ++ [.insertUser u, .insertAccount ⟨(o (n + 2)).uuid, .user, some u.id, none, 0, "USD", .active,
          (o (n + 2)).now⟩] ∧ t'.seen.length = n + 4)
      fun _ t' => ∃ d ∈ t'.seen, d.Occupied) t := by
  have hkey : ∀ {c m x}, c ∈ [Column.usersId, .accountsId, .accountsOwnerUser] → n ≤ m → x = (o m).uuid →
      (c, x) ∉ (uniqueKeys fk).all ws := fun hc hm hx => hx ▸ hids _ hc _ hm
  refine wp_seq_end (insert_end (fun c => (⟨c.uuid, data.name, data.email, data.role, c.now⟩ : User))
    .insertUser ht rfl ?_ (by simp [Write.references]) rfl) ?_
  · intro k hk
    rcases List.mem_pair.1 hk with rfl | rfl
    · exact hkey (by simp) (le_refl _) rfl
    · exact hemail
  rintro u t₁ ⟨rfl, ht₁⟩
  refine wp_seq_end (createAccount_end ht₁ ?_ ?_ rfl) ?_
  · intro k hk
    rw [Keys.all_append, List.mem_append, not_or]
    rcases List.mem_pair.1 hk with rfl | rfl
    · exact ⟨hkey (by simp) (by omega) rfl, by simp [Keys.all, uniqueKeys, Write.keys]⟩
    · exact ⟨hkey (by simp) (le_refl _) rfl, by simp [Keys.all, uniqueKeys, Write.keys]⟩
  · intro k hk
    rw [Keys.all_append, List.mem_append]
    rw [List.mem_singleton.1 hk]
    exact Or.inr (by simp [Keys.all, uniqueKeys, Write.keys])
  rintro _ t₂ ⟨hw, rfl, hn⟩
  exact ⟨rfl, by simp [hw], hn⟩

/-- An archive of no owner with its account. -/
theorem createArchive_end {name : String} {description : Option String} {ws : List Write} {n : Nat}
    (ht : t.writes = ws ∧ t.seen.length = n)
    (hids : ∀ c ∈ [Column.archivesId, .accountsId, .accountsOwnerArchive], ∀ m, n ≤ m →
      (c, (o m).uuid) ∉ (uniqueKeys fk).all ws) :
    (createArchive ⟨name, description, none⟩).wp (engine fk) o
      (onEnd (fun x t' => x = ⟨(o n).uuid, name, description, none, (o n).now⟩ ∧
        t'.writes = ws ++ [.insertArchive x, .insertAccount ⟨(o (n + 2)).uuid, .archive, none, some x.id, 0, "USD",
          .active, (o (n + 2)).now⟩] ∧ t'.seen.length = n + 4)
      fun _ t' => ∃ d ∈ t'.seen, d.Occupied) t := by
  have hkey : ∀ {c m x}, c ∈ [Column.archivesId, .accountsId, .accountsOwnerArchive] → n ≤ m → x = (o m).uuid →
      (c, x) ∉ (uniqueKeys fk).all ws := fun hc hm hx => hx ▸ hids _ hc _ hm
  refine wp_seq_end (insert_end (fun c => (⟨c.uuid, name, description, none, c.now⟩ : HistoricalArchive))
    .insertArchive ht rfl ?_ (by simp [Write.references]) rfl) ?_
  · intro k hk
    rw [List.mem_singleton.1 hk]
    exact hkey (by simp) (le_refl _) rfl
  rintro x t₁ ⟨rfl, ht₁⟩
  refine wp_seq_end (createAccount_end ht₁ ?_ ?_ rfl) ?_
  · intro k hk
    rw [Keys.all_append, List.mem_append, not_or]
    rcases List.mem_pair.1 hk with rfl | rfl
    · exact ⟨hkey (by simp) (by omega) rfl, by simp [Keys.all, uniqueKeys, Write.keys]⟩
    · exact ⟨hkey (by simp) (le_refl _) rfl, by simp [Keys.all, uniqueKeys, Write.keys]⟩
  · intro k hk
    rw [Keys.all_append, List.mem_append]
    rw [List.mem_singleton.1 hk]
    exact Or.inr (by simp [Keys.all, uniqueKeys, Write.keys])
  rintro _ t₂ ⟨hw, rfl, hn⟩
  exact ⟨rfl, by simp [hw], hn⟩

/-- Alone or among others, seeding fails only because some row is committed already. -/
theorem seedRows_end (h : Draws env o) (ht : t.writes = [] ∧ t.seen.length = 1) : (seedRows env).wp (engine fk) o
    (onEnd (fun _ t' => t'.writes ≠ []) fun _ t' => ∃ d ∈ t'.seen, d.Occupied) t := by
  have hid : ∀ i j, (o i).uuid = (o j).uuid ↔ i = j := fun i j => ⟨h.distinct i j, congrArg fun i => (o i).uuid⟩
  have hkey : ∀ i, env.sha256 (o i).uuid = env.sha256 env.settings.internalApiKey ↔ False :=
    fun i => iff_false_intro (h.key i)
  have hname : processorWebhookClientName ≠ internalAdminClientName := by decide
  unfold seedRows
  refine wp_seq_end (insert_end (fun c => (⟨c.uuid, internalAdminClientName,
    env.sha256 env.settings.internalApiKey, true⟩ : ApiClient)) .insertClient ht rfl ?_ ?_ rfl) ?_
  · simp [Keys.all]
  · simp [Write.references]
  rintro admin t₁ ⟨rfl, ht₁⟩
  refine wp_seq_end (P := fun c t' => c = o 3 ∧ t'.writes = t₁.writes ∧ t'.seen.length = 4)
    (fun d => ⟨by rw [ht₁.2], rfl, by simp [ht₁.2]⟩) ?_
  rintro _ t₂ ⟨rfl, ht₂⟩
  rw [ht₁.1] at ht₂
  refine wp_seq_end (insert_end (fun c => (⟨c.uuid, processorWebhookClientName,
    env.sha256 (o 3).uuid, true⟩ : ApiClient)) .insertClient ht₂ rfl ?_ ?_ rfl) ?_
  · simp [Keys.all, uniqueKeys, Write.keys, hid, hkey, hname]
  · simp [Write.references]
  rintro processor t₃ ⟨rfl, ht₃⟩
  refine wp_seq_end (createAccount_end ht₃ ?_ ?_ rfl) ?_
  · simp [Keys.all, uniqueKeys, Write.keys]
  · simp [Write.references]
  rintro platform t₄ ⟨ht₄, rfl, hn₄⟩
  refine wp_seq_end (createArchive_end ⟨ht₄, hn₄⟩ ?_) ?_
  · intro c hc m hm
    simp only [List.mem_cons, List.not_mem_nil, or_false] at hc
    rcases hc with rfl | rfl | rfl
    · simp [Keys.all, uniqueKeys, Write.keys, hid]
    · simp [Keys.all, uniqueKeys, Write.keys, hid]
      omega
    · simp [Keys.all, uniqueKeys, Write.keys, hid]
  rintro archive t₅ ⟨rfl, ht₅⟩
  refine wp_seq_end (createUser_end ht₅ ?_ ?_) ?_
  · simp [Keys.all, uniqueKeys, Write.keys]
  · intro c hc m hm
    simp only [List.mem_cons, List.not_mem_nil, or_false] at hc
    rcases hc with rfl | rfl | rfl
    · simp [Keys.all, uniqueKeys, Write.keys, hid]
    · simp [Keys.all, uniqueKeys, Write.keys, hid]
      omega
    · simp [Keys.all, uniqueKeys, Write.keys, hid]
  rintro transcriptionist t₆ ⟨rfl, ht₆⟩
  refine wp_seq_end (createUser_end ht₆ ?_ ?_) ?_
  · simp [Keys.all, uniqueKeys, Write.keys]
  · intro c hc m hm
    simp only [List.mem_cons, List.not_mem_nil, or_false] at hc
    rcases hc with rfl | rfl | rfl <;> simp [Keys.all, uniqueKeys, Write.keys, hid] <;> omega
  rintro researcher t₇ ⟨rfl, ht₇⟩
  refine wp_seq_end (insert_end (fun c => (⟨c.uuid, _, "CENSUS-1880-004", "1880 Census, District 4", 599, _,
    c.now⟩ : ResearchRecord)) .insertRecord ht₇ rfl ?_ ?_ rfl) ?_
  · simp [Keys.all, uniqueKeys, Write.keys]
  · simp [Keys.all, uniqueKeys, Write.keys, Write.references]
  rintro record t₈ ⟨rfl, hw, -⟩
  show t₈.writes ≠ []
  simp [hw]

/-- Seeding that returns has inserted rows, or has seen that others have. -/
theorem seed_end (h : Draws env o) : (seed env).wp (engine fk) o
    (onOk fun _ t' => t'.writes ≠ [] ∨ ∃ d ∈ t'.seen, d.Occupied) Txn.fresh := by
  unfold seed
  refine Prog.wp_seq scalar_spec ?_
  rintro platform t₁ ⟨d, rfl, hsome, -⟩
  cases platform with
  | some x =>
    obtain ⟨hx, -⟩ := hsome x rfl
    exact Or.inr ⟨d, by simp, .accountsId, x.id, rfl, List.mem_map_of_mem (f := LedgerAccount.id) hx⟩
  | none =>
    refine wp_catch (F := fun _ t' => ∃ d ∈ t'.seen, d.Occupied) ?_ ?_
    · refine wp_mono (seedRows_end h ⟨rfl, rfl⟩) fun r t' hr => ?_
      cases r with
      | ok a => exact Or.inl hr
      | error e => exact hr
    · rintro e t' ⟨d', hd', ho⟩
      cases e with
      | integrityError => exact fun d => Or.inr ⟨d', by simp [hd'], ho⟩
      | _ => exact True.intro

end Seed

/-! ### Runs -/

/-- One instance seeds; every instance that has seeded or given up finds the rows of that one. -/
structure SeededOnce (env : Env) (s : AppSystem) : Prop where
  atMostOne : (s.db.accounts.filter (·.ownerType == .platform)).length ≤ 1
  returned : ∀ t ∈ s.sessions, ∀ a, t.job = .seed → t.phase = .committed a →
    (∃ x, s.db.accounts.filter (·.ownerType == .platform) = [x]) ∧
    (∃ c, s.db.clients.filter (·.name == internalAdminClientName) = [c]) ∧
    ∃ c, s.db.clients.filter (·.name == processorWebhookClientName) = [c]
  whole : ∀ t ∈ s.sessions, t.job = .seed → t.published = [] ∨ ∃ a₁ a₂ a₃ a₄ a₅ a₆ a₇ a₈ a₉ a₁₀,
    t.published = Action.writes (.seeded a₁ a₂ a₃ a₄ a₅ a₆ a₇ a₈ a₉ a₁₀)
  /-- Only one leaves any row: without each of the others the database would be the same. -/
  loser : ∀ (i j : Nat) t u, s.sessions[i]? = some t → s.sessions[j]? = some u → t.job = .seed → u.job = .seed →
    i ≠ j → t.published ≠ [] → u.published = [] ∧ Erasable (genPay env) (fun _ _ => True) Db.empty j s

/-- A session that has seeded has published all rows or none. -/
theorem seed_published (h : Reachable (genPay env) Db.empty s) {t : AppSession} (ht : t ∈ s.sessions)
    (hjob : t.job = .seed) : t.published = [] ∨ ∃ a₁ a₂ a₃ a₄ a₅ a₆ a₇ a₈ a₉ a₁₀,
      t.published = Action.writes (.seeded a₁ a₂ a₃ a₄ a₅ a₆ a₇ a₈ a₉ a₁₀) ∧ a₁.name = internalAdminClientName := by
  by_cases hne : t.published = []
  · exact Or.inl hne
  · obtain ⟨w, hw⟩ := List.exists_mem_of_ne_nil _ hne
    obtain ⟨a, act, -, hpub, hgr, hans⟩ := published_action Db.sound_empty h ht hw
    rw [hjob] at hans
    cases act with
    | quiet => exact Or.inl hpub
    | seeded a₁ a₂ a₃ a₄ a₅ a₆ a₇ a₈ a₉ a₁₀ =>
      exact Or.inr ⟨a₁, a₂, a₃, a₄, a₅, a₆, a₇, a₈, a₉, a₁₀, hpub, hgr.1.1⟩
    | _ => exact hans.elim

theorem hasSeed_of_returned (h : Reachable (genPay env) Db.empty s) {t : AppSession} {a : Response}
    (ht : t ∈ s.sessions) (hjob : t.job = .seed) (ha : t.phase = .committed a) (hdraws : Draws env t.oracle) :
    s.db.HasSeed := by
  have hpost := (Run.follows (@seed_end env env.foreignKeys _ hdraws) h t ht hjob rfl).committed ha
  rcases hpost with hne | ⟨d, hd, ho⟩
  · refine Discipline.facts (D := ledger env fun _ _ => True)
      (fun t d => t.job = .seed → t.txn.writes ≠ [] → d.HasSeed) ?_ ?_ Db.sound_empty h t ht a ha hjob hne
    · intro t a d hat hjob hne
      obtain ⟨act, hw, hc, hans⟩ := commits_of_atCommit hat
      change t.job = .seed at hjob
      change t.txn.writes ≠ [] at hne
      rw [hjob] at hans
      rw [hw] at hne ⊢
      cases act with
      | quiet => exact absurd rfl hne
      | seeded => exact hasSeed_of_seeded hc
      | _ => exact hans.elim
    · exact fun t a d d' _ hF _ hext hjob hne => hext.hasSeed (hF hjob hne)
  · have hext := ((Discipline.inv_run (D := ledger env fun _ _ => True) Db.sound_empty h).seen t ht d hd).2
    exact run_rooted h (hext.occupied ho)

/-- From empty tables, under any interleaving of start-ups and requests: there is at most one platform account, and
once a `seed` has returned there is one, with one client of each name; all rows are those of one instance. -/
theorem seeded_once {env : Env} {s : AppSystem} (h : Reachable (genPay env) Db.empty s)
    (hdraws : ∀ t ∈ s.sessions, t.job = .seed → Draws env t.oracle) : SeededOnce env s := by
  have hsound := run_sound Db.sound_empty h
  have hsingle : ∀ x ∈ s.db.accounts, (x.ownerType == .platform) = true →
      s.db.accounts.filter (·.ownerType == .platform) = [x] := fun x hx hp =>
    filter_eq_singleton (f := LedgerAccount.id) (hsound.unique .accountsId) hx hp fun y hy hyp =>
      hsound.platform y hy x hx (by simpa using hyp) (by simpa using hp)
  have hclient : ∀ name, name ∈ s.db.column .clientsName → ∃ c, s.db.clients.filter (·.name == name) = [c] := by
    intro name hmem
    obtain ⟨c, hc, hname⟩ := List.mem_map.1 hmem
    refine ⟨c, filter_eq_singleton (f := ApiClient.name) (hsound.unique .clientsName) hc (by simpa using hname) ?_⟩
    intro y _ hy
    exact (by simpa using hy : y.name = name).trans hname.symm
  refine ⟨?_, fun t ht a hjob ha => ?_, fun t ht hjob => ?_, fun i j t u hi hj htj huj hij hne => ?_⟩
  · by_cases hany : ∃ x ∈ s.db.accounts, (x.ownerType == .platform) = true
    · obtain ⟨x, hx, hp⟩ := hany
      rw [hsingle x hx hp]
      simp
    · have hnil : s.db.accounts.filter (·.ownerType == .platform) = [] :=
        List.filter_eq_nil_iff.2 fun x hx hp => hany ⟨x, hx, hp⟩
      rw [hnil]
      simp
  · have hseed := hasSeed_of_returned h ht hjob ha (hdraws t ht hjob)
    obtain ⟨x, hx, hp⟩ := hseed.platform
    exact ⟨⟨x, hsingle x hx (by simpa using hp)⟩, hclient _ hseed.admin, hclient _ hseed.processor⟩
  · rcases seed_published h ht hjob with hnil | ⟨a₁, a₂, a₃, a₄, a₅, a₆, a₇, a₈, a₉, a₁₀, hpub, -⟩
    · exact Or.inl hnil
    · exact Or.inr ⟨a₁, a₂, a₃, a₄, a₅, a₆, a₇, a₈, a₉, a₁₀, hpub⟩
  · -- two that have published would have committed the admin client twice
    have hnil : u.published = [] := by
      rcases seed_published h (List.mem_of_getElem? hj) huj with hnil | ⟨b₁, b₂, _, _, _, _, _, _, _, _, hu, hub⟩
      · exact hnil
      rcases seed_published h (List.mem_of_getElem? hi) htj with hnil | ⟨a₁, a₂, _, _, _, _, _, _, _, _, ht, hta⟩
      · exact absurd hnil hne
      have hkey : ∀ {v : AppSession} {c : ApiClient}, .insertClient c ∈ v.published →
          c.name = internalAdminClientName → (Column.clientsName, internalAdminClientName) ∈
            (uniqueKeys env.foreignKeys).all v.published :=
        fun hmem hname => List.mem_flatMap.2 ⟨_, hmem, by simp [uniqueKeys, Write.keys, hname]⟩
      exact absurd (Keys.published_disjoint (K := uniqueKeys env.foreignKeys) (Keys.inv_run h) hi hj
        (hkey (c := a₁) (by simp [ht, Action.writes]) hta) (hkey (c := b₁) (by simp [hu, Action.writes]) hub)) hij
    exact ⟨hnil, Run.erase h hj hnil⟩

/-! ### Two start-ups -/

namespace Sample

theorem draws (a : Nat) : Draws Sample.env (oracle a) where
  distinct i j h := by
    have := uuid_inj h
    omega
  key i h := by
    have hlast : (uuid a i).toList.getLast? = some '0' := by simp [uuid]
    have hne : (oracle a i).uuid ≠ "change-me" := by
      intro he
      rw [show uuid a i = "change-me" from he] at hlast
      revert hlast
      decide
    simp only [Sample.env, hne, ↓reduceIte] at h
    split at h <;> revert h <;> decide

/-- Both instances find no platform account; the second waits with its first insert until the first has committed. -/
def twoStartups : AppSystem :=
  scheduled Sample.env Db.empty (fun _ _ => true) (.start .seed (oracle 0) :: .start .seed (oracle 1) :: .exec 1 ::
    .exec 1 :: List.replicate 23 (.exec 0) ++ List.replicate 3 (.exec 1))

end Sample

theorem seeded_once_twoStartups :
    (Sample.twoStartups.sessions.map fun t => (t.published.length, (answer t).isSome)) = [(10, true), (0, true)] ∧
    SeededOnce Sample.env Sample.twoStartups := by
  refine ⟨by decide +kernel, seeded_once (Sample.run_scheduled (fun _ _ _ => True.intro) _) fun t ht _ => ?_⟩
  have hstart := Sample.started_of_scheduled ht
  simp only [List.cons_append, List.mem_cons, List.mem_append, Label.start.injEq, reduceCtorEq,
    List.mem_replicate, and_false, or_false] at hstart
  rcases hstart with ⟨-, ho⟩ | ⟨-, ho⟩ <;> rw [ho] <;> exact Sample.draws _

end GenPay
