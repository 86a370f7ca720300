import GenPay.Reconciliation
import GenPay.Seeding
import GenPay.Sufficiency

/-!
# Accounts and their owners

Accounts are created with their owners, and nothing else creates them: from an empty database on, in whatever
interleaving, the users, the archives and, once seeded, the platform have one account each, and there are no others
(`accounts_of_owners`).  So the ledger is a balance for each owner, and these cancel.
-/

namespace GenPay

open ReadCommitted

inductive Owner
  | user (id : String)
  | archive (id : String)
  | platform
  deriving DecidableEq, Repr

def LedgerAccount.owner? (a : LedgerAccount) : Option Owner :=
  match a.ownerType with
  | .user => a.ownerUserId.map .user
  | .archive => a.ownerArchiveId.map .archive
  | .platform => some .platform

/-- Who has an account; the platform from its seeding on. -/
def Db.owners (d : Db) : List Owner :=
  d.users.map (fun u => .user u.id) ++ d.archives.map (fun x => .archive x.id) ++ if d.clients.isEmpty then [] else [.platform]

/-- What an owner has in all. -/
def Db.balanceOf (d : Db) (o : Owner) : Int := ((d.accounts.filter (·.owner? == some o)).map (·.balanceCents)).sum

/-- The owners of accounts exist. -/
def Db.Owned (d : Db) : Prop :=
  ∀ a ∈ d.accounts, (∀ u, a.ownerUserId = some u → u ∈ d.column .usersId) ∧
    ∀ x, a.ownerArchiveId = some x → x ∈ d.column .archivesId

/-- Accounts and owners are in bijection, and the balances of the owners cancel. -/
structure Db.Held (d : Db) : Prop where
  perm : (d.accounts.map LedgerAccount.owner?).Perm (d.owners.map some)
  balance : ∀ a ∈ d.accounts, ∃ o ∈ d.owners, a.owner? = some o ∧ d.balanceOf o = a.balanceCents
  total : (d.owners.map d.balanceOf).sum = 0

section Databases

variable {d : Db}

theorem owner?_user {a : LedgerAccount} (h : a.ownerMatchesType = true) {u : String} :
    a.owner? = some (.user u) ↔ a.ownerUserId = some u := by
  unfold LedgerAccount.ownerMatchesType at h
  unfold LedgerAccount.owner?
  cases htype : a.ownerType with
  | user => simp
  | archive => simp_all
  | platform => simp_all

theorem owner?_archive {a : LedgerAccount} (h : a.ownerMatchesType = true) {x : String} :
    a.owner? = some (.archive x) ↔ a.ownerArchiveId = some x := by
  unfold LedgerAccount.ownerMatchesType at h
  unfold LedgerAccount.owner?
  cases htype : a.ownerType with
  | user => simp_all
  | archive => simp
  | platform => simp_all

theorem owner?_platform {a : LedgerAccount} : a.owner? = some .platform ↔ a.ownerType = .platform := by
  unfold LedgerAccount.owner?
  cases a.ownerType <;> simp

theorem owner?_isSome {a : LedgerAccount} (h : a.ownerMatchesType = true) : ∃ o, a.owner? = some o := by
  unfold LedgerAccount.ownerMatchesType at h
  unfold LedgerAccount.owner?
  rw [← Option.isSome_iff_exists]
  cases htype : a.ownerType with
  | user => simp_all
  | archive => simp_all
  | platform => rfl

theorem mem_owners {o : Owner} : o ∈ d.owners ↔ match o with
    | .user u => u ∈ d.column .usersId
    | .archive x => x ∈ d.column .archivesId
    | .platform => d.clients ≠ [] := by
  unfold Db.owners Db.column
  cases o with
  | user u => simp
  | archive x => simp
  | platform => simp

/-- Two accounts have different owners. -/
theorem Db.Sound.owner?_inj (h : d.Sound) {a b : LedgerAccount} (ha : a ∈ d.accounts) (hb : b ∈ d.accounts)
    (he : a.owner? = b.owner?) : a = b := by
  have same : a.id = b.id → a = b := List.inj_on_of_nodup_map (h.unique .accountsId) ha hb
  obtain ⟨o, ho⟩ := owner?_isSome (h.owned a ha)
  have hbo : b.owner? = some o := he ▸ ho
  cases o with
  | user u =>
    exact same (h.userAccount_unique ⟨a, ha, (owner?_user (h.owned a ha)).1 ho, rfl⟩
      ⟨b, hb, (owner?_user (h.owned b hb)).1 hbo, rfl⟩)
  | archive x =>
    exact same (h.archiveAccount_unique ⟨a, ha, (owner?_archive (h.owned a ha)).1 ho, rfl⟩
      ⟨b, hb, (owner?_archive (h.owned b hb)).1 hbo, rfl⟩)
  | platform => exact same (h.platform a ha b hb (owner?_platform.1 ho) (owner?_platform.1 hbo))

theorem Db.Sound.nodup_accounts (h : d.Sound) : d.accounts.Nodup := (h.unique .accountsId).of_map _

theorem Db.Sound.nodup_owners (h : d.Sound) : d.owners.Nodup := by
  have husers : (d.users.map fun u => Owner.user u.id).Nodup := by
    have := (h.unique .usersId).map (f := Owner.user) fun _ _ he => Owner.user.inj he
    rwa [Db.column, List.map_map] at this
  have harchives : (d.archives.map fun x => Owner.archive x.id).Nodup := by
    have := (h.unique .archivesId).map (f := Owner.archive) fun _ _ he => Owner.archive.inj he
    rwa [Db.column, List.map_map] at this
  unfold Db.owners
  refine List.nodup_append.2 ⟨List.nodup_append.2 ⟨husers, harchives, ?_⟩, by split <;> simp, fun o ho o' ho' => ?_⟩
  · simp
  · rcases List.mem_append.1 ho with ho | ho
    · obtain ⟨u, -, rfl⟩ := List.mem_map.1 ho
      rintro rfl
      split at ho' <;> simp at ho'
    · obtain ⟨x, -, rfl⟩ := List.mem_map.1 ho
      rintro rfl
      split at ho' <;> simp at ho'

/-- With the accounts of the owners and the owners of the accounts, the two are in bijection. -/
theorem Db.Sound.held (h : d.Sound) (hcomplete : d.Complete) (howned : d.Owned) : d.Held := by
  have hown : ∀ a ∈ d.accounts, ∃ o ∈ d.owners, a.owner? = some o := by
    intro a ha
    obtain ⟨o, ho⟩ := owner?_isSome (h.owned a ha)
    refine ⟨o, mem_owners.2 ?_, ho⟩
    cases o with
    | user u => exact (howned a ha).1 u ((owner?_user (h.owned a ha)).1 ho)
    | archive x => exact (howned a ha).2 x ((owner?_archive (h.owned a ha)).1 ho)
    | platform =>
      obtain ⟨c, hc, -⟩ := List.mem_map.1 (h.seeded a ha (owner?_platform.1 ho))
      exact List.ne_nil_of_mem hc
  have hhas : ∀ o ∈ d.owners, ∃ a ∈ d.accounts, a.owner? = some o := by
    intro o ho
    have hmem := mem_owners.1 ho
    cases o with
    | user u =>
      obtain ⟨v, hv, rfl⟩ := List.mem_map.1 hmem
      obtain ⟨_, a, ha, hu, -⟩ := hcomplete.user v hv
      exact ⟨a, ha, (owner?_user (h.owned a ha)).2 hu⟩
    | archive x =>
      obtain ⟨y, hy, rfl⟩ := List.mem_map.1 hmem
      obtain ⟨_, a, ha, hx, -⟩ := hcomplete.archive y hy
      exact ⟨a, ha, (owner?_archive (h.owned a ha)).2 hx⟩
    | platform =>
      obtain ⟨_, a, ha, hp, -⟩ := hcomplete.client hmem
      exact ⟨a, ha, owner?_platform.2 hp⟩
  have hperm : (d.accounts.map LedgerAccount.owner?).Perm (d.owners.map some) := by
    refine (List.perm_ext_iff_of_nodup (h.nodup_accounts.map_on fun a ha b hb => h.owner?_inj ha hb)
      (h.nodup_owners.map (Option.some_injective _))).2 fun o => ⟨fun hmem => ?_, fun hmem => ?_⟩
    · obtain ⟨a, ha, rfl⟩ := List.mem_map.1 hmem
      obtain ⟨o, ho, he⟩ := hown a ha
      exact List.mem_map.2 ⟨o, ho, he.symm⟩
    · obtain ⟨o, ho, rfl⟩ := List.mem_map.1 hmem
      obtain ⟨a, ha, he⟩ := hhas o ho
      exact List.mem_map.2 ⟨a, ha, he⟩
  have hbalance : ∀ a ∈ d.accounts, ∀ o, a.owner? = some o → d.balanceOf o = a.balanceCents := by
    intro a ha o ho
    have hone : d.accounts.filter (·.owner? == some o) = [a] :=
      filter_eq_singleton (h.unique .accountsId) ha (by simp [ho]) fun b hb he =>
        congrArg LedgerAccount.id (h.owner?_inj hb ha ((eq_of_beq he).trans ho.symm))
    simp [Db.balanceOf, hone]
  refine ⟨hperm, fun a ha => ?_, ?_⟩
  · obtain ⟨o, ho, he⟩ := hown a ha
    exact ⟨o, ho, he, hbalance a ha o he⟩
  · -- the sum over the owners is that over their accounts
    have hsum := ((hperm.map fun o => o.elim 0 d.balanceOf).sum_eq).symm
    rw [List.map_map, List.map_map] at hsum
    calc (d.owners.map d.balanceOf).sum = (d.accounts.map fun a => a.owner?.elim 0 d.balanceOf).sum := hsum
      _ = (d.accounts.map (·.balanceCents)).sum := by
        refine congrArg List.sum (List.map_congr_left fun a ha => ?_)
        obtain ⟨o, -, he⟩ := hown a ha
        rw [he]
        exact hbalance a ha o he
      _ = 0 := h.sum_balances

end Databases

/-! ### Runs -/

section Runs

variable {env : Env} {G : AppSession → Db → Prop} {d : Db} {s : AppSystem} {act : Action} {ds : List Db}

open Action.Commits in
theorem Action.Commits.owned (h : act.Commits env ds d) (hd : d.Owned) : (after env d act).Owned := by
  intro a ha
  rcases mem_accounts_after ha with ⟨b, hb, hcore⟩ | ha
  · rw [of_core LedgerAccount.ownerUserId hcore, of_core LedgerAccount.ownerArchiveId hcore]
    obtain ⟨huser, harchive⟩ := hd b hb
    exact ⟨fun u hu => column_mono (huser u hu), fun x hx => column_mono (harchive x hx)⟩
  · exact h.owner_inserted ha

/-- In every state each owner has one account, and there are no others. -/
theorem accounts_of_owners (h : Reachable (genPay env) Db.empty s) : s.db.Held := by
  have hinv : s.db.Complete ∧ s.db.Owned := by
    refine commit_induction (I := fun d => d.Complete ∧ d.Owned) ⟨Db.complete_empty, fun a ha => by cases ha⟩
      (fun t a act d hc _ hd => ?_) Db.sound_empty h
    exact ⟨hc.complete hd.1, hc.commits.owned hd.2⟩
  exact (run_sound Db.sound_empty h).held hinv.1 hinv.2

end Runs

/-- Two instances start at once, and a user is created. -/
def Sample.newcomer : AppSystem :=
  scheduled Sample.env Db.empty (fun _ _ => true) (.start .seed (oracle 0) :: .start .seed (oracle 1) :: .exec 1 ::
    .exec 1 :: (List.replicate 23 (.exec 0) ++ List.replicate 3 (.exec 1) ++
      .start (.request (keyed (.createUser (some ⟨"Ann", "ann@example.com", .researcher⟩)))) (oracle 2) ::
        List.replicate 6 (.exec 2)))

theorem accounts_of_owners_newcomer : Sample.newcomer.db.owners.length = 5 ∧ Sample.newcomer.db.Held :=
  ⟨by decide +kernel, accounts_of_owners (Sample.run_scheduled (fun _ _ _ => True.intro) _)⟩

end GenPay
