import GenPay.Balances
import GenPay.Paging
import GenPay.ReadCommitted.Locks

/-!
# The order of locks

A settlement posts on the buyer's account, then the archive's, the transcriptionist's and the platform's; a refund on
the accounts of the rows that it has listed.  Nothing else orders the accounts: a user who buys and transcribes, a
listing in another order, or a batch that posts a second settlement in the same transaction lead to cycles
(`postings_deadlock`).  Without these, no transactions wait for each other's account rows in a cycle
(`postings_not_deadlocked`).
-/

namespace GenPay

open ReadCommitted
open Prog (Within WithinAt)

variable {env : Env} {fk : Bool} {o : Nat → Choice} {d d' d₀ : Db} {s : AppSystem} {ws : List Write}
  {rank : String → Nat}

/-! ### Accounts by rank -/

def LedgerAccountOwnerType.lockRank : LedgerAccountOwnerType → Nat
  | .archive => 0
  | .user => 1
  | .platform => 2

/-- Accounts are ranked by their owners. -/
structure RankedByOwner (rank : String → Nat) (d : Db) : Prop where
  archive : ∀ x id, d.archiveAccount x id → rank id = 0
  user : ∀ x id, d.userAccount x id → rank id = 1
  platform : ∀ id, d.platformAccount id → rank id = 2

def Db.lockRank (d : Db) (id : String) : Nat := ((d.accounts.find? (·.id == id)).map (·.ownerType.lockRank)).getD 0

theorem Db.Sound.lockRank_eq (hd : d.Sound) {a : LedgerAccount} (ha : a ∈ d.accounts) : d.lockRank a.id = a.ownerType.lockRank := by
  have hfind : d.accounts.find? (·.id == a.id) = some a := by
    obtain ⟨b, hb⟩ := Option.isSome_iff_exists.1 (List.find?_isSome.2 ⟨a, ha, by simp⟩ :
      (d.accounts.find? (·.id == a.id)).isSome = true)
    have hid : b.id = a.id := by simpa using List.find?_some hb
    rw [hb, List.inj_on_of_nodup_map (hd.unique .accountsId) (List.mem_of_find?_eq_some hb) ha hid]
  rw [Db.lockRank, hfind]
  rfl

theorem Db.Sound.ranked (hd : d.Sound) : RankedByOwner d.lockRank d where
  archive x id h := by
    obtain ⟨a, ha, hx, rfl⟩ := h
    have howned := hd.owned a ha
    rw [hd.lockRank_eq ha]
    cases htype : a.ownerType with
    | archive => rfl
    | _ => simp [LedgerAccount.ownerMatchesType, htype, hx] at howned
  user x id h := by
    obtain ⟨a, ha, hx, rfl⟩ := h
    have howned := hd.owned a ha
    rw [hd.lockRank_eq ha]
    cases htype : a.ownerType with
    | user => rfl
    | _ => simp [LedgerAccount.ownerMatchesType, htype, hx] at howned
  platform id h := by
    obtain ⟨a, ha, htype, rfl⟩ := h
    rw [hd.lockRank_eq ha, htype]
    rfl

theorem RankedByOwner.of_extends (h : RankedByOwner rank d') (hext : d.Extends d') : RankedByOwner rank d where
  archive x id hid := h.archive x id (hext.archiveAccount hid)
  user x id hid := h.user x id (hext.userAccount hid)
  platform id hid := h.platform id (hext.platformAccount hid)

/-- The entries of a settlement climb. -/
theorem climbs_settlementEntries {r a : String} {t : Option String} {p : String} {n : Int} {x : RevenueSplitResult}
    (ha : rank a = 0) (ht : ∀ id, t = some id → rank id = 1) (hp : rank p = 2) :
    Climbs rank ((settlementEntries r a t p n x).map (·.ledgerAccountId)) := by
  let archive := if x.archiveCents ≠ 0 then [a] else []
  let transcriptionist := t.elim [] fun id => if x.transcriptionistCents ≠ 0 then [id] else []
  let platform := if x.platformCents ≠ 0 then [p] else []
  have hmap : (settlementEntries r a t p n x).map (·.ledgerAccountId) =
      r :: (archive ++ transcriptionist ++ platform) := by
    simp only [settlementEntries, List.map_append, List.map_cons, List.cons_append, List.nil_append,
      archive, transcriptionist, platform]
    congr 1
    congr 1
    · congr 1
      · split <;> rfl
      · cases t with
        | none => rfl
        | some id => dsimp only; split <;> rfl
    · split <;> rfl
  have harchive : ∀ y ∈ archive, rank y = 0 := by
    intro y hy
    simp only [archive, List.mem_ite_nil_right, List.mem_singleton] at hy
    rw [hy.2, ha]
  have htranscriptionist : ∀ y ∈ transcriptionist, rank y = 1 := by
    intro y hy
    cases t with
    | none => simp [transcriptionist] at hy
    | some id =>
      simp only [transcriptionist, Option.elim_some, List.mem_ite_nil_right, List.mem_singleton] at hy
      rw [hy.2, ht id rfl]
  have hplatform : ∀ y ∈ platform, rank y = 2 := by
    intro y hy
    simp only [platform, List.mem_ite_nil_right, List.mem_singleton] at hy
    rw [hy.2, hp]
  have hone : ∀ {l : List String}, l.length ≤ 1 → l.Pairwise fun y z => rank y < rank z := by
    intro l hl
    cases l with
    | nil => exact List.Pairwise.nil
    | cons y l =>
      rw [List.length_cons] at hl
      rw [List.length_eq_zero_iff.1 (by omega : l.length = 0)]
      exact List.pairwise_singleton _ _
  rw [hmap]
  refine climbs_cons (List.pairwise_append.2 ⟨List.pairwise_append.2 ⟨hone ?_, hone ?_, ?_⟩, hone ?_, ?_⟩)
  · simp only [archive]; split <;> simp
  · cases t with
    | none => simp [transcriptionist]
    | some id => simp only [transcriptionist]; split <;> simp
  · intro y hy z hz
    rw [harchive y hy, htranscriptionist z hz]
    exact Nat.one_pos
  · simp only [platform]; split <;> simp
  · intro y hy z hz
    rw [hplatform z hz]
    rcases List.mem_append.1 hy with hy | hy
    · rw [harchive y hy]
      exact Nat.two_pos
    · rw [htranscriptionist y hy]
      exact Nat.one_lt_two

/-! ### The rows of a settlement -/

/-- The rows of each settlement climb, in the order of the table. -/
def Db.Climbing (d : Db) : Prop :=
  ∀ rank, RankedByOwner rank d → ∀ sid, Climbs rank ((d.rowsOf sid).map (·.ledgerAccountId))

theorem Purchase.Grounded.climbs {ds : List Db} {p : Purchase} (h : p.Grounded env ds)
    (hrank : ∀ d' ∈ ds, RankedByOwner rank d') : Climbs rank (p.transactions.map (·.ledgerAccountId)) := by
  obtain ⟨d₁, hd₁, harchive⟩ := h.archive
  obtain ⟨d₂, hd₂, hplatform⟩ := h.platform
  have hrows : p.transactions.map (·.ledgerAccountId) = p.entries.map (·.ledgerAccountId) := by
    rw [← h.posted.rows, List.map_map]
    rfl
  rw [hrows]
  refine climbs_settlementEntries ((hrank d₁ hd₁).archive _ _ harchive) (fun id hid => ?_)
    ((hrank d₂ hd₂).platform _ hplatform)
  obtain ⟨u, -, -, d₃, hd₃, huser⟩ := h.transcriptionist id hid
  exact (hrank d₃ hd₃).user _ _ huser

theorem Action.Commits.climbing {ds : List Db} {act : Action} (h : act.Commits env ds d) (hd : d.Climbing) :
    (Action.Commits.after env d act).Climbing := by
  intro rank hrank sid
  have hrankd := hrank.of_extends h.extends_after
  by_cases hnew : ∃ p ∈ act.purchases, p.settlement.id = sid
  · obtain ⟨p, hp, rfl⟩ := hnew
    rw [h.rows_of_new hp]
    exact (h.grounded.purchase hp).climbs fun d' hd' => hrankd.of_extends (h.seen d' hd').2
  · have hcore : (d.rowsOf sid).map ((fun t => t.ledgerAccountId) ∘
        (transactionTable env.foreignKeys).updateAll act.writes) = (d.rowsOf sid).map (·.ledgerAccountId) :=
      List.map_congr_left fun t _ => of_core Transaction.ledgerAccountId (Action.Commits.transaction_core t)
    rw [h.rowsOf_after, List.map_append, List.map_map, hcore]
    refine (hd rank hrankd sid).append_subset fun x hx => ?_
    obtain ⟨t, ht, rfl⟩ := List.mem_map.1 hx
    obtain ⟨ht, hsid⟩ := List.mem_filter.1 ht
    have hsid : t.settlementId = sid := by simpa using hsid
    by_cases hact : ∃ x xs ys, act = .refund x xs ys
    · -- a refund posts on the accounts of rows that it has listed
      obtain ⟨x, xs, ys, rfl⟩ := hact
      have hposted := h.grounded.2.2
      have hentry : t.entry ∈ xs.map reversalEntry := hposted.rows ▸ List.mem_map_of_mem ht
      obtain ⟨y, hy, he⟩ := List.mem_map.1 hentry
      obtain ⟨d', hd', hmem, hyx⟩ := h.mem_originals hy
      obtain ⟨z, hz, hstep⟩ := (h.seen d' hd').2.transactions.mem hmem
      refine List.mem_map.2 ⟨z, List.mem_filter.2 ⟨hz, ?_⟩, ?_⟩
      · rw [of_core Transaction.settlementId hstep.core_eq, hyx, ← hposted.settlement t ht, hsid]
        exact beq_self_eq_true _
      · rw [of_core Transaction.ledgerAccountId hstep.core_eq]
        exact congrArg LedgerEntry.ledgerAccountId he
    · rw [Action.transactions_eq (by simpa using hact)] at ht
      obtain ⟨p, hp, htp⟩ := List.mem_flatMap.1 ht
      exact absurd ⟨p, hp, ((h.grounded.purchase hp).posted.settlement t htp).symm.trans hsid⟩ hnew

theorem run_climbing (h₀ : Seeded env d₀) (h : Reachable (genPay env) d₀ s) : s.db.Climbing := by
  refine commit_induction (fun rank _ sid => ?_) (fun t a act d hc _ hd => hc.commits.climbing hd) h₀.sound h
  have hnil : d₀.rowsOf sid = [] := by rw [Db.rowsOf, h₀.no_ledger.2.2.1]; rfl
  rw [hnil]
  exact climbs_nil

/-! ### What a session locks and posts -/

/-- The account row that a write locks. -/
def Write.accountLock : Write → Option String
  | .addBalance id _ => some id
  | _ => none

/-- The accounts of the rows posted, in this order. -/
def postedOn (ws : List Write) : List String := (ws.filterMap Write.transaction?).map (·.ledgerAccountId)

def settled (ws : List Write) : List Settlement := ws.filterMap Write.settlement?

/-- Between statements, what a session has posted it has locked, in climbing order as long as this is for one
settlement. -/
structure Lining (refunding : Bool) (rank : String → Nat) (ws : List Write) : Prop where
  entity : ∀ w ∈ ws, w.isEntity = false
  locked : ws.filterMap Write.accountLock = postedOn ws
  settling : refunding = false → settled ws = [] → postedOn ws = []
  climbs : (settled ws).length ≤ 1 → Climbs rank (postedOn ws)

/-- At any time, if the last write is a change of balance. -/
def Queueing (rank : String → Nat) (ws : List Write) : Prop :=
  ∀ ws' id n, ws = ws' ++ [.addBalance id n] → (settled ws').length ≤ 1 →
    postedOn ws' = ws'.filterMap Write.accountLock ++ [id] ∧ Climbs rank (postedOn ws')

theorem postedOn_concat {w : Write} (hw : w.transaction? = none) : postedOn (ws ++ [w]) = postedOn ws := by
  simp [postedOn, hw]

theorem postedOn_insert (y : Transaction) :
    postedOn (ws ++ [.insertTransaction y]) = postedOn ws ++ [y.ledgerAccountId] := by
  have hy : (Write.insertTransaction y).transaction? = some y := rfl
  simp [postedOn, hy]

theorem settled_concat {w : Write} (hw : w.settlement? = none) : settled (ws ++ [w]) = settled ws := by
  simp [settled, hw]

theorem accountLock_concat {w : Write} (hw : w.accountLock = none) :
    (ws ++ [w]).filterMap Write.accountLock = ws.filterMap Write.accountLock := by simp [hw]

theorem lining_nil {refunding : Bool} : Lining refunding rank [] :=
  ⟨by simp, rfl, fun _ _ => rfl, fun _ => climbs_nil⟩

namespace Lining

variable {refunding : Bool}

theorem queueing (h : Lining refunding rank ws) : Queueing rank ws := by
  rintro ws' id n rfl hone
  have hposted : postedOn (ws' ++ [.addBalance id n]) = postedOn ws' := postedOn_concat rfl
  have hsettled : settled (ws' ++ [.addBalance id n]) = settled ws' := settled_concat rfl
  have hlocked := h.locked
  rw [hposted, List.filterMap_append] at hlocked
  refine ⟨hlocked.symm, ?_⟩
  have hclimbs := h.climbs
  rw [hsettled, hposted] at hclimbs
  exact hclimbs hone

/-- Writes that neither post nor settle. -/
theorem quiet (h : Lining refunding rank ws) {w : Write} (hw : w.isQuiet = true) : Lining refunding rank (ws ++ [w]) := by
  have hposted : postedOn (ws ++ [w]) = postedOn ws := postedOn_concat (by cases w <;> first | rfl | cases hw)
  have hsettled : settled (ws ++ [w]) = settled ws := settled_concat (by cases w <;> first | rfl | cases hw)
  have hlocked : (ws ++ [w]).filterMap Write.accountLock = ws.filterMap Write.accountLock :=
    accountLock_concat (by cases w <;> first | rfl | cases hw)
  constructor
  · intro w' hw'
    rcases List.mem_append.1 hw' with hw' | hw'
    · exact h.entity w' hw'
    · rw [List.mem_singleton.1 hw']
      cases w <;> first | rfl | cases hw
  · rw [hlocked, hposted]
    exact h.locked
  · rw [hsettled, hposted]
    exact h.settling
  · rw [hsettled, hposted]
    exact h.climbs

/-- A settlement comes before its rows. -/
theorem settle (h : Lining false rank ws) (x : Settlement) : Lining false rank (ws ++ [.insertSettlement x]) := by
  have hposted : postedOn (ws ++ [.insertSettlement x]) = postedOn ws := postedOn_concat rfl
  have hsettled : settled (ws ++ [.insertSettlement x]) = settled ws ++ [x] := List.filterMap_append
  constructor
  · intro w hw
    rcases List.mem_append.1 hw with hw | hw
    · exact h.entity w hw
    · rw [List.mem_singleton.1 hw]
      rfl
  · rw [hposted, accountLock_concat rfl]
    exact h.locked
  · intro _ hnil
    rw [hsettled] at hnil
    simp at hnil
  · intro hone
    rw [hsettled, List.length_append, List.length_singleton] at hone
    rw [hposted, h.settling rfl (List.length_eq_zero_iff.1 (by omega))]
    exact climbs_nil

/-- A row with its change of balance. -/
theorem post (h : Lining refunding rank ws) (y : Transaction) (hbooked : refunding = false → settled ws ≠ [])
    (hclimbs : (settled ws).length ≤ 1 → Climbs rank (postedOn ws ++ [y.ledgerAccountId])) :
    Lining refunding rank (ws ++ [.insertTransaction y] ++ [.addBalance y.ledgerAccountId y.delta]) := by
  have hposted : postedOn (ws ++ [.insertTransaction y] ++ [.addBalance y.ledgerAccountId y.delta]) =
      postedOn ws ++ [y.ledgerAccountId] := (postedOn_concat rfl).trans (postedOn_insert y)
  have hsettled : settled (ws ++ [.insertTransaction y] ++ [.addBalance y.ledgerAccountId y.delta]) = settled ws :=
    (settled_concat rfl).trans (settled_concat rfl)
  constructor
  · intro w hw
    simp only [List.mem_append, List.mem_singleton] at hw
    rcases hw with (hw | rfl) | rfl
    · exact h.entity w hw
    · rfl
    · rfl
  · rw [hposted, ← h.locked, List.filterMap_append, accountLock_concat rfl]
    rfl
  · intro hr hnil
    rw [hsettled] at hnil
    exact absurd hnil (hbooked hr)
  · rw [hsettled, hposted]
    exact hclimbs

end Lining

/-! ### What the code sends -/

/-- Accounts are ranked, and the rows of settlements climb. -/
structure RankedAndClimbing (rank : String → Nat) (d : Db) : Prop where
  ranked : RankedByOwner rank d
  climbs : ∀ sid, Climbs rank ((d.rowsOf sid).map (·.ledgerAccountId))

/-- The assertion that sessions lock as they post. -/
abbrev lining (refunding : Bool) (rank : String → Nat) : Assertion Db Write :=
  Assertion.traces (RankedAndClimbing rank) (Lining refunding rank) (Queueing rank) lining_nil

section Programs

variable {refunding : Bool} {t : Txn Db Write}

theorem leavesQuiet_lining : LeavesQuiet (lining refunding rank) :=
  fun _ hw => Assertion.traces_quiet (fun _ h => h.quiet hw) fun _ h => h.queueing

theorem quiet_insertSettlement (x : Settlement) : (lining false rank).Quiet (.insertSettlement x) :=
  Assertion.traces_quiet (fun _ h => h.settle x) fun _ h => h.queueing

/-- Rows are posted in climbing order if their accounts, after those posted on before, climb. -/
theorem postEach_lining {sid : String} (es : List LedgerEntry) : ∀ t, (lining refunding rank).holds t →
    ((∀ d ∈ t.seen, RankedAndClimbing rank d) → (refunding = false → settled t.writes ≠ []) ∧
      ((settled t.writes).length ≤ 1 → Climbs rank (postedOn t.writes ++ es.map (·.ledgerAccountId)))) →
    (postEach sid es).WithinAt (engine fk) o (lining refunding rank) t := by
  induction es with
  | nil => exact fun t ht _ => (Within.ret _).withinAt ht
  | cons e es ih =>
    intro t ht hclimbs
    refine WithinAt.seq (postEntry_withinAt ht (fun _ h => h.queueing) ?_) postEntry_spec ?_
    · rintro hgood hlining y rfl
      obtain ⟨hbooked, hall⟩ := hclimbs hgood
      have hprefix : (settled t.writes).length ≤ 1 → Climbs rank (postedOn t.writes ++ [y.ledgerAccountId]) := by
        intro hone
        have hcons := hall hone
        rw [List.map_cons, List.append_cons] at hcons
        exact hcons.of_append
      refine ⟨fun ws' id n h => ?_, hlining.post y hbooked hprefix⟩
      exact absurd (List.append_inj' h rfl).2 (by simp)
    · rintro y t₁ ht₁ ⟨hg, rfl, -, -⟩
      have hposted : postedOn t₁.writes = postedOn t.writes ++ [y.ledgerAccountId] := by
        rw [hg.writes, List.append_cons]
        exact (postedOn_concat rfl).trans (postedOn_insert y)
      have hsettled : settled t₁.writes = settled t.writes := by
        rw [hg.writes, List.append_cons]
        exact (settled_concat rfl).trans (settled_concat rfl)
      refine (ih t₁ ht₁ fun hgood => ?_).bind fun _ => Within.ret _
      rw [hsettled, hposted, List.append_assoc]
      exact hclimbs fun d hd => hgood d (hg.mem hd)

theorem postEntries_lining {sid : String} {es : List LedgerEntry} (ht : (lining refunding rank).holds t)
    (hclimbs : (∀ d ∈ t.seen, RankedAndClimbing rank d) → (refunding = false → settled t.writes ≠ []) ∧
      ((settled t.writes).length ≤ 1 → Climbs rank (postedOn t.writes ++ es.map (·.ledgerAccountId)))) :
    (postEntries sid es).WithinAt (engine fk) o (lining refunding rank) t := by
  unfold postEntries
  split
  · exact (valueError_within _).withinAt ht
  · exact postEach_lining es t ht hclimbs

theorem settleChecked_lining (a : Authorization) (r : ResearchRecord) (total : Int)
    (config : Option RevenueSplitConfig) :
    (settleChecked env a r total config).Within (engine fk) o (lining false rank) := by
  refine Within.of_at fun t ht => ?_
  by_cases hgood : ∀ d ∈ t.seen, RankedAndClimbing rank d
  swap
  · exact Prog.withinAt_of_bad hgood
  have hentity := (ht hgood).entity
  unfold settleChecked
  refine WithinAt.seq ((ofExcept_within _).withinAt ht) ofExcept_spec ?_
  rintro split t ht₀ ⟨rfl, -⟩
  refine WithinAt.seq (scalar_within.withinAt ht₀) (getByOwnerUser_spec hentity) ?_
  rintro researcher _ ht₁ ⟨d₁, rfl, -, -⟩
  refine WithinAt.seq (scalar_within.withinAt ht₁) (getByOwnerArchive_spec hentity) ?_
  rintro archive _ ht₂ ⟨d₂, rfl, harchive⟩
  refine WithinAt.seq (scalar_within.withinAt ht₂) (getPlatformAccount_spec hentity) ?_
  rintro platform _ ht₃ ⟨d₃, rfl, hplatform⟩
  split
  swap
  · exact (valueError_within _).withinAt ht₃
  rename_i researcher archive platform
  refine WithinAt.seq ((transcriptionistAccount_within r).withinAt ht₃) (transcriptionistAccount_spec hentity) ?_
  rintro transcriptionist t₄ ht₄ ⟨hg₄, htranscriptionist, -⟩
  refine WithinAt.seq ((insert_within (w := .insertSettlement) fun _ => quiet_insertSettlement _).withinAt ht₄)
    SettlementRepository.create_spec ?_
  rintro x t₅ ht₅ ⟨hg₅, -, -, -⟩
  refine (postEntries_lining ht₅ fun hgood₅ => ?_).bind fun _ => Within.ret _
  have hg₃ := ((Txn.Grew.saw t d₁).trans (Txn.Grew.saw _ d₂)).trans (Txn.Grew.saw _ d₃)
  have hwrites : t₅.writes = t.writes ++ [.insertSettlement x] := ((hg₃.trans hg₄).trans hg₅).writes
  have hsettled : settled t₅.writes = settled t.writes ++ [x] := by
    rw [hwrites]
    exact List.filterMap_append
  refine ⟨fun _ => by simp [hsettled], fun hone => ?_⟩
  -- what has been posted before would be for another settlement
  have hnone : postedOn t.writes = [] := by
    rw [hsettled, List.length_append, List.length_singleton] at hone
    exact (ht hgood).settling rfl (List.length_eq_zero_iff.1 (by omega))
  rw [hwrites, postedOn_concat rfl, hnone, List.nil_append]
  refine climbs_settlementEntries ?_ (fun id hid => ?_) ?_
  · exact (hgood₅ d₂ ((hg₄.trans hg₅).mem (by simp))).ranked.archive _ _ (harchive _ rfl)
  · obtain ⟨b, rfl, rfl⟩ := Option.map_eq_some_iff.1 hid
    obtain ⟨u, -, -, d₄, hd₄, huser⟩ := htranscriptionist b rfl
    exact (hgood₅ d₄ (hg₅.mem hd₄)).ranked.user _ _ huser
  · exact (hgood₅ d₃ ((hg₄.trans hg₅).mem (by simp))).ranked.platform _ (hplatform _ rfl)

/-- The rows are returned in the order of the table. -/
def Choice.InOrder (c : Choice) : Prop := ∀ m, c.order m = Equiv.refl (Fin m)

theorem Choice.InOrder.arrange_eq {β : Type} {c : Choice} (h : c.InOrder) (l : List β) : c.arrange l = l := by
  unfold Choice.arrange
  rw [h]
  exact List.ofFn_get l

theorem refundSettlement_lining (ho : ∀ n, (o n).InOrder) {id : String} {reason : Option String}
    (ht : (lining true rank).holds t) (hnil : t.writes = []) :
    (refundSettlement id reason).WithinAt (engine fk) o (lining true rank) t := by
  unfold refundSettlement
  refine WithinAt.seq (scalar_within.withinAt ht) scalar_spec ?_
  rintro a _ ht₁ ⟨d₁, rfl, -, -⟩
  cases a with
  | none => exact (valueError_within _).withinAt ht₁
  | some a =>
  refine WithinAt.seq (scalar_within.withinAt ht₁) scalar_spec ?_
  rintro x _ ht₂ ⟨d₂, rfl, -, -⟩
  cases x with
  | none => exact (valueError_within _).withinAt ht₂
  | some x =>
  dsimp only
  split
  · exact (valueError_within _).withinAt ht₂
  refine WithinAt.seq (scalars_within.withinAt ht₂)
    (P := fun ys t' => ∃ d, t' = ((t.saw d₁).saw d₂).saw d ∧ ys = d.rowsOf x.id) ?_ ?_
  · intro d
    refine ⟨d, rfl, ((ho _).arrange_eq _).trans ?_⟩
    rw [Txn.saw_writes, Txn.saw_writes, hnil]
    rfl
  · rintro ys _ ht₃ ⟨d₃, rfl, rfl⟩
    refine (postEntries_lining ht₃ fun hgood => ⟨by simp, fun _ => ?_⟩).bind fun _ => ?_
    · have hrows := (hgood d₃ (by simp)).climbs x.id
      rw [Txn.saw_writes, Txn.saw_writes, Txn.saw_writes, hnil, List.map_map]
      exact hrows
    · refine (markEachReversed_within leavesQuiet_lining _).bind fun _ => ?_
      exact ((Within.exec (leavesQuiet_lining _ rfl)).bind fun _ => Within.ret _).bind fun _ => Within.ret _

end Programs

/-! ### Runs -/

/-- Each change of balance comes after those of the rows posted before. -/
theorem handle_queueing (job : Job) (ho : job.isRefunding = true → ∀ n, (o n).InOrder) :
    (handle env job).sends (engine fk) o
      (fun t w => (∀ d ∈ t.seen, RankedAndClimbing rank d) → Queueing rank (t.writes ++ [w])) Txn.fresh := by
  have hfresh : ∀ b, (lining b rank).holds Txn.fresh := fun _ _ => lining_nil
  cases hrefunding : job.isRefunding with
  | true =>
    cases job with
    | request r =>
      cases hroute : r.route with
      | refundPurchase id data =>
        have h : (route env r).WithinAt (engine fk) o (lining true rank) Txn.fresh := by
          unfold route
          rw [hroute]
          refine WithinAt.seq ((requireApiKey_within _).withinAt (hfresh true)) requireApiKey_spec ?_
          rintro client _ ht ⟨d, rfl, -⟩
          refine WithinAt.bind ?_ fun _ => Within.ret _
          cases data with
          | none => exact (Within.raise _).withinAt ht
          | some data => exact exceptValueError_withinAt (refundSettlement_lining (ho hrefunding) ht rfl)
        exact h.sends
      | _ => simp [Job.isRefunding, Route.isRefunding, hroute] at hrefunding
    | _ => cases hrefunding
  | false =>
    cases hfounding : job.isFounding with
    | true =>
      have h := @handle_within_of_founding fk o (Assertion.each fun w => w.posts = false) env job
        (fun _ hw => Assertion.each_quiet.2 hw) hfounding
      refine Prog.sends_mono (h.sends _ True.intro) fun t w hw _ ws' id n he => ?_
      obtain ⟨-, hlast⟩ := List.append_inj' he rfl
      rw [(List.cons.inj hlast).1] at hw
      cases hw
    | false =>
      have h := @handle_within fk o (lining false rank) env job leavesQuiet_lining (by simp [hfounding])
        (fun _ => settleChecked_lining) (by simp [hrefunding])
      exact h.sends _ (hfresh false)

/-- An account that one open transaction posts on first, the buyer's, all others that post on it post on first. -/
def RolesApart (s : AppSystem) : Prop :=
  ∀ t ∈ s.sessions, ∀ u ∈ s.sessions, ∀ id ∈ (postedOn t.held).head?, id ∈ postedOn u.held →
    (postedOn u.held).head? = some id

instance : Decidable (RolesApart s) := by
  unfold RolesApart
  infer_instance

theorem waits_of_accountLock {w w' : Write} {id : String} (hw : w.accountLock = some id)
    (hw' : w'.accountLock = some id) : (genPay env).waits w w' = true := by
  cases w <;> cases hw
  cases w' <;> cases hw'
  simp [genPay, engine, Write.waits, Write.lockedRow]

/-- As long as each open transaction settles one authorization at most, refunds list the rows in the order of the
table and the roles are apart, no transactions wait for account rows in a cycle. -/
theorem postings_not_deadlocked (h₀ : Seeded env d₀) (h : Reachable (genPay env) d₀ s)
    (hone : ∀ t ∈ s.sessions, (settled t.held).length ≤ 1)
    (horder : ∀ t ∈ s.sessions, t.job.isRefunding = true → t.sends ≠ none → ∀ n, (t.oracle n).InOrder)
    (hroles : RolesApart s) : ¬ s.Deadlocked Write.accountLock := by
  have hexclusive : s.Exclusive Write.accountLock := Run.exclusive (fun _ _ _ => waits_of_accountLock) h
  refine hexclusive.not_deadlocked_of_climbs s.db.lockRank (fun t => postedOn t.held) ?_ hroles
  intro t ht id hasks
  obtain ⟨w, hw, hid⟩ := Session.asks_eq_some.1 hasks
  have hheld : t.held = t.txn.writes := by
    unfold Session.sends at hw
    unfold Session.held
    cases hp : t.phase <;> rw [hp] at hw <;> first | rfl | cases hw
  have hgood : ∀ d ∈ t.txn.seen, RankedAndClimbing s.db.lockRank d := by
    intro d hd
    have hinv := Discipline.inv_run (D := ledger env fun _ _ => True) h₀.sound h
    have hranked := hinv.db.ranked.of_extends (hinv.seen t ht d hd).2
    obtain ⟨s', hs', rfl⟩ := Run.seen h ht hd
    exact ⟨hranked, run_climbing h₀ hs' _ hranked⟩
  have hqueueing := Run.sends_next h ht (handle_queueing t.job fun hr => horder t ht hr (by simp [hw])) hw hgood
  cases w with
  | addBalance id' n =>
    cases hid
    have hone := hone t ht
    rw [hheld] at hone
    rw [Session.locked, hheld]
    exact hqueueing _ _ _ rfl hone
  | _ => cases hid

/-! ### Cycles -/

namespace Sample

/-- The researcher buys a record; its transcriptionist, who is to be paid for it, buys it too. -/
def crossing : AppSystem := scheduled Sample.env seeded (fun _ _ => true) (
  [.start (Case.buys "key-1").job (oracle 1),
    .start (.request (keyed (.purchase (some ⟨uuid 0 20, uuid 0 12⟩) (some "key-2")))) (oracle 2)] ++
  List.replicate 26 (.exec 0) ++ List.replicate 22 (.exec 1))

/-- A purchase is refunded, its rows listed by `order`, while the researcher buys again. -/
def rebuying (order : Nat → Choice) (steps : Nat) : AppSystem := scheduled Sample.env seeded (fun _ _ => true) (
  .start (Case.buys "key-1").job (oracle 1) :: List.replicate 35 (.exec 0) ++
  [.start Case.refunds.job order, .start (Case.buys "key-3").job (oracle 3)] ++
  List.replicate 14 (.exec 1) ++ List.replicate steps (.exec 2))

theorem oracle_inOrder (a n : Nat) : (oracle a n).InOrder := fun _ => rfl

/-- The authorizations of one researcher for the records of two archives, and the batch of both. -/
def acrossArchives : List Signed :=
  [.created "evt_1" "auth_1" "USD" "7f74a1245a59facea3823868fe8b59c7fbf479d1e2f27b6dd6534ec235ce8c6e",
    .approved "evt_2" "auth_1" "694e51aee0bbcf45cc098462e760451d1fc311ed2780672811ad64b457b791be",
    .createdFor (uuid 8 1) (uuid 0 16) "evt_3" "auth_2" "USD"
      "3f3bb46c84f4993b466300d093c78170cd820c4772f073b14714f8ba3732fcdc",
    .approved "evt_4" "auth_2" "b0f07328b577de82e0341024bdd197f1f1446514eb5169b019936c3e83c76f04", both]

theorem acrossArchives_sendable : Sendable acrossArchives := ⟨by decide +kernel, by decide +kernel, by decide +kernel⟩

/-- The second archive, another researcher and the record of the archive are created, the events arrive, and the other
researcher buys the record. -/
def batchingJobs : List Job :=
  [.request (keyed (.createArchive (some ⟨"Parish Archive", none, none⟩))),
    .request (keyed (.createUser (some ⟨"John Kin", "john@example.com", .researcher⟩))),
    .request (keyed (.createRecord (some ⟨uuid 6 1, "PARISH-1790-001", "1790 Parish Register", 599, none⟩)))] ++
  (arrivals acrossArchives 5).map Prod.fst ++
  [.request (keyed (.purchase (some ⟨uuid 8 1, uuid 7 1⟩) (some "key-1")))]

def batchingLabels : List (Label Choice Job) := inTurn 6 (batchingJobs.zip [6, 6, 4, 8, 4, 8, 4, 40, 25])

/-- The other jobs have committed.  The batch has credited the platform for the first authorization and is to credit the
second archive; the purchase has credited that archive and is to credit the platform. -/
def batching : AppSystem := scheduled (envOf acrossArchives) seeded (fun _ _ => true) batchingLabels

theorem handleSigned_batchingJobs {job : Job} (h : job ∈ batchingJobs) :
    handleSigned acrossArchives job = handle (envOf acrossArchives) job := by
  simp only [batchingJobs, List.mem_append, List.mem_cons, List.mem_map, List.not_mem_nil, or_false] at h
  rcases h with ((rfl | rfl | rfl) | ⟨r, hr, rfl⟩) | rfl
  · rfl
  · rfl
  · rfl
  · exact handleSigned_arrivals acrossArchives_sendable (by decide) hr
  · rfl

theorem batching_eq : batching = ((System.initial seeded).schedule
    { genPay (envOf acrossArchives) with handle := handleSigned acrossArchives } (fun _ _ => true)
    batchingLabels).getD (System.initial seeded) := by
  refine scheduled_inTurn seeded _ fun job hjob => ?_
  obtain ⟨⟨job, n⟩, hmem, rfl⟩ := List.mem_map.1 hjob
  exact handleSigned_batchingJobs (List.of_mem_zip hmem).1

end Sample

theorem deadlocked_of_pair {i j : Nat} (h : s.WaitsFor Write.accountLock i j) (h' : s.WaitsFor Write.accountLock j i) :
    s.Deadlocked Write.accountLock := ⟨i, (Relation.TransGen.single h).tail h'⟩

open Sample in
/-- Settlements deadlock if one debits the account that another credits; a refund and a settlement, if the refund lists
the rows in another order; a batch of two authorizations and a settlement, though no account is the buyer's in one and
another payee's in the other. -/
theorem postings_deadlock :
    (Reachable (genPay Sample.env) seeded crossing ∧ crossing.Deadlocked Write.accountLock ∧
      ∀ t ∈ crossing.sessions, t.job.isRefunding = false ∧ (settled t.held).length = 1) ∧
    (Reachable (genPay Sample.env) seeded (rebuying backwards 26) ∧
      (rebuying backwards 26).Deadlocked Write.accountLock ∧ RolesApart (rebuying backwards 26) ∧
      ∀ t ∈ (rebuying backwards 26).sessions, (settled t.held).length ≤ 1) ∧
    (Reachable (genPay (envOf acrossArchives)) seeded batching ∧ batching.Deadlocked Write.accountLock ∧
      RolesApart batching ∧ ∀ t ∈ batching.sessions, t.job.isRefunding = false ∧ (settled t.held).length ≤ 2) := by
  have hcrossing : crossing.WaitsFor Write.accountLock 0 1 ∧ crossing.WaitsFor Write.accountLock 1 0 ∧
      ∀ t ∈ crossing.sessions, t.job.isRefunding = false ∧ (settled t.held).length = 1 := by decide +kernel
  have hrebuying : (rebuying backwards 26).WaitsFor Write.accountLock 1 2 ∧
      (rebuying backwards 26).WaitsFor Write.accountLock 2 1 ∧ RolesApart (rebuying backwards 26) ∧
      ∀ t ∈ (rebuying backwards 26).sessions, (settled t.held).length ≤ 1 := by decide +kernel
  have hbatching : batching.WaitsFor Write.accountLock 7 8 ∧ batching.WaitsFor Write.accountLock 8 7 ∧
      RolesApart batching ∧ ∀ t ∈ batching.sessions, t.job.isRefunding = false ∧ (settled t.held).length ≤ 2 := by
    rw [batching_eq]
    decide +kernel
  refine ⟨⟨?_, deadlocked_of_pair hcrossing.1 hcrossing.2.1, hcrossing.2.2⟩,
    ⟨?_, deadlocked_of_pair hrebuying.1 hrebuying.2.1, hrebuying.2.2⟩,
    ⟨?_, deadlocked_of_pair hbatching.1 hbatching.2.1, hbatching.2.2⟩⟩
  · exact run_scheduled (fun _ _ _ => True.intro) _
  · exact run_scheduled (fun _ _ _ => True.intro) _
  · exact run_scheduled (fun _ _ _ => True.intro) _

open Sample in
/-- The refund in the order of the table goes on, the purchase waits. -/
theorem postings_not_deadlocked_rebuying : (rebuying (oracle 2) 18).WaitsFor Write.accountLock 2 1 ∧
    ¬ (rebuying (oracle 2) 18).Deadlocked Write.accountLock := by
  have hstate : (rebuying (oracle 2) 18).WaitsFor Write.accountLock 2 1 ∧
      (∀ t ∈ (rebuying (oracle 2) 18).sessions, (settled t.held).length ≤ 1) ∧ RolesApart (rebuying (oracle 2) 18) := by
    decide +kernel
  refine ⟨hstate.1, ?_⟩
  refine postings_not_deadlocked seeded_env (run_scheduled (fun _ _ _ => True.intro) _) hstate.2.1 ?_ hstate.2.2
  · intro t ht _ _ n
    have hlabel := started_of_scheduled ht
    simp only [List.cons_append, List.append_assoc, List.mem_cons, List.mem_append, List.mem_replicate, reduceCtorEq,
      and_false, Label.start.injEq, or_false, false_or, List.nil_append] at hlabel
    rcases hlabel with ⟨-, ho⟩ | ⟨-, ho⟩ | ⟨-, ho⟩
    · exact ho ▸ oracle_inOrder 1 n
    · exact ho ▸ oracle_inOrder 2 n
    · exact ho ▸ oracle_inOrder 3 n

end GenPay
