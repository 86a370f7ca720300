import GenPay.Refinement
import GenPay.ReadCommitted.Alone

/-!
# Repositories on an undisturbed database

What the repository functions and the posting of entries do when no other session commits in between, and when they
raise.  The only reason for an insert of generated ids to fail is a clash of ids, so the results that something
succeeds assume `FreshFrom`: `uuid4` has not returned the ids before.
-/

namespace GenPay

open ReadCommitted DoubleEntry
open Prog (ends_seq ends_bind ends_exec)

variable {fk : Bool} {o : Nat → Choice} {d : Db} {t t' t'' : Txn Db Write} {ws ws' : List Write}

/-! ### Generated ids -/

/-- The columns that `uuid4` fills. -/
def idColumns : List Column :=
  [.usersId, .archivesId, .recordsId, .accountsId, .clientsId, .authorizationsId, .settlementsId, .transactionsId]

/-- From the `n`th statement on, `uuid4` returns ids that are new and differ from each other. -/
structure FreshFrom (o : Nat → Choice) (n : Nat) (d : Db) : Prop where
  distinct : ∀ i j, n ≤ i → n ≤ j → (o i).uuid = (o j).uuid → i = j
  new : ∀ i, n ≤ i → ∀ c ∈ idColumns, (o i).uuid ∉ d.column c

/-- The ids a write inserts are those of the statements from `n` to `m`. -/
theorem FreshFrom.apply {n m : Nat} {w : Write} (h : FreshFrom o n d) (hm : n ≤ m)
    (hw : ∀ k ∈ w.keys, k.1 ∈ idColumns → ∃ i, n ≤ i ∧ i < m ∧ k.2 = (o i).uuid) : FreshFrom o m (d.apply w) where
  distinct i j hi hj := h.distinct i j (hm.trans hi) (hm.trans hj)
  new i hi c hc hmem := by
    rw [Db.column_apply, List.mem_append, Write.mem_valuesIn] at hmem
    rcases hmem with hold | hnew
    · exact h.new i (hm.trans hi) c hc hold
    · obtain ⟨j, hj, hjm, he⟩ := hw _ hnew hc
      have := h.distinct i j (hm.trans hi) hj he
      omega

/-- From `t` to `t'` the transaction has written `ws`, and if the ids to come were new, they still are. -/
structure Advances (fk : Bool) (o : Nat → Choice) (d : Db) (t t' : Txn Db Write) (ws : List Write) : Prop where
  writes : t'.writes = t.writes ++ ws
  fresh : FreshFrom o t.seen.length (t.view (engine fk) d) → FreshFrom o t'.seen.length (t'.view (engine fk) d)

namespace Advances

theorem refl (t : Txn Db Write) : Advances fk o d t t [] := ⟨by simp, id⟩

theorem trans (h : Advances fk o d t t' ws) (h' : Advances fk o d t' t'' ws') : Advances fk o d t t'' (ws ++ ws') :=
  ⟨by rw [h'.writes, h.writes, List.append_assoc], h'.fresh ∘ h.fresh⟩

theorem view (h : Advances fk o d t t' ws) : t'.view (engine fk) d = (engine fk).view (t.view (engine fk) d) ws := by
  unfold Txn.view
  rw [h.writes, Engine.view_append]

theorem saw (t : Txn Db Write) : Advances fk o d t (t.saw d) [] := by
  refine ⟨by simp, fun h => ⟨fun i j hi hj => ?_, fun i hi => ?_⟩⟩
  all_goals rw [Txn.saw_seen, List.length_append] at hi
  · rw [Txn.saw_seen, List.length_append] at hj
    exact h.distinct i j (by omega) (by omega)
  · exact h.new i (by omega)

/-- A write without generated ids. -/
theorem wrote {w : Write} (hw : ∀ k ∈ w.keys, k.1 ∉ idColumns) : Advances fk o d t (t.wrote d w) [w] := by
  refine ⟨by simp, fun h => ?_⟩
  rw [Txn.view_wrote]
  refine h.apply (by simp) fun k hk hc => absurd hc (hw k hk)

/-- A row under the id that the statement before has drawn. -/
theorem inserted {w : Write} (hw : ∀ k ∈ w.keys, k.1 ∈ idColumns → k.2 = (o t.seen.length).uuid) :
    Advances fk o d t ((t.saw d).wrote d w) [w] := by
  refine ⟨by simp, fun h => ?_⟩
  rw [Txn.view_wrote]
  exact h.apply (by simp) fun k hk hc => ⟨t.seen.length, le_refl _, by simp, hw k hk hc⟩

/-- Rows stay in the view. -/
theorem column (h : Advances fk o d t t' ws) {c : Column} {x : String} (hx : x ∈ (t.view (engine fk) d).column c) :
    x ∈ (t'.view (engine fk) d).column c := by
  rw [h.view]
  exact (uniqueKeys fk).mem_view (k := (c, x)) |>.2 (Or.inl hx)

theorem inserts (h : Advances fk o d t t' ws) {w : Write} (hw : w ∈ ws) {c : Column} {x : String}
    (hx : (c, x) ∈ w.keys) : x ∈ (t'.view (engine fk) d).column c := by
  rw [h.view]
  exact (uniqueKeys fk).mem_view (k := (c, x)) |>.2 (Or.inr (List.mem_flatMap.2 ⟨w, hw, hx⟩))

end Advances

/-! ### Statements -/

theorem scalar_ends {β : Type} {table : Db → List β} {p : β → Bool} :
    (scalar table p).Ends (engine fk) o d (fun r t' => t' = t.saw d ∧
      (∀ x, r = some x → x ∈ table (t.view (engine fk) d) ∧ p x = true) ∧
      (r = none → ∀ x ∈ table (t.view (engine fk) d), p x = false)) False t := by
  refine ⟨rfl, fun x hx => ?_, fun hn x hx => ?_⟩
  · exact List.mem_filter.1 (Choice.mem_arrange.1 (List.mem_of_mem_head? hx))
  · by_contra hp
    have hnil : (o t.seen.length).arrange ((table (t.view (engine fk) d)).filter p) = [] := List.head?_eq_none_iff.1 hn
    have hmem := Choice.mem_arrange (c := o t.seen.length).2 (List.mem_filter.2 ⟨hx, by simpa using hp⟩)
    rw [hnil] at hmem
    cases hmem

theorem scalar_run {β : Type} (fk : Bool) (o : Nat → Choice) (d : Db) (t : Txn Db Write) (table : Db → List β)
    (p : β → Bool) : ∃ r, (scalar table p).run (engine fk) o d t = (.ok r, t.saw d) ∧
      (∀ x, r = some x → x ∈ table (t.view (engine fk) d) ∧ p x = true) ∧
      (r = none → ∀ x ∈ table (t.view (engine fk) d), p x = false) := by
  obtain ⟨r, t', hr, rfl, hr'⟩ := Prog.exists_ok (@scalar_ends fk o d t β table p) id
  exact ⟨r, hr, hr'⟩

/-- The shape of all creators. -/
theorem insert_ends {β : Type} {f : Choice → β} {w : β → Write} :
    (do let c ← draw; Prog.exec (w (f c)); return f c : Tx β).Ends (engine fk) o d
      (fun a t' => a = f (o t.seen.length) ∧ t' = (t.saw d).wrote d (w a) ∧
        (t.view (engine fk) d).violation fk (w a) = none)
      ((t.view (engine fk) d).violation fk (w (f (o t.seen.length))) ≠ none) t := by
  refine ends_seq (X := False) (P := fun c t' => c = o t.seen.length ∧ t' = t.saw d) ⟨rfl, rfl⟩ False.elim ?_
  rintro _ _ ⟨rfl, rfl⟩
  refine ends_seq (ends_exec _) id ?_
  rintro _ _ ⟨rfl, hv⟩
  exact ⟨rfl, rfl, hv⟩

/-! ### Posting -/

theorem adjustBalance_ends {id : String} {delta : Int} :
    (LedgerAccountRepository.adjustBalance id delta).Ends (engine fk) o d
      (fun _ t' => Advances fk o d t t' [.addBalance id delta])
      (id ∉ (t.view (engine fk) d).column .accountsId) t := by
  unfold LedgerAccountRepository.adjustBalance
  have hcolumn : ((t.wrote d (.addBalance id delta)).view (engine fk) d).column .accountsId =
      (t.view (engine fk) d).column .accountsId := by
    rw [Txn.view_wrote]
    show ((t.view (engine fk) d).apply (.addBalance id delta)).column .accountsId = _
    rw [Db.column_apply]
    simp [Write.valuesIn, Write.keys]
  refine ends_seq (ends_exec _) (fun hv => absurd ?_ hv) ?_
  · exact Db.violation_eq_none.2 ⟨by simp [Write.keys], by simp [Write.references], rfl⟩
  rintro _ _ ⟨rfl, -⟩
  refine ends_seq scalar_ends False.elim ?_
  rintro r _ ⟨rfl, -, hnone⟩
  cases r with
  | some account => exact (Advances.wrote (by simp [Write.keys])).trans (Advances.saw _)
  | none =>
    intro hmem
    rw [← hcolumn] at hmem
    obtain ⟨a, ha, hid⟩ := List.mem_map.1 hmem
    simpa [hid] using hnone rfl a ha

/-- What posting an entry needs. -/
def Postable (d : Db) (settlementId : String) (entries : List LedgerEntry) : Prop :=
  settlementId ∈ d.column .settlementsId ∧ ∀ e ∈ entries, e.ledgerAccountId ∈ d.column .accountsId

theorem Postable.advance {sid : String} {es : List LedgerEntry} (h : Postable (t.view (engine fk) d) sid es)
    (ha : Advances fk o d t t' ws) : Postable (t'.view (engine fk) d) sid es :=
  ⟨ha.column h.1, fun e he => ha.column (h.2 e he)⟩

theorem postEntry_ends {sid : String} {e : LedgerEntry} :
    (postEntry sid e).Ends (engine fk) o d
      (fun x t' => Advances fk o d t t' [.insertTransaction x, .addBalance x.ledgerAccountId x.delta] ∧
        x.currency = "USD")
      (¬ (FreshFrom o t.seen.length (t.view (engine fk) d) ∧ Postable (t.view (engine fk) d) sid [e])) t := by
  unfold postEntry
  refine ends_seq insert_ends ?_ ?_
  · rintro hv ⟨hfresh, hsettlement, haccount⟩
    refine hv (Db.violation_eq_none.2 ⟨fun k hk => ?_, fun _ k hk => ?_, rfl⟩)
    · rw [List.mem_singleton.1 hk]
      exact hfresh.new _ (le_refl _) .transactionsId (by decide)
    · rcases List.mem_pair.1 hk with rfl | rfl
      · exact haccount e (by simp)
      · exact hsettlement
  rintro x t₁ ⟨rfl, rfl, -⟩
  have hinsert : Advances fk o d t _ _ := Advances.inserted
    (w := .insertTransaction ⟨(o t.seen.length).uuid, e.ledgerAccountId, sid, e.type, e.amountCents, "USD", .posted,
      (o t.seen.length).now⟩) (by simp [Write.keys])
  refine ends_seq adjustBalance_ends ?_ ?_
  · rintro hno ⟨-, hpost⟩
    exact hno ((hpost.advance hinsert).2 e (by simp))
  · intro _ t₂ hadjust
    exact ⟨hinsert.trans hadjust, rfl⟩

theorem postEach_ends {sid : String} (es : List LedgerEntry) : ∀ t : Txn Db Write,
    (postEach sid es).Ends (engine fk) o d
      (fun ts t' => Advances fk o d t t' (postings ts) ∧ ∀ x ∈ ts, x.currency = "USD")
      (¬ (FreshFrom o t.seen.length (t.view (engine fk) d) ∧ Postable (t.view (engine fk) d) sid es)) t := by
  induction es with
  | nil => exact fun t => ⟨Advances.refl t, fun x hx => by cases hx⟩
  | cons e es ih =>
    intro t
    refine ends_seq postEntry_ends ?_ ?_
    · rintro hno ⟨hfresh, hpost⟩
      exact hno ⟨hfresh, hpost.1, fun e' he' => hpost.2 e' (by simp [List.mem_singleton.1 he'])⟩
    rintro x t₁ ⟨hx, hcurrency⟩
    refine ends_seq (ih t₁) ?_ ?_
    · rintro hno ⟨hfresh, hpost⟩
      exact hno ⟨hx.fresh hfresh, (hpost.advance hx).1, fun e' he' => (hpost.advance hx).2 e' (by simp [he'])⟩
    · rintro ts t₂ ⟨hts, hcurrencies⟩
      exact ⟨hx.trans hts, List.forall_mem_cons.2 ⟨hcurrency, hcurrencies⟩⟩

theorem postEntries_ends {sid : String} {es : List LedgerEntry} (hb : totalOf .debit es = totalOf .credit es) :
    (postEntries sid es).Ends (engine fk) o d
      (fun ts t' => Advances fk o d t t' (postings ts) ∧ Posted sid es ts ∧ ∀ x ∈ ts, x.currency = "USD")
      (¬ (FreshFrom o t.seen.length (t.view (engine fk) d) ∧ Postable (t.view (engine fk) d) sid es)) t := by
  have hends : (postEntries sid es).Ends (engine fk) o d
      (fun ts t' => Advances fk o d t t' (postings ts) ∧ ∀ x ∈ ts, x.currency = "USD")
      (¬ (FreshFrom o t.seen.length (t.view (engine fk) d) ∧ Postable (t.view (engine fk) d) sid es)) t := by
    unfold postEntries
    rw [if_neg (not_not.2 hb)]
    exact postEach_ends es t
  exact (hends.and postEntries_spec).mono (fun ts t' h => ⟨h.1.1, h.2.2, h.1.2⟩) id

end GenPay
