import GenPay.ReadCommitted.Serial

/-!
# Programs that run alone

Rules for `Prog.run`.  `Prog.Ends` says of a program run on a database that no one else changes both what holds
when it returns and what holds when it does not, so that one derivation shows when it returns; `serve_ends` turns
it into a statement about the answer to a job.
-/

namespace ReadCommitted

variable {Db Write Error Choice Job α β : Type} {E : Engine Db Write Error} {o : Nat → Choice} {d : Db}

/-- The database as the transaction sees it. -/
def Txn.view (t : Txn Db Write) (E : Engine Db Write Error) (d : Db) : Db := E.view d t.writes

@[simp] theorem Txn.view_fresh : (Txn.fresh : Txn Db Write).view E d = d := rfl

@[simp] theorem Txn.view_saw (t : Txn Db Write) (x : Db) : (t.saw x).view E d = t.view E d := rfl

@[simp] theorem Txn.view_dropped (t : Txn Db Write) (x : Db) : (t.dropped x).view E d = d := rfl

@[simp] theorem Txn.view_wrote (t : Txn Db Write) (x : Db) (w : Write) :
    (t.wrote x w).view E d = E.apply (t.view E d) w := by
  unfold Txn.view
  rw [wrote_writes, E.view_append]
  rfl

namespace Prog

variable {p : Prog Db Write Error Choice α} {f : α → Prog Db Write Error Choice β} {t : Txn Db Write}

theorem run_write (w : Write) (k : Option Error → Prog Db Write Error Choice α) (t : Txn Db Write) :
    (write w k).run E o d t = match E.violation (t.view E d) w with
      | none => (k none).run E o d (t.wrote d w)
      | some e => (k (some e)).run E o d (t.saw d) := by
  rw [Prog.run]
  rfl

theorem run_exec (w : Write) (t : Txn Db Write) : (exec w : Prog Db Write Error Choice Unit).run E o d t =
    match E.violation (t.view E d) w with
    | none => (.ok (), t.wrote d w)
    | some e => (.error e, t.saw d) := by
  unfold exec
  rw [run_write]
  cases E.violation (t.view E d) w <;> rfl

theorem run_bind (p : Prog Db Write Error Choice α) (f : α → Prog Db Write Error Choice β) (t : Txn Db Write) :
    (p >>= f).run E o d t = match p.run E o d t with
      | (.ok a, t') => (f a).run E o d t'
      | (.error e, t') => (.error e, t') := by
  show (p.bind f).run E o d t = _
  induction p generalizing t with
  | ret a => rfl
  | raise e => rfl
  | select q k ih => exact ih _ _
  | write w k ih =>
    show (write w fun r => (k r).bind f).run E o d t = _
    rw [run_write, run_write]
    cases E.violation (t.view E d) w with
    | none => exact ih _ _
    | some e => exact ih _ _
  | rollback k ih => exact ih _

theorem run_tryCatch (p : Prog Db Write Error Choice α) (h : Error → Prog Db Write Error Choice α) (t : Txn Db Write) :
    (p.tryCatch h).run E o d t = match p.run E o d t with
      | (.ok a, t') => (.ok a, t')
      | (.error e, t') => (h e).run E o d t' := by
  induction p generalizing t with
  | ret a => rfl
  | raise e => rfl
  | select q k ih => exact ih _ _
  | write w k ih =>
    show (write w fun r => (k r).tryCatch h).run E o d t = _
    rw [run_write, run_write]
    cases E.violation (t.view E d) w with
    | none => exact ih _ _
    | some e => exact ih _ _
  | rollback k ih => exact ih _

/-- Run alone from `t`, the program returns and `P` holds, or it raises and `F` holds. -/
def Ends (E : Engine Db Write Error) (o : Nat → Choice) (d : Db) (p : Prog Db Write Error Choice α)
    (P : α → Txn Db Write → Prop) (F : Prop) (t : Txn Db Write) : Prop :=
  match p.run E o d t with
  | (.ok a, t') => P a t'
  | (.error _, _) => F

variable {P Q : α → Txn Db Write → Prop} {R : β → Txn Db Write → Prop} {F X : Prop}

@[simp] theorem ends_ret (a : α) : (ret a : Prog Db Write Error Choice α).Ends E o d P F t = P a t := rfl

@[simp] theorem ends_pure (a : α) : (pure a : Prog Db Write Error Choice α).Ends E o d P F t = P a t := rfl

@[simp] theorem ends_raise (e : Error) : (raise e : Prog Db Write Error Choice α).Ends E o d P F t = F := rfl

@[simp] theorem ends_query (q : Choice → Db → α) : (query q : Prog Db Write Error Choice α).Ends E o d P F t =
    P (q (o t.seen.length) (t.view E d)) (t.saw d) := rfl

theorem Ends.mono (h : p.Ends E o d P F t) (hP : ∀ a t', P a t' → Q a t') (hF : F → X) : p.Ends E o d Q X t := by
  unfold Ends at *
  split <;> rename_i hr <;> rw [hr] at h
  · exact hP _ _ h
  · exact hF h

theorem ends_bind (h : p.Ends E o d (fun a t' => (f a).Ends E o d R F t') F t) : (p >>= f).Ends E o d R F t := by
  unfold Ends at *
  rw [run_bind]
  split at h
  · exact h
  · exact h

/-- Two programs in sequence; that the first one raises is a reason for both to raise. -/
theorem ends_seq (hp : p.Ends E o d P X t) (hF : X → F) (hf : ∀ a t', P a t' → (f a).Ends E o d R F t') :
    (p >>= f).Ends E o d R F t :=
  ends_bind (hp.mono hf hF)

theorem ends_exec (w : Write) : (exec w : Prog Db Write Error Choice Unit).Ends E o d
    (fun _ t' => t' = t.wrote d w ∧ E.violation (t.view E d) w = none) (E.violation (t.view E d) w ≠ none) t := by
  unfold Ends
  rw [run_exec]
  cases hv : E.violation (t.view E d) w with
  | none => exact ⟨rfl, rfl⟩
  | some e => exact Option.some_ne_none e

/-- A write that nothing forbids. -/
theorem ends_write {w : Write} {k : Option Error → Prog Db Write Error Choice α} (hv : E.violation (t.view E d) w = none)
    (h : (k none).Ends E o d P F (t.wrote d w)) : (write w k).Ends E o d P F t := by
  unfold Ends
  rw [run_write, hv]
  exact h

/-- A handler that raises in its turn. -/
theorem ends_tryCatch {h : Error → Prog Db Write Error Choice α} (hp : p.Ends E o d P F t)
    (hh : ∀ e, ∃ e', h e = raise e') : (p.tryCatch h).Ends E o d P F t := by
  unfold Ends at *
  rw [run_tryCatch]
  split at hp
  · exact hp
  · rename_i e _ _
    obtain ⟨e', he⟩ := hh e
    rw [he]
    exact hp

/-- What a program returns alone, it returns among others. -/
theorem Ends.and (h : p.Ends E o d P F t) (hwp : p.wp E o (onOk Q) t) :
    p.Ends E o d (fun a t' => P a t' ∧ Q a t') F t := by
  have hrun := run_wp (d := d) hwp
  unfold Ends at *
  split at h <;> rename_i hr <;> rw [hr] at hrun
  · exact ⟨h, hrun⟩
  · exact h

/-- What a program writes alone clashes with nothing. -/
theorem Ends.free {Key : Type} {K : Keys E Key} (h : p.Ends E o d P F t) (ht : K.Free d t.writes) :
    p.Ends E o d (fun a t' => P a t' ∧ K.Free d t'.writes) F t := by
  have hfree := run_free (o := o) K p t ht
  unfold Ends at *
  split at h <;> rename_i hr <;> rw [hr] at hfree
  · exact ⟨h, hfree⟩
  · exact h

theorem ends_ok {a : α} {t' : Txn Db Write} (h : p.Ends E o d P F t) (hr : p.run E o d t = (.ok a, t')) : P a t' := by
  unfold Ends at h
  rw [hr] at h
  exact h

/-- Without a reason to raise, the program returns. -/
theorem exists_ok (h : p.Ends E o d P F t) (hF : ¬ F) : ∃ a t', p.run E o d t = (.ok a, t') ∧ P a t' := by
  unfold Ends at h
  split at h
  · rename_i hr
    exact ⟨_, _, hr, h⟩
  · exact absurd h hF

/-- The exceptions that the program ends with, run alone from `t`. -/
def Raises (E : Engine Db Write Error) (o : Nat → Choice) (d : Db) (p : Prog Db Write Error Choice α)
    (Y : Error → Txn Db Write → Prop) (t : Txn Db Write) : Prop :=
  ∀ e t', p.run E o d t = (.error e, t') → Y e t'

variable {Y Z : Error → Txn Db Write → Prop}

theorem raises_ret (a : α) : (ret a : Prog Db Write Error Choice α).Raises E o d Y t := by
  intro e t' hr
  cases hr

theorem raises_raise {e : Error} (h : Y e t) : (raise e : Prog Db Write Error Choice α).Raises E o d Y t := by
  intro e' t' hr
  cases hr
  exact h

theorem Raises.mono (h : p.Raises E o d Y t) (hY : ∀ e t', Y e t' → Z e t') : p.Raises E o d Z t :=
  fun e t' hr => hY e t' (h e t' hr)

/-- What always returns raises nothing. -/
theorem Ends.raises (h : p.Ends E o d P False t) : p.Raises E o d Y t := by
  intro e t' hr
  unfold Ends at h
  rw [hr] at h
  exact h.elim

/-- Two programs in sequence; what is known when the first one returns is used for the second. -/
theorem raises_seq (hp : p.Raises E o d Y t) (hends : p.Ends E o d P F t)
    (hf : ∀ a t', P a t' → (f a).Raises E o d Y t') : (p >>= f).Raises E o d Y t := by
  intro e t' hr
  rw [run_bind] at hr
  unfold Ends at hends
  split at hends
  · rename_i a t₁ hp₁
    rw [hp₁] at hr
    exact hf a t₁ hends e t' hr
  · rename_i e₁ t₁ hp₁
    rw [hp₁] at hr
    cases hr
    exact hp _ _ hp₁

theorem ends_true : p.Ends E o d (fun _ _ => True) True t := by
  unfold Ends
  split <;> exact True.intro

/-- After a program that always returns. -/
theorem raises_after (hends : p.Ends E o d P False t) (hf : ∀ a t', P a t' → (f a).Raises E o d Y t') :
    (p >>= f).Raises E o d Y t := raises_seq hends.raises hends hf

theorem raises_exec {w : Write} (h : ∀ e, E.violation (t.view E d) w = some e → Y e (t.saw d)) :
    (exec w : Prog Db Write Error Choice Unit).Raises E o d Y t := by
  intro e t' hr
  rw [run_exec] at hr
  cases hv : E.violation (t.view E d) w with
  | none =>
    rw [hv] at hr
    cases hr
  | some e' =>
    rw [hv] at hr
    cases hr
    exact h _ hv

end Prog

/-- The answer to a job, and the database it leaves. -/
theorem Service.serve_ends {S : Service Db Write Error Choice Job α} {r : Job} {P : α → Txn Db Write → Prop} {F : Prop}
    (h : (S.handle r).Ends S.toEngine o d P F Txn.fresh) :
    (∃ a t, S.serve r o d = (.ok a, t.view S.toEngine d) ∧ P a t) ∨ (∃ e, S.serve r o d = (.error e, d)) ∧ F := by
  have hserve : S.serve r o d = match (S.handle r).run S.toEngine o d Txn.fresh with
      | (.ok a, t) => (.ok a, S.view d t.writes)
      | (.error e, _) => (.error e, d) := rfl
  unfold Prog.Ends at h
  rcases hr : (S.handle r).run S.toEngine o d Txn.fresh with ⟨e | a, t⟩
  · rw [hr] at h hserve
    exact Or.inr ⟨⟨e, hserve⟩, h⟩
  · rw [hr] at h hserve
    exact Or.inl ⟨a, t, hserve, h⟩

end ReadCommitted
