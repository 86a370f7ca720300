import Mathlib.Data.List.Basic

/-!
# Transaction programs and their weakest preconditions

A transaction is a program of SQL statements: it reads the database, sends single writes and may roll back what
it has written so far.  Under READ COMMITTED every statement sees the rows committed before it started together
with the writes of its own transaction, so between two statements the committed database may be any other one.
`Prog.wp` quantifies over all of them and records each in the trace `Txn.seen`; a fact read from the database is
therefore a fact about a member of `seen`.
-/

namespace ReadCommitted

/-- A database engine: the effect of a write, the constraint a write violates in the view of its transaction,
whether a write has to wait for an open transaction that holds another one, and the error of a statement whose
transaction the engine ends. -/
structure Engine (Db Write Error : Type) where
  apply : Db → Write → Db
  violation : Db → Write → Option Error
  waits : Write → Write → Bool
  aborted : Error

/-- A transaction program with results in `α`.  A statement draws on a `Choice` for what neither the program nor
the database determines (generated ids, the server clock, the order of rows without `ORDER BY`). -/
inductive Prog (Db Write Error Choice α : Type) : Type 1
  | ret (a : α)
  | raise (e : Error)
  | select {β : Type} (q : Choice → Db → β) (k : β → Prog Db Write Error Choice α)
  | write (w : Write) (k : Option Error → Prog Db Write Error Choice α)
  | rollback (k : Prog Db Write Error Choice α)

/-- An open transaction: the writes it holds, and the committed database at each of its statements so far. -/
structure Txn (Db Write : Type) where
  writes : List Write
  seen : List Db

variable {Db Write Error Choice α β : Type}

/-- The database as a transaction with the writes `ws` sees it. -/
def Engine.view (E : Engine Db Write Error) (d : Db) (ws : List Write) : Db := ws.foldl E.apply d

@[simp] theorem Engine.view_nil (E : Engine Db Write Error) (d : Db) : E.view d [] = d := rfl

theorem Engine.view_cons (E : Engine Db Write Error) (d : Db) (w : Write) (ws : List Write) :
    E.view d (w :: ws) = E.view (E.apply d w) ws := rfl

theorem Engine.view_append (E : Engine Db Write Error) (d : Db) (ws ws' : List Write) :
    E.view d (ws ++ ws') = E.view (E.view d ws) ws' := by
  unfold Engine.view; exact List.foldl_append

namespace Txn

/-- A transaction before its first statement. -/
def fresh : Txn Db Write := ⟨[], []⟩

def saw (t : Txn Db Write) (d : Db) : Txn Db Write := { t with seen := t.seen ++ [d] }

def wrote (t : Txn Db Write) (d : Db) (w : Write) : Txn Db Write := ⟨t.writes ++ [w], t.seen ++ [d]⟩

def dropped (t : Txn Db Write) (d : Db) : Txn Db Write := ⟨[], t.seen ++ [d]⟩

@[simp] theorem fresh_writes : (fresh : Txn Db Write).writes = [] := rfl
@[simp] theorem fresh_seen : (fresh : Txn Db Write).seen = [] := rfl
@[simp] theorem saw_writes (t : Txn Db Write) (d : Db) : (t.saw d).writes = t.writes := rfl
@[simp] theorem saw_seen (t : Txn Db Write) (d : Db) : (t.saw d).seen = t.seen ++ [d] := rfl
@[simp] theorem wrote_writes (t : Txn Db Write) (d : Db) (w : Write) :
    (t.wrote d w).writes = t.writes ++ [w] := rfl
@[simp] theorem wrote_seen (t : Txn Db Write) (d : Db) (w : Write) : (t.wrote d w).seen = t.seen ++ [d] := rfl
@[simp] theorem dropped_writes (t : Txn Db Write) (d : Db) : (t.dropped d).writes = [] := rfl
@[simp] theorem dropped_seen (t : Txn Db Write) (d : Db) : (t.dropped d).seen = t.seen ++ [d] := rfl

/-- From `t` to `t'` the transaction has written `ws` and rolled nothing back. -/
structure Grew (t t' : Txn Db Write) (ws : List Write) : Prop where
  writes : t'.writes = t.writes ++ ws
  seen : t.seen <+: t'.seen

namespace Grew

variable {t t' t'' : Txn Db Write} {ws ws' : List Write}

theorem refl (t : Txn Db Write) : t.Grew t [] := ⟨by simp, List.prefix_rfl⟩

theorem trans (h : t.Grew t' ws) (h' : t'.Grew t'' ws') : t.Grew t'' (ws ++ ws') :=
  ⟨by rw [h'.writes, h.writes, List.append_assoc], h.seen.trans h'.seen⟩

theorem saw (t : Txn Db Write) (d : Db) : t.Grew (t.saw d) [] := ⟨by simp, by simp⟩

theorem wrote (t : Txn Db Write) (d : Db) (w : Write) : t.Grew (t.wrote d w) [w] := ⟨by simp, by simp⟩

theorem mem (h : t.Grew t' ws) {d : Db} (hd : d ∈ t.seen) : d ∈ t'.seen := h.seen.subset hd

theorem exists_mem (h : t.Grew t' ws) {P : Db → Prop} (hp : ∃ d ∈ t.seen, P d) : ∃ d ∈ t'.seen, P d := by
  obtain ⟨d, hd, hP⟩ := hp
  exact ⟨d, h.mem hd, hP⟩

end Grew

end Txn

namespace Prog

def bind (p : Prog Db Write Error Choice α) (f : α → Prog Db Write Error Choice β) :
    Prog Db Write Error Choice β :=
  match p with
  | ret a => f a
  | raise e => raise e
  | select q k => select q fun b => (k b).bind f
  | write w k => write w fun r => (k r).bind f
  | rollback k => rollback (k.bind f)

/-- `try p except e: h e`. -/
def tryCatch (p : Prog Db Write Error Choice α) (h : Error → Prog Db Write Error Choice α) :
    Prog Db Write Error Choice α :=
  match p with
  | ret a => ret a
  | raise e => h e
  | select q k => select q fun b => (k b).tryCatch h
  | write w k => write w fun r => (k r).tryCatch h
  | rollback k => rollback (k.tryCatch h)

instance : Monad (Prog Db Write Error Choice) where
  pure := ret
  bind := bind

/-- One write; a violated constraint is raised. -/
def exec (w : Write) : Prog Db Write Error Choice Unit :=
  write w fun r => match r with
    | none => ret ()
    | some e => raise e

/-- One read. -/
def query (q : Choice → Db → β) : Prog Db Write Error Choice β := select q ret

/-! ### Weakest preconditions -/

/-- What a transaction ends with: a result or an exception, and its trace. -/
abbrev Post (Db Write Error α : Type) := Except Error α → Txn Db Write → Prop

/-- `Q` holds however the program ends, whatever is committed by others between its statements. -/
def wp (E : Engine Db Write Error) (o : Nat → Choice) :
    Prog Db Write Error Choice α → Post Db Write Error α → Txn Db Write → Prop
  | ret a, Q, t => Q (.ok a) t
  | raise e, Q, t => Q (.error e) t
  | select q k, Q, t => ∀ d, (k (q (o t.seen.length) (E.view d t.writes))).wp E o Q (t.saw d)
  | write w k, Q, t => ∀ d,
      match E.violation (E.view d t.writes) w with
      | none => (k none).wp E o Q (t.wrote d w)
      | some e => (k (some e)).wp E o Q (t.saw d)
  | rollback k, Q, t => ∀ d, k.wp E o Q (t.dropped d)

/-- Only a normal return is constrained. -/
def onOk (P : α → Txn Db Write → Prop) : Post Db Write Error α
  | .ok a, t => P a t
  | .error _, _ => True

variable {E : Engine Db Write Error} {o : Nat → Choice}

@[simp] theorem onOk_ok (P : α → Txn Db Write → Prop) (a : α) (t : Txn Db Write) :
    (onOk P : Post Db Write Error α) (.ok a) t = P a t := rfl

@[simp] theorem onOk_error (P : α → Txn Db Write → Prop) (e : Error) (t : Txn Db Write) :
    onOk P (.error e) t = True := rfl

@[simp] theorem wp_ret (a : α) (Q : Post Db Write Error α) (t : Txn Db Write) :
    (ret a : Prog Db Write Error Choice α).wp E o Q t = Q (.ok a) t := rfl

@[simp] theorem wp_pure (a : α) (Q : Post Db Write Error α) (t : Txn Db Write) :
    (pure a : Prog Db Write Error Choice α).wp E o Q t = Q (.ok a) t := rfl

@[simp] theorem wp_raise (e : Error) (Q : Post Db Write Error α) (t : Txn Db Write) :
    (raise e : Prog Db Write Error Choice α).wp E o Q t = Q (.error e) t := rfl

@[simp] theorem wp_query (q : Choice → Db → α) (Q : Post Db Write Error α) (t : Txn Db Write) :
    (query q : Prog Db Write Error Choice α).wp E o Q t =
      ∀ d, Q (.ok (q (o t.seen.length) (E.view d t.writes))) (t.saw d) := rfl

/-- The rule of consequence. -/
theorem wp_mono {p : Prog Db Write Error Choice α} {Q Q' : Post Db Write Error α} {t : Txn Db Write}
    (h : p.wp E o Q t) (hQ : ∀ r t', Q r t' → Q' r t') : p.wp E o Q' t := by
  induction p generalizing t with
  | ret a => exact hQ _ _ h
  | raise e => exact hQ _ _ h
  | select q k ih => exact fun d => ih _ (h d)
  | write w k ih =>
    intro d
    have hd := h d
    cases hv : E.violation (E.view d t.writes) w with
    | none => rw [hv] at hd; exact ih _ hd
    | some e => rw [hv] at hd; exact ih _ hd
  | rollback k ih => exact fun d => ih (h d)

/-- Two specifications of one program. -/
theorem wp_and {p : Prog Db Write Error Choice α} {Q Q' : Post Db Write Error α} {t : Txn Db Write}
    (h : p.wp E o Q t) (h' : p.wp E o Q' t) : p.wp E o (fun r t' => Q r t' ∧ Q' r t') t := by
  induction p generalizing t with
  | ret a => exact ⟨h, h'⟩
  | raise e => exact ⟨h, h'⟩
  | select q k ih => exact fun d => ih _ (h d) (h' d)
  | write w k ih =>
    intro d
    have hd := h d
    have hd' := h' d
    cases hv : E.violation (E.view d t.writes) w with
    | none => rw [hv] at hd hd'; exact ih _ hd hd'
    | some e => rw [hv] at hd hd'; exact ih _ hd hd'
  | rollback k ih => exact fun d => ih (h d) (h' d)

/-- Sequencing: the rest runs from the trace its first part leaves; an exception skips it. -/
theorem wp_bind {p : Prog Db Write Error Choice α} {f : α → Prog Db Write Error Choice β}
    {Q : Post Db Write Error β} {t : Txn Db Write}
    (h : p.wp E o (fun r t' => match r with
      | .ok a => (f a).wp E o Q t'
      | .error e => Q (.error e) t') t) : (p >>= f).wp E o Q t := by
  show (p.bind f).wp E o Q t
  induction p generalizing t with
  | ret a => exact h
  | raise e => exact h
  | select q k ih => exact fun d => ih _ (h d)
  | write w k ih =>
    intro d
    have hd := h d
    cases hv : E.violation (E.view d t.writes) w with
    | none => rw [hv] at hd; exact ih _ hd
    | some e => rw [hv] at hd; exact ih _ hd
  | rollback k ih => exact fun d => ih (h d)

theorem wp_bind_onOk {p : Prog Db Write Error Choice α} {f : α → Prog Db Write Error Choice β}
    {P : β → Txn Db Write → Prop} {t : Txn Db Write}
    (h : p.wp E o (onOk fun a t' => (f a).wp E o (onOk P) t') t) : (p >>= f).wp E o (onOk P) t := by
  refine wp_bind (wp_mono h ?_)
  intro r t' hr
  cases r with
  | ok a => exact hr
  | error e => exact True.intro

/-- Two programs in sequence, each by its own specification. -/
theorem wp_seq {p : Prog Db Write Error Choice α} {f : α → Prog Db Write Error Choice β}
    {P : α → Txn Db Write → Prop} {Q : β → Txn Db Write → Prop} {t : Txn Db Write} (hp : p.wp E o (onOk P) t)
    (hf : ∀ a t', P a t' → (f a).wp E o (onOk Q) t') : (p >>= f).wp E o (onOk Q) t := by
  refine wp_bind_onOk (wp_mono hp ?_)
  intro r t' hr
  cases r with
  | ok a => exact hf a t' hr
  | error e => exact True.intro

/-- The rule of consequence for a specification of the normal return. -/
theorem wp_imp {p : Prog Db Write Error Choice α} {P Q : α → Txn Db Write → Prop} {t : Txn Db Write}
    (hp : p.wp E o (onOk P) t) (h : ∀ a t', P a t' → Q a t') : p.wp E o (onOk Q) t := by
  refine wp_mono hp fun r t' hr => ?_
  cases r with
  | ok a => exact h a t' hr
  | error e => exact True.intro

theorem wp_onOk_and {p : Prog Db Write Error Choice α} {P Q : α → Txn Db Write → Prop} {t : Txn Db Write}
    (h : p.wp E o (onOk P) t) (h' : p.wp E o (onOk Q) t) : p.wp E o (onOk fun a t' => P a t' ∧ Q a t') t := by
  refine wp_mono (wp_and h h') fun r t' hr => ?_
  cases r with
  | ok a => exact hr
  | error e => exact True.intro

/-- The handler takes over where its program fails. -/
theorem wp_handled {p : Prog Db Write Error Choice α} {h : Error → Prog Db Write Error Choice α}
    {Q : Post Db Write Error α} {t : Txn Db Write} (hp : p.wp E o (fun
      | .ok a, t' => Q (.ok a) t'
      | .error e, t' => (h e).wp E o Q t') t) : (p.tryCatch h).wp E o Q t := by
  induction p generalizing t with
  | ret a => exact hp
  | raise e => exact hp
  | select q k ih => exact fun d => ih _ (hp d)
  | write w k ih =>
    intro d
    have hd := hp d
    cases hv : E.violation (E.view d t.writes) w with
    | none => rw [hv] at hd; exact ih _ hd
    | some e => rw [hv] at hd; exact ih _ hd
  | rollback k ih => exact fun d => ih (hp d)

/-- An exception handler has to be correct from any trace its program may leave. -/
theorem wp_tryCatch {p : Prog Db Write Error Choice α} {h : Error → Prog Db Write Error Choice α}
    {P : α → Txn Db Write → Prop} {t : Txn Db Write} (hp : p.wp E o (onOk P) t)
    (hh : ∀ e t', (h e).wp E o (onOk P) t') : (p.tryCatch h).wp E o (onOk P) t := by
  refine wp_handled (wp_mono hp fun r t' hr => ?_)
  cases r with
  | ok a => exact hr
  | error e => exact hh e t'

theorem wp_exec {w : Write} {P : Unit → Txn Db Write → Prop} {t : Txn Db Write}
    (h : ∀ d, E.violation (E.view d t.writes) w = none → P () (t.wrote d w)) :
    (exec w : Prog Db Write Error Choice Unit).wp E o (onOk P) t := by
  intro d
  cases hv : E.violation (E.view d t.writes) w with
  | none => exact h d hv
  | some e => exact True.intro

/-! ### Exceptions -/

/-- The normal return and the exceptions are constrained. -/
def onEnd (P : α → Txn Db Write → Prop) (F : Error → Txn Db Write → Prop) : Post Db Write Error α
  | .ok a, t => P a t
  | .error e, t => F e t

variable {F : Error → Txn Db Write → Prop} {t : Txn Db Write}

theorem wp_seq_end {p : Prog Db Write Error Choice α} {f : α → Prog Db Write Error Choice β}
    {P : α → Txn Db Write → Prop} {Q : β → Txn Db Write → Prop} (hp : p.wp E o (onEnd P F) t)
    (hf : ∀ a t', P a t' → (f a).wp E o (onEnd Q F) t') : (p >>= f).wp E o (onEnd Q F) t := by
  refine wp_bind (wp_mono hp fun r t' hr => ?_)
  cases r with
  | ok a => exact hf a t' hr
  | error e => exact hr

theorem wp_exec_end {w : Write} {P : Unit → Txn Db Write → Prop}
    (hok : ∀ d, E.violation (E.view d t.writes) w = none → P () (t.wrote d w))
    (herror : ∀ d e, E.violation (E.view d t.writes) w = some e → F e (t.saw d)) :
    (exec w : Prog Db Write Error Choice Unit).wp E o (onEnd P F) t := by
  intro d
  cases hv : E.violation (E.view d t.writes) w with
  | none => exact hok d hv
  | some e => exact herror d e hv

/-- The handler runs from a trace with which its program may fail. -/
theorem wp_catch {p : Prog Db Write Error Choice α} {h : Error → Prog Db Write Error Choice α}
    {P : α → Txn Db Write → Prop} (hp : p.wp E o (onEnd P F) t)
    (hh : ∀ e t', F e t' → (h e).wp E o (onOk P) t') : (p.tryCatch h).wp E o (onOk P) t := by
  refine wp_handled (wp_mono hp fun r t' hr => ?_)
  cases r with
  | ok a => exact hr
  | error e => exact hh e t' hr

end Prog

end ReadCommitted
