import Mathlib.Data.Nat.Notation
import Mathlib.Logic.Function.Basic

/-!
# Programs that await external calls

An asynchronous function runs synchronously from one `await` to the next.  A
`Prog` records just that: it has either settled, or it waits for the outcome of
one call and continues with the outcome and the clock reading at which the call
settled.  Everything the function computes between two awaits is in the
continuation.
-/

namespace Async

/-- The calls a family of programs may await, the value each of them resolves
to, and the errors that may be thrown. -/
structure Signature where
  Op : Type
  Res : Op → Type
  Err : Type

inductive Prog (S : Signature) (α : Type) : Type where
  | done (r : Except S.Err α)
  | await (op : S.Op) (k : ℕ → Except S.Err (S.Res op) → Prog S α)

namespace Prog

variable {S : Signature} {α β γ σ : Type}

/-- Sequencing: an error thrown by the first program skips the second. -/
def bind : Prog S α → (α → Prog S β) → Prog S β
  | .done (.ok a), f => f a
  | .done (.error e), _ => .done (.error e)
  | .await op k, f => .await op fun t r ↦ (k t r).bind f

/-- `try p catch (e) handler(e)`. -/
def catchError : Prog S α → (S.Err → Prog S α) → Prog S α
  | .done (.ok a), _ => .done (.ok a)
  | .done (.error e), handler => handler e
  | .await op k, handler => .await op fun t r ↦ (k t r).catchError handler

instance : Monad (Prog S) where
  pure a := .done (.ok a)
  bind := bind

instance : MonadExceptOf S.Err (Prog S) where
  throw e := .done (.error e)
  tryCatch := catchError

def call (op : S.Op) : Prog S (S.Res op) :=
  .await op fun _ r ↦ .done r

/-- Await one call and read the clock in the synchronous code that follows it. -/
def callAt (op : S.Op) : Prog S (ℕ × S.Res op) :=
  .await op fun t r ↦ .done (r.map fun a ↦ (t, a))

/-- Turn the way a program settles into a value. -/
def settled : Prog S α → Prog S (Except S.Err α)
  | .done r => .done (.ok r)
  | .await op k => .await op fun t r ↦ (k t r).settled

/-- Run a program alone: no call fails and nothing happens between two calls. -/
def run (clock : σ → ℕ) (exec : σ → (op : S.Op) → Except S.Err (S.Res op) × σ) :
    Prog S α → σ → Except S.Err α × σ
  | .done r, s => (r, s)
  | .await op k, s => (k (clock (exec s op).2) (exec s op).1).run clock exec (exec s op).2

section Run

variable {clock : σ → ℕ} {exec : σ → (op : S.Op) → Except S.Err (S.Res op) × σ} {s s' : σ}
  {p : Prog S α} {e : S.Err}

theorem run_bind_ok {f : α → Prog S β} {a : α} (h : p.run clock exec s = (.ok a, s')) :
    (p.bind f).run clock exec s = (f a).run clock exec s' := by
  induction p generalizing s with
  | done r =>
      cases h
      rfl
  | await op k ih => exact ih _ _ h

theorem run_bind_error {f : α → Prog S β} (h : p.run clock exec s = (.error e, s')) :
    (p.bind f).run clock exec s = (.error e, s') := by
  induction p generalizing s with
  | done r =>
      cases h
      rfl
  | await op k ih => exact ih _ _ h

theorem run_catchError_error {handler : S.Err → Prog S α}
    (h : p.run clock exec s = (.error e, s')) :
    (p.catchError handler).run clock exec s = (handler e).run clock exec s' := by
  induction p generalizing s with
  | done r =>
      cases h
      rfl
  | await op k ih => exact ih _ _ h

end Run

/-- Every call the program may still issue satisfies `Q`. -/
def Uses (Q : S.Op → Prop) : Prog S α → Prop
  | .done _ => True
  | .await op k => Q op ∧ ∀ t r, (k t r).Uses Q

theorem Uses.bind {Q : S.Op → Prop} {p : Prog S α} {f : α → Prog S β}
    (hp : p.Uses Q) (hf : ∀ a, (f a).Uses Q) : (p.bind f).Uses Q := by
  induction p with
  | done r =>
      cases r with
      | error e => trivial
      | ok a => exact hf a
  | await op k ih => exact ⟨hp.1, fun t r ↦ ih t r (hp.2 t r)⟩

theorem Uses.catchError {Q : S.Op → Prop} {p : Prog S α} {handler : S.Err → Prog S α}
    (hp : p.Uses Q) (hhandler : ∀ e, (handler e).Uses Q) : (p.catchError handler).Uses Q := by
  induction p with
  | done r =>
      cases r with
      | error e => exact hhandler e
      | ok a => trivial
  | await op k ih => exact ⟨hp.1, fun t r ↦ ih t r (hp.2 t r)⟩

theorem Uses.settled {Q : S.Op → Prop} {p : Prog S α} (hp : p.Uses Q) : p.settled.Uses Q := by
  induction p with
  | done r => trivial
  | await op k ih => exact ⟨hp.1, fun t r ↦ ih t r (hp.2 t r)⟩

end Prog

/-- What an observer sees of a process at an await: its result, or the call it
waits for together with the process it becomes. -/
inductive View (S : Signature) (α P : Type) : Type where
  | done (r : Except S.Err α)
  | await (op : S.Op) (k : ℕ → Except S.Err (S.Res op) → P)

namespace View

variable {S : Signature} {α P Q : Type}

def map (f : P → Q) : View S α P → View S α Q
  | .done r => .done r
  | .await op k => .await op fun t r ↦ f (k t r)

def mapResult {β : Type} (f : α → β) : View S α P → View S β P
  | .done r => .done (r.map f)
  | .await op k => .await op k

def pending : View S α P → Option S.Op
  | .done _ => none
  | .await op _ => some op

def result : View S α P → Option (Except S.Err α)
  | .done r => some r
  | .await _ _ => none

theorem await_congr {op : S.Op} {k k' : ℕ → Except S.Err (S.Res op) → P}
    (h : ∀ t r, k t r = k' t r) : View.await (α := α) op k = .await op k' :=
  congrArg (View.await op) (funext fun t ↦ funext (h t))

theorem await_of_mapResult {β R : Type} {f : P → R} {g : α → β} {v : View S α P} {op : S.Op}
    {k : ℕ → Except S.Err (S.Res op) → R} (h : (v.map f).mapResult g = .await op k) :
    ∃ k₀, v = .await op k₀ ∧ k = fun t r ↦ f (k₀ t r) := by
  cases v with
  | done r => cases h
  | await op' k₀ =>
      cases h
      exact ⟨k₀, rfl, rfl⟩

@[simp] theorem pending_map (f : P → Q) (v : View S α P) :
    (v.map f).pending = v.pending := by
  cases v <;> rfl

@[simp] theorem result_map (f : P → Q) (v : View S α P) :
    (v.map f).result = v.result := by
  cases v <;> rfl

end View

/-- A program is a process whose continuation is the rest of the program. -/
def Prog.view {S : Signature} {α : Type} : Prog S α → View S α (Prog S α)
  | .done r => .done r
  | .await op k => .await op k

theorem Prog.view_bind_done {S : Signature} {α β : Type} (f : α → β) (p : Prog S α) :
    (p.bind fun a ↦ .done (.ok (f a))).view =
      (p.view.map fun q ↦ q.bind fun a ↦ .done (.ok (f a))).mapResult f := by
  rcases p with (e | a) | ⟨op, k⟩ <;> rfl

end Async
