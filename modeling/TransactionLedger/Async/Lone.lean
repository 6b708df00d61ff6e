import TransactionLedger.Async.Rely

/-!
# A process that runs alone

Running a program by itself on a store is one way its pool can go on: the other processes
wait.  So what a program does alone shows what a run can still reach.
-/

namespace Async

namespace Prog

variable {S : Signature} {σ α : Type} {clock : σ → ℕ}
  {exec : σ → (op : S.Op) → Except S.Err (S.Res op) × σ} {s s' : σ} {p : Prog S α}

theorem run_settled {r : Except S.Err α} (h : p.run clock exec s = (r, s')) :
    p.settled.run clock exec s = (.ok r, s') := by
  induction p generalizing s with
  | done r =>
      cases h
      rfl
  | await op k ih => exact ih _ _ h

/-- A result is passed on without a call. -/
theorem run_bind_done {β : Type} (f : α → β) (p : Prog S α) (s : σ) :
    (p.bind fun a ↦ .done (.ok (f a))).run clock exec s =
      ((p.run clock exec s).1.map f, (p.run clock exec s).2) := by
  induction p generalizing s with
  | done r => cases r <;> rfl
  | await op k ih => exact ih _ _ _

section Stores

variable {Q : S.Op → Prop}

/-- What every call of a program keeps, the program keeps. -/
theorem run_keeps {R : σ → Prop} (hexec : ∀ s op, Q op → R s → R (exec s op).2)
    (huses : p.Uses Q) (hs : R s) : R (p.run clock exec s).2 := by
  induction p generalizing s with
  | done r => exact hs
  | await op k ih => exact ih _ _ (huses.2 _ _) (hexec s op huses.1 hs)

/-- A program cannot tell a store from an image of it that answers its calls alike. -/
theorem run_image {τ : Type} {image : σ → τ} {clock' : τ → ℕ}
    {exec' : τ → (op : S.Op) → Except S.Err (S.Res op) × τ}
    (hclock : ∀ s, clock' (image s) = clock s)
    (hexec : ∀ s op, Q op → exec' (image s) op = ((exec s op).1, image (exec s op).2))
    (huses : p.Uses Q) (s : σ) :
    p.run clock' exec' (image s) =
      ((p.run clock exec s).1, image (p.run clock exec s).2) := by
  induction p generalizing s with
  | done r => rfl
  | await op k ih =>
      have himage := hexec s op huses.1
      simp only [run, himage, hclock]
      exact ih _ _ (huses.2 _ _) _

end Stores

end Prog

namespace Pool

variable {S : Signature} {σ ι α : Type} {M : Machine S σ ι} [DecidableEq ι] {f : M.Fate}
  {exec : σ → (op : S.Op) → Except S.Err (S.Res op) × σ} {Q : S.Op → Prop}
  {c : Config S σ ι (Prog S α)} {i : ι}

/-- Process `i` of `c` has ended with `out` in `c'`, and nothing else has happened. -/
structure Alone (c c' : Config S σ ι (Prog S α)) (i : ι) (out : Except S.Err α × σ) : Prop where
  run : (M.programs α).Reachable (M.programs α).anyMove c c'
  store : c'.store = out.2
  ended : c'.procs i = some (.done out.1)
  others : ∀ j, j ≠ i → c'.procs j = c.procs j

/-- The first call settles, and the rest runs alone. -/
theorem exists_alone_cons {op : S.Op} {k : ℕ → Except S.Err (S.Res op) → Prog S α}
    (hproc : c.procs i = some (.await op k))
    (hfirst : M.settle f c.store op = some (exec c.store op))
    (hrest : ∀ b : Config S σ ι (Prog S α), b.store = (exec c.store op).2 →
      b.procs i = some (k (M.clock b.store) (exec c.store op).1) →
        ∃ c', Alone (M := M) b c' i
          ((k (M.clock b.store) (exec c.store op).1).run M.clock exec b.store)) :
    ∃ c', Alone (M := M) c c' i ((Prog.await op k).run M.clock exec c.store) := by
  let b : Config S σ ι (Prog S α) :=
    { store := (exec c.store op).2
      procs := Function.update c.procs i
        (some (k (M.clock (exec c.store op).2) (exec c.store op).1))
      log := ⟨i, op, (exec c.store op).1⟩ :: c.log }
  have hstep : (M.programs α).step c (.settle i f) = some b := by
    simp only [step, hproc, Machine.programs, Prog.view, hfirst]
    rfl
  obtain ⟨c', hrun, hstore, hended, hothers⟩ := hrest b rfl (Function.update_self ..)
  refine ⟨c', Reachable.trans (.step .refl hstep trivial) hrun, hstore, hended, ?_⟩
  intro j hj
  exact (hothers j hj).trans (Function.update_of_ne hj ..)

/-- A program whose calls settle as `exec` says can run to its end. -/
theorem exists_alone (hexec : ∀ s op, Q op → M.settle f s op = some (exec s op))
    {p : Prog S α} (huses : p.Uses Q) (hproc : c.procs i = some p) :
    ∃ c', Alone (M := M) c c' i (p.run M.clock exec c.store) := by
  induction p generalizing c with
  | done r => exact ⟨c, .refl, rfl, hproc, fun _ _ ↦ rfl⟩
  | await op k ih =>
      refine exists_alone_cons hproc (hexec c.store op huses.1) fun b _ hb ↦ ?_
      exact ih _ _ (huses.2 _ _) hb

end Pool

end Async
