import Mathlib.Logic.Function.Basic
import TransactionLedger.Async.Prog

/-!
# Processes interleaved over one store

A machine says how each call may settle against the shared store, what the
store does on its own, and what a crash of a process leaves behind.  A pool adds
the processes.  One move settles one pending call, crashes one process, or lets
the store drift; every schedule of moves is a run.  The log keeps the settled
calls, newest first.
-/

namespace Async

/-- The environment of the processes.  A `Fate` resolves the nondeterminism of
one settling call; `settle` answers `none` when the call cannot settle so. -/
structure Machine (S : Signature) (σ ι : Type) where
  Fate : Type
  Drift : Type
  clock : σ → ℕ
  settle : Fate → σ → (op : S.Op) → Option (Except S.Err (S.Res op) × σ)
  drift : Drift → σ → Option σ
  crash : ι → σ → σ

structure Event (S : Signature) (ι : Type) where
  proc : ι
  op : S.Op
  res : Except S.Err (S.Res op)

/-- A store, the processes that have not crashed, and the calls settled so far. -/
structure Config (S : Signature) (σ ι P : Type) where
  store : σ
  procs : ι → Option P
  log : List (Event S ι)

inductive Move (ι F D : Type) : Type where
  | settle (i : ι) (f : F)
  | crash (i : ι)
  | drift (d : D)

abbrev Machine.Moves {S : Signature} {σ ι : Type} (M : Machine S σ ι) : Type :=
  Move ι M.Fate M.Drift

/-- Processes of type `P` running on the machine `M`; `view` shows what each of
them is waiting for. -/
structure Pool {S : Signature} {σ ι : Type} (M : Machine S σ ι) (α P : Type) where
  view : ι → P → View S α P

/-- The pool whose processes are the programs themselves. -/
def Machine.programs {S : Signature} {σ ι : Type} (M : Machine S σ ι) (α : Type) :
    Pool M α (Prog S α) where
  view _ p := p.view

namespace Pool

variable {S : Signature} {σ ι α P : Type} {M : Machine S σ ι}

def pending (L : Pool M α P) (c : Config S σ ι P) (i : ι) : Option S.Op :=
  (c.procs i).bind fun p ↦ (L.view i p).pending

def result (L : Pool M α P) (c : Config S σ ι P) (i : ι) : Option (Except S.Err α) :=
  (c.procs i).bind fun p ↦ (L.view i p).result

theorem exists_of_pending {L : Pool M α P} {c : Config S σ ι P} {i : ι} {op : S.Op}
    (h : L.pending c i = some op) :
    ∃ p k, c.procs i = some p ∧ L.view i p = .await op k := by
  obtain ⟨p, hproc, hpending⟩ := Option.bind_eq_some_iff.mp h
  cases hview : L.view i p with
  | done r =>
      rw [hview] at hpending
      cases hpending
  | await op' k =>
      rw [hview] at hpending
      obtain rfl : op' = op := Option.some.inj hpending
      exact ⟨p, k, hproc, hview⟩

theorem pending_of_view {L : Pool M α P} {c : Config S σ ι P} {i : ι} {p : P} {op : S.Op}
    {k : ℕ → Except S.Err (S.Res op) → P} (hproc : c.procs i = some p)
    (hview : L.view i p = .await op k) : L.pending c i = some op := by
  simp only [pending, hproc, Option.bind_some, hview]
  rfl

variable [DecidableEq ι]

def step (L : Pool M α P) (c : Config S σ ι P) :
    M.Moves → Option (Config S σ ι P)
  | .settle i f =>
      match c.procs i with
      | none => none
      | some p =>
          match L.view i p with
          | .done _ => none
          | .await op k =>
              match M.settle f c.store op with
              | none => none
              | some (r, s) =>
                  some { store := s
                         procs := Function.update c.procs i (some (k (M.clock s) r))
                         log := ⟨i, op, r⟩ :: c.log }
  | .crash i =>
      if (L.pending c i).isSome then
        some { c with
          store := M.crash i c.store
          procs := Function.update c.procs i none }
      else none
  | .drift d => (M.drift d c.store).map fun s ↦ { c with store := s }

/-- What one move can do. -/
inductive Step (L : Pool M α P) (c : Config S σ ι P) :
    M.Moves → Config S σ ι P → Prop where
  | settle {i : ι} {f : M.Fate} {p : P} {op : S.Op}
      {k : ℕ → Except S.Err (S.Res op) → P} {r : Except S.Err (S.Res op)} {s : σ}
      (hproc : c.procs i = some p) (hview : L.view i p = .await op k)
      (hsettle : M.settle f c.store op = some (r, s)) :
      Step L c (.settle i f)
        { store := s
          procs := Function.update c.procs i (some (k (M.clock s) r))
          log := ⟨i, op, r⟩ :: c.log }
  | crash {i : ι} {p : P} {op : S.Op} {k : ℕ → Except S.Err (S.Res op) → P}
      (hproc : c.procs i = some p) (hview : L.view i p = .await op k) :
      Step L c (.crash i)
        { c with
          store := M.crash i c.store
          procs := Function.update c.procs i none }
  | drift {d : M.Drift} {s : σ} (hdrift : M.drift d c.store = some s) :
      Step L c (.drift d) { c with store := s }

theorem step_cases {L : Pool M α P} {c c' : Config S σ ι P}
    {m : M.Moves} (h : L.step c m = some c') :
    L.Step c m c' := by
  cases m with
  | settle i f =>
      cases hproc : c.procs i with
      | none => simp [step, hproc] at h
      | some p =>
          cases hview : L.view i p with
          | done r => simp [step, hproc, hview] at h
          | await op k =>
              cases hsettle : M.settle f c.store op with
              | none => simp [step, hproc, hview, hsettle] at h
              | some out =>
                  obtain rfl : _ = c' := by
                    simpa [step, hproc, hview, hsettle] using h
                  exact .settle hproc hview hsettle
  | crash i =>
      cases hproc : c.procs i with
      | none => simp [step, pending, hproc] at h
      | some p =>
          cases hview : L.view i p with
          | done r => simp [step, pending, hproc, hview, View.pending] at h
          | await op k =>
              obtain rfl : _ = c' := by
                simpa [step, pending, hproc, hview, View.pending] using h
              exact .crash hproc hview
  | drift d =>
      cases hdrift : M.drift d c.store with
      | none => simp [step, hdrift] at h
      | some s =>
          obtain rfl : _ = c' := by simpa [step, hdrift] using h
          exact .drift hdrift

theorem of_update_some {procs : ι → Option P} {i j : ι} {p q : P}
    (h : Function.update procs j (some q) i = some p) :
    i = j ∧ p = q ∨ i ≠ j ∧ procs i = some p := by
  by_cases hij : i = j
  · subst hij
    rw [Function.update_self] at h
    exact .inl ⟨rfl, (Option.some.inj h).symm⟩
  · rw [Function.update_of_ne hij] at h
    exact .inr ⟨hij, h⟩

theorem of_update_none {procs : ι → Option P} {i j : ι} {p : P}
    (h : Function.update procs j none i = some p) : i ≠ j ∧ procs i = some p := by
  by_cases hij : i = j
  · subst hij
    rw [Function.update_self] at h
    cases h
  · rw [Function.update_of_ne hij] at h
    exact ⟨hij, h⟩

/-- The configurations reached from `c₀` by runs all of whose moves satisfy
`legal`. -/
inductive Reachable (L : Pool M α P)
    (legal : Config S σ ι P → M.Moves → Config S σ ι P → Prop)
    (c₀ : Config S σ ι P) : Config S σ ι P → Prop where
  | refl : Reachable L legal c₀ c₀
  | step {c c' : Config S σ ι P} {m : M.Moves}
      (hc : Reachable L legal c₀ c) (hstep : L.step c m = some c') (hlegal : legal c m c') :
      Reachable L legal c₀ c'

def anyMove (_ : Pool M α P) (_ : Config S σ ι P)
    (_ : M.Moves) (_ : Config S σ ι P) : Prop :=
  True

/-- The induction on runs: what holds at the start and is kept by every legal
step of a reachable configuration holds wherever a run leads. -/
theorem Reachable.invariant {L : Pool M α P}
    {legal : Config S σ ι P → M.Moves → Config S σ ι P → Prop}
    {c₀ c : Config S σ ι P} (h : L.Reachable legal c₀ c)
    (Inv : Config S σ ι P → Prop) (hinit : Inv c₀)
    (hstep : ∀ {a m b}, L.Reachable legal c₀ a → L.Step a m b → legal a m b →
      Inv a → Inv b) : Inv c := by
  induction h with
  | refl => exact hinit
  | step hc hmove hlegal ih => exact hstep hc (step_cases hmove) hlegal ih

theorem Reachable.mono {L : Pool M α P}
    {legal legal' : Config S σ ι P → M.Moves →
      Config S σ ι P → Prop}
    {c₀ c : Config S σ ι P} (h : L.Reachable legal c₀ c)
    (hle : ∀ {a m b}, legal a m b → legal' a m b) : L.Reachable legal' c₀ c := by
  induction h with
  | refl => exact .refl
  | step _ hmove hlegal ih => exact .step ih hmove (hle hlegal)

theorem Reachable.trans {L : Pool M α P}
    {legal : Config S σ ι P → M.Moves → Config S σ ι P → Prop}
    {a b c : Config S σ ι P} (hab : L.Reachable legal a b) (hbc : L.Reachable legal b c) :
    L.Reachable legal a c := by
  induction hbc with
  | refl => exact hab
  | step _ hmove hlegal ih => exact .step ih hmove hlegal

theorem Reachable.mem_log {L : Pool M α P}
    {legal : Config S σ ι P → M.Moves → Config S σ ι P → Prop} {a b : Config S σ ι P}
    (h : L.Reachable legal a b) {e : Event S ι} (he : e ∈ a.log) : e ∈ b.log := by
  refine h.invariant (fun c ↦ e ∈ c.log) he ?_
  intro a m b _ hstep _ hmem
  cases hstep with
  | settle hproc hview hsettle => exact List.mem_cons_of_mem _ hmem
  | crash hproc hview => exact hmem
  | drift hdrift => exact hmem

/-- Play a fixed schedule, checking every move; `none` when one of them is
impossible or fails the check. -/
def play (L : Pool M α P) (check : Config S σ ι P → M.Moves → Config S σ ι P → Bool)
    (c : Config S σ ι P) : List M.Moves → Option (Config S σ ι P)
  | [] => some c
  | m :: ms =>
      (L.step c m).bind fun c' ↦ if check c m c' then L.play check c' ms else none

theorem reachable_of_play {L : Pool M α P}
    {legal : Config S σ ι P → M.Moves → Config S σ ι P → Prop}
    {check : Config S σ ι P → M.Moves → Config S σ ι P → Bool}
    (hcheck : ∀ a m b, check a m b → legal a m b)
    {c c' : Config S σ ι P} {ms : List M.Moves} (h : L.play check c ms = some c') :
    L.Reachable legal c c' := by
  induction ms generalizing c with
  | nil =>
      obtain rfl : c = c' := by simpa [play] using h
      exact .refl
  | cons m ms ih =>
      obtain ⟨b, hb, hrest⟩ := Option.bind_eq_some_iff.mp h
      by_cases hok : check c m b
      · rw [if_pos hok] at hrest
        exact Reachable.trans (.step .refl hb (hcheck c m b hok)) (ih hrest)
      · rw [if_neg hok] at hrest
        cases hrest

/-- The configuration a fixed schedule leads to. -/
def played (L : Pool M α P) (check : Config S σ ι P → M.Moves → Config S σ ι P → Bool)
    (c : Config S σ ι P) (ms : List M.Moves) : Config S σ ι P :=
  (L.play check c ms).getD c

theorem reachable_played {L : Pool M α P}
    {legal : Config S σ ι P → M.Moves → Config S σ ι P → Prop}
    {check : Config S σ ι P → M.Moves → Config S σ ι P → Bool}
    (hcheck : ∀ a m b, check a m b → legal a m b)
    {c : Config S σ ι P} {ms : List M.Moves} (h : (L.play check c ms).isSome) :
    L.Reachable legal c (L.played check c ms) := by
  obtain ⟨c', hc'⟩ := Option.isSome_iff_exists.mp h
  rw [played, hc']
  exact reachable_of_play hcheck hc'

/-- A process that has left its initial state has settled a call or crashed. -/
theorem Reachable.untouched_or_started {L : Pool M α P}
    {legal : Config S σ ι P → M.Moves → Config S σ ι P → Prop}
    {c₀ c : Config S σ ι P} (h : L.Reachable legal c₀ c) (i : ι) :
    c.procs i = c₀.procs i ∨ c.procs i = none ∨ ∃ e ∈ c.log, e.proc = i := by
  refine h.invariant (fun c ↦
    c.procs i = c₀.procs i ∨ c.procs i = none ∨ ∃ e ∈ c.log, e.proc = i) (.inl rfl) ?_
  intro a m b _ hstep _ hinv
  cases hstep with
  | @settle j f p op k r s hproc hview hsettle =>
      by_cases hij : i = j
      · exact .inr (.inr ⟨⟨j, op, r⟩, List.mem_cons_self, hij.symm⟩)
      · simp only [Function.update_of_ne hij]
        rcases hinv with hsame | hcrashed | ⟨e, he, hei⟩
        · exact .inl hsame
        · exact .inr (.inl hcrashed)
        · exact .inr (.inr ⟨e, List.mem_cons_of_mem _ he, hei⟩)
  | @crash j p op k hproc hview =>
      by_cases hij : i = j
      · subst hij
        exact .inr (.inl (Function.update_self ..))
      · simpa only [Function.update_of_ne hij] using hinv
  | drift hdrift => exact hinv

/-- What a process that has settled no call awaits, it has awaited from the start. -/
theorem Reachable.pending_of_untouched {L : Pool M α P}
    {legal : Config S σ ι P → M.Moves → Config S σ ι P → Prop}
    {c₀ c : Config S σ ι P} (h : L.Reachable legal c₀ c) {i : ι}
    (hlog : ∀ e ∈ c.log, e.proc ≠ i) {op : S.Op} (hpending : L.pending c i = some op) :
    L.pending c₀ i = some op := by
  rcases h.untouched_or_started i with hsame | hnone | ⟨e, he, hei⟩
  · rw [pending, ← hsame]
    exact hpending
  · rw [pending, hnone] at hpending
    cases hpending
  · exact absurd hei (hlog e he)

/-- A played schedule is legal when, in what it reaches, the check implies the rule. -/
theorem reachable_played_checked {L : Pool M α P}
    {legal : Config S σ ι P → M.Moves → Config S σ ι P → Prop}
    {check : Config S σ ι P → M.Moves → Config S σ ι P → Bool} {c : Config S σ ι P}
    (hcheck : ∀ a m b, L.Reachable (fun a m b ↦ check a m b) c a → check a m b → legal a m b)
    {ms : List M.Moves} (h : (L.play check c ms).isSome) :
    L.Reachable legal c (L.played check c ms) := by
  have hchecked : L.Reachable (fun a m b ↦ check a m b) c (L.played check c ms) :=
    reachable_played (fun _ _ _ h ↦ h) h
  generalize L.played check c ms = c' at hchecked ⊢
  induction hchecked with
  | refl => exact .refl
  | step hpast hmove hok ih => exact .step ih hmove (hcheck _ _ _ hpast hok)

end Pool

end Async
