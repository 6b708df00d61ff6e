import Mathlib.Logic.Relation
import TransactionLedger.Async.Pool

/-!
# Rely and guarantee

The processes of a pool may be verified one at a time.  A discipline fixes an
invariant of the shared state, what one step may do to it, and which calls a process may
issue there.  A program is safe when, whatever the others have done in the meantime, it
only issues allowed calls; a pool of safe programs obeys the discipline in every run.
-/

namespace Async

/-- What the processes of a pool share: the store, and the calls settled so far. -/
structure Shared (S : Signature) (σ ι : Type) where
  store : σ
  log : List (Event S ι)

def Config.shared {S : Signature} {σ ι P : Type} (c : Config S σ ι P) : Shared S σ ι :=
  ⟨c.store, c.log⟩

namespace Shared

variable {S : Signature} {σ ι : Type}

def settled (x : Shared S σ ι) (i : ι) (op : S.Op) (r : Except S.Err (S.Res op)) (s : σ) :
    Shared S σ ι where
  store := s
  log := ⟨i, op, r⟩ :: x.log

def moved (x : Shared S σ ι) (s : σ) : Shared S σ ι where
  store := s
  log := x.log

end Shared

/-- `Allowed i x op`: process `i` may issue the call `op` on `x`, whatever its outcome. -/
structure Discipline {S : Signature} {σ ι : Type} (M : Machine S σ ι) where
  Inv : Shared S σ ι → Prop
  Step : Shared S σ ι → Shared S σ ι → Prop
  Allowed : ι → Shared S σ ι → S.Op → Prop
  settle : ∀ {x : Shared S σ ι} {i : ι} {op : S.Op} {f : M.Fate}
    {r : Except S.Err (S.Res op)} {s : σ}, Inv x → Allowed i x op →
      M.settle f x.store op = some (r, s) →
        Inv (x.settled i op r s) ∧ Step x (x.settled i op r s)
  drift : ∀ {x : Shared S σ ι} {d : M.Drift} {s : σ}, Inv x → M.drift d x.store = some s →
    Inv (x.moved s) ∧ Step x (x.moved s)
  crash : ∀ {x : Shared S σ ι} (i : ι), Inv x →
    Inv (x.moved (M.crash i x.store)) ∧ Step x (x.moved (M.crash i x.store))

theorem Prog.Uses.mono {S : Signature} {α : Type} {U V : S.Op → Prop} {p : Prog S α}
    (h : p.Uses U) (hle : ∀ op, U op → V op) : p.Uses V := by
  induction p with
  | done r => trivial
  | await op k ih => exact ⟨hle _ h.1, fun t r ↦ ih t r (h.2 t r)⟩

theorem Prog.run_catchError_ok {S : Signature} {σ α : Type} {clock : σ → ℕ}
    {exec : σ → (op : S.Op) → Except S.Err (S.Res op) × σ} {s s' : σ} {p : Prog S α} {a : α}
    {handler : S.Err → Prog S α} (h : p.run clock exec s = (.ok a, s')) :
    (p.catchError handler).run clock exec s = (.ok a, s') := by
  induction p generalizing s with
  | done r =>
      cases h
      rfl
  | await op k ih => exact ih _ _ h

namespace Discipline

variable {S : Signature} {σ ι α β : Type} {M : Machine S σ ι} {D : Discipline M}

/-- One step of a run. -/
structure Move (D : Discipline M) (x y : Shared S σ ι) : Prop where
  before : D.Inv x
  step : D.Step x y
  after : D.Inv y
  log : x.log <:+ y.log

/-- Any number of steps. -/
def Leads (D : Discipline M) : Shared S σ ι → Shared S σ ι → Prop :=
  Relation.ReflTransGen D.Move

/-- Steps none of which settles a call of process `i`. -/
structure Relies (D : Discipline M) (i : ι) (x y : Shared S σ ι) : Prop where
  leads : D.Leads x y
  own : ∀ e ∈ y.log, e.proc = i → e ∈ x.log

section

variable {x y z : Shared S σ ι} {i : ι}

theorem Leads.refl (x : Shared S σ ι) : D.Leads x x := Relation.ReflTransGen.refl

theorem Leads.trans (hxy : D.Leads x y) (hyz : D.Leads y z) : D.Leads x z :=
  Relation.ReflTransGen.trans hxy hyz

theorem Move.leads (h : D.Move x y) : D.Leads x y := Relation.ReflTransGen.single h

/-- What every step keeps, every run keeps. -/
theorem Leads.kept (h : D.Leads x y) {K : Shared S σ ι → Prop}
    (hstep : ∀ {a b}, D.Move a b → K a → K b) (hx : K x) : K y := by
  induction h with
  | refl => exact hx
  | tail _ hmove ih => exact hstep hmove ih

/-- What lies behind every step lies behind a run. -/
theorem Leads.related (h : D.Leads x y) {R : Shared S σ ι → Shared S σ ι → Prop}
    (hrefl : R x x) (hstep : ∀ {a b}, D.Move a b → R x a → R x b) : R x y :=
  h.kept (fun hmove ha ↦ hstep hmove ha) hrefl

theorem Leads.log (h : D.Leads x y) : x.log <:+ y.log :=
  h.related (R := fun x y ↦ x.log <:+ y.log) (List.suffix_refl _) fun hmove hlog ↦
    hlog.trans hmove.log

theorem Leads.mem_log (h : D.Leads x y) {e : Event S ι} (he : e ∈ x.log) : e ∈ y.log :=
  h.log.mem he

theorem Leads.inv (h : D.Leads x y) (hx : D.Inv x) : D.Inv y :=
  h.kept (fun hmove _ ↦ hmove.after) hx

theorem Relies.refl (x : Shared S σ ι) : D.Relies i x x := ⟨.refl x, fun _ h _ ↦ h⟩

theorem Relies.trans (hxy : D.Relies i x y) (hyz : D.Relies i y z) : D.Relies i x z where
  leads := hxy.leads.trans hyz.leads
  own e he hi := hxy.own e (hyz.own e he hi) hi

end

/-- Process `i` may go on with the program from `x`: every call it issues is allowed
whatever the others have done before, and its result meets `Post` from then on. -/
def Safe (D : Discipline M) (i : ι) (Post : Except S.Err α → Shared S σ ι → Prop) :
    Prog S α → Shared S σ ι → Prop
  | .done r, x => ∀ y, D.Relies i x y → D.Inv y → Post r y
  | .await op k, x => ∀ y, D.Relies i x y → D.Inv y → D.Allowed i y op ∧
      ∀ f r s, M.settle f y.store op = some (r, s) →
        D.Safe i Post (k (M.clock s) r) (y.settled i op r s)

section Rules

variable {i : ι} {x y : Shared S σ ι} {Q : Except S.Err α → Shared S σ ι → Prop}
  {Post : Except S.Err β → Shared S σ ι → Prop} {p : Prog S α}

theorem settled_move {op : S.Op} {f : M.Fate} {r : Except S.Err (S.Res op)} {s : σ}
    (hx : D.Inv x) (hallowed : D.Allowed i x op) (hsettle : M.settle f x.store op = some (r, s)) :
    D.Move x (x.settled i op r s) where
  before := hx
  step := (D.settle hx hallowed hsettle).2
  after := (D.settle hx hallowed hsettle).1
  log := List.suffix_cons _ _

/-- The others may take steps first. -/
theorem Safe.relies (h : D.Safe i Q p x) (hxy : D.Relies i x y) : D.Safe i Q p y := by
  cases p with
  | done r => exact fun z hyz hz ↦ h z (hxy.trans hyz) hz
  | await op k => exact fun z hyz hz ↦ h z (hxy.trans hyz) hz

theorem Safe.weaken {Q' : Except S.Err α → Shared S σ ι → Prop} (h : D.Safe i Q p x)
    (hpost : ∀ r y, D.Leads x y → D.Inv y → Q r y → Q' r y) : D.Safe i Q' p x := by
  induction p generalizing x with
  | done r => exact fun y hxy hy ↦ hpost r y hxy.leads hy (h y hxy hy)
  | await op k ih =>
      intro y hxy hy
      obtain ⟨hallowed, hrest⟩ := h y hxy hy
      refine ⟨hallowed, fun f r s hsettle ↦ ih _ _ (hrest f r s hsettle) ?_⟩
      intro r' z hz hinv hq
      exact hpost r' z ((hxy.leads.trans (settled_move hy hallowed hsettle).leads).trans hz)
        hinv hq

theorem safe_pure {a : α} (h : ∀ y, D.Relies i x y → D.Inv y → Q (.ok a) y) :
    D.Safe i Q (pure a) x := h

theorem safe_throw {e : S.Err} (h : ∀ y, D.Relies i x y → D.Inv y → Q (.error e) y) :
    D.Safe i Q (throw e : Prog S α) x := h

theorem safe_call {op : S.Op} {Q : Except S.Err (S.Res op) → Shared S σ ι → Prop}
    (h : ∀ y, D.Relies i x y → D.Inv y → D.Allowed i y op ∧
      ∀ f r s, M.settle f y.store op = some (r, s) →
        ∀ z, D.Relies i (y.settled i op r s) z → D.Inv z → Q r z) :
    D.Safe i Q (Prog.call op) x := h

theorem safe_callAt {op : S.Op} {Q : Except S.Err (ℕ × S.Res op) → Shared S σ ι → Prop}
    (h : ∀ y, D.Relies i x y → D.Inv y → D.Allowed i y op ∧
      ∀ f r s, M.settle f y.store op = some (r, s) →
        ∀ z, D.Relies i (y.settled i op r s) z → D.Inv z →
          Q (r.map fun a ↦ (M.clock s, a)) z) :
    D.Safe i Q (Prog.callAt op) x := h

/-- Sequencing. -/
theorem Safe.bind {f : α → Prog S β} (hx : D.Inv x) (h : D.Safe i Q p x)
    (hok : ∀ a y, D.Leads x y → D.Inv y → Q (.ok a) y → D.Safe i Post (f a) y)
    (herror : ∀ e y, D.Leads x y → D.Inv y → Q (.error e) y → Post (.error e) y) :
    D.Safe i Post (p.bind f) x := by
  induction p generalizing x with
  | done r =>
      cases r with
      | error e => exact fun y hxy hy ↦ herror e y hxy.leads hy (h y hxy hy)
      | ok a => exact hok a x (.refl x) hx (h x (.refl x) hx)
  | await op k ih =>
      intro y hxy hy
      obtain ⟨hallowed, hrest⟩ := h y hxy hy
      refine ⟨hallowed, fun fate r s hsettle ↦ ?_⟩
      have hmove := settled_move hy hallowed hsettle
      have hleads := hxy.leads.trans hmove.leads
      exact ih _ _ hmove.after (hrest fate r s hsettle)
        (fun a z hz ↦ hok a z (hleads.trans hz)) fun e z hz ↦ herror e z (hleads.trans hz)

theorem Safe.catchError {Post : Except S.Err α → Shared S σ ι → Prop}
    {handler : S.Err → Prog S α} (hx : D.Inv x) (h : D.Safe i Q p x)
    (hok : ∀ a y, D.Leads x y → D.Inv y → Q (.ok a) y → Post (.ok a) y)
    (herror : ∀ e y, D.Leads x y → D.Inv y → Q (.error e) y → D.Safe i Post (handler e) y) :
    D.Safe i Post (p.catchError handler) x := by
  induction p generalizing x with
  | done r =>
      cases r with
      | error e => exact herror e x (.refl x) hx (h x (.refl x) hx)
      | ok a => exact fun y hxy hy ↦ hok a y hxy.leads hy (h y hxy hy)
  | await op k ih =>
      intro y hxy hy
      obtain ⟨hallowed, hrest⟩ := h y hxy hy
      refine ⟨hallowed, fun fate r s hsettle ↦ ?_⟩
      have hmove := settled_move hy hallowed hsettle
      have hleads := hxy.leads.trans hmove.leads
      exact ih _ _ hmove.after (hrest fate r s hsettle)
        (fun a z hz ↦ hok a z (hleads.trans hz)) fun e z hz ↦ herror e z (hleads.trans hz)

theorem Safe.settled (h : D.Safe i Q p x) :
    D.Safe i (fun out y ↦ ∃ r, out = .ok r ∧ Q r y) p.settled x := by
  induction p generalizing x with
  | done r => exact fun y hxy hy ↦ ⟨r, rfl, h y hxy hy⟩
  | await op k ih =>
      intro y hxy hy
      obtain ⟨hallowed, hrest⟩ := h y hxy hy
      exact ⟨hallowed, fun f r s hsettle ↦ ih _ _ (hrest f r s hsettle)⟩

/-- A program whose calls are allowed wherever they are issued. -/
theorem safe_of_uses {U : S.Op → Prop} (huses : p.Uses U)
    (hallowed : ∀ {y op}, D.Inv y → U op → D.Allowed i y op) :
    D.Safe i (fun _ _ ↦ True) p x := by
  induction p generalizing x with
  | done r => exact fun _ _ _ ↦ trivial
  | await op k ih =>
      exact fun y _ hy ↦ ⟨hallowed hy huses.1, fun f r s _ ↦ ih _ _ (huses.2 _ _)⟩

/-- The calls a process has settled since are calls of its program. -/
theorem Safe.own {U : S.Op → Prop} (h : D.Safe i Q p x) (huses : p.Uses U) :
    D.Safe i (fun r y ↦ Q r y ∧ ∀ e ∈ y.log, e.proc = i → e ∈ x.log ∨ U e.op) p x := by
  induction p generalizing x with
  | done r => exact fun y hxy hy ↦ ⟨h y hxy hy, fun e he hi ↦ .inl (hxy.own e he hi)⟩
  | await op k ih =>
      intro y hxy hy
      obtain ⟨hallowed, hrest⟩ := h y hxy hy
      refine ⟨hallowed, fun f r s hsettle ↦ ?_⟩
      refine (ih _ _ (hrest f r s hsettle) (huses.2 _ _)).weaken ?_
      rintro r' z - - ⟨hq, hown⟩
      refine ⟨hq, fun e he hi ↦ ?_⟩
      rcases hown e he hi with hmem | huse
      · rcases List.mem_cons.mp hmem with rfl | hmem
        · exact .inr huses.1
        · exact .inl (hxy.own e hmem hi)
      · exact .inr huse

end Rules

/-- The discipline that asks for nothing: what is left is how results depend on the log. -/
def free (M : Machine S σ ι) : Discipline M where
  Inv _ := True
  Step _ _ := True
  Allowed _ _ _ := True
  settle _ _ _ := ⟨trivial, trivial⟩
  drift _ _ := ⟨trivial, trivial⟩
  crash _ _ := ⟨trivial, trivial⟩

theorem safe_free {i : ι} {p : Prog S α} {x : Shared S σ ι} :
    (free M).Safe i (fun _ _ ↦ True) p x := by
  induction p generalizing x with
  | done r => exact fun _ _ _ ↦ trivial
  | await op k ih => exact fun y _ _ ↦ ⟨trivial, fun f r s _ ↦ ih _ _⟩

/-! ## Pools -/

/-- The shared state is in order, and every live process goes on safely. -/
structure Obeyed (D : Discipline M) (Post : ι → Except S.Err α → Shared S σ ι → Prop)
    (c : Config S σ ι (Prog S α)) : Prop where
  inv : D.Inv c.shared
  safe : ∀ i p, c.procs i = some p → D.Safe i (Post i) p c.shared

variable [DecidableEq ι] {Post : ι → Except S.Err α → Shared S σ ι → Prop}
  {c c' : Config S σ ι (Prog S α)} {m : M.Moves}

/-- One step of a pool that obeys is a step of the discipline. -/
theorem Obeyed.step (h : D.Obeyed Post c) (hstep : (M.programs α).Step c m c') :
    D.Move c.shared c'.shared ∧ D.Obeyed Post c' := by
  cases hstep with
  | @settle i f p op k r s hproc hview hsettle =>
      obtain rfl : p = .await op k := by
        cases p with
        | done r' => cases hview
        | await op' k' =>
            cases hview
            rfl
      obtain ⟨hallowed, hrest⟩ := h.safe i _ hproc c.shared (.refl _) h.inv
      have hmove := settled_move h.inv hallowed hsettle
      refine ⟨hmove, hmove.after, fun j q hq ↦ ?_⟩
      rcases Pool.of_update_some hq with ⟨rfl, rfl⟩ | ⟨hji, hq⟩
      · exact hrest f r s hsettle
      · refine (h.safe j q hq).relies ⟨hmove.leads, fun e he hj ↦ ?_⟩
        rcases List.mem_cons.mp he with rfl | he
        · exact absurd hj.symm hji
        · exact he
  | @crash i p op k hproc hview =>
      have hcrash := D.crash i h.inv
      have hmove : D.Move c.shared (c.shared.moved (M.crash i c.store)) :=
        ⟨h.inv, hcrash.2, hcrash.1, List.suffix_refl _⟩
      refine ⟨hmove, hmove.after, fun j q hq ↦ ?_⟩
      obtain ⟨-, hq⟩ := Pool.of_update_none hq
      exact (h.safe j q hq).relies ⟨hmove.leads, fun _ he _ ↦ he⟩
  | @drift d s hdrift =>
      have hdrift := D.drift h.inv hdrift
      have hmove : D.Move c.shared (c.shared.moved s) :=
        ⟨h.inv, hdrift.2, hdrift.1, List.suffix_refl _⟩
      exact ⟨hmove, hmove.after, fun j q hq ↦
        (h.safe j q hq).relies ⟨hmove.leads, fun _ he _ ↦ he⟩⟩

/-- A pool of safe programs obeys the discipline in every run. -/
theorem Obeyed.reachable (h : D.Obeyed Post c)
    {legal : Config S σ ι (Prog S α) → M.Moves → Config S σ ι (Prog S α) → Prop}
    (hreach : (M.programs α).Reachable legal c c') :
    D.Leads c.shared c'.shared ∧ D.Obeyed Post c' := by
  refine hreach.invariant (fun c' ↦ D.Leads c.shared c'.shared ∧ D.Obeyed Post c')
    ⟨.refl _, h⟩ ?_
  rintro a m b - hstep - ⟨hleads, ha⟩
  obtain ⟨hmove, hb⟩ := ha.step hstep
  exact ⟨hleads.trans hmove.leads, hb⟩

omit [DecidableEq ι] in
theorem Obeyed.result (h : D.Obeyed Post c) {i : ι} {r : Except S.Err α}
    (hr : (M.programs α).result c i = some r) : Post i r c.shared := by
  obtain ⟨p, hproc, hview⟩ := Option.bind_eq_some_iff.mp hr
  have hsafe := h.safe i p hproc
  cases p with
  | done r' =>
      obtain rfl : r' = r := Option.some.inj hview
      exact hsafe c.shared (.refl _) h.inv
  | await op k => cases hview

end Discipline

/-- A result is final. -/
theorem Pool.Reachable.result_final {S : Signature} {σ ι α P : Type} {M : Machine S σ ι}
    [DecidableEq ι] {L : Pool M α P}
    {legal : Config S σ ι P → M.Moves → Config S σ ι P → Prop} {c c' : Config S σ ι P}
    (h : L.Reachable legal c c') {i : ι} {r : Except S.Err α} (hr : L.result c i = some r) :
    L.result c' i = some r := by
  refine h.invariant (fun c' ↦ L.result c' i = some r) hr ?_
  intro a m b _ hstep _ ha
  have hdone : ∀ {j p op k}, a.procs j = some p → L.view j p = .await op k → i ≠ j := by
    rintro j p op k hproc hview rfl
    rw [result, hproc, Option.bind_some, hview] at ha
    cases ha
  cases hstep with
  | settle hproc hview hsettle =>
      simpa only [result, Function.update_of_ne (hdone hproc hview)] using ha
  | crash hproc hview => simpa only [result, Function.update_of_ne (hdone hproc hview)] using ha
  | drift hdrift => exact ha

/-- A process that awaits nothing settles no more calls. -/
theorem Pool.Reachable.silent {S : Signature} {σ ι α P : Type} {M : Machine S σ ι}
    [DecidableEq ι] {L : Pool M α P}
    {legal : Config S σ ι P → M.Moves → Config S σ ι P → Prop} {c c' : Config S σ ι P}
    (h : L.Reachable legal c c') {i : ι} (hi : L.pending c i = none) :
    ∃ recent, c'.log = recent ++ c.log ∧ ∀ e ∈ recent, e.proc ≠ i := by
  have hkept : L.pending c' i = none ∧
      ∃ recent, c'.log = recent ++ c.log ∧ ∀ e ∈ recent, e.proc ≠ i := by
    refine h.invariant (fun c' ↦ L.pending c' i = none ∧
      ∃ recent, c'.log = recent ++ c.log ∧ ∀ e ∈ recent, e.proc ≠ i)
      ⟨hi, [], rfl, fun e he ↦ by cases he⟩ ?_
    rintro a m b - hstep - ⟨ha, recent, hlog, hrecent⟩
    have hother : ∀ {j p op k}, a.procs j = some p → L.view j p = .await op k → i ≠ j := by
      rintro j p op k hproc hview rfl
      rw [pending_of_view hproc hview] at ha
      cases ha
    cases hstep with
    | @settle j f p op k r s hproc hview hsettle =>
        have hij := hother hproc hview
        refine ⟨by simpa only [pending, Function.update_of_ne hij] using ha,
          ⟨j, op, r⟩ :: recent, congrArg _ hlog, fun e he ↦ ?_⟩
        rcases List.mem_cons.mp he with rfl | he
        · exact hij.symm
        · exact hrecent e he
    | crash hproc hview =>
        exact ⟨by simpa only [pending, Function.update_of_ne (hother hproc hview)] using ha,
          recent, hlog, hrecent⟩
    | drift hdrift => exact ⟨ha, recent, hlog, hrecent⟩
  exact hkept.2

/-- The results a program may have when each of its calls settles on some store that
satisfies `At`. -/
inductive Prog.Ends {S : Signature} {σ ι α : Type} (M : Machine S σ ι) (At : σ → Prop) :
    Prog S α → Except S.Err α → Prop where
  | done (r : Except S.Err α) : Ends M At (.done r) r
  | await {op : S.Op} {k : ℕ → Except S.Err (S.Res op) → Prog S α} {f : M.Fate} {s s' : σ}
      {r : Except S.Err (S.Res op)} {out : Except S.Err α} (hs : At s)
      (hsettle : M.settle f s op = some (r, s')) (hrest : Ends M At (k (M.clock s') r) out) :
      Ends M At (.await op k) out

end Async
