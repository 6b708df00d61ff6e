import TransactionLedger.Async.Simulation

/-!
# Traces

A rule about a run may look back: nobody takes a job once it has been
acknowledged.  A trace keeps every move of a run between the configurations
around it, newest first, and its moves are judged by those before them.
-/

namespace Async

namespace Pool

variable {S : Signature} {σ ι α β P Q : Type} {M : Machine S σ ι} [DecidableEq ι]

/-- One move of a run, with the configurations before and after it. -/
structure Stage (M : Machine S σ ι) (P : Type) where
  before : Config S σ ι P
  move : M.Moves
  after : Config S σ ι P

/-- The runs from `c₀`, each move of which is legal after its past. -/
inductive Trace (L : Pool M α P) (legal : List (Stage M P) → Stage M P → Prop)
    (c₀ : Config S σ ι P) : List (Stage M P) → Config S σ ι P → Prop where
  | start : Trace L legal c₀ [] c₀
  | step {past : List (Stage M P)} {c c' : Config S σ ι P} {m : M.Moves}
      (hpast : Trace L legal c₀ past c) (hstep : L.step c m = some c')
      (hlegal : legal past ⟨c, m, c'⟩) : Trace L legal c₀ (⟨c, m, c'⟩ :: past) c'

def anyStage (_ : List (Stage M P)) (_ : Stage M P) : Prop :=
  True

variable {L : Pool M α P} {legal : List (Stage M P) → Stage M P → Prop}
  {c₀ c : Config S σ ι P} {past : List (Stage M P)}

/-- The induction on traces. -/
theorem Trace.invariant (h : L.Trace legal c₀ past c)
    (Inv : List (Stage M P) → Config S σ ι P → Prop) (hinit : Inv [] c₀)
    (hstep : ∀ {past a m b}, L.Trace legal c₀ past a → L.Step a m b → legal past ⟨a, m, b⟩ →
      Inv past a → Inv (⟨a, m, b⟩ :: past) b) : Inv past c := by
  induction h with
  | start => exact hinit
  | step hpast hmove hlegal ih => exact hstep hpast (step_cases hmove) hlegal ih

/-- Every stage of a trace ends a trace of its own. -/
theorem Trace.of_mem (h : L.Trace legal c₀ past c) {s : Stage M P} (hs : s ∈ past) :
    ∃ earlier, L.Trace legal c₀ earlier s.before ∧ L.Step s.before s.move s.after ∧
      legal earlier s := by
  induction h with
  | start => cases hs
  | step hpast hmove hlegal ih =>
      rcases List.mem_cons.mp hs with rfl | hs
      · exact ⟨_, hpast, step_cases hmove, hlegal⟩
      · exact ih hs

/-! ## Control points -/

def Stage.map (code : ι → P → Q) (s : Stage M P) : Stage M Q where
  before := s.before.map code
  move := s.move
  after := s.after.map code

/-- Every trace of the images is the image of a trace of the control points. -/
theorem Implements.lift_trace {N : Pool M α Q} {code : ι → P → Q} (h : L.Implements N code)
    {legal : List (Stage M Q) → Stage M Q → Prop} {past : List (Stage M Q)}
    {d : Config S σ ι Q} (hd : N.Trace legal (c₀.map code) past d) :
    ∃ past' c, past = past'.map (Stage.map code) ∧ d = c.map code ∧
      L.Trace (fun past s ↦ legal (past.map (Stage.map code)) (s.map code)) c₀ past' c := by
  induction hd with
  | start => exact ⟨[], c₀, rfl, rfl, .start⟩
  | step _ hmove hlegal ih =>
      obtain ⟨past', c, rfl, rfl, hc⟩ := ih
      rw [h.step_map] at hmove
      obtain ⟨c', hc', rfl⟩ := Option.map_eq_some_iff.mp hmove
      exact ⟨⟨c, _, c'⟩ :: past', c', rfl, rfl, .step hc hc' hlegal⟩

/-! ## Fixed schedules -/

/-- Play a fixed schedule and keep its stages; `none` when a move is impossible or
fails the check. -/
def trail (L : Pool M α P) (check : List (Stage M P) → Stage M P → Bool)
    (past : List (Stage M P)) (c : Config S σ ι P) :
    List M.Moves → Option (List (Stage M P) × Config S σ ι P)
  | [] => some (past, c)
  | m :: ms =>
      (L.step c m).bind fun c' ↦
        if check past ⟨c, m, c'⟩ then L.trail check (⟨c, m, c'⟩ :: past) c' ms else none

theorem trace_of_trail {check : List (Stage M P) → Stage M P → Bool}
    (hcheck : ∀ past s, check past s → legal past s) {ms : List M.Moves}
    {out : List (Stage M P) × Config S σ ι P} (hpast : L.Trace legal c₀ past c)
    (h : L.trail check past c ms = some out) : L.Trace legal c₀ out.1 out.2 := by
  induction ms generalizing past c with
  | nil =>
      obtain rfl : (past, c) = out := Option.some.inj h
      exact hpast
  | cons m ms ih =>
      obtain ⟨b, hb, hrest⟩ := Option.bind_eq_some_iff.mp h
      by_cases hok : check past ⟨c, m, b⟩
      · rw [if_pos hok] at hrest
        exact ih (.step hpast hb (hcheck _ _ hok)) hrest
      · rw [if_neg hok] at hrest
        cases hrest

/-- A trace continued by a fixed schedule: its stages, and where it leads. -/
def trailed (L : Pool M α P) (check : List (Stage M P) → Stage M P → Bool)
    (past : List (Stage M P)) (c : Config S σ ι P) (ms : List M.Moves) :
    List (Stage M P) × Config S σ ι P :=
  (L.trail check past c ms).getD (past, c)

theorem trace_trailed {check : List (Stage M P) → Stage M P → Bool}
    (hcheck : ∀ past s, check past s → legal past s) {ms : List M.Moves}
    (hpast : L.Trace legal c₀ past c) (h : (L.trail check past c ms).isSome) :
    L.Trace legal c₀ (L.trailed check past c ms).1 (L.trailed check past c ms).2 := by
  obtain ⟨out, hout⟩ := Option.isSome_iff_exists.mp h
  rw [trailed, hout]
  exact trace_of_trail hcheck hpast hout

end Pool

end Async
