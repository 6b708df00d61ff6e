import TransactionLedger.Async.Pool

/-!
# Control points

Reasoning about a program is easier on a finite set of control points than on
its continuations.  When every control point unfolds to the same await as the
process it stands for, each run of the latter is the image of a run of the
former, so an invariant of the control points is one of the programs.
-/

namespace Async

variable {S : Signature} {σ ι α P Q : Type}

/-- The same store and log, with every process replaced by its image. -/
def Config.map (code : ι → P → Q) (c : Config S σ ι P) : Config S σ ι Q where
  store := c.store
  procs i := (c.procs i).map (code i)
  log := c.log

namespace Pool

variable {M : Machine S σ ι}

/-- `code` reads every process of `L` as the process of `N` it stands for. -/
def Implements (L : Pool M α P) (N : Pool M α Q) (code : ι → P → Q) : Prop :=
  ∀ i p, N.view i (code i p) = (L.view i p).map (code i)

variable {L : Pool M α P} {N : Pool M α Q} {code : ι → P → Q}

theorem Implements.pending_map (h : L.Implements N code) (c : Config S σ ι P) (i : ι) :
    N.pending (c.map code) i = L.pending c i := by
  cases hproc : c.procs i with
  | none => simp [Pool.pending, Config.map, hproc]
  | some p =>
      simp only [Pool.pending, Config.map, hproc, Option.map_some, Option.bind_some]
      rw [h i p, View.pending_map]

theorem Implements.result_map (h : L.Implements N code) (c : Config S σ ι P) (i : ι) :
    N.result (c.map code) i = L.result c i := by
  cases hproc : c.procs i with
  | none => simp [Pool.result, Config.map, hproc]
  | some p =>
      simp only [Pool.result, Config.map, hproc, Option.map_some, Option.bind_some]
      rw [h i p, View.result_map]

variable [DecidableEq ι]

theorem map_update (c : ι → Option P) (i : ι) (p : Option P) :
    (fun j ↦ (Function.update c i p j).map (code j)) =
      Function.update (fun j ↦ (c j).map (code j)) i (p.map (code i)) := by
  funext j
  by_cases hji : j = i
  · subst hji
    simp
  · simp [Function.update_of_ne hji]

/-- The images move exactly as their control points do. -/
theorem Implements.step_map (h : L.Implements N code) (c : Config S σ ι P) (m : M.Moves) :
    N.step (c.map code) m = (L.step c m).map (Config.map code) := by
  cases m with
  | settle i f =>
      cases hproc : c.procs i with
      | none => simp [step, Config.map, hproc]
      | some p =>
          have hcode := h i p
          cases hview : L.view i p with
          | done r => simp [step, Config.map, hproc, hcode, hview, View.map]
          | await op k =>
              rw [hview] at hcode
              cases hsettle : M.settle f c.store op with
              | none => simp [step, Config.map, hproc, hcode, hview, hsettle, View.map]
              | some out =>
                  obtain ⟨r, s⟩ := out
                  simp only [step, Config.map, hproc, hcode, hview, hsettle, View.map,
                    Option.map_some, map_update]
  | crash i =>
      have hpending := h.pending_map c i
      simp only [step]
      rw [hpending]
      by_cases hsome : (L.pending c i).isSome
      · simp only [hsome, if_true, Option.map_some, Config.map, map_update, Option.map_none]
      · simp [hsome]
  | drift d =>
      cases hdrift : M.drift d c.store with
      | none => simp [step, Config.map, hdrift]
      | some s => simp [step, Config.map, hdrift]

/-- Every run of the images is the image of a run of the control points. -/
theorem Implements.lift (h : L.Implements N code)
    {legal : Config S σ ι Q → M.Moves → Config S σ ι Q → Prop}
    {c₀ : Config S σ ι P} {d : Config S σ ι Q} (hd : N.Reachable legal (c₀.map code) d) :
    ∃ c, d = c.map code ∧
      L.Reachable (fun a m b ↦ legal (a.map code) m (b.map code)) c₀ c := by
  induction hd with
  | refl => exact ⟨c₀, rfl, .refl⟩
  | step _ hmove hlegal ih =>
      obtain ⟨c, rfl, hc⟩ := ih
      rw [h.step_map] at hmove
      obtain ⟨c', hc', rfl⟩ := Option.map_eq_some_iff.mp hmove
      exact ⟨c', rfl, .step hc hc' hlegal⟩

end Pool

end Async
