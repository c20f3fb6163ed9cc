import Raceboat.Knowledge.Compute
import Raceboat.Correctness.Renaming

/-!
# The verdicts of the scenario generator

A verdict of `run` is read from knowledge after three rounds, which the list form
computes, so one evaluation over the 162 parameter sets gives every verdict from
any counter: every scenario the generator runs passes, and of the 27 sets the
filter excludes, 20 fail and 7 would pass.
-/

namespace Raceboat.States

/-- The driver of `run_params(params)` after `start`, from the counter value `linkIdx`. -/
def Params.start (p : Params) (linkIdx : Nat) : Driver :=
  startRun (paramsArgs p.initC2s p.initS2c p.finalC2s p.finalS2c)
    (paramsRequirements p.initC2s p.initS2c p.finalC2s p.finalS2c) p.clientOob linkIdx

/-- The requirements of `run_params(params)`, by side. -/
def Params.reqs (p : Params) : Side → List Link
  | .server => (paramsRequirements p.initC2s p.initS2c p.finalC2s p.finalS2c).1
  | .client => (paramsRequirements p.initC2s p.initS2c p.finalC2s p.finalS2c).2

/-- The verdict of `run_params(params)`, computed on the list knowledge model. -/
def Params.verdict (p : Params) : Bool :=
  ((p.start 0).knowledgeList.play p.reqs 6).final p.reqs

/-- A started scenario has the requirements of its parameters. -/
theorem Params.start_reqs (p : Params) (linkIdx : Nat) : (p.start linkIdx).world.reqs = p.reqs :=
  funext fun s => by cases s <;> rfl

/-- `run_params` returns, from any counter value, the verdict of the list model. -/
theorem runParams_eq_verdict (p : Params) (linkIdx : Nat) :
    ∃ r, runParams p.initC2s p.initS2c p.finalC2s p.finalS2c p.clientOob linkIdx = some r ∧
      r.1 = p.verdict := by
  obtain ⟨r, hr, hfinal⟩ := run_final (paramsArgs p.initC2s p.initS2c p.finalC2s p.finalS2c)
    (paramsRequirements p.initC2s p.initS2c p.finalC2s p.finalS2c) p.clientOob linkIdx
  have hreqs : (p.start linkIdx).world.reqs = p.reqs := p.start_reqs linkIdx
  refine ⟨r, hr, Bool.eq_iff_iff.mpr (hfinal.trans ?_)⟩
  rw [Params.verdict, KnowledgeList.final_iff, KnowledgeList.play_toKnowledge,
    Driver.knowledgeList_toKnowledge, Params.start, startRun_knowledge _ _ _ _ 0 linkIdx]
  rw [Params.start] at hreqs
  rw [hreqs]

set_option maxRecDepth 8192 in
/-- The verdict of every parameter set of `generate_scenarios`, by one evaluation. -/
theorem verdict_table : ∀ p ∈ parameterSpace,
    p.verdict = (validParams p.initC2s p.clientOob ||
      p.initS2c == "C2L" && (p.finalC2s != "C2L" || p.finalS2c == "BIDI")) := by
  decide

/-- The verdict `run_params` prints for each set, from any counter: a pass exactly when the filter
keeps it, or the server starts on `C2L` and `C2L` ends only beside `BIDI`. -/
theorem runParams_verdict (p : Params) (hp : p ∈ parameterSpace) (linkIdx : Nat) :
    ∃ r, runParams p.initC2s p.initS2c p.finalC2s p.finalS2c p.clientOob linkIdx = some r ∧
      (r.1 = true ↔ validParams p.initC2s p.clientOob = true ∨
        p.initS2c = "C2L" ∧ (p.finalC2s = "C2L" → p.finalS2c = "BIDI")) := by
  obtain ⟨r, hr, hv⟩ := runParams_eq_verdict p linkIdx
  refine ⟨r, hr, ?_⟩
  rw [hv, verdict_table p hp]
  simp [imp_iff_not_or]

/-- The verdict rule at the set with `C2L` initial and `BIDI` final channels, from counter 1. -/
theorem runParams_verdict_excluded :
    (⟨"C2L", "C2L", "BIDI", "BIDI", false⟩ : Params) ∈ parameterSpace ∧
      ∃ r, runParams "C2L" "C2L" "BIDI" "BIDI" false 1 = some r ∧
        (r.1 = true ↔ validParams "C2L" false = true ∨
          "C2L" = "C2L" ∧ ("BIDI" = "C2L" → "BIDI" = "BIDI")) :=
  ⟨by decide, runParams_verdict ⟨"C2L", "C2L", "BIDI", "BIDI", false⟩ (by decide) 1⟩

/-- The loop of `generate_scenarios` over sets whose verdict is a pass runs each of them,
in order, from any counter value, and prints a pass for each. -/
theorem runScenarios_passed {paramsets : List Params} (h : ∀ p ∈ paramsets, p.verdict = true) :
    ∀ linkIdx, ∃ verdicts, runScenarios paramsets linkIdx = some verdicts ∧
      verdicts.map Prod.fst = paramsets ∧ ∀ v ∈ verdicts, v.2 = true := by
  induction paramsets with
  | nil => exact fun _ => ⟨[], rfl, rfl, by simp⟩
  | cons p ps ih =>
    intro linkIdx
    obtain ⟨⟨success, _, i⟩, hr, hv⟩ := runParams_eq_verdict p linkIdx
    obtain ⟨vs, hvs, hmap, hall⟩ := ih (fun q hq => h q (List.mem_cons_of_mem _ hq)) i
    have hs : success = true := hv.trans (h p (List.mem_cons_self _ _))
    exact ⟨(p, success) :: vs, by simp [runScenarios, hr, hvs], by simp [hmap],
      by simpa [hs] using hall⟩

/-- Every scenario `generate_scenarios` runs, from any counter value, is run in order and prints `[
PASSED ]`. -/
theorem generateScenarios_passed (linkIdx : Nat) :
    ∃ verdicts, generateScenarios linkIdx = some verdicts ∧
      verdicts.map Prod.fst = pruneInvalidParams parameterSpace ∧ ∀ v ∈ verdicts, v.2 = true :=
  runScenarios_passed (fun p hp => by
    obtain ⟨hp, hv⟩ := List.mem_filter.mp hp
    rw [verdict_table p hp, hv, Bool.true_or]) linkIdx

end Raceboat.States
