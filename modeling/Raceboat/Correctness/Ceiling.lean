import Raceboat.Knowledge.Simulation

/-!
# The round ceiling of `run`

`run` gives up after six rounds. What the driver knows is at a fixed point after
three, and verdicts are read from knowledge alone, so the ceiling never fails a
negotiation that would converge.
-/

namespace Raceboat.States

open NodeState

/-- `run`'s loop stops at the driver's state after `i` rounds, one status pair a round, where both
peers are first final or `i` is the ceiling. -/
theorem runLoop_spec {n : Net} {d : Driver} (h : Tracks n d) :
    ∀ m, ∃ d' statuses i, runLoop m d = some (d', statuses) ∧ i ≤ m ∧ statuses.length = i ∧
      d.drive i = some d' ∧ (d'.world.finished = true ∨ i = m) ∧
      ∀ j < i, ∃ e, d.drive j = some e ∧ e.world.finished = false
  | 0 => ⟨d, [], 0, rfl, le_rfl, rfl, rfl, .inr rfl, fun _ hj => absurd hj (Nat.not_lt_zero _)⟩
  | m + 1 => by
    by_cases hf : d.world.finished = true
    · exact ⟨d, [], 0, by simp [runLoop, hf], Nat.zero_le _, rfl, rfl, .inl hf,
        fun _ hj => absurd hj (Nat.not_lt_zero _)⟩
    · obtain ⟨n', d₁, sS, sC, hr, h₁⟩ := h.round
      obtain ⟨d', sts, i, hl, hi, hlen, hd, hfin, hmin⟩ := runLoop_spec h₁ m
      refine ⟨d', (sS, sC) :: sts, i + 1, by simp [runLoop, hf, hr, hl], by omega,
        by simp [hlen], (Driver.play_add_two hr (2 * i)).trans hd,
        hfin.imp_right (congrArg (· + 1)), fun j hj => ?_⟩
      cases j with
      | zero => exact ⟨d, rfl, Bool.eq_false_iff.mpr hf⟩
      | succ j =>
        obtain ⟨e, he, hfe⟩ := hmin j (by omega)
        exact ⟨e, (Driver.play_add_two hr (2 * j)).trans he, hfe⟩

/-- The unbounded driver never fails, and, read on knowledge, follows `Knowledge.play`. -/
theorem drive_knowledge (args : Args × Args) (reqs : List Link × List Link) (clientOob : Bool)
    (linkIdx : Nat) (k : Nat) :
    ∃ d, (startRun args reqs clientOob linkIdx).drive k = some d ∧
      d.knowledge = (startRun args reqs clientOob linkIdx).knowledge.play
        (startRun args reqs clientOob linkIdx).world.reqs (2 * k) ∧
      d.world.reqs = (startRun args reqs clientOob linkIdx).world.reqs := by
  obtain ⟨_, d, -, -, hp, hk, hr⟩ := (Tracks.startRun args reqs clientOob linkIdx).play (2 * k)
  exact ⟨d, hp, hk, hr⟩

/-- `run` returns, true exactly when the peers' knowledge after three rounds is final. -/
theorem run_final (args : Args × Args) (reqs : List Link × List Link) (clientOob : Bool)
    (linkIdx : Nat) :
    ∃ r, run args reqs clientOob linkIdx = some r ∧
      (r.1 = true ↔ ((startRun args reqs clientOob linkIdx).knowledge.play
        (startRun args reqs clientOob linkIdx).world.reqs 6).Final
          (startRun args reqs clientOob linkIdx).world.reqs) := by
  obtain ⟨d, sts, i, hl, -, -, hd, hfin, -⟩ :=
    runLoop_spec (Tracks.startRun args reqs clientOob linkIdx) 6
  obtain ⟨e, he, hke, hre⟩ := drive_knowledge args reqs clientOob linkIdx i
  obtain rfl := Option.some.inj (he.symm.trans hd)
  refine ⟨(e.world.finished, sts, e.world.linkIdx), by simp [run, hl], ?_⟩
  rw [Driver.finished_iff, hke, hre] at hfin ⊢
  refine ⟨Knowledge.Final.play_six, fun h => hfin.elim id fun hi => ?_⟩
  rwa [hi, Knowledge.play_stable _ (by norm_num : 3 ≤ 6)]

/-- The ceiling never cuts a negotiation short: `run` returns true exactly when the unbounded driver
ever reaches the final state. -/
theorem run_ceiling (args : Args × Args) (reqs : List Link × List Link) (clientOob : Bool)
    (linkIdx : Nat) :
    (∀ k, ∃ d, (startRun args reqs clientOob linkIdx).drive k = some d) ∧
      (∀ k d₃ d, 3 ≤ k → (startRun args reqs clientOob linkIdx).drive 3 = some d₃ →
        (startRun args reqs clientOob linkIdx).drive k = some d →
        ∀ side (req : Link),
          (d.world.peer side).links.any (·.gt req) = (d₃.world.peer side).links.any (·.gt req)) ∧
      ∃ r, run args reqs clientOob linkIdx = some r ∧
        (r.1 = true ↔ ∃ k d, (startRun args reqs clientOob linkIdx).drive k = some d ∧
          d.world.finished = true) := by
  have hk := drive_knowledge args reqs clientOob linkIdx
  refine ⟨fun k => (hk k).imp fun _ h => h.1, fun k d₃ d h3 hd₃ hd side req => ?_, ?_⟩
  · obtain ⟨e₃, he₃, hk₃, -⟩ := hk 3
    obtain ⟨e, he, hke, -⟩ := hk k
    obtain rfl := Option.some.inj (he₃.symm.trans hd₃)
    obtain rfl := Option.some.inj (he.symm.trans hd)
    have hK : e.knowledge = e₃.knowledge := hke.trans ((Knowledge.play_stable _ h3).trans hk₃.symm)
    exact any_gt_congr (congrArg (fun K : Knowledge => K.shapes side) hK) req
  · obtain ⟨r, hr, hfinal⟩ := run_final args reqs clientOob linkIdx
    refine ⟨r, hr, hfinal.trans ⟨fun h => ?_, fun ⟨k, d, hd, hf⟩ => ?_⟩⟩
    · obtain ⟨d, hd, hkd, hrd⟩ := hk 3
      exact ⟨3, d, hd, (Driver.finished_iff d).mpr (by rwa [hkd, hrd])⟩
    · obtain ⟨e, he, hke, hre⟩ := hk k
      obtain rfl := Option.some.inj (he.symm.trans hd)
      rw [Driver.finished_iff, hke, hre] at hf
      exact hf.play_six

/-- `run` prints one pair of statuses a round: at most three when it returns true, and
all six up to the ceiling when it returns false. -/
theorem run_rounds (args : Args × Args) (reqs : List Link × List Link) (clientOob : Bool)
    (linkIdx : Nat) :
    ∃ r, run args reqs clientOob linkIdx = some r ∧
      (r.1 = true → r.2.1.length ≤ 3) ∧ (r.1 = false → r.2.1.length = 6) := by
  obtain ⟨d, sts, i, hl, -, hlen, hd, hfin, hmin⟩ :=
    runLoop_spec (Tracks.startRun args reqs clientOob linkIdx) 6
  refine ⟨(d.world.finished, sts, d.world.linkIdx), by simp [run, hl], fun hf => ?_,
    fun hf => hlen.trans (hfin.resolve_left (Bool.eq_false_iff.mp hf))⟩
  by_contra hi
  obtain ⟨e, he, hfe⟩ := hmin 3 (by simp only at hi; omega)
  obtain ⟨e', he', hke', hre'⟩ := drive_knowledge args reqs clientOob linkIdx 3
  obtain ⟨_, hd', hkd, hrd⟩ := drive_knowledge args reqs clientOob linkIdx i
  obtain rfl := Option.some.inj (he'.symm.trans he)
  obtain rfl := Option.some.inj (hd'.symm.trans hd)
  rw [Driver.finished_iff, hkd, hrd] at hf
  have h3 : e'.world.finished = true := by
    rw [Driver.finished_iff, hke', hre']
    exact hf.play_six
  simp [h3] at hfe

end Raceboat.States
