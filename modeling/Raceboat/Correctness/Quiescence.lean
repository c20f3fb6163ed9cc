import Raceboat.Correctness.Renaming
import Raceboat.Correctness.Creation
import Raceboat.Schedule.Batch

/-!
# What the loop does after round 3

From round 3 on, every round prints the same two statuses and either leaves the
driver's state as it was or creates links again. It creates only for dual one-way
requirements, which no link it creates can meet.
-/

namespace Raceboat.States

open NodeState

/-! ## The counter counts the links a step creates -/

/-- A creation loop that creates nothing leaves the frame as it was. -/
theorem createMissing_of_nil (f : Frame) (reqs : List Link) (h : (createMissing f reqs).2 = []) :
    (createMissing f reqs).1 = f := by
  induction reqs generalizing f with
  | nil => rfl
  | cons r reqs ih =>
    unfold createMissing at h ⊢
    split at h
    · simp at h
    · rename_i hc
      rw [if_neg hc]
      exact ih f h

/-- `step` raises the counter by the number of links it creates, all of which it returns. -/
theorem NodeState.step_linkIdx {reqs msgs : List Link} {f : Frame} {r : Frame × String × List Link}
    (h : NodeState.step reqs f msgs = some r) : r.1.linkIdx = f.linkIdx + r.2.2.length := by
  obtain ⟨f', hf, h₂, h₁⟩ := step_eq_some h
  rw [h₁, h₂, ← foldlM_loadLink_linkIdx hf]
  split
  · exact createMissing_linkIdx f' reqs
  · rfl

/-- A `step` with nothing to load that creates nothing leaves its peer's frame as it was. -/
theorem NodeState.step_nil {reqs : List Link} {f : Frame} {r : Frame × String × List Link}
    (h : NodeState.step reqs f [] = some r) (hout : r.2.2 = []) : r.1 = f := by
  obtain ⟨f', hf, h₂, h₁⟩ := step_eq_some h
  obtain rfl : f' = f := (Option.some.inj hf).symm
  rw [h₁]
  rw [h₂] at hout
  by_cases hc : canSend f'.links = true
  · simp only [hc, if_true] at hout ⊢
    exact createMissing_of_nil f' reqs hout
  · simp only [hc, if_false, Bool.false_eq_true]

/-- Writing back a peer's own frame changes nothing. -/
theorem World.update_frame (w : World) (side : Side) : w.update side (w.frame side) = w := by
  cases side <;> rfl

/-- A world's step advances the counter by the number of links it sends. -/
theorem World.step_linkIdx {w w' : World} {side : Side} {msgs : List Link} {st : String}
    {out : List Link} (h : w.step side msgs = some (w', st, out)) :
    w'.linkIdx = w.linkIdx + out.length := by
  obtain ⟨q, hq, he⟩ := World.step_eq_some h
  obtain ⟨rfl, hq₂⟩ := Prod.mk.inj he
  rw [World.linkIdx_update, NodeState.step_linkIdx hq, ← hq₂]
  rfl

/-- A step on no addresses that sends nothing leaves the world as it was. -/
theorem World.step_nil {w w' : World} {side : Side} {st : String}
    (h : w.step side [] = some (w', st, [])) : w' = w := by
  obtain ⟨q, hq, he⟩ := World.step_eq_some h
  obtain ⟨rfl, hq₂⟩ := Prod.mk.inj he
  rw [NodeState.step_nil hq (by rw [← hq₂]), World.update_frame]

/-- A half whose peer has nothing pending and whose `step` creates nothing leaves the driver
as it was. -/
theorem Driver.half_eq_self {d e : Driver} {side : Side} {w : World} {st : String}
    (hin : d.inbox side = []) (hs : d.world.step side [] = some (w, st, []))
    (hd : d.half side = some (e, st)) : e = d := by
  obtain rfl := World.step_nil hs
  obtain ⟨w, cm, sm⟩ := d
  cases side <;> simp_all [Driver.half, Driver.inbox]

/-- A tracked half: its peer's `step`, which returns the addresses its peer wants once
loaded, and prints CREATED NEW LINKS exactly when it returns some. -/
theorem Tracks.half_created {n : Net} {d e : Driver} {st : String} (h : Tracks n d)
    {side : Side} (hd : d.half side = some (e, st)) :
    ∃ out, d.world.step side (d.inbox side) = some (e.world, st, out) ∧
      addrs out = wanted (d.world.reqs side) (e.knowledge.shapes side) ∧
      (st = "CREATED NEW LINKS" ↔ out ≠ []) := by
  obtain ⟨f', r, -, hr, -, s₂, -, s₄, s₅⟩ :=
    (h.frameInv side).step_spec (h.inbox side) (d.world.reqs side)
  obtain ⟨e', he', hw, -⟩ := Driver.half_of_step hr
  obtain ⟨rfl, rfl⟩ := Prod.mk.inj (Option.some.inj (he'.symm.trans hd))
  have hshapes : e'.knowledge.shapes side = readyShapes r.1.links := by
    simp [Driver.knowledge, hw]
  have hwant : addrs r.2.2 = wanted (d.world.reqs side) (e'.knowledge.shapes side) := by
    rw [addrs_eq_wanted s₄, ← s₂, hshapes]
  refine ⟨r.2.2, by simp [World.step, World.reqs, hw] at hr ⊢; exact ⟨r.1, hr, rfl⟩, hwant, ?_⟩
  rw [s₅]
  unfold finishedOr
  cases hout : r.2.2 with
  | nil => split <;> simp
  | cons a out =>
    have ha : a.addr ∈ addrs r.2.2 := ⟨a, by simp [hout], rfl⟩
    rw [hwant] at ha
    obtain ⟨-, req, hreq, -, hsat, -⟩ := ha
    have hfin : isFinalState r.1.links (d.world.reqs side) = false := by
      rw [Bool.eq_false_iff, Ne, isFinalState_iff]
      exact fun hall => hsat (hshapes ▸ hall req hreq)
    simp [hfin]

/-! ## A round from the state after three rounds -/

/-- After `k + 3` rounds the driver is tracked and, read on knowledge, at the fixed point. -/
theorem drive_add_three_tracks (args : Args × Args) (reqs : List Link × List Link)
    (clientOob : Bool) (linkIdx k : Nat) :
    ∃ n d, Tracks n d ∧ (startRun args reqs clientOob linkIdx).drive (k + 3) = some d ∧
      d.knowledge = (startRun args reqs clientOob linkIdx).knowledge.play
        (startRun args reqs clientOob linkIdx).world.reqs 6 ∧
      d.world.reqs = (startRun args reqs clientOob linkIdx).world.reqs := by
  obtain ⟨n, d, -, t, hp, hk, hr⟩ :=
    (Tracks.startRun args reqs clientOob linkIdx).play (2 * (k + 3))
  exact ⟨n, d, t, hp, hk.trans (Knowledge.play_stable _ (by omega)), hr⟩

/-- A round from a tracked state at its knowledge's fixed point either returns the state or creates
links and raises the counter. -/
theorem Tracks.round_fixed {n : Net} {d : Driver} (h : Tracks n d) {K : Knowledge}
    (hK : d.knowledge = K.play d.world.reqs 6) :
    ∃ d' statusS statusC, d.round = some (d', statusS, statusC) ∧
      (statusS = "CREATED NEW LINKS" ↔
        (wanted (d.world.reqs .server) (d.knowledge.shapes .server)).Nonempty) ∧
      (statusC = "CREATED NEW LINKS" ↔
        (wanted (d.world.reqs .client) (d.knowledge.shapes .client)).Nonempty) ∧
      (statusS ≠ "CREATED NEW LINKS" → statusC ≠ "CREATED NEW LINKS" → d' = d) ∧
      (statusS = "CREATED NEW LINKS" ∨ statusC = "CREATED NEW LINKS" →
        d.world.linkIdx < d'.world.linkIdx) := by
  obtain ⟨_, d₁, sS, -, -, t₁, hd₁, -⟩ := h.half .server
  obtain ⟨_, d₂, sC, -, -, -, hd₂, -⟩ := t₁.half .client
  obtain ⟨outS, hsS, haS, hcS⟩ := h.half_created hd₁
  obtain ⟨outC, hsC, haC, hcC⟩ := t₁.half_created hd₂
  obtain ⟨k₁, r₁⟩ := h.knowledge_half hd₁
  obtain ⟨k₂, -⟩ := t₁.knowledge_half hd₂
  have hround : d₂.knowledge = d.knowledge := by
    rw [k₂, k₁, r₁, hK]
    exact Knowledge.round_play_six K
  have hshapes : d₁.knowledge.shapes .server = d.knowledge.shapes .server := by
    rw [k₁, hK]
    exact Knowledge.half_shapes_of_round_eq (Knowledge.round_play_six K) .server
  have hN : d.knowledge.Normal d.world.reqs := by
    rw [hK, ← Knowledge.round_play_six K]
    exact Knowledge.normal_round _
  have hwS : addrs outS = wanted (d.world.reqs .server) (d.knowledge.shapes .server) := by
    rw [haS, hshapes]
  have hwC : addrs outC = wanted (d.world.reqs .client) (d.knowledge.shapes .client) := by
    rw [haC, hround, r₁]
  have hne : ∀ out : List Link, out ≠ [] ↔ (addrs out).Nonempty := fun out => by
    rw [Set.nonempty_iff_ne_empty, Ne, Ne, addrs_eq_empty]
  refine ⟨d₂, sS, sC, Driver.round_eq_some.mpr ⟨d₁, hd₁, hd₂⟩, by rw [hcS, hne, hwS],
    by rw [hcC, hne, hwC], fun hS hC => ?_, fun hc => ?_⟩
  · have hoS : outS = [] := by simpa [hcS] using hS
    have hoC : outC = [] := by simpa [hcC] using hC
    have hinC : d.inbox .client = [] := addrs_eq_empty.mp hN.1
    have hinS : d.inbox .server = [] := by
      rw [← addrs_eq_empty]
      exact hN.2.trans (hwC.symm.trans (by rw [hoC, addrs_nil]))
    obtain rfl := Driver.half_eq_self hinS (hinS ▸ hoS ▸ hsS) hd₁
    exact Driver.half_eq_self hinC (hinC ▸ hoC ▸ hsC) hd₂
  · have h₁ := World.step_linkIdx hsS
    have h₂ := World.step_linkIdx hsC
    rcases hc with hc | hc
    · have := List.length_pos.mpr (hcS.mp hc)
      omega
    · have := List.length_pos.mpr (hcC.mp hc)
      omega

/-- Once a round returns the driver's state unchanged, every later round does. -/
theorem Driver.drive_of_round_self {s d : Driver} {k : Nat} {statusS statusC : String}
    (hd : s.drive k = some d) (hr : d.round = some (d, statusS, statusC)) :
    ∀ m, s.drive (k + m) = some d
  | 0 => hd
  | m + 1 => by
    obtain ⟨d₁, h₁, h₂⟩ := Driver.round_eq_some.mp hr
    have hm : s.play (2 * (k + m)) = some d := Driver.drive_of_round_self hd hr m
    rw [Driver.drive, show 2 * (k + (m + 1)) = 2 * (k + m) + 1 + 1 by ring, Driver.play,
      Driver.play, hm]
    simp [h₁, h₂]

/-- After three rounds, a requirement a peer that can send is responsible for and leaves unmet is
dual one-way. -/
theorem unmet_play_six_dual (K : Knowledge) (reqs : Side → List Link) (side : Side)
    {req : Link} (hreq : req ∈ reqs side) (hresp : isResponsible req = true)
    (hcan : CanSend ((K.play reqs 6).shapes side))
    (hsat : ¬Sat ((K.play reqs 6).shapes side) req) : DualOneWay req :=
  Decidable.byContradiction fun hdual => hsat
    ⟨_, (Knowledge.delivered_play_six K side _ ⟨hcan, req, hreq, hresp, hsat, rfl⟩).1,
      created_gt hresp hdual⟩

/-- What a peer still wants after three rounds is for a requirement it is responsible for and
does not satisfy there, and that requirement is dual one-way. -/
theorem wanted_play_six_dual (K : Knowledge) (reqs : Side → List Link) (side : Side) {a : Addr}
    (ha : a ∈ wanted (reqs side) ((K.play reqs 6).shapes side)) :
    ∃ req ∈ reqs side, isResponsible req = true ∧ ¬Sat ((K.play reqs 6).shapes side) req ∧
      DualOneWay req := by
  obtain ⟨hcan, req, hreq, hresp, hsat, rfl⟩ := ha
  exact ⟨req, hreq, hresp, hsat, unmet_play_six_dual K reqs side hreq hresp hcan hsat⟩

/-! ## After round 3 -/

/-- Rounds from any two states after round 3 print the same two statuses: read on knowledge,
both start from the fixed point. -/
theorem drive_round_statuses {args : Args × Args} {reqs : List Link × List Link}
    {clientOob : Bool} {linkIdx k l : Nat} (hk : 3 ≤ k) (hl : 3 ≤ l) {e e' g g' : Driver}
    {statusS statusC statusS' statusC' : String}
    (he : (startRun args reqs clientOob linkIdx).drive k = some e)
    (hre : e.round = some (e', statusS, statusC))
    (hg : (startRun args reqs clientOob linkIdx).drive l = some g)
    (hrg : g.round = some (g', statusS', statusC')) :
    statusS = statusS' ∧ statusC = statusC' := by
  obtain ⟨_, e₀, -, t, he₀, hke, hre₀⟩ := (Tracks.startRun args reqs clientOob linkIdx).play (2 * k)
  obtain ⟨_, g₀, -, u, hg₀, hkg, hrg₀⟩ := (Tracks.startRun args reqs clientOob linkIdx).play (2 * l)
  obtain rfl := Option.some.inj (he₀.symm.trans he)
  obtain rfl := Option.some.inj (hg₀.symm.trans hg)
  have ha : Agree e₀ g₀ := ⟨by rw [hke, hkg, Knowledge.play_stable _ hk,
    Knowledge.play_stable _ hl], fun _ _ => by rw [hre₀, hrg₀]⟩
  obtain ⟨_, _, x, y, s₁, hx, hy, tx, ty, hxy⟩ := Agree.half t u ha .server
  obtain ⟨_, _, x', y', s₂, hx', hy', -⟩ := Agree.half tx ty hxy .client
  have hp := hre.symm.trans (Driver.round_eq_some.mpr ⟨x, hx, hx'⟩)
  have hq := hrg.symm.trans (Driver.round_eq_some.mpr ⟨y, hy, hy'⟩)
  simp only [Option.some.injEq, Prod.mk.injEq] at hp hq
  exact ⟨hp.2.1.trans hq.2.1.symm, hp.2.2.trans hq.2.2.symm⟩


/-- From round 3 on, every round prints the same two statuses and either returns the driver's state
or creates links again. -/
theorem rounds_after_three (args : Args × Args) (reqs : List Link × List Link)
    (clientOob : Bool) (linkIdx : Nat) :
    ∃ statusS statusC, ∀ k, ∃ d d',
      (startRun args reqs clientOob linkIdx).drive (k + 3) = some d ∧
      d.round = some (d', statusS, statusC) ∧
      (statusS ≠ "CREATED NEW LINKS" → statusC ≠ "CREATED NEW LINKS" → d' = d) ∧
      (statusS = "CREATED NEW LINKS" ∨ statusC = "CREATED NEW LINKS" →
        d.world.linkIdx < d'.world.linkIdx) := by
  obtain ⟨_, d₃, t₃, hd₃, -⟩ := drive_add_three_tracks args reqs clientOob linkIdx 0
  obtain ⟨_, _, sS, sC, hround₃, -⟩ := t₃.round
  refine ⟨sS, sC, fun k => ?_⟩
  obtain ⟨_, d, t, hd, hkd, hrd⟩ := drive_add_three_tracks args reqs clientOob linkIdx k
  obtain ⟨d', sS', sC', hround, -, -, hfrz, hlive⟩ := t.round_fixed (hkd.trans (by rw [hrd]))
  obtain ⟨rfl, rfl⟩ := drive_round_statuses le_rfl (by omega) hd₃ hround₃ hd hround
  exact ⟨d, d', hd, hround, hfrz, hlive⟩

/-- From the end of round 3 on, a peer that can send leaves unmet only requirements it is not
responsible for, which it waits for its counterpart to create, and dual one-way ones. -/
theorem unmet_after_three (args : Args × Args) (reqs : List Link × List Link)
    (clientOob : Bool) (linkIdx k : Nat) :
    ∃ d, (startRun args reqs clientOob linkIdx).drive (k + 3) = some d ∧
      ∀ side, canSend (d.world.peer side).links = true →
        ∀ req ∈ (d.world.peer side).requirements, isResponsible req = true →
          (d.world.peer side).links.any (·.gt req) = false → DualOneWay req := by
  obtain ⟨_, d, -, hd, hk, hr⟩ := drive_add_three_tracks args reqs clientOob linkIdx k
  refine ⟨d, hd, fun side hcan req hreq hresp hsat => ?_⟩
  have hS : readyShapes (d.world.peer side).links =
      ((startRun args reqs clientOob linkIdx).knowledge.play
        (startRun args reqs clientOob linkIdx).world.reqs 6).shapes side :=
    congrArg (fun K : Knowledge => K.shapes side) hk
  refine unmet_play_six_dual _ _ side (hr ▸ hreq) hresp (hS ▸ canSend_iff.mp hcan) ?_
  rw [← hS, ← any_gt_iff, hsat]
  exact Bool.false_ne_true

/-- After round 3, a peer creates only for a dual one-way requirement it is responsible for and
never satisfies. -/
theorem created_after_three (args : Args × Args) (reqs : List Link × List Link)
    (clientOob : Bool) (linkIdx j : Nat) :
    ∃ d d' st, (startRun args reqs clientOob linkIdx).play (j + 6) = some d ∧
      d.half (turn j) = some (d', st) ∧
      (st = "CREATED NEW LINKS" →
        ∃ req ∈ (startRun args reqs clientOob linkIdx).world.reqs (turn j), DualOneWay req ∧
          isResponsible req = true ∧
          ∀ i e, (startRun args reqs clientOob linkIdx).play i = some e →
            (e.world.peer (turn j)).links.any (·.gt req) = false) := by
  set s := startRun args reqs clientOob linkIdx
  obtain ⟨_, d, -, t, hp, hk, hr⟩ := (Tracks.startRun args reqs clientOob linkIdx).play (j + 6)
  obtain ⟨_, d', st, -, -, -, hh, -⟩ := t.half (turn j)
  refine ⟨d, d', st, hp, hh, fun hc => ?_⟩
  obtain ⟨out, -, hw, hcr⟩ := t.half_created hh
  obtain ⟨a, ha⟩ := List.exists_mem_of_ne_nil _ (hcr.mp hc)
  have hK : d'.knowledge.shapes (turn j) = (s.knowledge.play s.world.reqs 6).shapes (turn j) := by
    have h7 : (s.knowledge.play s.world.reqs (j + 6)).half s.world.reqs (turn j) =
        s.knowledge.play s.world.reqs (j + 6 + 1) := by
      simp [Knowledge.play]
    rw [(t.knowledge_half hh).1, hk, hr, h7]
    exact Knowledge.shapes_play_of_six_le _ (by omega) _
  have ha' : a.addr ∈ wanted (s.world.reqs (turn j))
      ((s.knowledge.play s.world.reqs 6).shapes (turn j)) := by
    rw [← hK, ← hr, ← hw]
    exact ⟨a, ha, rfl⟩
  obtain ⟨req, hreq, hresp, hsat, hdual⟩ := wanted_play_six_dual _ _ _ ha'
  refine ⟨req, hreq, hdual, hresp, fun i e he => ?_⟩
  obtain ⟨_, e', -, -, hp', hk', -⟩ := (Tracks.startRun args reqs clientOob linkIdx).play i
  obtain rfl := Option.some.inj (hp'.symm.trans he)
  rw [Bool.eq_false_iff, Ne, any_gt_iff]
  intro hsat'
  have hsub : e'.knowledge.shapes (turn j) ⊆ (s.knowledge.play s.world.reqs 6).shapes (turn j) :=
    hk' ▸ Knowledge.shapes_play_subset_play_six _ i _
  exact hsat (hsat'.mono hsub)

/-- A server requiring both send and recv on a `C2L` channel creates a link for it in every
round: after the fifth, it still prints CREATED NEW LINKS and the counter has reached 6. -/
example :
    ((startRun bidiArgs ([⟨"dual", ⟨"chanB", "C2L"⟩, true, true, true, true⟩], []) true 1).drive 4
      |>.bind (·.round)).map (fun r => (r.2, r.1.world.linkIdx)) =
      some (("CREATED NEW LINKS", "FINISHED"), 6) := by
  decide

/-- Without dual one-way requirements, as `make_requirements` builds them, the loop is at a fixed
point from round 3. -/
theorem drive_fixed_of_not_dual (args : Args × Args) (reqs : List Link × List Link)
    (clientOob : Bool) (linkIdx : Nat) (hreqs : ∀ req ∈ reqs.1 ++ reqs.2, ¬DualOneWay req) :
    ∃ d statusS statusC, (startRun args reqs clientOob linkIdx).drive 3 = some d ∧
      d.round = some (d, statusS, statusC) ∧
      ∀ k, (startRun args reqs clientOob linkIdx).drive (k + 3) = some d := by
  obtain ⟨_, d, t, hd, hk, hr⟩ := drive_add_three_tracks args reqs clientOob linkIdx 0
  obtain ⟨d', sS, sC, hround, hcS, hcC, hfrz, -⟩ := t.round_fixed (hk.trans (by rw [hr]))
  have hnone : ∀ side, ¬(wanted (d.world.reqs side) (d.knowledge.shapes side)).Nonempty := by
    rintro side ⟨a, ha⟩
    rw [hk, hr] at ha
    obtain ⟨req, hreq, -, -, hdual⟩ := wanted_play_six_dual _ _ _ ha
    exact hreqs req (startRun_reqs args reqs clientOob linkIdx side req hreq) hdual
  obtain rfl : d = d' := (hfrz (mt hcS.mp (hnone .server)) (mt hcC.mp (hnone .client))).symm
  refine ⟨d, sS, sC, hd, hround, fun k => ?_⟩
  have hk := Driver.drive_of_round_self hd hround k
  rwa [Nat.zero_add, Nat.add_comm] at hk

/-- The all-`BIDI` scenario has no dual one-way requirement and is fixed from round three on. -/
theorem drive_fixed_of_not_dual_bidi :
    (∀ req ∈ bidiRequirements.1 ++ bidiRequirements.2, ¬DualOneWay req) ∧
      ∃ d statusS statusC, bidiStart.drive 3 = some d ∧ d.round = some (d, statusS, statusC) ∧
        ∀ k, bidiStart.drive (k + 3) = some d :=
  ⟨makeRequirements_not_dual _ _ _ _ _,
    drive_fixed_of_not_dual bidiArgs bidiRequirements true 1 (makeRequirements_not_dual _ _ _ _ _)⟩

/-! ## What `run` prints -/

/-- The `k`-th pair of statuses `run`'s loop returns is the one its `k`-th round prints. -/
theorem runLoop_get : ∀ {m : Nat} {d d' : Driver} {sts : List (String × String)},
    runLoop m d = some (d', sts) → ∀ {k : Nat} {p : String × String}, sts[k]? = some p →
      ∃ e e', d.drive k = some e ∧ e.round = some (e', p.1, p.2)
  | 0, _, _, _, h, _, _, hp => by
    obtain ⟨-, rfl⟩ := Prod.mk.inj (Option.some.inj h).symm
    simp at hp
  | m + 1, d, d', sts, h, k, p, hp => by
    by_cases hf : d.world.finished = true
    · obtain ⟨-, rfl⟩ := Prod.mk.inj (Option.some.inj (by simpa [runLoop, hf] using h.symm))
      simp at hp
    cases hr : d.round with
    | none => simp [runLoop, hf, hr] at h
    | some r =>
      cases hl : runLoop m r.1 with
      | none => simp [runLoop, hf, hr, hl] at h
      | some l =>
        obtain rfl : (r.2.1, r.2.2) :: l.2 = sts := by simp [runLoop, hf, hr, hl] at h; exact h.2
        cases k with
        | zero =>
          simp only [List.getElem?_cons_zero, Option.some.injEq] at hp
          subst hp
          exact ⟨d, r.1, rfl, hr⟩
        | succ k =>
          rw [List.getElem?_cons_succ] at hp
          obtain ⟨e, e', he, hre⟩ := runLoop_get hl hp
          refine ⟨e, e', ?_, hre⟩
          rw [Driver.drive, Nat.mul_succ, Driver.play_add_two hr]
          exact he

/-- A tracked half prints FINISHED exactly when, read on knowledge, its peer then satisfies
all its requirements. -/
theorem Tracks.half_finished {n : Net} {d e : Driver} {st : String} (h : Tracks n d)
    {side : Side} (hd : d.half side = some (e, st)) :
    st = "FINISHED" ↔ ∀ req ∈ d.world.reqs side, Sat (e.knowledge.shapes side) req := by
  obtain ⟨out, -, hst⟩ := h.half_status hd
  have hF : isFinalState (e.world.peer side).links (d.world.reqs side) = true ↔
      ∀ req ∈ d.world.reqs side, Sat (e.knowledge.shapes side) req :=
    isFinalState_iff
  rw [hst, ← hF]
  unfold finishedOr
  split
  · simp_all
  · split <;> simp_all

/-- The statuses of the round from the state after `k` rounds, read on knowledge: each peer
prints FINISHED exactly when it satisfies all its requirements after its half. -/
theorem drive_round_finished {args : Args × Args} {reqs : List Link × List Link}
    {clientOob : Bool} {linkIdx k : Nat} {e e' : Driver} {statusS statusC : String}
    (he : (startRun args reqs clientOob linkIdx).drive k = some e)
    (hr : e.round = some (e', statusS, statusC)) :
    let s := startRun args reqs clientOob linkIdx
    (statusS = "FINISHED" ↔ ∀ req ∈ s.world.reqs .server,
        Sat ((s.knowledge.play s.world.reqs (2 * k + 1)).shapes .server) req) ∧
      (statusC = "FINISHED" ↔ ∀ req ∈ s.world.reqs .client,
        Sat ((s.knowledge.play s.world.reqs (2 * k + 2)).shapes .client) req) := by
  obtain ⟨_, e₀, -, t, hp, hk, hreq⟩ := (Tracks.startRun args reqs clientOob linkIdx).play (2 * k)
  obtain rfl := Option.some.inj (hp.symm.trans he)
  obtain ⟨e₁, h₁, h₂⟩ := Driver.round_eq_some.mp hr
  obtain ⟨_, _, _, -, -, t₁, h₁', -⟩ := t.half .server
  obtain rfl := (Prod.mk.inj (Option.some.inj (h₁'.symm.trans h₁))).1
  obtain ⟨k₁, r₁⟩ := t.knowledge_half h₁
  obtain ⟨k₂, -⟩ := t₁.knowledge_half h₂
  refine ⟨(t.half_finished h₁).trans ?_, (t₁.half_finished h₂).trans ?_⟩
  · rw [k₁, hk, hreq]
    simp [Knowledge.play]
  · rw [k₂, k₁, r₁, hk, hreq]
    simp [Knowledge.play, turn_succ]

/-- What `run` prints, for every input: once a peer's status is FINISHED, it is FINISHED in
every later pair; and every pair after the third is the same. -/
theorem run_statuses (args : Args × Args) (reqs : List Link × List Link) (clientOob : Bool)
    (linkIdx : Nat) :
    ∃ r, run args reqs clientOob linkIdx = some r ∧
      (∀ (k l : Nat) (p q : String × String), k ≤ l → r.2.1[k]? = some p → r.2.1[l]? = some q →
        (p.1 = "FINISHED" → q.1 = "FINISHED") ∧ (p.2 = "FINISHED" → q.2 = "FINISHED")) ∧
      (∀ (k l : Nat) (p q : String × String), 3 ≤ k → 3 ≤ l → r.2.1[k]? = some p →
        r.2.1[l]? = some q → p = q) := by
  obtain ⟨d, sts, -, hl, -⟩ := runLoop_spec (Tracks.startRun args reqs clientOob linkIdx) 6
  refine ⟨(d.world.finished, sts, d.world.linkIdx), by simp [run, hl], ?_, ?_⟩
  · intro k l p q hkl hp hq
    dsimp only at hp hq
    obtain ⟨e, e', he, hre⟩ := runLoop_get hl hp
    obtain ⟨g, g', hg, hrg⟩ := runLoop_get hl hq
    obtain ⟨hS, hC⟩ := drive_round_finished he hre
    obtain ⟨hS', hC'⟩ := drive_round_finished hg hrg
    refine ⟨fun h => hS'.mpr fun req hreq => ?_, fun h => hC'.mpr fun req hreq => ?_⟩
    · exact (hS.mp h req hreq).mono (Knowledge.shapes_play_mono _ _ (by omega))
    · exact (hC.mp h req hreq).mono (Knowledge.shapes_play_mono _ _ (by omega))
  · intro k l p q hk hl' hp hq
    dsimp only at hp hq
    obtain ⟨e, e', he, hre⟩ := runLoop_get hl hp
    obtain ⟨g, g', hg, hrg⟩ := runLoop_get hl hq
    obtain ⟨h₁, h₂⟩ := drive_round_statuses hk hl' he hre hg hrg
    exact Prod.ext h₁ h₂

/-! ## Dual one-way requirements in any schedule -/

/-- On a one-way channel, `is_send` and `is_recv` never both hold. -/
theorem not_isSend_and_isRecv {channel : Channel}
    (h : channel.directionality = "C2L" ∨ channel.directionality = "L2C") (loaded : Bool) :
    ¬(isSend channel loaded = true ∧ isRecv channel loaded = true) := by
  rcases h with h | h <;> cases loaded <;> simp [isSend, isRecv, h]

/-- Every link a peer holds has the capabilities `create_link` or `load_link` gave it. -/
theorem FrameInv.caps {f : Frame} {m t : List Link} (h : FrameInv f m t) {l : Link}
    (hl : l ∈ f.links) :
    ∃ loaded, l.send = isSend l.channel loaded ∧ l.recv = isRecv l.channel loaded := by
  rcases h.entry hl with ⟨a, ha, -, rfl⟩ | ⟨a, -, -, rfl⟩
  · obtain ⟨hs, hr, -⟩ := h.created a (List.mem_append_left _ ha)
    exact ⟨false, hs, hr⟩
  · exact ⟨true, rfl, rfl⟩

/-- In every reachable state, a link meets a dual one-way requirement only from a channel of the
same name and another directionality. -/
theorem dual_met_by_other_channel {n : Net} (h : Reachable n) (side : Side) {req l : Link}
    (hdual : DualOneWay req) (hl : l ∈ (n.world.peer side).links) (hgt : l.gt req = true) :
    l.channel.name = req.channel.name ∧ l.channel.directionality ≠ "C2L" ∧
      l.channel.directionality ≠ "L2C" := by
  obtain ⟨-, hs, hr⟩ := hdual
  simp only [Link.gt, hs, hr, Bool.and_eq_true, beq_iff_eq, Bool.not_true, Bool.false_or]
    at hgt
  obtain ⟨⟨⟨⟨-, hname⟩, -⟩, hsend⟩, hrecv⟩ := hgt
  obtain ⟨loaded, hls, hlr⟩ := (h.inv.frame side).caps hl
  have hboth : isSend l.channel loaded = true ∧ isRecv l.channel loaded = true :=
    ⟨hls ▸ hsend, hlr ▸ hrecv⟩
  exact ⟨hname, fun hd => not_isSend_and_isRecv (.inl hd) loaded hboth,
    fun hd => not_isSend_and_isRecv (.inr hd) loaded hboth⟩

/-- A client `C2L` requirement on `^c2sBIDI` is met by the ready `BIDI` link of that channel. -/
theorem dual_met_by_other_channel_bidi :
    DualOneWay ⟨"r", ⟨"^c2sBIDI", "C2L"⟩, true, true, false, true⟩ ∧
      (⟨"^c2sBIDI-link-1", ⟨"^c2sBIDI", "BIDI"⟩, true, true, false, true⟩ : Link) ∈
        (bidiNetLoaded.world.peer .client).links ∧
      (⟨"^c2sBIDI-link-1", ⟨"^c2sBIDI", "BIDI"⟩, true, true, false, true⟩ : Link).gt
        ⟨"r", ⟨"^c2sBIDI", "C2L"⟩, true, true, false, true⟩ = true ∧
      ("^c2sBIDI" = "^c2sBIDI" ∧ "BIDI" ≠ "C2L" ∧ "BIDI" ≠ "L2C") :=
  ⟨by decide, by decide, by decide,
    @dual_met_by_other_channel _ bidiNetLoaded_reachable .client
      ⟨"r", ⟨"^c2sBIDI", "C2L"⟩, true, true, false, true⟩
      ⟨"^c2sBIDI-link-1", ⟨"^c2sBIDI", "BIDI"⟩, true, true, false, true⟩
      (by decide) (by decide) (by decide)⟩

end Raceboat.States
