import Raceboat.Correctness.Ceiling

/-!
# Counter values and requirement order do not matter

Neither the counter nor the order of requirements reaches what the peers know,
so two runs that differ only in them agree round by round, with the same
verdict and statuses.
-/

namespace Raceboat.States

open NodeState

/-! ## What `start` leaves -/

/-- Sharing a channel's link keeps every link of the frame unready. -/
theorem shareIf_unready (dirs : List String) (channel : Channel) {fa : Frame × List Link}
    (h : ∀ l ∈ fa.1.links, l.ready = false) :
    ∀ l ∈ (shareIf dirs channel fa).1.links, l.ready = false := by
  unfold shareIf
  split
  · intro l hl
    rcases mem_insertLink.mp hl with rfl | ⟨hl, -⟩
    · rfl
    · exact h l hl
  · exact h

/-- Sharing a channel's link leaves `other` as it is. -/
theorem shareIf_other (dirs : List String) (channel : Channel) (fa : Frame × List Link) :
    (shareIf dirs channel fa).1.other = fa.1.other := by
  unfold shareIf
  split <;> rfl

/-- The addresses `start` shares depend on its arguments only, never on the counter. -/
theorem shareIf_addrs (dirs : List String) (channel : Channel) (fa : Frame × List Link) :
    (shareIf dirs channel fa).2.map Link.addr =
      fa.2.map Link.addr ++
        if channel.directionality ∈ dirs then [⟨channel, false⟩] else [] := by
  unfold shareIf
  split <;> simp_all [NodeState.createLink, Link.addr]

/-- Starting a peer keeps every link of both peers unready. -/
theorem World.start_unready {w : World} (h : ∀ s, ∀ l ∈ (w.peer s).links, l.ready = false)
    (side : Side) (args : Args) :
    ∀ s, ∀ l ∈ ((w.start side args).1.peer s).links, l.ready = false := by
  have hf : ∀ l ∈ (w.frame side).links, l.ready = false := h side
  intro s
  by_cases hs : s = side
  · subst hs
    cases s <;>
      exact shareIf_unready _ _ (shareIf_unready _ _ hf)
  · obtain rfl := Side.eq_other_of_ne hs
    cases side <;>
      simpa [World.start, Server.start, Client.start, shareIf_other] using h _

/-- The addresses `start` emits do not depend on the world it starts from. -/
theorem World.start_addrs (w w' : World) (side : Side) (args : Args) :
    (w.start side args).2.map Link.addr = (w'.start side args).2.map Link.addr := by
  cases side <;> simp only [World.start, Server.start, Client.start, shareIf_addrs, List.map_nil]

/-- After `start`, the peers know the same whatever the counter and the requirements. -/
theorem startRun_knowledge (args : Args × Args) (reqs reqs' : List Link × List Link)
    (clientOob : Bool) (i j : Nat) :
    (startRun args reqs clientOob i).knowledge = (startRun args reqs' clientOob j).knowledge := by
  have hu : ∀ (reqs : List Link × List Link) i s,
      readyShapes ((startRun args reqs clientOob i).world.peer s).links = ∅ := by
    intro reqs i s
    refine Set.eq_empty_of_forall_not_mem fun x ⟨l, hl, hr, _⟩ => ?_
    have h0 : ∀ s, ∀ l ∈ ((⟨⟨[], reqs.1⟩, ⟨[], reqs.2⟩, i⟩ : World).peer s).links,
        l.ready = false := by
      intro s
      cases s <;> simp [World.peer]
    rw [World.start_unready (World.start_unready h0 .server args.1) .client args.2 s l hl] at hr
    exact Bool.false_ne_true hr
  refine Knowledge.ext (funext fun s => (hu reqs i s).trans (hu reqs' j s).symm)
    (funext fun s => addrs_map ?_)
  cases s
  · cases clientOob
    · rfl
    · exact World.start_addrs ((⟨⟨[], reqs.1⟩, ⟨[], reqs.2⟩, i⟩ : World).start .server args.1).1
        ((⟨⟨[], reqs'.1⟩, ⟨[], reqs'.2⟩, j⟩ : World).start .server args.1).1 .client args.2
  · exact World.start_addrs ⟨⟨[], reqs.1⟩, ⟨[], reqs.2⟩, i⟩ ⟨⟨[], reqs'.1⟩, ⟨[], reqs'.2⟩, j⟩
      .server args.1

/-! ## Runs that know the same -/

/-- Two states of the driver that know the same, with the same requirements up to order. -/
def Agree (d₁ d₂ : Driver) : Prop :=
  d₁.knowledge = d₂.knowledge ∧ ∀ s r, r ∈ d₁.world.reqs s ↔ r ∈ d₂.world.reqs s

/-- Agreeing drivers finish together. -/
theorem Agree.finished {d₁ d₂ : Driver} (h : Agree d₁ d₂) :
    d₁.world.finished = d₂.world.finished := by
  rw [Bool.eq_iff_iff, Driver.finished_iff, Driver.finished_iff]
  simp only [Knowledge.Final, h.1, h.2]

/-- `finished_or` gives the same status on equal final tests and equally empty outputs. -/
theorem finishedOr_status_congr {q₁ q₂ l₁ l₂ o₁ o₂ : List Link}
    (h : isFinalState l₁ q₁ = isFinalState l₂ q₂) (ho : o₁ = [] ↔ o₂ = []) :
    (finishedOr q₁ l₁ (if o₁.length > 0 then "CREATED NEW LINKS" else "STUCK") o₁).1 =
      (finishedOr q₂ l₂ (if o₂.length > 0 then "CREATED NEW LINKS" else "STUCK") o₂).1 := by
  unfold finishedOr
  rw [h]
  split <;> cases o₁ <;> cases o₂ <;> simp_all

/-- Halves of two tracked states that agree succeed, return the same status, and agree. -/
theorem Agree.half {n₁ n₂ : Net} {d₁ d₂ : Driver} (h₁ : Tracks n₁ d₁) (h₂ : Tracks n₂ d₂)
    (ha : Agree d₁ d₂) (side : Side) :
    ∃ n₁' n₂' e₁ e₂ st, d₁.half side = some (e₁, st) ∧ d₂.half side = some (e₂, st) ∧
      Tracks n₁' e₁ ∧ Tracks n₂' e₂ ∧ Agree e₁ e₂ := by
  obtain ⟨n₁', e₁, st₁, -, -, t₁, hh₁, -⟩ := h₁.half side
  obtain ⟨n₂', e₂, st₂, -, -, t₂, hh₂, -⟩ := h₂.half side
  obtain ⟨k₁, r₁⟩ := h₁.knowledge_half hh₁
  obtain ⟨k₂, r₂⟩ := h₂.knowledge_half hh₂
  have hK : e₁.knowledge = e₂.knowledge := by
    rw [k₁, k₂, ha.1, Knowledge.half_congr ha.2]
  obtain ⟨o₁, ho₁, hs₁⟩ := h₁.half_status hh₁
  obtain ⟨o₂, ho₂, hs₂⟩ := h₂.half_status hh₂
  have hshapes :
      readyShapes (e₁.world.peer side).links = readyShapes (e₂.world.peer side).links :=
    congrArg (fun K : Knowledge => K.shapes side) hK
  have hst : st₁ = st₂ := by
    rw [hs₁, hs₂]
    refine finishedOr_status_congr ?_ ?_
    · rw [Bool.eq_iff_iff, isFinalState_iff, isFinalState_iff, hshapes]
      simp only [ha.2]
    · rw [← addrs_eq_empty, ← addrs_eq_empty, ho₁, ho₂, hK, wanted_congr (ha.2 side)]
  subst hst
  exact ⟨n₁', n₂', e₁, e₂, st₁, hh₁, hh₂, t₁, t₂, hK, by rw [r₁, r₂]; exact ha.2⟩

/-- `run`'s loops from two tracked states that agree return the same verdict and the
same statuses. -/
theorem runLoop_agree {n₁ n₂ : Net} {d₁ d₂ : Driver} (h₁ : Tracks n₁ d₁) (h₂ : Tracks n₂ d₂)
    (ha : Agree d₁ d₂) :
    ∀ m, ∃ r₁ r₂, runLoop m d₁ = some r₁ ∧ runLoop m d₂ = some r₂ ∧
      r₁.1.world.finished = r₂.1.world.finished ∧ r₁.2 = r₂.2
  | 0 => ⟨_, _, rfl, rfl, ha.finished, rfl⟩
  | m + 1 => by
    by_cases hf : d₁.world.finished = true
    · have hf₂ : d₂.world.finished = true := ha.finished ▸ hf
      exact ⟨(d₁, []), (d₂, []), by simp [runLoop, hf], by simp [runLoop, hf₂], ha.finished, rfl⟩
    · have hf₂ : ¬d₂.world.finished = true := ha.finished ▸ hf
      obtain ⟨_, _, x₁, x₂, sS, hx₁, hx₂, t₁, t₂, hx⟩ := Agree.half h₁ h₂ ha .server
      obtain ⟨_, _, y₁, y₂, sC, hy₁, hy₂, u₁, u₂, hy⟩ := Agree.half t₁ t₂ hx .client
      obtain ⟨⟨z₁, l₁⟩, ⟨z₂, l₂⟩, hl₁, hl₂, hfin, hsts⟩ := runLoop_agree u₁ u₂ hy m
      refine ⟨(z₁, (sS, sC) :: l₁), (z₂, (sS, sC) :: l₂), ?_, ?_, hfin,
        congrArg ((sS, sC) :: ·) hsts⟩
      · simp [runLoop, hf, Driver.round_eq_some.mpr ⟨x₁, hx₁, hy₁⟩, hl₁]
      · simp [runLoop, hf₂, Driver.round_eq_some.mpr ⟨x₂, hx₂, hy₂⟩, hl₂]

/-- Runs from any two counters, with requirements equal up to order, agree on every round's
satisfied requirements, the verdict and statuses. -/
theorem run_renaming (args : Args × Args) (reqs reqs' : List Link × List Link)
    (clientOob : Bool) (i j : Nat) (h₁ : reqs.1.Perm reqs'.1) (h₂ : reqs.2.Perm reqs'.2) :
    (∀ k d d', (startRun args reqs clientOob i).drive k = some d →
        (startRun args reqs' clientOob j).drive k = some d' →
        ∀ side (req : Link),
          (d.world.peer side).links.any (·.gt req) = (d'.world.peer side).links.any (·.gt req)) ∧
      ∃ r r', run args reqs clientOob i = some r ∧ run args reqs' clientOob j = some r' ∧
        r.1 = r'.1 ∧ r.2.1 = r'.2.1 := by
  have ha : Agree (startRun args reqs clientOob i) (startRun args reqs' clientOob j) :=
    ⟨startRun_knowledge args reqs reqs' clientOob i j, fun s r => by
      cases s
      · exact h₁.mem_iff
      · exact h₂.mem_iff⟩
  refine ⟨fun k d d' hd hd' side req => ?_, ?_⟩
  · obtain ⟨e, he, hke, -⟩ := drive_knowledge args reqs clientOob i k
    obtain ⟨e', he', hke', -⟩ := drive_knowledge args reqs' clientOob j k
    obtain rfl := Option.some.inj (he.symm.trans hd)
    obtain rfl := Option.some.inj (he'.symm.trans hd')
    have hK : e.knowledge = e'.knowledge := by
      rw [hke, hke', ha.1, Knowledge.play_congr ha.2]
    exact any_gt_congr (congrArg (fun K : Knowledge => K.shapes side) hK) req
  · obtain ⟨⟨z₁, l₁⟩, ⟨z₂, l₂⟩, hl₁, hl₂, hf, hs⟩ :=
      runLoop_agree (Tracks.startRun args reqs clientOob i) (Tracks.startRun args reqs' clientOob j)
        ha 6
    exact ⟨(z₁.world.finished, l₁, z₁.world.linkIdx), (z₂.world.finished, l₂, z₂.world.linkIdx),
      by simp [run, hl₁], by simp [run, hl₂], hf, hs⟩

/-- The all-`BIDI` scenario with the server's requirements reversed and another counter agrees round
by round. -/
theorem run_renaming_bidi :
    bidiRequirements.1.Perm bidiRequirements.1.reverse ∧
      bidiRequirements.2.Perm bidiRequirements.2 ∧
      (∀ k d d', (startRun bidiArgs bidiRequirements true 1).drive k = some d →
        (startRun bidiArgs (bidiRequirements.1.reverse, bidiRequirements.2) true 7).drive k =
          some d' →
        ∀ side (req : Link),
          (d.world.peer side).links.any (·.gt req) = (d'.world.peer side).links.any (·.gt req)) ∧
      ∃ r r', run bidiArgs bidiRequirements true 1 = some r ∧
        run bidiArgs (bidiRequirements.1.reverse, bidiRequirements.2) true 7 = some r' ∧
        r.1 = r'.1 ∧ r.2.1 = r'.2.1 :=
  ⟨(List.reverse_perm _).symm, List.Perm.refl _,
    run_renaming bidiArgs bidiRequirements (bidiRequirements.1.reverse, bidiRequirements.2) true 1 7
      (List.reverse_perm _).symm (List.Perm.refl _)⟩

end Raceboat.States
