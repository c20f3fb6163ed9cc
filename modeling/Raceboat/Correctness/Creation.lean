import Raceboat.Knowledge.Simulation

/-!
# Each requirement causes at most one creation

A link created for an unmet requirement is ready for its creator one round later,
and then meets the requirement unless it asks both directions of a one-way
channel. Without such requirements, a requirement is created for at most once.
-/

namespace Raceboat.States

open NodeState

/-- A requirement that asks for both directions of a one-way channel. -/
def DualOneWay (req : Link) : Prop :=
  (req.channel.directionality = "C2L" ∨ req.channel.directionality = "L2C") ∧
    req.send = true ∧ req.recv = true

instance (req : Link) : Decidable (DualOneWay req) :=
  inferInstanceAs (Decidable (_ ∧ _))

/-- The ready copy of a link created for a requirement meets it, unless the requirement is dual one-
way. -/
theorem created_gt {req : Link} (hresp : isResponsible req = true) (hdual : ¬DualOneWay req) :
    (Addr.created ⟨req.channel, true⟩).gt req = true := by
  obtain ⟨link, ⟨name, dir⟩, send, recv, isolated, ready⟩ := req
  simp only [DualOneWay, isResponsible, Bool.or_eq_true, Bool.and_eq_true, beq_iff_eq]
    at hresp hdual
  simp only [Addr.created, Shape.gt, isRecv, isSend, beq_self_eq_true, Bool.or_true,
    Bool.true_and, Bool.and_eq_true, Bool.or_eq_true, Bool.not_eq_true']
  rcases hresp with (h | ⟨h, hr⟩) | ⟨h, hs⟩ <;> subst h <;> cases send <;> cases recv <;>
    simp_all

/-- A successful `load_link` inserts the loaded link into `links`. -/
theorem loadLink_links {f g : Frame} {a : Link} (h : NodeState.loadLink f a = some g) :
    g.links = insertLink f.links (loadedLink a) := by
  rw [loadLink_frame h]

/-- A loaded batch leaves the loader holding every id of the batch. -/
theorem hasKey_loadAll : ∀ {f f' : Frame} {msgs : List Link},
    msgs.foldlM NodeState.loadLink f = some f' → ∀ a ∈ msgs, hasKey f'.links a.link = true
  | _, _, [], _, a, ha => absurd ha (List.not_mem_nil a)
  | f, f', b :: msgs, h, a, ha => by
    obtain ⟨g, hg, hrest⟩ := Option.bind_eq_some.mp h
    rcases List.mem_cons.mp ha with rfl | ha
    · have hk : hasKey g.links a.link = true := by
        rw [loadLink_links hg]
        exact hasKey_insertLink.mpr (.inl rfl)
      exact ((keysGrow_loadAll hrest) _).1 hk
    · exact hasKey_loadAll hrest a ha

/-- After a successful step, `links` holds the id of every address it loaded. -/
theorem hasKey_step {reqs msgs : List Link} {f : Frame} {r : Frame × String × List Link}
    (h : NodeState.step reqs f msgs = some r) : ∀ a ∈ msgs, hasKey r.1.links a.link = true := by
  obtain ⟨f', hf, -, h1⟩ := step_eq_some h
  intro a ha
  have hk := hasKey_loadAll hf a ha
  rw [h1]
  split
  · exact ((keysGrow_createMissing f' _) _).1 hk
  · exact hk

/-- Two halves of the same peer are two apart. -/
theorem add_two_le_of_turn_eq {j j' : Nat} (hj : j < j') (ht : turn j' = turn j) :
    j + 2 ≤ j' := by
  by_contra hc
  obtain rfl : j' = j + 1 := by omega
  exact Side.other_ne _ (ht ▸ (turn_succ j).symm)

/-- A world's successful step is its peer's step, written back. -/
theorem World.step_eq_some {w : World} {side : Side} {msgs : List Link}
    {r : World × String × List Link} (h : w.step side msgs = some r) :
    ∃ q, NodeState.step (w.reqs side) (w.frame side) msgs = some q ∧
      r = (w.update side q.1, q.2) :=
  let ⟨q, hq, he⟩ := Option.map_eq_some'.mp h
  ⟨q, hq, he.symm⟩

/-- Every requirement of a started run is one of the scenario's. -/
theorem startRun_reqs (args : Args × Args) (reqs : List Link × List Link) (clientOob : Bool)
    (linkIdx : Nat) : ∀ s, ∀ req ∈ (startRun args reqs clientOob linkIdx).world.reqs s,
      req ∈ reqs.1 ++ reqs.2
  | .server, _, h => List.mem_append_left _ h
  | .client, _, h => List.mem_append_right _ h

/-- What a peer's step creates is, once the counterpart's half has loaded it, held by the
creator as its created link, ready. -/
theorem Tracks.created_ready {n : Net} {d : Driver} (h : Tracks n d) (side : Side)
    {r : World × String × List Link} (hr : d.world.step side (d.inbox side) = some r) :
    ∃ d₁ d₂ st₁ st₂, d.half side = some (d₁, st₁) ∧ d₁.half side.other = some (d₂, st₂) ∧
      ∀ l ∈ r.2.2, { l with ready := true } ∈ (d₂.world.peer side).links ∧ Created l ∧
        l.isolated = true := by
  obtain ⟨n₁, d₁, st₁, out, -, h₁, hh₁, hs₁, hin, hem⟩ := h.half side
  obtain rfl : r = (d₁.world, st₁, out) := Option.some.inj (hr.symm.trans hs₁)
  obtain ⟨n₂, d₂, st₂, _, hnext₂, h₂, hh₂, hs₂, -⟩ := h₁.half side.other
  obtain ⟨q₀, hq₀, he₀⟩ := World.step_eq_some hs₁
  obtain ⟨q, hq, hw⟩ := World.step_eq_some hs₂
  refine ⟨d₁, d₂, st₁, st₂, hh₁, hh₂, fun l hl => ?_⟩
  have hl₂ : l ∈ n₂.emitted side :=
    hnext₂.emitted_mono side l (hem ▸ List.mem_append_right _ hl)
  have hkey : hasKey (d₂.world.frame side).other l.link = true := by
    have := hasKey_step hq l (hin ▸ List.mem_append_right _ hl)
    rw [(Prod.mk.inj hw).1]
    simpa [World.frame] using this
  have hinv := h₂.frameInv side
  obtain ⟨x, hx, hxk⟩ := hasKey_iff.mp (hinv.owned_mine l hl₂).1
  have hxe := (hinv.owned_mine l hl₂).2.1 x hx hxk
  rw [hkey] at hxe
  refine ⟨hxe ▸ hx, hinv.created l (List.mem_append_left _ hl₂), ?_⟩
  exact step_isolated hq₀ l (congrArg (·.2.2) he₀ ▸ hl)

/-- Once the counterpart's half has run, the creator holds ready each link its step created, meeting
its requirement. -/
theorem Tracks.creates_satisfied {n : Net} {d : Driver} (h : Tracks n d) (side : Side)
    (hdual : ∀ req ∈ d.world.reqs side, ¬DualOneWay req) :
    ∃ f r d₁ d₂ st₁ st₂,
      (d.inbox side).foldlM NodeState.loadLink (d.world.frame side) = some f ∧
      d.world.step side (d.inbox side) = some r ∧
      r.2.2.map Link.addr =
        (creates f.links (d.world.reqs side)).map (fun req => ⟨req.channel, true⟩) ∧
      d.half side = some (d₁, st₁) ∧ d₁.half side.other = some (d₂, st₂) ∧
      ∀ req ∈ creates f.links (d.world.reqs side), ∀ l ∈ r.2.2, l.channel = req.channel →
        ∃ l' ∈ (d₂.world.peer side).links, l'.link = l.link ∧ l'.ready = true ∧
          l'.gt req = true := by
  obtain ⟨f, q, hf, hq, -, -, -, hout, -⟩ :=
    (h.frameInv side).step_spec (h.inbox side) (d.world.reqs side)
  have hq' : NodeState.step (d.world.peer side).requirements (d.world.frame side)
      (d.inbox side) = some q := hq
  have hws : d.world.step side (d.inbox side) = some (d.world.update side q.1, q.2) := by
    simp [World.step, hq']
  obtain ⟨d₁, d₂, st₁, st₂, hh₁, hh₂, hready⟩ := h.created_ready side hws
  refine ⟨f, _, d₁, d₂, st₁, st₂, hf, hws, hout, hh₁, hh₂, fun req hreq l hl hch => ?_⟩
  obtain ⟨hmem, hcreated, hiso⟩ := hready l hl
  obtain ⟨-, hr, -, hresp⟩ := mem_creates.mp hreq
  have ha : l.addr = ⟨req.channel, true⟩ := by
    simp [Link.addr, hch, hiso]
  refine ⟨_, hmem, rfl, rfl, ?_⟩
  rw [Link.gt_eq, hcreated.shape, ha]
  exact created_gt hresp (hdual req hr)

/-- A requirement a peer satisfies at some half of a run it satisfies, after loading, at
every later half of the run. -/
theorem any_gt_loaded_later (args : Args × Args) (reqs : List Link × List Link)
    (clientOob : Bool) (linkIdx : Nat) {i j : Nat} (hij : i ≤ j) (side : Side) {req : Link}
    {e d : Driver} {f : Frame} (he : (startRun args reqs clientOob linkIdx).play i = some e)
    (hd : (startRun args reqs clientOob linkIdx).play j = some d)
    (hf : (d.inbox side).foldlM NodeState.loadLink (d.world.frame side) = some f)
    (hs : (e.world.peer side).links.any (·.gt req) = true) : f.links.any (·.gt req) = true := by
  have h0 := Tracks.startRun args reqs clientOob linkIdx
  obtain ⟨_, e', -, -, he', hke, -⟩ := h0.play i
  obtain rfl := Option.some.inj (he'.symm.trans he)
  obtain ⟨_, d', -, hT, hd', hkd, -⟩ := h0.play j
  obtain rfl := Option.some.inj (hd'.symm.trans hd)
  obtain ⟨f', -, hf', -, hload, -⟩ :=
    (hT.frameInv side).step_spec (hT.inbox side) (d'.world.reqs side)
  obtain rfl := Option.some.inj (hf'.symm.trans hf)
  have hmono : e'.knowledge.shapes side ⊆ d'.knowledge.shapes side := by
    rw [hke, hkd]
    exact Knowledge.shapes_play_mono _ _ hij
  exact any_gt_iff.mpr (((any_gt_iff.mp hs).mono hmono).mono (hload ▸ Set.subset_union_left))

/-- Without dual one-way requirements, a requirement a peer's step creates for is met at its next
step, so it is created for once. -/
theorem creation_once (args : Args × Args) (reqs : List Link × List Link) (clientOob : Bool)
    (linkIdx : Nat) (hreqs : ∀ req ∈ reqs.1 ++ reqs.2, ¬DualOneWay req) (j : Nat) (d : Driver)
    (hd : (startRun args reqs clientOob linkIdx).play j = some d) :
    ∃ f r d₂,
      (d.inbox (turn j)).foldlM NodeState.loadLink (d.world.frame (turn j)) = some f ∧
      d.world.step (turn j) (d.inbox (turn j)) = some r ∧
      r.2.2.map Link.addr =
        (creates f.links (d.world.reqs (turn j))).map (fun req => ⟨req.channel, true⟩) ∧
      (startRun args reqs clientOob linkIdx).play (j + 2) = some d₂ ∧
      (∀ req ∈ creates f.links (d.world.reqs (turn j)), ∀ l ∈ r.2.2, l.channel = req.channel →
        ∃ l' ∈ (d₂.world.peer (turn j)).links, l'.link = l.link ∧ l'.ready = true ∧
          l'.gt req = true) ∧
      ∀ j' d' f', j < j' → turn j' = turn j →
        (startRun args reqs clientOob linkIdx).play j' = some d' →
        (d'.inbox (turn j)).foldlM NodeState.loadLink (d'.world.frame (turn j)) = some f' →
        ∀ req ∈ creates f.links (d.world.reqs (turn j)),
          req ∉ creates f'.links (d'.world.reqs (turn j)) := by
  obtain ⟨_, e, -, hT, hp, -, hre⟩ := (Tracks.startRun args reqs clientOob linkIdx).play j
  obtain rfl := Option.some.inj (hp.symm.trans hd)
  obtain ⟨f, r, d₁, d₂, _, _, hf, hws, hout, hh₁, hh₂, hsat⟩ := hT.creates_satisfied (turn j)
    fun req hr => hreqs req (startRun_reqs args reqs clientOob linkIdx _ req (hre ▸ hr))
  have hp₂ : (startRun args reqs clientOob linkIdx).play (j + 2) = some d₂ := by
    simp [Driver.play, hd, hh₁, turn_succ, hh₂]
  refine ⟨f, r, d₂, hf, hws, hout, hp₂, hsat, fun j' d' f' hjj hturn hd' hf' req hreq hreq' => ?_⟩
  -- the link created for `req` satisfies it at the creator's next half, so at every later one
  obtain ⟨l, hl, hla⟩ : ∃ l ∈ r.2.2, l.addr = ⟨req.channel, true⟩ := by
    have h := List.mem_map_of_mem (fun req : Link => (⟨req.channel, true⟩ : Addr)) hreq
    rwa [← hout, List.mem_map] at h
  obtain ⟨l', hl', -, -, hgt⟩ := hsat req hreq l hl (congrArg Addr.channel hla)
  have hlater := any_gt_loaded_later args reqs clientOob linkIdx
    (add_two_le_of_turn_eq hjj hturn) (turn j) hp₂ hd' hf' (List.any_eq_true.mpr ⟨l', hl', hgt⟩)
  rw [(mem_creates.mp hreq').2.2.1] at hlater
  exact Bool.false_ne_true hlater

/-- `make_requirements` asks each requirement for one direction only. -/
theorem makeRequirements_not_dual (initC2s initS2c finalC2s finalS2c : Channel) (isolated : Bool) :
    ∀ req ∈ (makeRequirements initC2s initS2c finalC2s finalS2c isolated).1 ++
      (makeRequirements initC2s initS2c finalC2s finalS2c isolated).2, ¬DualOneWay req := by
  simp [makeRequirements, DualOneWay]

/-- In the all-`BIDI` scenario the client creates three links at its first half, and each is
ready and met at its next half. -/
theorem creation_once_bidi :
    (∀ req ∈ bidiRequirements.1 ++ bidiRequirements.2, ¬DualOneWay req) ∧
      bidiStart.play 1 = some bidiServerHalf ∧
      ∃ f r d₂,
        (bidiServerHalf.inbox (turn 1)).foldlM NodeState.loadLink (bidiServerHalf.world.frame (turn 1)) =
          some f ∧
        bidiServerHalf.world.step (turn 1) (bidiServerHalf.inbox (turn 1)) = some r ∧
        r.2.2.map Link.addr =
          (creates f.links (bidiServerHalf.world.reqs (turn 1))).map (fun req => ⟨req.channel, true⟩) ∧
        bidiStart.play (1 + 2) = some d₂ ∧
        (∀ req ∈ creates f.links (bidiServerHalf.world.reqs (turn 1)), ∀ l ∈ r.2.2,
          l.channel = req.channel →
          ∃ l' ∈ (d₂.world.peer (turn 1)).links, l'.link = l.link ∧ l'.ready = true ∧
            l'.gt req = true) ∧
        ∀ j' d' f', 1 < j' → turn j' = turn 1 → bidiStart.play j' = some d' →
          (d'.inbox (turn 1)).foldlM NodeState.loadLink (d'.world.frame (turn 1)) = some f' →
          ∀ req ∈ creates f.links (bidiServerHalf.world.reqs (turn 1)),
            req ∉ creates f'.links (d'.world.reqs (turn 1)) :=
  ⟨makeRequirements_not_dual _ _ _ _ _, rfl,
    creation_once bidiArgs bidiRequirements true 1 (makeRequirements_not_dual _ _ _ _ _) 1
      bidiServerHalf rfl⟩

end Raceboat.States
