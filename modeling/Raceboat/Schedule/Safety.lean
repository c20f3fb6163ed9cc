import Raceboat.Schedule.Preservation

/-!
# Safety of every schedule

What the invariant says about the two maps in any reachable state: the two
copies of a link id agree, and are ready together; the counterpart's key is
there for every address in flight, so `load_link` never raises; an isolated
link never comes from an address shared out of band; and the id
`create_link` issues next is held by neither peer.
-/

namespace Raceboat.States

open NodeState

section FrameInv

variable {f : Frame} {m t : List Link}

/-- Every entry of a peer's map is one of its own created links or a loaded copy. -/
theorem FrameInv.entry (h : FrameInv f m t) {l : Link} (hl : l ∈ f.links) :
    (∃ a ∈ m, a.link = l.link ∧ l = { a with ready := hasKey f.other a.link }) ∨
      ∃ a ∈ t, a.link = l.link ∧ l = loadedLink a := by
  obtain ⟨a, ha, he⟩ := List.mem_map.mp (h.keys_links l hl)
  rcases List.mem_append.mp ha with ha | ha
  · exact .inl ⟨a, ha, he, (h.owned_mine a ha).2.1 l hl he.symm⟩
  · exact .inr ⟨a, ha, he, (h.owned_theirs a ha).2.2 l hl he.symm⟩

/-- A held link is ready exactly when the counterpart holds its id. -/
theorem FrameInv.ready_iff (h : FrameInv f m t) {l : Link} (hl : l ∈ f.links) :
    l.ready = true ↔ hasKey f.other l.link = true := by
  rcases h.entry hl with ⟨a, -, -, rfl⟩ | ⟨a, ha, -, rfl⟩
  · exact Iff.rfl
  · simpa [loadedLink] using (h.owned_theirs a ha).1

/-- The two copies of one id are both ready, agree on channel and isolation, and have complementary
capabilities. -/
theorem FrameInv.pair (h : FrameInv f m t) {l₁ l₂ : Link} (h₁ : l₁ ∈ f.links)
    (h₂ : l₂ ∈ f.other) (he : l₁.link = l₂.link) :
    l₁.ready = true ∧ l₂.ready = true ∧ l₁.channel = l₂.channel ∧ l₁.isolated = l₂.isolated ∧
      l₁.send = l₂.recv ∧ l₁.recv = l₂.send := by
  have hk₂ : hasKey f.other l₁.link = true := hasKey_iff.mpr ⟨l₂, h₂, he.symm⟩
  have hk₁ : hasKey f.links l₂.link = true := hasKey_iff.mpr ⟨l₁, h₁, he⟩
  rcases h.entry h₁ with ⟨a, ha, -, rfl⟩ | ⟨a, ha, -, rfl⟩
  · obtain rfl := (h.owned_mine a ha).2.2 l₂ h₂ he.symm
    obtain ⟨hs, hr, -⟩ := h.created a (List.mem_append_left t ha)
    exact ⟨hk₂, rfl, rfl, rfl, hs, hr⟩
  · obtain rfl := (h.owned_theirs a ha).2.1 l₂ h₂ he.symm
    obtain ⟨hs, hr, -⟩ := h.created a (List.mem_append_right m ha)
    exact ⟨rfl, hk₁, rfl, rfl, hr.symm, hs.symm⟩

/-- An id only one peer holds is that peer's own created link, not ready. -/
theorem FrameInv.lonely (h : FrameInv f m t) {k : String} (hk : hasKey f.links k = true)
    (hno : hasKey f.other k = false) :
    k ∈ m.map Link.link ∧ ∀ l ∈ f.links, l.link = k → l.ready = false := by
  refine ⟨?_, fun l hl he => by simpa [he, hno] using h.ready_iff hl⟩
  obtain ⟨l, hl, rfl⟩ := hasKey_iff.mp hk
  rcases h.entry hl with ⟨a, ha, he, -⟩ | ⟨a, ha, he, -⟩
  · exact he ▸ List.mem_map_of_mem _ ha
  · exact absurd (he ▸ (h.owned_theirs a ha).1) (by simp [hno])

end FrameInv

/-! ## Links in every reachable state -/

/-- An id is held ready by a peer exactly when both hold it, then as ready complementary copies; one
held by one peer only is its unready created link. -/
theorem link_pairing {n : Net} (h : Reachable n) (k : String) :
    ((∃ side, ∃ l ∈ (n.world.peer side).links, l.link = k ∧ l.ready = true) ↔
        hasKey n.world.server.links k = true ∧ hasKey n.world.client.links k = true) ∧
      (∀ l₁ ∈ n.world.server.links, ∀ l₂ ∈ n.world.client.links, l₁.link = k → l₂.link = k →
        l₁.ready = true ∧ l₂.ready = true ∧ l₁.channel = l₂.channel ∧
          l₁.isolated = l₂.isolated ∧ l₁.send = l₂.recv ∧ l₁.recv = l₂.send) ∧
      ∀ side, hasKey (n.world.peer side).links k = true →
        hasKey (n.world.peer side.other).links k = false →
          k ∈ (n.emitted side).map Link.link ∧
            ∀ l ∈ (n.world.peer side).links, l.link = k → l.ready = false := by
  have hf := h.inv.frame
  refine ⟨⟨?_, fun ⟨hs, _⟩ => ?_⟩,
    fun l₁ h₁ l₂ h₂ e₁ e₂ => (hf .server).pair h₁ h₂ (e₁.trans e₂.symm),
    fun side => (hf side).lonely⟩
  · rintro ⟨side, l, hl, rfl, hr⟩
    have ho := ((hf side).ready_iff hl).mp hr
    have hs : hasKey (n.world.peer side).links l.link = true := hasKey_iff.mpr ⟨l, hl, rfl⟩
    cases side
    · exact ⟨hs, ho⟩
    · exact ⟨ho, hs⟩
  · obtain ⟨l, hl, rfl⟩ := hasKey_iff.mp hs
    exact ⟨.server, l, hl, rfl, ((hf .server).ready_iff hl).mpr ‹_›⟩

/-- Both peers hold the first link of the all-`BIDI` scenario ready once the client has
loaded it; the client alone holds the links it has just created. -/
theorem link_pairing_bidiNetLoaded :
    Reachable bidiNetLoaded ∧
      (((∃ side, ∃ l ∈ (bidiNetLoaded.world.peer side).links, l.link = "^c2sBIDI-link-1" ∧
            l.ready = true) ↔
          hasKey bidiNetLoaded.world.server.links "^c2sBIDI-link-1" = true ∧
            hasKey bidiNetLoaded.world.client.links "^c2sBIDI-link-1" = true) ∧
        (∀ l₁ ∈ bidiNetLoaded.world.server.links, ∀ l₂ ∈ bidiNetLoaded.world.client.links,
          l₁.link = "^c2sBIDI-link-1" → l₂.link = "^c2sBIDI-link-1" →
          l₁.ready = true ∧ l₂.ready = true ∧ l₁.channel = l₂.channel ∧
            l₁.isolated = l₂.isolated ∧ l₁.send = l₂.recv ∧ l₁.recv = l₂.send) ∧
        ∀ side, hasKey (bidiNetLoaded.world.peer side).links "^c2sBIDI-link-1" = true →
          hasKey (bidiNetLoaded.world.peer side.other).links "^c2sBIDI-link-1" = false →
            "^c2sBIDI-link-1" ∈ (bidiNetLoaded.emitted side).map Link.link ∧
              ∀ l ∈ (bidiNetLoaded.world.peer side).links, l.link = "^c2sBIDI-link-1" →
                l.ready = false) ∧
      (((∃ side, ∃ l ∈ (bidiNetLoaded.world.peer side).links, l.link = "^s2cBIDI-link-2" ∧
            l.ready = true) ↔
          hasKey bidiNetLoaded.world.server.links "^s2cBIDI-link-2" = true ∧
            hasKey bidiNetLoaded.world.client.links "^s2cBIDI-link-2" = true) ∧
        (∀ l₁ ∈ bidiNetLoaded.world.server.links, ∀ l₂ ∈ bidiNetLoaded.world.client.links,
          l₁.link = "^s2cBIDI-link-2" → l₂.link = "^s2cBIDI-link-2" →
          l₁.ready = true ∧ l₂.ready = true ∧ l₁.channel = l₂.channel ∧
            l₁.isolated = l₂.isolated ∧ l₁.send = l₂.recv ∧ l₁.recv = l₂.send) ∧
        ∀ side, hasKey (bidiNetLoaded.world.peer side).links "^s2cBIDI-link-2" = true →
          hasKey (bidiNetLoaded.world.peer side.other).links "^s2cBIDI-link-2" = false →
            "^s2cBIDI-link-2" ∈ (bidiNetLoaded.emitted side).map Link.link ∧
              ∀ l ∈ (bidiNetLoaded.world.peer side).links, l.link = "^s2cBIDI-link-2" →
                l.ready = false) :=
  ⟨bidiNetLoaded_reachable, link_pairing bidiNetLoaded_reachable _,
    link_pairing bidiNetLoaded_reachable _⟩

/-- Every address in flight to a peer names an id the counterpart holds, so loading any
batch of them, and the step around it, never raises. -/
theorem inflight_key_held {n : Net} (h : Reachable n) :
    (∀ side, ∀ a ∈ n.emitted side, hasKey (n.world.peer side).links a.link = true) ∧
      ∀ side msgs, (∀ a ∈ msgs, a ∈ n.emitted side.other) →
        (∃ f, msgs.foldlM NodeState.loadLink (n.world.frame side) = some f) ∧
          ∃ n', n.step side msgs = some n' := by
  have hf := h.inv.frame
  refine ⟨fun side a ha => ((hf side).owned_mine a ha).1, fun side msgs hm => ?_⟩
  obtain ⟨f, hl, -⟩ := (hf side).loadAll hm
  obtain ⟨r, hr, -⟩ := (hf side).step (n.world.peer side).requirements hm
  refine ⟨⟨f, hl⟩, ?_⟩
  simp [Net.step, World.step, hr]

/-- In the all-`BIDI` scenario after `start`, each peer holds what it emitted, and each batch loads. -/
theorem inflight_key_held_bidiNet :
    Reachable bidiNet ∧
      (∀ side, ∀ a ∈ bidiNet.emitted side, hasKey (bidiNet.world.peer side).links a.link = true) ∧
        ∀ side msgs, (∀ a ∈ msgs, a ∈ bidiNet.emitted side.other) →
          (∃ f, msgs.foldlM NodeState.loadLink (bidiNet.world.frame side) = some f) ∧
            ∃ n', bidiNet.step side msgs = some n' :=
  ⟨bidiNet_reachable, inflight_key_held bidiNet_reachable⟩

/-! ## Where isolated links come from -/

/-- Every address the creation loop returns is isolated. -/
theorem createMissing_isolated :
    ∀ (f : Frame) (reqs : List Link), ∀ a ∈ (createMissing f reqs).2, a.isolated = true
  | f, [] => by simp [createMissing]
  | f, r :: reqs => by
    by_cases hc : (!(f.links.any (·.gt r)) && isResponsible r) = true
    · simpa [createMissing, hc, NodeState.createLink] using
        createMissing_isolated (NodeState.createLink f r.channel true).2 reqs
    · simpa [createMissing, hc] using createMissing_isolated f reqs

/-- Every address `step` returns is isolated. -/
theorem step_isolated {reqs msgs : List Link} {f : Frame} {r : Frame × String × List Link}
    (h : NodeState.step reqs f msgs = some r) : ∀ a ∈ r.2.2, a.isolated = true := by
  obtain ⟨f', -, hout, -⟩ := step_eq_some h
  rw [hout]
  split
  · exact createMissing_isolated f' reqs
  · simp

/-- The address `start` shares, if any, is not isolated. -/
theorem shareIf_isolated (dirs : List String) (channel : Channel) (fa : Frame × List Link) :
    ∀ a ∈ (shareIf dirs channel fa).2, a ∈ fa.2 ∨ a.isolated = false := by
  unfold shareIf
  split
  · simp only [List.mem_append, List.mem_singleton]
    rintro a (ha | rfl)
    · exact .inl ha
    · exact .inr rfl
  · exact fun a ha => .inl ha

/-- No address a peer's `start` returns is isolated. -/
theorem World.start_isolated (w : World) (side : Side) (args : Args) :
    ∀ a ∈ (w.start side args).2, a.isolated = false := by
  intro a ha
  cases side <;>
  · rcases shareIf_isolated _ _ _ a ha with ha | h
    · rcases shareIf_isolated _ _ _ a ha with ha | h
      · simp at ha
      · exact h
    · exact h

/-- Addresses shared out of band are not isolated; those sent by `step` are. -/
theorem Reachable.isolation {n : Net} (h : Reachable n) :
    (∀ side, ∀ a ∈ n.oob side, a.isolated = false) ∧
      ∀ side, ∀ a ∈ n.sent side, a.isolated = true := by
  induction h with
  | init => simp [Net.init]
  | next _ hn ih =>
    cases hn with
    | start side args =>
      refine ⟨fun s a ha => ?_, ih.2⟩
      by_cases hs : s = side
      · subst hs
        simp only [Net.start, Function.update_same, List.mem_append] at ha
        exact ha.elim (ih.1 s a) (World.start_isolated _ _ _ a)
      · exact ih.1 s a (by simpa [Net.start, hs] using ha)
    | step side msgs _ hs =>
      obtain ⟨r, hr, rfl⟩ := Option.map_eq_some'.mp hs
      obtain ⟨q, hq, rfl⟩ := Option.map_eq_some'.mp hr
      refine ⟨ih.1, fun s a ha => ?_⟩
      by_cases hs : s = side
      · subst hs
        simp only [Function.update_same, List.mem_append] at ha
        exact ha.elim (ih.2 s a) (step_isolated hq a)
      · exact ih.2 s a (by simpa [hs] using ha)

/-- An address either peer emitted is among those both have emitted. -/
theorem Net.mem_emitted_all (n : Net) {side : Side} {a : Link} (ha : a ∈ n.emitted side) :
    a ∈ n.emitted .server ++ n.emitted .client := by
  cases side
  · exact List.mem_append_left _ ha
  · exact List.mem_append_right _ ha

/-- A held isolated link has an id `step` created, never one `start` shared out of band,
so no isolated requirement is met by an out-of-band address. -/
theorem isolated_not_oob {n : Net} (h : Reachable n) (side : Side) (l : Link)
    (hl : l ∈ (n.world.peer side).links) :
    (l.isolated = true → l.link ∉ (n.oob .server ++ n.oob .client).map Link.link ∧
        l.link ∈ (n.sent .server ++ n.sent .client).map Link.link) ∧
      ∀ req : Link, req.isolated = true → l.gt req = true →
        l.link ∉ (n.oob .server ++ n.oob .client).map Link.link := by
  have hsrc : ∃ s, ∃ a ∈ n.emitted s, a.link = l.link ∧ a.isolated = l.isolated := by
    rcases (h.inv.frame side).entry hl with ⟨a, ha, he, rfl⟩ | ⟨a, ha, he, rfl⟩
    · exact ⟨side, a, ha, he, rfl⟩
    · exact ⟨side.other, a, ha, he, rfl⟩
  have hmain : l.isolated = true → l.link ∉ (n.oob .server ++ n.oob .client).map Link.link ∧
      l.link ∈ (n.sent .server ++ n.sent .client).map Link.link := by
    intro hi
    obtain ⟨s, a, ha, he, hai⟩ := hsrc
    have hsent : a ∈ n.sent s := (List.mem_append.mp ha).resolve_left fun ho => by
      simp [h.isolation.1 s a ho, hi] at hai
    refine ⟨fun hm => ?_, ?_⟩
    · obtain ⟨b, hb, hbe⟩ := List.mem_map.mp hm
      obtain ⟨s', hbs'⟩ : ∃ s', b ∈ n.oob s' := (List.mem_append.mp hb).elim (⟨_, ·⟩) (⟨_, ·⟩)
      obtain rfl : a = b := h.inv.eq_of_link (n.mem_emitted_all ha)
        (n.mem_emitted_all (List.mem_append_left _ hbs')) (he.trans hbe.symm)
      simp [h.isolation.1 s' a hbs', hi] at hai
    · rw [← he]
      exact List.mem_map_of_mem _ (by cases s <;> simp [hsent])
  refine ⟨hmain, fun req hreq hgt => (hmain ?_).1⟩
  simp only [Link.gt, hreq, Bool.and_eq_true] at hgt
  simpa using hgt.1.1.2

/-- The client's first created link, isolated and ready once the server has loaded it, was
never shared out of band. -/
theorem isolated_not_oob_bidiNetAnswered :
    Reachable bidiNetAnswered ∧
      (⟨"^s2cBIDI-link-2", ⟨"^s2cBIDI", "BIDI"⟩, true, true, true, true⟩ : Link) ∈
        (bidiNetAnswered.world.peer .client).links ∧
      ((true = true →
          "^s2cBIDI-link-2" ∉ (bidiNetAnswered.oob .server ++ bidiNetAnswered.oob .client).map
            Link.link ∧
          "^s2cBIDI-link-2" ∈ (bidiNetAnswered.sent .server ++ bidiNetAnswered.sent .client).map
            Link.link) ∧
        ∀ req : Link, req.isolated = true →
          (⟨"^s2cBIDI-link-2", ⟨"^s2cBIDI", "BIDI"⟩, true, true, true, true⟩ : Link).gt req = true →
          "^s2cBIDI-link-2" ∉ (bidiNetAnswered.oob .server ++ bidiNetAnswered.oob .client).map
            Link.link) :=
  ⟨bidiNetAnswered_reachable, by decide,
    isolated_not_oob bidiNetAnswered_reachable Side.client
      ⟨"^s2cBIDI-link-2", ⟨"^s2cBIDI", "BIDI"⟩, true, true, true, true⟩ (by decide)⟩

/-- Ids of different counters differ, every held id was issued below the counter, so the next id is
held by neither peer. -/
theorem linkId_fresh {n : Net} (h : Reachable n) :
    (∀ (n₁ n₂ : String) (i j : Nat), i ≠ j → linkId n₁ i ≠ linkId n₂ j) ∧
      (∀ side, ∀ l ∈ (n.world.peer side).links, ∃ name, ∃ j < n.world.linkIdx,
        l.link = linkId name j) ∧
      ∀ side channel isolated,
        let c := NodeState.createLink (n.world.frame side) channel isolated
        hasKey (n.world.peer side).links c.1.link = false ∧
          hasKey (n.world.peer side.other).links c.1.link = false ∧
          c.2.links = (n.world.peer side).links ++ [c.1] := by
  have hf := h.inv.frame
  refine ⟨fun _ _ _ _ hij he => hij (linkId_counter_eq he), fun side l hl => ?_,
    fun side channel isolated => ?_⟩
  · obtain ⟨a, ha, he⟩ := List.mem_map.mp ((hf side).keys_links l hl)
    obtain ⟨j, hj, hja⟩ := (hf side).issued a ha
    exact ⟨a.channel.name, j, hj, he ▸ hja⟩
  · have hfresh := (hf side).fresh le_rfl channel.name
    have h₁ := (hf side).not_hasKey_links hfresh
    refine ⟨h₁, (hf side).not_hasKey_other hfresh, ?_⟩
    simp only [NodeState.createLink]
    rw [insertLink, if_neg (by simp [h₁])]
    rfl

/-- In the all-`BIDI` scenario after `start`, every held id was issued below the counter. -/
theorem linkId_fresh_bidiNet :
    Reachable bidiNet ∧
      (∀ (n₁ n₂ : String) (i j : Nat), i ≠ j → linkId n₁ i ≠ linkId n₂ j) ∧
      (∀ side, ∀ l ∈ (bidiNet.world.peer side).links, ∃ name, ∃ j < bidiNet.world.linkIdx,
        l.link = linkId name j) ∧
      ∀ side channel isolated,
        let c := NodeState.createLink (bidiNet.world.frame side) channel isolated
        hasKey (bidiNet.world.peer side).links c.1.link = false ∧
          hasKey (bidiNet.world.peer side.other).links c.1.link = false ∧
          c.2.links = (bidiNet.world.peer side).links ++ [c.1] :=
  ⟨bidiNet_reachable, linkId_fresh bidiNet_reachable⟩

end Raceboat.States
