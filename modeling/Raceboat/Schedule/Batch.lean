import Raceboat.Schedule.Preservation
import Raceboat.Knowledge.Shape

/-!
# What a step does with a batch

In a reachable state a step reads its batch only through its members, so any
order or repetition of the batch gives the same result. Its creation loop makes
one unready link for each unmet requirement the peer is responsible for, so a
peer stepped again with nothing new to load creates the same addresses again.
-/

namespace Raceboat.States

open NodeState

/-- Two frames with the same entries in each map, in any order, and the same counter. -/
structure Frame.Equiv (f g : Frame) : Prop where
  links : ∀ l, l ∈ f.links ↔ l ∈ g.links
  other : ∀ l, l ∈ f.other ↔ l ∈ g.other
  linkIdx : f.linkIdx = g.linkIdx

/-! ## Readers and writers of a map read it through its entries -/

section Entries

variable {l₁ l₂ : List Link}

/-- A test on some entry, as `can_send` and `satisfies` make, reads only the entries. -/
theorem any_eq_of_entries (h : ∀ x, x ∈ l₁ ↔ x ∈ l₂) (p : Link → Bool) :
    l₁.any p = l₂.any p := by
  rw [Bool.eq_iff_iff]
  simp only [List.any_eq_true, h]

/-- `is_final_state` reads the links map only through its entries. -/
theorem isFinalState_eq_of_entries (h : ∀ x, x ∈ l₁ ↔ x ∈ l₂) (reqs : List Link) :
    isFinalState l₁ reqs = isFinalState l₂ reqs := by
  simp only [isFinalState, satisfies, any_eq_of_entries h]

end Entries

/-- Creating the missing links from frames with the same entries returns the same addresses,
and frames with the same entries. -/
theorem Frame.Equiv.createMissing {f g : Frame} (h : f.Equiv g) (reqs : List Link) :
    (createMissing f reqs).2 = (createMissing g reqs).2 ∧
      (createMissing f reqs).1.Equiv (createMissing g reqs).1 := by
  induction reqs generalizing f g with
  | nil => exact ⟨rfl, h⟩
  | cons r reqs ih =>
    have hc : (createLink f r.channel true).1 = (createLink g r.channel true).1 := by
      simp [createLink, h.linkIdx]
    have hnext : (createLink f r.channel true).2.Equiv (createLink g r.channel true).2 :=
      ⟨fun x => by simp only [createLink, mem_insertLink, h.links, h.linkIdx], h.other,
        by simp [createLink, h.linkIdx]⟩
    simp only [NodeState.createMissing, any_eq_of_entries h.links]
    split
    · exact ⟨by rw [hc, (ih hnext).1], (ih hnext).2⟩
    · exact ih h

/-- `step` once both batches are loaded into frames with the same entries: the same
status and new addresses, and frames with the same entries. -/
theorem Frame.Equiv.step {f g f' g' : Frame} {msgs msgs' : List Link} (reqs : List Link)
    (hf : msgs.foldlM loadLink f = some f') (hg : msgs'.foldlM loadLink g = some g')
    (h : f'.Equiv g') :
    ∃ r r', NodeState.step reqs f msgs = some r ∧ NodeState.step reqs g msgs' = some r' ∧
      r.2 = r'.2 ∧ r.1.Equiv r'.1 := by
  rw [step_of_loadAll hf, step_of_loadAll hg,
    show canSend g'.links = canSend f'.links from (any_eq_of_entries h.links _).symm]
  split
  · obtain ⟨ho, he⟩ := h.createMissing reqs
    exact ⟨_, _, rfl, rfl, by simp only [finishedOr, ho, isFinalState_eq_of_entries he.links], he⟩
  · exact ⟨_, _, rfl, rfl, by simp only [finishedOr, isFinalState_eq_of_entries h.links], h⟩

/-! ## Loading a batch, in closed form -/

/-- A `load_link` leaves the counter as it is. -/
theorem loadLink_linkIdx {f g : Frame} {a : Link} (h : loadLink f a = some g) :
    g.linkIdx = f.linkIdx := by
  rw [loadLink_frame h]

/-- Loading a batch leaves the counter as it was. -/
theorem foldlM_loadLink_linkIdx : ∀ {f g : Frame} {msgs : List Link},
    msgs.foldlM loadLink f = some g → g.linkIdx = f.linkIdx
  | _, _, [], h => by rw [Option.some.inj h.symm]
  | _, _, _ :: _, h => by
    obtain ⟨f₁, h₁, hrest⟩ := Option.bind_eq_some.mp h
    exact (foldlM_loadLink_linkIdx hrest).trans (loadLink_linkIdx h₁)

/-- The counterpart's map after a batch: each entry under an id of the batch marked ready. -/
theorem loadAll_other : ∀ {f f' : Frame} {msgs : List Link},
    msgs.foldlM loadLink f = some f' →
    f'.other = f.other.map fun x =>
      if x.link ∈ msgs.map Link.link then { x with ready := true } else x
  | f, f', [], h => by
    rw [← Option.some.inj h]
    simp
  | f, f', a :: msgs, h => by
    obtain ⟨f₁, h₁, hrest⟩ := Option.bind_eq_some.mp h
    rw [loadAll_other hrest, loadLink_frame h₁, markReady, List.map_map]
    refine List.map_congr_left fun x _ => ?_
    by_cases hx : x.link = a.link <;> simp [hx]

/-- The loader's map after a batch whose addresses with one id are the same address: the
loaded copy of each address, and the old entries under no id of the batch. -/
theorem mem_loadAll_links : ∀ {f f' : Frame} {msgs : List Link},
    msgs.foldlM loadLink f = some f' → (∀ a ∈ msgs, ∀ b ∈ msgs, a.link = b.link → a = b) →
    ∀ x, x ∈ f'.links ↔
      (∃ a ∈ msgs, x = loadedLink a) ∨ (x ∈ f.links ∧ ∀ a ∈ msgs, x.link ≠ a.link)
  | f, f', [], h, _, x => by
    rw [← Option.some.inj h]
    simp
  | f, f', a :: msgs, h, hc, x => by
    obtain ⟨f₁, h₁, hrest⟩ := Option.bind_eq_some.mp h
    rw [mem_loadAll_links hrest (fun b hb c hc' => hc b (.tail _ hb) c (.tail _ hc')) x,
      loadLink_frame h₁]
    simp only [mem_insertLink, loadedLink_link, List.mem_cons, exists_eq_or_imp,
      forall_eq_or_imp]
    constructor
    · rintro (hb | ⟨rfl | ⟨hx, hne⟩, hall⟩)
      · exact .inl (.inr hb)
      · exact .inl (.inl rfl)
      · exact .inr ⟨hx, hne, hall⟩
    · rintro ((rfl | hb) | ⟨hx, hne, hall⟩)
      · by_cases hdup : ∃ b ∈ msgs, b.link = a.link
        · obtain ⟨b, hb, he⟩ := hdup
          exact .inl ⟨b, hb, by rw [hc b (.tail _ hb) a (.head _) he]⟩
        · exact .inr ⟨.inl rfl, fun b hb he => hdup ⟨b, hb, he.symm⟩⟩
      · exact .inl hb
      · exact .inr ⟨.inr ⟨hx, hne⟩, hall⟩

/-! ## Any order, any repetitions -/

/-- In every reachable state, two batches with the same members give a step the same status,
addresses and counter, and maps with the same entries. -/
theorem step_batch_members {n : Net} (h : Reachable n) (side : Side) {msgs msgs' : List Link}
    (hm : ∀ a ∈ msgs, a ∈ n.emitted side.other) (hmm : ∀ a, a ∈ msgs ↔ a ∈ msgs') :
    ∃ w w' st out, n.world.step side msgs = some (w, st, out) ∧
      n.world.step side msgs' = some (w', st, out) ∧ w.linkIdx = w'.linkIdx ∧
      ∀ s l, l ∈ (w.peer s).links ↔ l ∈ (w'.peer s).links := by
  have hinv := h.inv.frame side
  have hm' : ∀ a ∈ msgs', a ∈ n.emitted side.other := fun a ha => hm a ((hmm a).mpr ha)
  have hsame : ∀ {ms : List Link}, (∀ a ∈ ms, a ∈ n.emitted side.other) →
      ∀ a ∈ ms, ∀ b ∈ ms, a.link = b.link → a = b := fun hms a ha b hb =>
    hinv.eq_of_link (List.mem_append_right _ (hms a ha)) (List.mem_append_right _ (hms b hb))
  obtain ⟨f', hf, -⟩ := hinv.loadAll hm
  obtain ⟨g', hg, -⟩ := hinv.loadAll hm'
  have heq : f'.Equiv g' := by
    refine ⟨fun x => ?_, fun x => ?_, ?_⟩
    · rw [mem_loadAll_links hf (hsame hm), mem_loadAll_links hg (hsame hm')]
      simp only [hmm]
    · rw [loadAll_other hf, loadAll_other hg]
      simp only [List.mem_map, hmm]
    · rw [foldlM_loadLink_linkIdx hf, foldlM_loadLink_linkIdx hg]
  obtain ⟨r, r', hr, hr', h₂, h₁⟩ := heq.step (n.world.peer side).requirements hf hg
  refine ⟨n.world.update side r.1, n.world.update side r'.1, r.2.1, r.2.2,
    by simp [World.step, hr], by simp [World.step, hr', h₂], by simp [h₁.linkIdx], fun s l => ?_⟩
  by_cases hs : s = side
  · subst hs
    simp only [World.links_update_self, h₁.links]
  · obtain rfl := Side.eq_other_of_ne hs
    simp only [World.links_update_other, h₁.other]

/-- The client's step in the all-`BIDI` scenario gives the same result on a batch and on that batch
twice. -/
theorem step_batch_members_bidiNet :
    Reachable bidiNet ∧ (∀ a ∈ bidiNet.emitted .server, a ∈ bidiNet.emitted Side.client.other) ∧
      (∀ a, a ∈ bidiNet.emitted .server ↔
        a ∈ bidiNet.emitted .server ++ bidiNet.emitted .server) ∧
      ∃ w w' st out, bidiNet.world.step .client (bidiNet.emitted .server) = some (w, st, out) ∧
        bidiNet.world.step .client (bidiNet.emitted .server ++ bidiNet.emitted .server) =
          some (w', st, out) ∧
        w.linkIdx = w'.linkIdx ∧ ∀ s l, l ∈ (w.peer s).links ↔ l ∈ (w'.peer s).links :=
  ⟨bidiNet_reachable, fun _ ha => ha, fun a => by simp,
    step_batch_members bidiNet_reachable .client (fun _ ha => ha) fun a => by simp⟩

/-! ## The links a step creates -/

/-- The creation loop advances the counter by the number of links it creates. -/
theorem createMissing_linkIdx (f : Frame) (reqs : List Link) :
    (createMissing f reqs).1.linkIdx = f.linkIdx + (createMissing f reqs).2.length := by
  induction reqs generalizing f with
  | nil => rfl
  | cons r reqs ih =>
    unfold NodeState.createMissing
    split
    · simp only [ih, List.length_cons, createLink]
      omega
    · exact ih f

/-- A link created under an id the map does not hold is unready: a test that no unready link
passes, as `Link.__gt__` and `can_send` are, reads the map as before. -/
theorem any_createLink {f : Frame} {channel : Channel} {isolated : Bool} {p : Link → Bool}
    (hp : ∀ l : Link, l.ready = false → p l = false)
    (hk : hasKey f.links (linkId channel.name f.linkIdx) = false) :
    (createLink f channel isolated).2.links.any p = f.links.any p := by
  simp [createLink, insertLink, hk, hp]

/-- An unready link meets no requirement. -/
theorem gt_of_unready {l : Link} (h : l.ready = false) (req : Link) : l.gt req = false := by
  simp [Link.gt, h]

/-- Creating a link under a fresh id changes no `any` test over `links`. -/
theorem any_gt_createLink {f : Frame} {channel : Channel} {isolated : Bool}
    (hk : hasKey f.links (linkId channel.name f.linkIdx) = false) (req : Link) :
    (createLink f channel isolated).2.links.any (·.gt req) = f.links.any (·.gt req) :=
  any_createLink (fun _ hl => gt_of_unready hl req) hk

/-- Under the invariant, the loop over the requirements leaves every such test as it was. -/
theorem FrameInv.any_createMissing {t : List Link} {p : Link → Bool}
    (hp : ∀ l : Link, l.ready = false → p l = false) :
    ∀ {f : Frame} {m : List Link} (reqs : List Link), FrameInv f m t →
      (NodeState.createMissing f reqs).1.links.any p = f.links.any p
  | _, _, [], _ => rfl
  | f, _, r :: reqs, h => by
    have hk := h.not_hasKey_links (h.fresh le_rfl r.channel.name)
    unfold NodeState.createMissing
    split
    · exact ((h.createLink r.channel true).any_createMissing hp reqs).trans (any_createLink hp hk)
    · exact h.any_createMissing hp reqs

/-- Under the invariant, the loop over the requirements creates one address for each
requirement that the map leaves unmet and the peer is responsible for, in their order. -/
theorem FrameInv.createMissing_addrs {t : List Link} :
    ∀ {f : Frame} {m : List Link} (reqs : List Link), FrameInv f m t →
      (NodeState.createMissing f reqs).2.map Link.addr =
        (reqs.filter fun r => !(f.links.any (·.gt r)) && isResponsible r).map
          fun r => ⟨r.channel, true⟩
  | _, _, [], _ => rfl
  | f, _, r :: reqs, h => by
    have hk := h.not_hasKey_links (h.fresh le_rfl r.channel.name)
    have ih := (h.createLink r.channel true).createMissing_addrs reqs
    simp only [any_gt_createLink hk] at ih
    by_cases hc : (!(f.links.any (·.gt r)) && isResponsible r) = true
    · simp only [NodeState.createMissing, hc, if_true, List.map_cons, List.filter_cons, ih]
      rfl
    · simp only [NodeState.createMissing, hc, if_false, List.filter_cons]
      exact h.createMissing_addrs reqs

/-! What `step` does once its batch is loaded: if some ready link can send, create the
missing links. -/

section Create

variable {g : Frame} {m t : List Link}

/-- The guarded creation loop of a step keeps the invariant. -/
theorem FrameInv.create (h : FrameInv g m t) (reqs : List Link) :
    FrameInv (if canSend g.links then NodeState.createMissing g reqs else (g, [])).1
      (m ++ (if canSend g.links then NodeState.createMissing g reqs else (g, [])).2) t := by
  split
  · exact h.createMissing reqs
  · simpa using h

/-- The guarded creation loop does not change whether the peer can send. -/
theorem FrameInv.canSend_create (h : FrameInv g m t) (reqs : List Link) :
    canSend (if canSend g.links then NodeState.createMissing g reqs else (g, [])).1.links =
      canSend g.links := by
  split
  · exact h.any_createMissing (fun _ hl => by simp [hl]) reqs
  · rfl

/-- The guarded creation loop changes no `any` test over `links`. -/
theorem FrameInv.any_gt_create (h : FrameInv g m t) (reqs : List Link) (req : Link) :
    (if canSend g.links then NodeState.createMissing g reqs else (g, [])).1.links.any
      (·.gt req) = g.links.any (·.gt req) := by
  split
  · exact h.any_createMissing (fun _ hl => gt_of_unready hl req) reqs
  · rfl

/-- The guarded creation loop sends one created address for each unmet requirement it is responsible
for. -/
theorem FrameInv.create_addrs (h : FrameInv g m t) (reqs : List Link) :
    (if canSend g.links then NodeState.createMissing g reqs else (g, [])).2.map Link.addr =
      if canSend g.links then
        (reqs.filter fun r => !(g.links.any (·.gt r)) && isResponsible r).map
          fun r => ⟨r.channel, true⟩
      else [] := by
  split
  · exact h.createMissing_addrs reqs
  · rfl

end Create

/-- `peer.step(msgs)` once the batch is loaded: the world it leaves and the addresses it
returns. -/
theorem World.step_loaded {w : World} {side : Side} {msgs : List Link} {f : Frame}
    (hf : msgs.foldlM loadLink (w.frame side) = some f) :
    (w.step side msgs).map (fun x => (x.1, x.2.2)) =
      some (w.update side
          (if canSend f.links then createMissing f (w.peer side).requirements else (f, [])).1,
        (if canSend f.links then createMissing f (w.peer side).requirements else (f, [])).2) := by
  simp [World.step, step_of_loadAll hf]

/-- In every reachable state, a step that can send after loading creates one address for each unmet
requirement it is responsible for, and none otherwise. -/
theorem step_creates_unmet {n : Net} (h : Reachable n) (side : Side) {msgs : List Link}
    (hm : ∀ a ∈ msgs, a ∈ n.emitted side.other) :
    ∃ f w st out, msgs.foldlM loadLink (n.world.frame side) = some f ∧
      n.world.step side msgs = some (w, st, out) ∧
      out.map Link.addr = (if canSend f.links then
        ((n.world.peer side).requirements.filter fun r =>
          !(f.links.any (·.gt r)) && isResponsible r).map fun r => ⟨r.channel, true⟩
        else []) ∧
      w.linkIdx = n.world.linkIdx + out.length := by
  obtain ⟨f, hf, hfi⟩ := (h.inv.frame side).loadAll hm
  have hidx : f.linkIdx = n.world.linkIdx := foldlM_loadLink_linkIdx hf
  obtain ⟨⟨w, st, out⟩, hstep, he⟩ := Option.map_eq_some'.mp (World.step_loaded hf)
  obtain ⟨rfl, rfl⟩ := Prod.mk.inj he
  refine ⟨f, _, st, _, hf, hstep, ?_, ?_⟩
  · exact hfi.create_addrs _
  · rw [World.linkIdx_update, ← hidx]
    split
    · exact createMissing_linkIdx f _
    · rfl

/-- The client's first step in the all-`BIDI` scenario creates for its unmet requirements. -/
theorem step_creates_unmet_bidiNet :
    Reachable bidiNet ∧ (∀ a ∈ bidiNet.emitted .server, a ∈ bidiNet.emitted Side.client.other) ∧
      ∃ f w st out, (bidiNet.emitted .server).foldlM loadLink (bidiNet.world.frame .client) =
          some f ∧
        bidiNet.world.step .client (bidiNet.emitted .server) = some (w, st, out) ∧
        out.map Link.addr = (if canSend f.links then
          ((bidiNet.world.peer .client).requirements.filter fun r =>
            !(f.links.any (·.gt r)) && isResponsible r).map fun r => ⟨r.channel, true⟩
          else []) ∧
        w.linkIdx = bidiNet.world.linkIdx + out.length :=
  ⟨bidiNet_reachable, fun _ ha => ha, step_creates_unmet bidiNet_reachable .client fun _ ha => ha⟩

/-- A requirement listed twice gets two links in one step, under consecutive ids. -/
example :
    (NodeState.step [⟨"r", ⟨"chanB", "BIDI"⟩, true, true, true, true⟩,
        ⟨"r", ⟨"chanB", "BIDI"⟩, true, true, true, true⟩]
      ⟨[⟨"chanA-link-1", ⟨"chanA", "BIDI"⟩, true, true, false, true⟩], [], 2⟩ []).map
      (fun r => (r.2.2.map Link.link, r.1.linkIdx)) =
      some (["chanB-link-2", "chanB-link-3"], 4) := by
  decide

/-! ## Nothing new to load, the same links again -/

/-- A step with nothing to load, right after a step, prints the same status and returns the same
addresses. -/
theorem FrameInv.step_again {f₀ f : Frame} {m t msgs : List Link} (reqs : List Link)
    (hf : msgs.foldlM NodeState.loadLink f₀ = some f) (h : FrameInv f m t) :
    ∃ r r', NodeState.step reqs f₀ msgs = some r ∧ NodeState.step reqs r.1 [] = some r' ∧
      r'.2.1 = r.2.1 ∧ r'.2.2.map Link.addr = r.2.2.map Link.addr := by
  have h' := h.create reqs
  have hA := h.create_addrs reqs
  have hC := h.canSend_create reqs
  have hG := h.any_gt_create reqs
  refine ⟨_, _, step_of_loadAll hf, step_of_loadAll rfl, ?_⟩
  dsimp only
  generalize (if canSend f.links then NodeState.createMissing f reqs else (f, [])) = X
    at h' hA hC hG ⊢
  have hout : (if canSend X.1.links then NodeState.createMissing X.1 reqs else (X.1, [])).2.map
      Link.addr = X.2.map Link.addr := by
    rw [h'.create_addrs, hA, hC]
    simp only [hG]
  have hlen := congrArg List.length hout
  rw [List.length_map, List.length_map] at hlen
  refine ⟨?_, by simp only [finishedOr_snd, hout]⟩
  simp only [finishedOr, isFinalState, satisfies, h'.any_gt_create reqs, hlen]
  split <;> rfl

/-- In every reachable state, a peer stepped again with nothing to load prints the same status and
creates the same addresses again. -/
theorem step_repeats {n : Net} (h : Reachable n) (side : Side) {msgs : List Link}
    (hm : ∀ a ∈ msgs, a ∈ n.emitted side.other) :
    ∃ w st out w' out', n.world.step side msgs = some (w, st, out) ∧
      w.step side [] = some (w', st, out') ∧ out'.map Link.addr = out.map Link.addr := by
  obtain ⟨f, hf, hfi⟩ := (h.inv.frame side).loadAll hm
  obtain ⟨r, r', hr, hr', hst, hout⟩ := hfi.step_again (n.world.peer side).requirements hf
  refine ⟨n.world.update side r.1, r.2.1, r.2.2, (n.world.update side r.1).update side r'.1,
    r'.2.2, by simp [World.step, hr], ?_, hout⟩
  simp [World.step, hr', Prod.ext_iff, hst]

/-- A second client step on no addresses in the all-`BIDI` scenario sends the same addresses again. -/
theorem step_repeats_bidiNet :
    Reachable bidiNet ∧ (∀ a ∈ bidiNet.emitted .server, a ∈ bidiNet.emitted Side.client.other) ∧
      ∃ w st out w' out', bidiNet.world.step .client (bidiNet.emitted .server) =
          some (w, st, out) ∧
        w.step .client [] = some (w', st, out') ∧ out'.map Link.addr = out.map Link.addr :=
  ⟨bidiNet_reachable, fun _ ha => ha, step_repeats bidiNet_reachable .client fun _ ha => ha⟩

end Raceboat.States
