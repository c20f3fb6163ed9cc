import Raceboat.Knowledge.Round
import Raceboat.Schedule.Monotone

/-!
# The driver refines the negotiation on knowledge

Under the protocol invariant, `load_link` adds the loaded shape of an address
to the loader and its created shape to the creator, and `create_link` adds an
unready link under a fresh key, which no reader sees. So a half-round of the
driver, read through the ready shapes of both peers and the addresses of both
pending lists, is the half-round of `Knowledge`; and every state of the driver
is a state of a schedule, so the invariant holds there.
-/

namespace Raceboat.States

open NodeState

/-- The requirements that the loop of `step` finds unmet and is responsible for. -/
def missing (links reqs : List Link) : List Link :=
  reqs.filter fun required => !(links.any (·.gt required)) && isResponsible required

/-- The requirements for which `step` creates a link, from the links it holds after
loading: the missing ones, if it can send. -/
def creates (links reqs : List Link) : List Link :=
  if canSend links then missing links reqs else []

/-- The requirements the creation loop acts on, as a predicate. -/
theorem mem_creates {links reqs : List Link} {r : Link} :
    r ∈ creates links reqs ↔ canSend links = true ∧ r ∈ reqs ∧
      links.any (·.gt r) = false ∧ isResponsible r = true := by
  unfold creates missing
  split <;> simp_all

/-- The addresses of what `step` creates are the ones the knowledge model wants. -/
theorem addrs_eq_wanted {out links reqs : List Link}
    (h : out.map Link.addr = (creates links reqs).map fun r => ⟨r.channel, true⟩) :
    addrs out = wanted reqs (readyShapes links) := by
  ext a
  have ha := congrArg (a ∈ ·) h
  simp only [List.mem_map] at ha
  simp only [mem_addrs, ha, mem_creates, wanted, Set.mem_setOf_eq, ← canSend_iff, ← any_gt_iff,
    Bool.not_eq_true]
  constructor
  · rintro ⟨r, ⟨hc, hr, hs, hresp⟩, rfl⟩
    exact ⟨hc, r, hr, hresp, hs, rfl⟩
  · rintro ⟨hc, r, hr, hresp, hs, rfl⟩
    exact ⟨r, ⟨hc, hr, hs, hresp⟩, rfl⟩

/-- Frames with the same ready shapes miss the same requirements. -/
theorem missing_congr {l₁ l₂ : List Link} (h : readyShapes l₁ = readyShapes l₂) (reqs : List Link) :
    missing l₁ reqs = missing l₂ reqs := by
  simp only [missing, any_gt_congr h]

/-- The creator's copy of a created address has the created shape, ready or not. -/
theorem Created.shape {a : Link} (h : Created a) (r : Bool) :
    ({ a with ready := r } : Link).shape = a.addr.created := by
  obtain ⟨hs, hr, -⟩ := h
  simp [Link.shape, Link.addr, Addr.created, hs, hr]

/-! ## Each method on ready shapes -/

section FrameInv

variable {f : Frame} {m t : List Link}

/-- Loading a counterpart's address adds its loaded shape here and its created shape there. -/
theorem FrameInv.loadLink_shapes (h : FrameInv f m t) {a : Link} (ha : a ∈ t) :
    readyShapes (insertLink f.links (loadedLink a)) = insert a.addr.loaded (readyShapes f.links) ∧
      readyShapes (markReady f.other a.link) = insert a.addr.created (readyShapes f.other) := by
  have ho := h.owned_theirs a ha
  refine ⟨?_, readyShapes_markReady ho.1 fun y hy hk => ?_⟩
  · rw [readyShapes_insertLink fun y hy hk => ho.2.2 y hy hk, readyShapes_cons_ready _ rfl]
    rfl
  · rw [ho.2.1 y hy hk]
    exact (h.created a (List.mem_append_right m ha)).shape _

/-- Loading a batch adds the loaded shapes of its addresses to `links` and the created ones to
`other`. -/
theorem FrameInv.loadAll_shapes : ∀ {f : Frame} {msgs : List Link} {f' : Frame},
    FrameInv f m t → (∀ a ∈ msgs, a ∈ t) → msgs.foldlM NodeState.loadLink f = some f' →
      readyShapes f'.links = readyShapes f.links ∪ Addr.loaded '' addrs msgs ∧
        readyShapes f'.other = readyShapes f.other ∪ Addr.created '' addrs msgs
  | f, [], f', _, _, hf => by
    obtain rfl := Option.some.inj hf
    simp
  | f, a :: msgs, f', h, hm, hf => by
    have ha := hm a (.head _)
    simp only [List.foldlM_cons, loadLink_eq (h.owned_theirs a ha).1, Option.bind_eq_bind,
      Option.some_bind] at hf
    obtain ⟨h₁, h₂⟩ := (h.loadLink ha).loadAll_shapes (fun b hb => hm b (.tail _ hb)) hf
    obtain ⟨s₁, s₂⟩ := h.loadLink_shapes ha
    simp only [h₁, h₂, s₁, s₂, addrs_cons, Set.image_insert_eq, Set.insert_union, Set.union_insert,
      and_self]

/-- `create_link` adds an unready link under a fresh key: no ready shape changes. -/
theorem FrameInv.createLink_shapes (h : FrameInv f m t) (channel : Channel) (isolated : Bool) :
    readyShapes (NodeState.createLink f channel isolated).2.links = readyShapes f.links := by
  have hk := h.not_hasKey_links (h.fresh le_rfl channel.name)
  refine (readyShapes_insertLink fun y hy he => ?_).trans (readyShapes_cons_unready _ rfl)
  exact absurd (hasKey_iff.mpr ⟨y, hy, he⟩) (by simp [hk])

/-- The loop of `step` keeps the ready shapes and creates one isolated address for
each missing requirement, in order. -/
theorem FrameInv.createMissing_spec : ∀ {f : Frame} {m : List Link} (reqs : List Link),
    FrameInv f m t →
      readyShapes (NodeState.createMissing f reqs).1.links = readyShapes f.links ∧
        (NodeState.createMissing f reqs).1.other = f.other ∧
        (NodeState.createMissing f reqs).2.map Link.addr =
          (missing f.links reqs).map fun r => ⟨r.channel, true⟩
  | f, m, [], _ => by simp [NodeState.createMissing, missing]
  | f, m, r :: reqs, h => by
    by_cases hc : (!(f.links.any (·.gt r)) && isResponsible r) = true
    · have hs := h.createLink_shapes r.channel true
      obtain ⟨ih₁, ih₂, ih₃⟩ := (h.createLink r.channel true).createMissing_spec reqs
      refine ⟨by simpa [NodeState.createMissing, hc] using ih₁.trans hs,
        by simpa [NodeState.createMissing, hc] using ih₂, ?_⟩
      simp only [NodeState.createMissing, hc, if_true, List.map_cons, ih₃, missing_congr hs]
      simp [missing, hc, NodeState.createLink, Link.addr]
    · obtain ⟨ih₁, ih₂, ih₃⟩ := h.createMissing_spec reqs
      simp only [Bool.not_eq_true] at hc
      simp only [NodeState.createMissing, hc, Bool.false_eq_true, if_false, ih₁, ih₂, ih₃, true_and]
      simp [missing, hc]

/-- `step` on a batch of the counterpart's addresses: what loading adds, what the loop
creates, and the status it returns. -/
theorem FrameInv.step_spec (h : FrameInv f m t) {msgs : List Link} (hm : ∀ a ∈ msgs, a ∈ t)
    (reqs : List Link) :
    ∃ f' r, msgs.foldlM NodeState.loadLink f = some f' ∧ NodeState.step reqs f msgs = some r ∧
      readyShapes f'.links = readyShapes f.links ∪ Addr.loaded '' addrs msgs ∧
      readyShapes r.1.links = readyShapes f'.links ∧
      readyShapes r.1.other = readyShapes f.other ∪ Addr.created '' addrs msgs ∧
      r.2.2.map Link.addr = (creates f'.links reqs).map (fun req => ⟨req.channel, true⟩) ∧
      r.2.1 = (finishedOr reqs r.1.links
        (if r.2.2.length > 0 then "CREATED NEW LINKS" else "STUCK") r.2.2).1 := by
  obtain ⟨f', hf, h'⟩ := h.loadAll hm
  obtain ⟨s₁, s₂⟩ := h.loadAll_shapes hm hf
  refine ⟨f', _, hf, step_of_loadAll hf, s₁, ?_⟩
  obtain ⟨c₁, c₂, c₃⟩ := h'.createMissing_spec reqs
  by_cases hc : canSend f'.links = true
  · simp only [hc, if_true, creates, finishedOr_snd]
    exact ⟨c₁, c₂ ▸ s₂, c₃, trivial⟩
  · simp only [hc, Bool.false_eq_true, if_false, creates, finishedOr_snd]
    exact ⟨trivial, s₂, rfl, trivial⟩

end FrameInv

/-! ## The driver on knowledge -/

/-- The requirements of each peer. -/
def World.reqs (w : World) (side : Side) : List Link :=
  (w.peer side).requirements

/-- What the peers know in a state of the driver. -/
def Driver.knowledge (d : Driver) : Knowledge :=
  ⟨fun s => readyShapes (d.world.peer s).links, fun s => addrs (d.inbox s)⟩

/-- A half of the driver once its peer's `step` has returned. -/
theorem Driver.half_of_step {d : Driver} {side : Side} {r : Frame × String × List Link}
    (h : NodeState.step (d.world.reqs side) (d.world.frame side) (d.inbox side) = some r) :
    ∃ d', d.half side = some (d', r.2.1) ∧ d'.world = d.world.update side r.1 ∧
      d'.inbox side = [] ∧ d'.inbox side.other = d.inbox side.other ++ r.2.2 := by
  simp only [World.reqs] at h
  cases side
  · exact ⟨⟨d.world.update .server r.1, [], d.serverMsgs ++ r.2.2⟩,
      by simp [Driver.half, World.step, h], rfl, rfl, rfl⟩
  · exact ⟨⟨d.world.update .client r.1, d.clientMsgs ++ r.2.2, []⟩,
      by simp [Driver.half, World.step, h], rfl, rfl, rfl⟩

/-- The driver's state is the state `n` of a schedule, every address pending for a
peer having been emitted by its counterpart. -/
structure Tracks (n : Net) (d : Driver) : Prop where
  reachable : Reachable n
  world : n.world = d.world
  inbox : ∀ side, ∀ a ∈ d.inbox side, a ∈ n.emitted side.other

/-- The started net and the started driver agree. -/
theorem Tracks.startRun (args : Args × Args) (reqs : List Link × List Link) (clientOob : Bool)
    (linkIdx : Nat) :
    Tracks (Net.started args reqs linkIdx) (States.startRun args reqs clientOob linkIdx) where
  reachable := Reachable.started args reqs linkIdx
  world := rfl
  inbox side a ha := by
    cases side <;> cases clientOob <;>
      simp_all [States.startRun, Net.started, Net.start, Net.init, Net.emitted, Driver.inbox,
        Side.other, Function.update]

/-- The driver's frames keep the invariant of the net they track. -/
theorem Tracks.frameInv {n : Net} {d : Driver} (h : Tracks n d) (side : Side) :
    FrameInv (d.world.frame side) (n.emitted side) (n.emitted side.other) :=
  h.world ▸ h.reachable.inv.frame side

/-- A half of the driver is a move of the schedule, and never fails. -/
theorem Tracks.half {n : Net} {d : Driver} (h : Tracks n d) (side : Side) :
    ∃ n' d' st out, Net.Next n n' ∧ Tracks n' d' ∧ d.half side = some (d', st) ∧
      d.world.step side (d.inbox side) = some (d'.world, st, out) ∧
      d'.inbox side.other = d.inbox side.other ++ out ∧
      n'.emitted side = n.emitted side ++ out := by
  obtain ⟨f', r, -, hr, -⟩ := (h.frameInv side).step_spec (h.inbox side) (d.world.reqs side)
  obtain ⟨d', hd, hw, hself, hother⟩ := Driver.half_of_step hr
  have hr' : NodeState.step (d.world.peer side).requirements (d.world.frame side)
      (d.inbox side) = some r := hr
  have hws : d.world.step side (d.inbox side) = some (d'.world, r.2.1, r.2.2) := by
    simp [World.step, hr', hw]
  set n' : Net := ⟨d'.world, n.oob, Function.update n.sent side (n.sent side ++ r.2.2)⟩
  have hns : n.step side (d.inbox side) = some n' := by
    simp [Net.step, h.world, hws, n']
  have hnext : Net.Next n n' := .step side _ (h.inbox side) hns
  have he : n'.emitted side = n.emitted side ++ r.2.2 := by
    simp [n', Net.emitted]
  refine ⟨n', d', r.2.1, r.2.2, hnext, ⟨h.reachable.next hnext, rfl, fun s a ha => ?_⟩, hd, hws,
    hother, he⟩
  by_cases hs : s = side
  · subst hs
    simp [hself] at ha
  · obtain rfl := Side.eq_other_of_ne hs
    rw [Side.other_other, he]
    rw [hother] at ha
    rcases List.mem_append.mp ha with ha | ha
    · exact List.mem_append_left _ (by simpa using h.inbox side.other a ha)
    · exact List.mem_append_right _ ha

/-- A half of the driver, read on knowledge, is the half of `Knowledge`. -/
theorem Tracks.knowledge_half {n : Net} {d d' : Driver} {st : String} (h : Tracks n d)
    {side : Side} (hd : d.half side = some (d', st)) :
    d'.knowledge = d.knowledge.half d.world.reqs side ∧ d'.world.reqs = d.world.reqs := by
  obtain ⟨f', r, -, hr, s₁, s₂, s₃, s₄, -⟩ :=
    (h.frameInv side).step_spec (h.inbox side) (d.world.reqs side)
  obtain ⟨d'', hd'', hw, hself, hother⟩ := Driver.half_of_step hr
  obtain rfl : d'' = d' := (Prod.mk.inj (Option.some.inj (hd''.symm.trans hd))).1
  refine ⟨Knowledge.ext (funext fun s => ?_) (funext fun s => ?_), funext fun s => ?_⟩
  · by_cases hs : s = side
    · subst hs
      simp only [Driver.knowledge, hw, World.links_update_self, Knowledge.half_shapes_self, s₂, s₁]
      rfl
    · obtain rfl := Side.eq_other_of_ne hs
      simp only [Driver.knowledge, hw, World.links_update_other, Knowledge.half_shapes_ne hs, s₃]
      rfl
  · by_cases hs : s = side
    · subst hs
      simp [Driver.knowledge, hself]
    · obtain rfl := Side.eq_other_of_ne hs
      simp only [Driver.knowledge, hother, addrs_append, Knowledge.half_inbox_ne hs,
        addrs_eq_wanted s₄, s₁]
      rfl
  · simp [World.reqs, hw]

/-- The status of a half, read on knowledge: `FINISHED` if the peer is final, else whether
it created anything, which is whether it wants anything. -/
theorem Tracks.half_status {n : Net} {d e : Driver} {st : String} (h : Tracks n d)
    {side : Side} (hd : d.half side = some (e, st)) :
    ∃ out, addrs out = wanted (d.world.reqs side) (e.knowledge.shapes side) ∧
      st = (finishedOr (d.world.reqs side) (e.world.peer side).links
        (if out.length > 0 then "CREATED NEW LINKS" else "STUCK") out).1 := by
  obtain ⟨f', r, -, hr, -, s₂, -, s₄, s₅⟩ :=
    (h.frameInv side).step_spec (h.inbox side) (d.world.reqs side)
  obtain ⟨e', he', hw, -⟩ := Driver.half_of_step hr
  obtain ⟨rfl, rfl⟩ := Prod.mk.inj (Option.some.inj (he'.symm.trans hd))
  refine ⟨r.2.2, ?_, by rw [hw, World.links_update_self]; exact s₅⟩
  rw [addrs_eq_wanted s₄, ← s₂]
  simp [Driver.knowledge, hw]

/-- A driver's run is finished exactly when its knowledge is final. -/
theorem Driver.finished_iff (d : Driver) :
    d.world.finished = true ↔ d.knowledge.Final d.world.reqs := by
  simp only [World.finished, Bool.and_eq_true, isFinalState_iff]
  constructor
  · rintro ⟨hs, hc⟩ s
    cases s
    · exact hs
    · exact hc
  · intro h
    exact ⟨h .server, h .client⟩

/-- A round of the driver from a tracked state succeeds. -/
theorem Tracks.round {n : Net} {d : Driver} (h : Tracks n d) :
    ∃ n' d' statusS statusC, d.round = some (d', statusS, statusC) ∧ Tracks n' d' := by
  obtain ⟨_, d₁, sS, -, -, h₁, hd₁, -⟩ := h.half .server
  obtain ⟨n₂, d₂, sC, -, -, h₂, hd₂, -⟩ := h₁.half .client
  exact ⟨n₂, d₂, sS, sC, Driver.round_eq_some.mpr ⟨d₁, hd₁, hd₂⟩, h₂⟩

/-- Every half of the driver from a tracked state succeeds, and the states it reaches,
read on knowledge, are those of `Knowledge.play`. -/
theorem Tracks.play {n : Net} {d : Driver} (h : Tracks n d) :
    ∀ j, ∃ n' e, Relation.ReflTransGen Net.Next n n' ∧ Tracks n' e ∧ d.play j = some e ∧
      e.knowledge = d.knowledge.play d.world.reqs j ∧ e.world.reqs = d.world.reqs
  | 0 => ⟨n, d, .refl, h, rfl, rfl, rfl⟩
  | j + 1 => by
    obtain ⟨n₁, e, hn, he, hp, hk, hr⟩ := h.play j
    obtain ⟨n₂, e', st, out, hnext, he', hh, -⟩ := he.half (turn j)
    obtain ⟨hk', hr'⟩ := he.knowledge_half hh
    refine ⟨n₂, e', hn.tail hnext, he', by simp [Driver.play, hp, hh], ?_, hr'.trans hr⟩
    rw [hk', hk, hr]
    rfl

/-- `run`'s loop refines the negotiation on knowledge: each half succeeds, moves as
`Knowledge.half`, and prints a status read from knowledge. -/
theorem run_refines_knowledge (args : Args × Args) (reqs : List Link × List Link)
    (clientOob : Bool) (linkIdx : Nat) (j : Nat) :
    ∃ d d' st, (startRun args reqs clientOob linkIdx).play j = some d ∧
      d.half (turn j) = some (d', st) ∧
      d.knowledge = (startRun args reqs clientOob linkIdx).knowledge.play
        (startRun args reqs clientOob linkIdx).world.reqs j ∧
      d'.knowledge =
        d.knowledge.half (startRun args reqs clientOob linkIdx).world.reqs (turn j) ∧
      (st = "FINISHED" ↔
        ∀ req ∈ d.world.reqs (turn j), Sat (d'.knowledge.shapes (turn j)) req) ∧
      (st = "CREATED NEW LINKS" ↔
        ¬(∀ req ∈ d.world.reqs (turn j), Sat (d'.knowledge.shapes (turn j)) req) ∧
          (wanted (d.world.reqs (turn j)) (d'.knowledge.shapes (turn j))).Nonempty) ∧
      (st = "STUCK" ↔
        ¬(∀ req ∈ d.world.reqs (turn j), Sat (d'.knowledge.shapes (turn j)) req) ∧
          wanted (d.world.reqs (turn j)) (d'.knowledge.shapes (turn j)) = ∅) := by
  obtain ⟨_, d, -, hT, hp, hk, hr⟩ := (Tracks.startRun args reqs clientOob linkIdx).play j
  obtain ⟨_, d', st, -, -, -, hh, -⟩ := hT.half (turn j)
  obtain ⟨hk', -⟩ := hT.knowledge_half hh
  obtain ⟨out, hout, hst⟩ := hT.half_status hh
  have hF : isFinalState (d'.world.peer (turn j)).links (d.world.reqs (turn j)) = true ↔
      ∀ req ∈ d.world.reqs (turn j), Sat (d'.knowledge.shapes (turn j)) req :=
    isFinalState_iff
  have hW : out = [] ↔ wanted (d.world.reqs (turn j)) (d'.knowledge.shapes (turn j)) = ∅ := by
    rw [← hout, addrs_eq_empty]
  refine ⟨d, d', st, hp, hh, hk, by rw [hk', hr], ?_⟩
  rw [Set.nonempty_iff_ne_empty, ← hF, ← hW, hst]
  unfold finishedOr
  cases isFinalState (d'.world.peer (turn j)).links (d.world.reqs (turn j)) <;> cases out <;>
    simp_all

end Raceboat.States
