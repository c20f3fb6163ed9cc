import Raceboat.Schedule.Invariant

/-!
# Every method keeps the invariant

`load_link` finds the counterpart's key for any address the counterpart
emitted, so the loading loop of `step` never raises; `create_link` issues an
id no map holds. From one lemma per method, `step` and `start` keep the
frame invariant, and every reachable state satisfies it.
-/

namespace Raceboat.States

open NodeState

/-! ## The methods, once their lookups succeed -/

/-- `load_link` of an address whose id the counterpart holds. -/
theorem loadLink_eq {f : Frame} {addr : Link} (h : hasKey f.other addr.link = true) :
    loadLink f addr =
      some ⟨insertLink f.links (loadedLink addr), markReady f.other addr.link, f.linkIdx⟩ := by
  simp [loadLink, setReady_of_hasKey h]

/-- A `load_link` that succeeds, in closed form. -/
theorem loadLink_frame {f g : Frame} {a : Link} (h : loadLink f a = some g) :
    g = ⟨insertLink f.links (loadedLink a), markReady f.other a.link, f.linkIdx⟩ := by
  cases hk : hasKey f.other a.link
  · simp [loadLink, setReady, hk] at h
  · rw [loadLink_eq hk] at h
    exact (Option.some.inj h).symm

/-- `step` once its loading loop has succeeded. -/
theorem step_of_loadAll {reqs msgs : List Link} {f f' : Frame}
    (h : msgs.foldlM loadLink f = some f') :
    NodeState.step reqs f msgs =
      let r := if canSend f'.links then createMissing f' reqs else (f', [])
      some (r.1, finishedOr reqs r.1.links
        (if r.2.length > 0 then "CREATED NEW LINKS" else "STUCK") r.2) := by
  simp only [NodeState.step, h, Option.bind_eq_bind, Option.some_bind]
  generalize (if canSend f'.links then createMissing f' reqs else (f', [])) = r
  by_cases hl : r.2.length > 0
  · simp [hl]
  · simp [hl, List.length_eq_zero.mp (Nat.eq_zero_of_not_pos hl)]

/-- The addresses `finished_or` returns are those it is given. -/
@[simp] theorem finishedOr_snd (reqs links : List Link) (status : String) (msgs : List Link) :
    (finishedOr reqs links status msgs).2 = msgs := by
  unfold finishedOr
  split <;> rfl

/-- What a successful `step` returns: the frame and addresses of its creation loop, after loading. -/
theorem step_eq_some {reqs msgs : List Link} {f : Frame} {r : Frame × String × List Link}
    (h : NodeState.step reqs f msgs = some r) :
    ∃ f', msgs.foldlM loadLink f = some f' ∧
      r.2.2 = (if canSend f'.links then createMissing f' reqs else (f', [])).2 ∧
      r.1 = (if canSend f'.links then createMissing f' reqs else (f', [])).1 := by
  cases hf : msgs.foldlM loadLink f with
  | none => simp [NodeState.step, hf] at h
  | some f' =>
    rw [step_of_loadAll hf, Option.some.injEq] at h
    exact ⟨f', rfl, by rw [← h, finishedOr_snd], by rw [← h]⟩

/-- An id issued below a counter value is issued below every larger one. -/
theorem Issued.mono {i j : Nat} {a : Link} (h : Issued i a) (hij : i ≤ j) : Issued j a := by
  obtain ⟨k, hk, he⟩ := h
  exact ⟨k, by omega, he⟩

/-! ## One lemma per method -/

section Methods

variable {t : List Link}

/-- Loading an address the counterpart emitted keeps the invariant. -/
theorem FrameInv.loadLink {f : Frame} {m : List Link} (h : FrameInv f m t) {a : Link}
    (ha : a ∈ t) :
    FrameInv ⟨insertLink f.links (loadedLink a), markReady f.other a.link, f.linkIdx⟩ m t where
  owned_mine b hb :=
    ((h.owned_mine b hb).insert_own (loadedLink a) (h.link_ne hb ha).symm).markReady_peer
      (h.link_ne hb ha).symm
  owned_theirs c hc := by
    by_cases hca : c = a
    · subst hca
      exact (h.owned_theirs c hc).load
    · have hne : a.link ≠ c.link := fun he =>
        hca (h.eq_of_link (List.mem_append_right m hc) (List.mem_append_right m ha) he.symm)
      exact ((h.owned_theirs c hc).markReady_own hne).insert_peer (loadedLink a) hne
  keys_links l hl := by
    rcases mem_insertLink.mp hl with rfl | ⟨hl, -⟩
    · simpa using List.mem_map_of_mem Link.link (List.mem_append_right m ha)
    · exact h.keys_links l hl
  keys_other l hl := by
    rcases mem_markReady.mp hl with ⟨y, hy, -, rfl⟩ | ⟨hl, -⟩
    · exact h.keys_other y hy
    · exact h.keys_other l hl
  nodup := h.nodup
  issued := h.issued
  created := h.created

/-- Creating a link keeps the invariant, with the new address among this peer's. -/
theorem FrameInv.createLink {f : Frame} {m : List Link} (h : FrameInv f m t) (channel : Channel)
    (isolated : Bool) :
    FrameInv (NodeState.createLink f channel isolated).2
      (m ++ [(NodeState.createLink f channel isolated).1]) t := by
  set a := (NodeState.createLink f channel isolated).1 with ha
  have hfresh : a.link ∉ (m ++ t).map Link.link := h.fresh le_rfl channel.name
  have hne : ∀ b ∈ m ++ t, a.link ≠ b.link := fun b hb he =>
    hfresh (he ▸ List.mem_map_of_mem _ hb)
  have hp : (m ++ [a] ++ t).Perm (a :: (m ++ t)) := by simp
  have hmem : ∀ x, x ∈ m ++ [a] ++ t ↔ x = a ∨ x ∈ m ++ t := fun x => by
    simpa using hp.mem_iff
  refine ⟨fun b hb => ?_, fun c hc => ?_, fun l hl => ?_, fun l hl => ?_, ?_, fun b hb => ?_,
    fun b hb => ?_⟩
  · rcases List.mem_append.mp hb with hb | hb
    · exact (h.owned_mine b hb).insert_own a (hne b (List.mem_append_left t hb))
    · obtain rfl := List.mem_singleton.mp hb
      exact Owned.create (h.not_hasKey_links hfresh) (h.not_hasKey_other hfresh) rfl
  · exact (h.owned_theirs c hc).insert_peer a (hne c (List.mem_append_right m hc))
  · rcases mem_insertLink.mp hl with rfl | ⟨hl, -⟩
    · exact List.mem_map_of_mem _ ((hmem _).mpr (.inl rfl))
    · obtain ⟨b, hb, he⟩ := List.mem_map.mp (h.keys_links l hl)
      exact he ▸ List.mem_map_of_mem _ ((hmem b).mpr (.inr hb))
  · obtain ⟨b, hb, he⟩ := List.mem_map.mp (h.keys_other l hl)
    exact he ▸ List.mem_map_of_mem _ ((hmem b).mpr (.inr hb))
  · exact (hp.map Link.link).nodup_iff.mpr (List.nodup_cons.mpr ⟨hfresh, h.nodup⟩)
  · rcases (hmem b).mp hb with rfl | hb
    · exact ⟨f.linkIdx, Nat.lt_succ_self _, rfl⟩
    · exact (h.issued b hb).mono (Nat.le_succ _)
  · rcases (hmem b).mp hb with rfl | hb
    · exact ⟨rfl, rfl, rfl⟩
    · exact h.created b hb

/-- Loading a batch of the counterpart's addresses never raises. -/
theorem FrameInv.loadAll {m : List Link} :
    ∀ {f : Frame} {msgs : List Link}, FrameInv f m t → (∀ a ∈ msgs, a ∈ t) →
      ∃ f', msgs.foldlM NodeState.loadLink f = some f' ∧ FrameInv f' m t
  | f, [], h, _ => ⟨f, rfl, h⟩
  | f, a :: msgs, h, hm => by
    have ha := hm a (.head _)
    obtain ⟨f', h1, h2⟩ := (h.loadLink ha).loadAll fun b hb => hm b (.tail _ hb)
    exact ⟨f', by simpa [loadLink_eq (h.owned_theirs a ha).1] using h1, h2⟩

/-- The creation loop keeps the invariant, with the new addresses among this peer's. -/
theorem FrameInv.createMissing :
    ∀ {f : Frame} {m : List Link} (reqs : List Link), FrameInv f m t →
      FrameInv (NodeState.createMissing f reqs).1 (m ++ (NodeState.createMissing f reqs).2) t
  | f, m, [], h => by simpa [NodeState.createMissing] using h
  | f, m, r :: reqs, h => by
    by_cases hc : (!(f.links.any (·.gt r)) && isResponsible r) = true
    · simpa [NodeState.createMissing, hc] using (h.createLink r.channel true).createMissing reqs
    · simpa [NodeState.createMissing, hc] using h.createMissing reqs

/-- `step` on a batch of the counterpart's addresses succeeds and keeps the invariant,
its output added to the peer's own record. -/
theorem FrameInv.step {f : Frame} {m : List Link} (h : FrameInv f m t) (reqs : List Link)
    {msgs : List Link} (hm : ∀ a ∈ msgs, a ∈ t) :
    ∃ r, NodeState.step reqs f msgs = some r ∧ FrameInv r.1 (m ++ r.2.2) t := by
  obtain ⟨f', h1, h2⟩ := h.loadAll hm
  rw [step_of_loadAll h1]
  refine ⟨_, rfl, ?_⟩
  split
  · simpa using h2.createMissing reqs
  · simpa using h2

/-- Creating and sharing a link at `start` keeps the invariant. -/
theorem FrameInv.shareIf {f : Frame} {m : List Link} (dirs : List String) (channel : Channel)
    (out : List Link) (h : FrameInv f (m ++ out) t) :
    FrameInv (States.shareIf dirs channel (f, out)).1
      (m ++ (States.shareIf dirs channel (f, out)).2) t := by
  unfold States.shareIf
  split
  · simpa using h.createLink channel false
  · exact h

/-- Each peer's `start` keeps the invariant, with the addresses it shares among its own. -/
theorem FrameInv.start {f : Frame} {m : List Link} (h : FrameInv f m t) (side : Side)
    (args : Args) :
    let r := match side with
      | .server => Server.start f args
      | .client => Client.start f args
    FrameInv r.1 (m ++ r.2) t := by
  have h0 : FrameInv f (m ++ []) t := by simpa using h
  cases side
  · exact (h0.shareIf _ _ _).shareIf _ _ _
  · exact (h0.shareIf _ _ _).shareIf _ _ _

end Methods

/-! ## Reachable states -/

/-- The invariant of a record: the server's frame, against both peers' emitted addresses. -/
def Net.Inv (n : Net) : Prop :=
  FrameInv (n.world.frame .server) (n.emitted .server) (n.emitted .client)

/-- The invariant of a state, read from either peer's side. -/
theorem Net.Inv.frame {n : Net} (h : n.Inv) :
    ∀ side, FrameInv (n.world.frame side) (n.emitted side) (n.emitted side.other)
  | .server => h
  | .client => FrameInv.swap h

/-- The invariant read from either peer's side is the invariant of the state. -/
theorem Net.Inv.of_frame {n : Net} : ∀ side,
    FrameInv (n.world.frame side) (n.emitted side) (n.emitted side.other) → n.Inv
  | .server, h => h
  | .client, h => FrameInv.swap h

/-- Writing back a frame and reading it again gives the frame. -/
@[simp] theorem World.frame_update (w : World) (side : Side) (f : Frame) :
    (w.update side f).frame side = f := by
  cases side <;> rfl

/-- A `start` keeps the invariant. -/
theorem Net.Inv.start {n : Net} (h : n.Inv) (side : Side) (args : Args) :
    (n.start side args).Inv := by
  apply Net.Inv.of_frame side
  have hs := (h.frame side).start side args
  refine FrameInv.perm ?_ (n.emitted_start_self side args).symm
    (by rw [Net.emitted_start_other])
  cases side <;> exact hs

/-- A step fed addresses the counterpart emitted keeps the invariant. -/
theorem Net.Inv.step {n n' : Net} (h : n.Inv) {side : Side} {msgs : List Link}
    (hm : ∀ a ∈ msgs, a ∈ n.emitted side.other) (hs : n.step side msgs = some n') : n'.Inv := by
  obtain ⟨r, hr, hw, hself, hother, -⟩ := Net.step_eq_some hs
  obtain ⟨r', hr', hinv⟩ := (h.frame side).step (n.world.peer side).requirements hm
  obtain ⟨q, hq, rfl⟩ := Option.map_eq_some'.mp hr
  obtain rfl : q = r' := Option.some.inj (hq.symm.trans hr')
  apply Net.Inv.of_frame side
  rw [hw, hself, hother, World.frame_update]
  exact hinv

/-- Every move of a schedule keeps the invariant. -/
theorem Net.Inv.next {n n' : Net} (h : n.Inv) (hn : Net.Next n n') : n'.Inv := by
  cases hn with
  | start side args => exact h.start side args
  | step side msgs hm hs => exact h.step hm hs

/-- Every reachable state satisfies the invariant. -/
theorem Reachable.inv {n : Net} (h : Reachable n) : n.Inv := by
  induction h with
  | init sreqs creqs linkIdx =>
    constructor <;> simp [Net.init, Net.emitted, World.frame, World.peer, Side.other]
  | next _ hn ih => exact ih.next hn

end Raceboat.States
