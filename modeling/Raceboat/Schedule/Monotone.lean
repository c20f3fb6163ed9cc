import Raceboat.Schedule.Safety

/-!
# Nothing held is ever lost

No method removes a key, and the invariant fixes every entry under a key
from the address that issued it, so a move of any schedule keeps each held
link with its channel, capabilities and isolation, and never unsets `ready`.
Satisfaction of a requirement, the can-send gate and the final state are
read from ready links only, so each stays true in every later state.
-/

namespace Raceboat.States

open NodeState

/-- No key of either map of the frame is lost. -/
def KeysGrow (f f' : Frame) : Prop :=
  ∀ k, (hasKey f.links k = true → hasKey f'.links k = true) ∧
    (hasKey f.other k = true → hasKey f'.other k = true)

/-- A frame keeps its own keys. -/
theorem KeysGrow.refl (f : Frame) : KeysGrow f f := fun _ => ⟨id, id⟩

/-- Keeping keys composes. -/
theorem KeysGrow.trans {f₁ f₂ f₃ : Frame} (h₁ : KeysGrow f₁ f₂) (h₂ : KeysGrow f₂ f₃) :
    KeysGrow f₁ f₃ := fun k => ⟨(h₂ k).1 ∘ (h₁ k).1, (h₂ k).2 ∘ (h₁ k).2⟩

/-- Keeping keys does not depend on which map is the peer's own. -/
theorem KeysGrow.swap {f f' : Frame} (h : KeysGrow f f') :
    KeysGrow ⟨f.other, f.links, f.linkIdx⟩ ⟨f'.other, f'.links, f'.linkIdx⟩ :=
  fun k => ⟨(h k).2, (h k).1⟩

/-! ## Each method keeps every key -/

/-- Loading an address keeps every key of both maps. -/
theorem keysGrow_loadLink {f f' : Frame} {a : Link} (h : loadLink f a = some f') :
    KeysGrow f f' := by
  rw [loadLink_frame h]
  exact fun _ => ⟨fun hk => hasKey_insertLink.mpr (.inr hk), hasKey_markReady.trans⟩

/-- Creating a link keeps every key of both maps. -/
theorem keysGrow_createLink (f : Frame) (channel : Channel) (isolated : Bool) :
    KeysGrow f (NodeState.createLink f channel isolated).2 :=
  fun _ => ⟨fun h => hasKey_insertLink.mpr (.inr h), id⟩

/-- Loading a batch keeps every key of both maps. -/
theorem keysGrow_loadAll : ∀ {f f' : Frame} {msgs : List Link},
    msgs.foldlM loadLink f = some f' → KeysGrow f f'
  | f, f', [], h => by
    obtain rfl : f = f' := Option.some.inj h
    exact KeysGrow.refl f
  | f, f', a :: msgs, h => by
    obtain ⟨g, hg, hrest⟩ := Option.bind_eq_some.mp h
    exact (keysGrow_loadLink hg).trans (keysGrow_loadAll hrest)

/-- The creation loop keeps every key of both maps. -/
theorem keysGrow_createMissing :
    ∀ (f : Frame) (reqs : List Link), KeysGrow f (createMissing f reqs).1
  | f, [] => KeysGrow.refl f
  | f, r :: reqs => by
    by_cases hc : (!(f.links.any (·.gt r)) && isResponsible r) = true
    · simpa [createMissing, hc] using
        (keysGrow_createLink f r.channel true).trans (keysGrow_createMissing _ reqs)
    · simpa [createMissing, hc] using keysGrow_createMissing f reqs

/-- A `step` keeps every key of both maps. -/
theorem keysGrow_step {reqs msgs : List Link} {f : Frame} {r : Frame × String × List Link}
    (h : NodeState.step reqs f msgs = some r) : KeysGrow f r.1 := by
  obtain ⟨f', hf, -, h1⟩ := step_eq_some h
  rw [h1]
  split
  · exact (keysGrow_loadAll hf).trans (keysGrow_createMissing f' reqs)
  · exact keysGrow_loadAll hf

/-- Creating and sharing a link at `start` keeps every key of both maps. -/
theorem keysGrow_shareIf (dirs : List String) (channel : Channel) (fa : Frame × List Link) :
    KeysGrow fa.1 (shareIf dirs channel fa).1 := by
  unfold shareIf
  split
  · exact keysGrow_createLink fa.1 channel false
  · exact KeysGrow.refl _

/-- Either peer's `start` keeps every key of both maps. -/
theorem keysGrow_start (f : Frame) (args : Args) :
    KeysGrow f (Server.start f args).1 ∧ KeysGrow f (Client.start f args).1 :=
  ⟨(keysGrow_shareIf _ _ (f, [])).trans (keysGrow_shareIf _ _ _),
    (keysGrow_shareIf _ _ (f, [])).trans (keysGrow_shareIf _ _ _)⟩

/-- Writing back a frame and reading the counterpart's frame swaps its maps. -/
theorem World.frame_update_other (w : World) (side : Side) (f : Frame) :
    (w.update side f).frame side.other = ⟨f.other, f.links, f.linkIdx⟩ := by
  cases side <;> rfl

/-- A move of a schedule keeps every key of both peers' maps. -/
theorem Net.Next.keysGrow {n n' : Net} (hn : Net.Next n n') (s : Side) :
    KeysGrow (n.world.frame s) (n'.world.frame s) := by
  obtain ⟨side, f', hw, hk⟩ : ∃ side f', n'.world = n.world.update side f' ∧
      KeysGrow (n.world.frame side) f' := by
    cases hn with
    | start side args =>
      refine ⟨side, _, rfl, ?_⟩
      cases side
      · exact (keysGrow_start _ args).1
      · exact (keysGrow_start _ args).2
    | step side msgs _ hs =>
      obtain ⟨r, hr, hw, -⟩ := Net.step_eq_some hs
      obtain ⟨q, hq, rfl⟩ := Option.map_eq_some'.mp hr
      exact ⟨side, q.1, hw, keysGrow_step hq⟩
  rw [hw]
  by_cases hs : s = side
  · subst hs
    simpa using hk
  · obtain rfl := Side.eq_other_of_ne hs
    rw [World.frame_update_other, World.frame_other]
    exact hk.swap

/-- A move of a schedule forgets no emitted address. -/
theorem Net.Next.emitted_mono {n n' : Net} (hn : Net.Next n n') (s : Side) :
    ∀ a ∈ n.emitted s, a ∈ n'.emitted s := by
  intro a ha
  cases hn with
  | start side args =>
    by_cases hs : s = side
    · subst hs
      exact (n.emitted_start_self s args).mem_iff.mpr (List.mem_append_left _ ha)
    · obtain rfl := Side.eq_other_of_ne hs
      simpa using ha
  | step side msgs _ hs =>
    obtain ⟨r, -, -, hself, hother, -⟩ := Net.step_eq_some hs
    by_cases hs : s = side
    · subst hs
      exact hself ▸ List.mem_append_left _ ha
    · obtain rfl := Side.eq_other_of_ne hs
      exact hother ▸ ha

/-! ## Held links are kept -/

/-- Every key of `old` is kept in `new`, with the same channel, capabilities and
isolation, and ready once ready. -/
def Extends (old new : List Link) : Prop :=
  ∀ l ∈ old, hasKey new l.link = true ∧ ∀ l' ∈ new, l'.link = l.link →
    l'.channel = l.channel ∧ l'.send = l.send ∧ l'.recv = l.recv ∧ l'.isolated = l.isolated ∧
      (l.ready = true → l'.ready = true)

/-- Two frames satisfying the invariant, the second with more emitted addresses and
every key of the first, agree on every link the first holds. -/
theorem FrameInv.extends {f f' : Frame} {m t m' t' : List Link} (h : FrameInv f m t)
    (h' : FrameInv f' m' t') (hm : ∀ a ∈ m, a ∈ m') (ht : ∀ a ∈ t, a ∈ t')
    (hk : KeysGrow f f') : Extends f.links f'.links := by
  intro l hl
  refine ⟨(hk l.link).1 (hasKey_iff.mpr ⟨l, hl, rfl⟩), fun l' hl' he => ?_⟩
  rcases h.entry hl with ⟨a, ha, -, rfl⟩ | ⟨a, ha, -, rfl⟩ <;>
    rcases h'.entry hl' with ⟨b, hb, -, rfl⟩ | ⟨b, hb, -, rfl⟩
  · obtain rfl := h'.eq_of_link (List.mem_append_left _ hb) (List.mem_append_left _ (hm a ha)) he
    exact ⟨rfl, rfl, rfl, rfl, (hk _).2⟩
  · exact (h'.link_ne (hm a ha) hb he.symm).elim
  · exact (h'.link_ne hb (ht a ha) he).elim
  · obtain rfl := h'.eq_of_link (List.mem_append_right _ hb) (List.mem_append_right _ (ht a ha)) he
    exact ⟨rfl, rfl, rfl, rfl, id⟩

section Extends

variable {old new : List Link}

/-- A requirement a map satisfies stays satisfied in a map that extends it. -/
theorem Extends.any_gt (h : Extends old new) {req : Link} (hs : old.any (·.gt req) = true) :
    new.any (·.gt req) = true := by
  obtain ⟨l, hl, hgt⟩ := List.any_eq_true.mp hs
  obtain ⟨l', hl', he⟩ := hasKey_iff.mp (h l hl).1
  obtain ⟨hc, hs, hr, hi, hrd⟩ := (h l hl).2 l' hl' he
  refine List.any_eq_true.mpr ⟨l', hl', ?_⟩
  simp only [Link.gt, Bool.and_eq_true] at hgt ⊢
  rw [hc, hs, hr, hi]
  exact ⟨⟨⟨⟨hrd hgt.1.1.1.1, hgt.1.1.1.2⟩, hgt.1.1.2⟩, hgt.1.2⟩, hgt.2⟩

/-- A map that can send still can once extended. -/
theorem Extends.canSend (h : Extends old new) (hs : canSend old = true) : canSend new = true := by
  obtain ⟨l, hl, hrs⟩ := List.any_eq_true.mp hs
  obtain ⟨l', hl', he⟩ := hasKey_iff.mp (h l hl).1
  obtain ⟨-, hs, -, -, hrd⟩ := (h l hl).2 l' hl' he
  simp only [Bool.and_eq_true] at hrs
  exact List.any_eq_true.mpr ⟨l', hl', by simp [hs, hrd hrs.1, hrs.2]⟩

/-- A final map stays final once extended. -/
theorem Extends.isFinalState (h : Extends old new) {reqs : List Link}
    (hs : isFinalState old reqs = true) : isFinalState new reqs = true := by
  simp only [NodeState.isFinalState, NodeState.satisfies, List.all_eq_true] at hs ⊢
  exact fun req hr => h.any_gt (hs req hr)

end Extends

/-- A move from a reachable state keeps both peers' held links. -/
theorem Net.Next.extends {n n' : Net} (h : Reachable n) (hn : Net.Next n n') (s : Side) :
    Extends (n.world.peer s).links (n'.world.peer s).links :=
  (h.inv.frame s).extends ((h.next hn).inv.frame s) (hn.emitted_mono s) (hn.emitted_mono s.other)
    (hn.keysGrow s)

/-- A step of either peer keeps every key of both maps and its link, and never unsets `ready`. -/
theorem links_only_grow {n : Net} (h : Reachable n) :
    (∀ n', Net.Next n n' → ∀ side, Extends (n.world.peer side).links (n'.world.peer side).links) ∧
      ∀ n', Relation.ReflTransGen Net.Next n n' → ∀ side (req : Link) (reqs : List Link),
        ((n.world.peer side).links.any (·.gt req) = true →
            (n'.world.peer side).links.any (·.gt req) = true) ∧
          (canSend (n.world.peer side).links = true → canSend (n'.world.peer side).links = true) ∧
          (isFinalState (n.world.peer side).links reqs = true →
            isFinalState (n'.world.peer side).links reqs = true) := by
  refine ⟨fun n' hn => hn.extends h, fun n' hn side req reqs => ?_⟩
  induction hn with
  | refl => exact ⟨id, id, id⟩
  | tail hr hs ih =>
    have he := hs.extends (h.later hr) side
    exact ⟨he.any_gt ∘ ih.1, he.canSend ∘ ih.2.1, he.isFinalState ∘ ih.2.2⟩

/-- From the all-`BIDI` scenario after the client's first step, where both peers hold a ready
link that can send, every later state keeps what they satisfy. -/
theorem links_only_grow_bidiNetLoaded :
    Reachable bidiNetLoaded ∧
      (∀ n', Net.Next bidiNetLoaded n' → ∀ side,
        Extends (bidiNetLoaded.world.peer side).links (n'.world.peer side).links) ∧
      ∀ n', Relation.ReflTransGen Net.Next bidiNetLoaded n' →
        ∀ side (req : Link) (reqs : List Link),
        ((bidiNetLoaded.world.peer side).links.any (·.gt req) = true →
            (n'.world.peer side).links.any (·.gt req) = true) ∧
          (canSend (bidiNetLoaded.world.peer side).links = true →
            canSend (n'.world.peer side).links = true) ∧
          (isFinalState (bidiNetLoaded.world.peer side).links reqs = true →
            isFinalState (n'.world.peer side).links reqs = true) :=
  ⟨bidiNetLoaded_reachable, links_only_grow bidiNetLoaded_reachable⟩

end Raceboat.States
