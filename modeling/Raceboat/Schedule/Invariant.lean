import Raceboat.Schedule.Net
import Mathlib.Data.List.Nodup

/-!
# The protocol invariant

Every id either peer holds was issued by `create_link` on one peer and
emitted by it. Its creator holds the link as created, ready exactly when the
counterpart holds the id; the counterpart holds nothing under it but the copy
`load_link` builds. Ids are issued below the counter and never twice. The
invariant is stated for a `Frame`, relative to the addresses its own peer
emitted and those the counterpart emitted, and each method of `NodeState`
keeps it; the frame of either peer of a reachable `Net` satisfies it.
-/

namespace Raceboat.States

open NodeState

/-- The id of `addr` was issued by `create_link` before the counter reached `idx`. -/
def Issued (idx : Nat) (addr : Link) : Prop :=
  ∃ j < idx, addr.link = linkId addr.channel.name j

/-- `addr` is as `create_link` built it: the creator's capabilities, not ready. -/
def Created (addr : Link) : Prop :=
  addr.send = isSend addr.channel false ∧ addr.recv = isRecv addr.channel false ∧
    addr.ready = false

/-- An address emitted by the owner of `own`, as both maps record it. -/
def Owned (own peer : List Link) (addr : Link) : Prop :=
  hasKey own addr.link = true ∧
    (∀ l ∈ own, l.link = addr.link → l = { addr with ready := hasKey peer addr.link }) ∧
    ∀ l ∈ peer, l.link = addr.link → l = loadedLink addr

/-- The invariant of a frame, given the addresses its peer emitted (`mine`) and
those the counterpart emitted (`theirs`). -/
structure FrameInv (f : Frame) (mine theirs : List Link) : Prop where
  owned_mine : ∀ a ∈ mine, Owned f.links f.other a
  owned_theirs : ∀ a ∈ theirs, Owned f.other f.links a
  keys_links : ∀ l ∈ f.links, l.link ∈ (mine ++ theirs).map Link.link
  keys_other : ∀ l ∈ f.other, l.link ∈ (mine ++ theirs).map Link.link
  nodup : ((mine ++ theirs).map Link.link).Nodup
  issued : ∀ a ∈ mine ++ theirs, Issued f.linkIdx a
  created : ∀ a ∈ mine ++ theirs, Created a

/-- The loaded copy of an address keeps its id. -/
@[simp] theorem loadedLink_link (addr : Link) : (loadedLink addr).link = addr.link := rfl

/-- Storing a link leaves the presence of every other key as it was. -/
theorem hasKey_insertLink_of_ne {links : List Link} {l : Link} {k : String} (h : k ≠ l.link) :
    hasKey (insertLink links l) k = hasKey links k := by
  rw [Bool.eq_iff_iff, hasKey_insertLink]
  simp [h]

/-! ## What each write does to an owned address -/

section Owned

variable {own peer : List Link} {b : Link}

/-- Storing another id in the owner's map keeps an owned address. -/
theorem Owned.insert_own (h : Owned own peer b) (x : Link) (hx : x.link ≠ b.link) :
    Owned (insertLink own x) peer b := by
  refine ⟨hasKey_insertLink.mpr (.inr h.1), fun l hl hk => ?_, h.2.2⟩
  rcases mem_insertLink.mp hl with rfl | ⟨hl, -⟩
  · exact absurd hk hx
  · exact h.2.1 l hl hk

/-- Storing another id in the counterpart's map keeps an owned address. -/
theorem Owned.insert_peer (h : Owned own peer b) (x : Link) (hx : x.link ≠ b.link) :
    Owned own (insertLink peer x) b := by
  refine ⟨h.1, ?_, fun l hl hk => ?_⟩
  · simpa only [hasKey_insertLink_of_ne (Ne.symm hx)] using h.2.1
  · rcases mem_insertLink.mp hl with rfl | ⟨hl, -⟩
    · exact absurd hk hx
    · exact h.2.2 l hl hk

/-- Marking another id ready in the owner's map keeps an owned address. -/
theorem Owned.markReady_own (h : Owned own peer b) {k : String} (hk : k ≠ b.link) :
    Owned (markReady own k) peer b := by
  refine ⟨by simpa using h.1, fun l hl he => ?_, h.2.2⟩
  rcases mem_markReady.mp hl with ⟨y, -, hy, rfl⟩ | ⟨hl, -⟩
  · exact absurd (hy.symm.trans he) hk
  · exact h.2.1 l hl he

/-- Marking another id ready in the counterpart's map keeps an owned address. -/
theorem Owned.markReady_peer (h : Owned own peer b) {k : String} (hk : k ≠ b.link) :
    Owned own (markReady peer k) b := by
  refine ⟨h.1, by simpa using h.2.1, fun l hl he => ?_⟩
  rcases mem_markReady.mp hl with ⟨y, -, hy, rfl⟩ | ⟨hl, -⟩
  · exact absurd (hy.symm.trans he) hk
  · exact h.2.2 l hl he

/-- Loading `b` makes its creator's copy ready and gives the loader the loaded copy. -/
theorem Owned.load (h : Owned own peer b) :
    Owned (markReady own b.link) (insertLink peer (loadedLink b)) b := by
  refine ⟨by simpa using h.1, fun l hl he => ?_, fun l hl he => ?_⟩
  · rcases mem_markReady.mp hl with ⟨y, hy, hyk, rfl⟩ | ⟨-, hne⟩
    · have hk : hasKey (insertLink peer (loadedLink b)) b.link = true :=
        hasKey_insertLink.mpr (.inl rfl)
      simp [h.2.1 y hy hyk, hk]
    · exact absurd he hne
  · rcases mem_insertLink.mp hl with rfl | ⟨-, hne⟩
    · rfl
    · exact absurd he hne

/-- A freshly created address is owned by its creator alone, not yet ready. -/
theorem Owned.create (hown : hasKey own b.link = false) (hpeer : hasKey peer b.link = false)
    (hb : b.ready = false) : Owned (insertLink own b) peer b := by
  refine ⟨hasKey_insertLink.mpr (.inl rfl), fun l hl he => ?_, fun l hl he => ?_⟩
  · rcases mem_insertLink.mp hl with rfl | ⟨hl, -⟩
    · rw [hpeer, ← hb]
    · exact absurd (hasKey_iff.mpr ⟨l, hl, he⟩) (by simp [hown])
  · exact absurd (hasKey_iff.mpr ⟨l, hl, he⟩) (by simp [hpeer])

end Owned

/-! ## Consequences of the invariant -/

section FrameInv

variable {f : Frame} {m t : List Link}

/-- An address of this peer and one of the counterpart never share an id. -/
theorem FrameInv.link_ne (h : FrameInv f m t) {a b : Link} (ha : a ∈ m) (hb : b ∈ t) :
    a.link ≠ b.link := by
  have hd := (List.nodup_append.mp (List.map_append Link.link m t ▸ h.nodup)).2.2
  exact List.disjoint_left.mp hd (List.mem_map_of_mem _ ha) ∘ (· ▸ List.mem_map_of_mem _ hb)

/-- Two emitted addresses with one id are the same address. -/
theorem FrameInv.eq_of_link (h : FrameInv f m t) {a b : Link} (ha : a ∈ m ++ t)
    (hb : b ∈ m ++ t) (he : a.link = b.link) : a = b :=
  List.inj_on_of_nodup_map h.nodup ha hb he

/-- An id at or past the counter was never issued. -/
theorem FrameInv.fresh (h : FrameInv f m t) {j : Nat} (hj : f.linkIdx ≤ j) (name : String) :
    linkId name j ∉ (m ++ t).map Link.link := by
  intro hm
  obtain ⟨a, ha, he⟩ := List.mem_map.mp hm
  obtain ⟨i, hi, hai⟩ := h.issued a ha
  have := linkId_counter_eq (hai.symm.trans he)
  omega

/-- An id that no emitted address carries is not in this peer's map. -/
theorem FrameInv.not_hasKey_links (h : FrameInv f m t) {k : String}
    (hk : k ∉ (m ++ t).map Link.link) : hasKey f.links k = false := by
  rw [Bool.eq_false_iff]
  intro hkey
  obtain ⟨l, hl, rfl⟩ := hasKey_iff.mp hkey
  exact hk (h.keys_links l hl)

/-- An id that no emitted address carries is not in the counterpart's map. -/
theorem FrameInv.not_hasKey_other (h : FrameInv f m t) {k : String}
    (hk : k ∉ (m ++ t).map Link.link) : hasKey f.other k = false := by
  rw [Bool.eq_false_iff]
  intro hkey
  obtain ⟨l, hl, rfl⟩ := hasKey_iff.mp hkey
  exact hk (h.keys_other l hl)

/-- The invariant seen from the counterpart's frame. -/
theorem FrameInv.swap (h : FrameInv f m t) : FrameInv ⟨f.other, f.links, f.linkIdx⟩ t m where
  owned_mine := h.owned_theirs
  owned_theirs := h.owned_mine
  keys_links l hl := by simpa [or_comm] using h.keys_other l hl
  keys_other l hl := by simpa [or_comm] using h.keys_links l hl
  nodup := (List.perm_append_comm.map Link.link).nodup_iff.mp h.nodup
  issued a ha := h.issued a (List.perm_append_comm.mem_iff.mp ha)
  created a ha := h.created a (List.perm_append_comm.mem_iff.mp ha)

/-- Only which addresses were emitted matters, not the order of the record. -/
theorem FrameInv.perm (h : FrameInv f m t) {m' t' : List Link} (hm : m.Perm m')
    (ht : t.Perm t') : FrameInv f m' t' where
  owned_mine a ha := h.owned_mine a (hm.mem_iff.mpr ha)
  owned_theirs a ha := h.owned_theirs a (ht.mem_iff.mpr ha)
  keys_links l hl := ((hm.append ht).map Link.link).mem_iff.mp (h.keys_links l hl)
  keys_other l hl := ((hm.append ht).map Link.link).mem_iff.mp (h.keys_other l hl)
  nodup := ((hm.append ht).map Link.link).nodup_iff.mp h.nodup
  issued a ha := h.issued a ((hm.append ht).mem_iff.mpr ha)
  created a ha := h.created a ((hm.append ht).mem_iff.mpr ha)

end FrameInv

end Raceboat.States
