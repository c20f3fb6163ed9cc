import Raceboat.Knowledge.Shape
import Raceboat.States.Run

/-!
# The negotiation on knowledge

`run`'s loop read on each peer's ready shapes and pending addresses. In its half
a peer loads its pending addresses and, if it can send, emits one for every unmet
requirement it is responsible for; three rounds reach a fixed point.
-/

namespace Raceboat.States

open NodeState

/-- The addresses the `for required in self.requirements` loop of `step` creates
for a peer whose ready shapes are `S`. -/
def wanted (reqs : List Link) (S : Set Shape) : Set Addr :=
  {a | CanSend S ∧ ∃ r ∈ reqs, isResponsible r = true ∧ ¬Sat S r ∧ a = ⟨r.channel, true⟩}

/-- A peer that can send wants fewer addresses the more shapes it holds. -/
theorem wanted_anti {reqs : List Link} {S T : Set Shape} (hS : CanSend S) (hST : S ⊆ T) :
    wanted reqs T ⊆ wanted reqs S := by
  rintro _ ⟨-, r, hr, hresp, hsat, rfl⟩
  exact ⟨hS, r, hr, hresp, fun h => hsat (h.mono hST), rfl⟩

/-- A peer that cannot send wants nothing. -/
theorem wanted_of_not_canSend {reqs : List Link} {S : Set Shape} (h : ¬CanSend S) :
    wanted reqs S = ∅ :=
  Set.eq_empty_of_forall_not_mem fun _ ha => h ha.1

/-- What a peer wants depends only on which requirements it has. -/
theorem wanted_congr {reqs reqs' : List Link} (h : ∀ r, r ∈ reqs ↔ r ∈ reqs') (S : Set Shape) :
    wanted reqs S = wanted reqs' S := by
  simp only [wanted, h]

/-- Each peer's ready shapes, and the addresses pending for it. -/
@[ext] structure Knowledge where
  shapes : Side → Set Shape
  inbox : Side → Set Addr

namespace Knowledge

variable (reqs : Side → List Link)

/-- The half of a round of the peer on `side`: `step` on its pending addresses. -/
def half (K : Knowledge) (side : Side) : Knowledge :=
  let loaded := K.shapes side ∪ Addr.loaded '' K.inbox side
  ⟨fun s => if s = side then loaded else K.shapes s ∪ Addr.created '' K.inbox side,
    fun s => if s = side then ∅ else K.inbox s ∪ wanted (reqs side) loaded⟩

/-- A round: the server's half, then the client's. -/
def round (K : Knowledge) : Knowledge :=
  (K.half reqs .server).half reqs .client

/-- The first `j` halves. -/
def play (K : Knowledge) : Nat → Knowledge
  | 0 => K
  | j + 1 => (K.play j).half reqs (turn j)

variable {reqs} {K : Knowledge} {side s : Side}

/-- In its own half a peer gains the loaded shapes of its inbox. -/
@[simp] theorem half_shapes_self :
    (K.half reqs side).shapes side = K.shapes side ∪ Addr.loaded '' K.inbox side :=
  if_pos rfl

/-- In the other peer's half a peer gains the created shapes of that inbox. -/
@[simp] theorem half_shapes_ne (h : s ≠ side) :
    (K.half reqs side).shapes s = K.shapes s ∪ Addr.created '' K.inbox side :=
  if_neg h

/-- A peer empties its inbox in its own half. -/
@[simp] theorem half_inbox_self : (K.half reqs side).inbox side = ∅ :=
  if_pos rfl

/-- The other peer's inbox gains what the stepping peer wants after loading. -/
@[simp] theorem half_inbox_ne (h : s ≠ side) :
    (K.half reqs side).inbox s =
      K.inbox s ∪ wanted (reqs side) (K.shapes side ∪ Addr.loaded '' K.inbox side) :=
  if_neg h

/-- A half never loses a shape. -/
theorem shapes_subset_half (K : Knowledge) (side s : Side) :
    K.shapes s ⊆ (K.half reqs side).shapes s := by
  by_cases h : s = side
  · subst h
    simp
  · simp [h]

/-- No half forgets a shape. -/
theorem shapes_play_mono (K : Knowledge) (s : Side) {i j : Nat} (hij : i ≤ j) :
    (K.play reqs i).shapes s ⊆ (K.play reqs j).shapes s := by
  induction hij with
  | refl => exact le_rfl
  | step _ ih => exact ih.trans (shapes_subset_half _ _ s)

/-- An even number of halves is a run of whole rounds. -/
theorem play_two_mul_succ (K : Knowledge) (k : Nat) :
    K.play reqs (2 * (k + 1)) = (K.play reqs (2 * k)).round reqs := by
  simp [play, round, Nat.mul_succ]

/-- Only which requirements each peer has matters, not their order. -/
theorem half_congr {reqs' : Side → List Link} (h : ∀ s r, r ∈ reqs s ↔ r ∈ reqs' s)
    (K : Knowledge) (side : Side) : K.half reqs side = K.half reqs' side := by
  simp only [half, wanted_congr (h side)]

/-- Plays depend only on which requirements each peer has. -/
theorem play_congr {reqs' : Side → List Link} (h : ∀ s r, r ∈ reqs s ↔ r ∈ reqs' s)
    (K : Knowledge) : ∀ j, K.play reqs j = K.play reqs' j
  | 0 => rfl
  | j + 1 => by simp only [play, play_congr h K j, half_congr h]

/-- Every peer satisfies all of its requirements. -/
def Final (reqs : Side → List Link) (K : Knowledge) : Prop :=
  ∀ s, ∀ req ∈ reqs s, Sat (K.shapes s) req

/-! ## Three rounds reach a fixed point -/

/-- The state at the end of a round: nothing pending for the client, and pending
for the server exactly what the client wants. -/
def Normal (reqs : Side → List Link) (K : Knowledge) : Prop :=
  K.inbox .client = ∅ ∧ K.inbox .server = wanted (reqs .client) (K.shapes .client)

/-- Both shapes of every address the peer on `side` wants are already in place. -/
def Delivered (reqs : Side → List Link) (K : Knowledge) (side : Side) : Prop :=
  ∀ a ∈ wanted (reqs side) (K.shapes side),
    a.created ∈ K.shapes side ∧ a.loaded ∈ K.shapes side.other

/-- After a round the knowledge is normal. -/
theorem normal_round (K : Knowledge) : (K.round reqs).Normal reqs := by
  simp [Normal, round]

/-- After a round from the end of a round, the server's wants are all delivered. -/
theorem delivered_server_round (hN : K.Normal reqs) : (K.round reqs).Delivered reqs .server := by
  intro a ha
  simp only [round, half_shapes_self, half_inbox_self, half_shapes_ne, half_inbox_ne, ne_eq,
    reduceCtorEq, not_false_eq_true, hN.1, Set.empty_union, Side.other] at ha ⊢
  set A := K.shapes .server ∪ Addr.loaded '' K.inbox .server
  by_cases hc : CanSend A
  · have ha' : a ∈ wanted (reqs .server) A := wanted_anti hc Set.subset_union_left ha
    exact ⟨.inr ⟨a, ha', rfl⟩, .inr ⟨a, ha', rfl⟩⟩
  · rw [wanted_of_not_canSend hc, Set.image_empty, Set.union_empty,
      wanted_of_not_canSend hc] at ha
    exact ha.elim

/-- After a round from the end of a round whose server wants are delivered, the client's
wants are delivered too. -/
theorem delivered_client_round (hN : K.Normal reqs) (hD : K.Delivered reqs .server) :
    (K.round reqs).Delivered reqs .client := by
  intro a ha
  simp only [round, half_shapes_self, half_inbox_self, half_shapes_ne, half_inbox_ne, ne_eq,
    reduceCtorEq, not_false_eq_true, hN.1, Set.empty_union, Side.other] at ha ⊢
  by_cases hc : CanSend (K.shapes .client)
  · have ha' : a ∈ K.inbox .server :=
      hN.2 ▸ wanted_anti hc (Set.subset_union_left.trans Set.subset_union_left) ha
    exact ⟨.inl (.inr ⟨a, ha', rfl⟩), .inl (.inr ⟨a, ha', rfl⟩)⟩
  · have hs : K.inbox .server = ∅ := hN.2.trans (wanted_of_not_canSend hc)
    have hsub : Addr.loaded '' wanted (reqs .server) (K.shapes .server) ⊆ K.shapes .client := by
      rintro _ ⟨b, hb, rfl⟩
      exact (hD b hb).2
    simp only [hs, Set.image_empty, Set.union_empty] at ha
    rw [Set.union_eq_left.mpr hsub, wanted_of_not_canSend hc] at ha
    exact ha.elim

/-- A state at the end of a round with every want delivered is a fixed point of a round. -/
theorem round_eq_self (hN : K.Normal reqs) (hs : K.Delivered reqs .server)
    (hc : K.Delivered reqs .client) : K.round reqs = K := by
  obtain ⟨hic, his⟩ := hN
  have hL : Addr.loaded '' K.inbox .server ⊆ K.shapes .server := by
    rintro _ ⟨a, ha, rfl⟩
    exact (hc a (his ▸ ha)).2
  have hC : Addr.created '' K.inbox .server ⊆ K.shapes .client := by
    rintro _ ⟨a, ha, rfl⟩
    exact (hc a (his ▸ ha)).1
  have hL' : Addr.loaded '' wanted (reqs .server) (K.shapes .server) ⊆ K.shapes .client := by
    rintro _ ⟨a, ha, rfl⟩
    exact (hs a ha).2
  have hC' : Addr.created '' wanted (reqs .server) (K.shapes .server) ⊆ K.shapes .server := by
    rintro _ ⟨a, ha, rfl⟩
    exact (hs a ha).1
  refine Knowledge.ext (funext fun s => ?_) (funext fun s => ?_) <;> cases s <;>
    simp only [round, half_shapes_self, half_inbox_self, half_shapes_ne, half_inbox_ne, ne_eq,
      reduceCtorEq, not_false_eq_true, hic, Set.empty_union, Set.union_eq_left.mpr hL,
      Set.union_eq_left.mpr hC, Set.union_eq_left.mpr hL', Set.union_eq_left.mpr hC', ← his]

/-- From any state, the state after three rounds is a fixed point of a round. -/
theorem round_three_fixed (K : Knowledge) :
    (((K.round reqs).round reqs).round reqs).round reqs = ((K.round reqs).round reqs).round reqs :=
  have h₁ : (K.round reqs).Normal reqs := normal_round K
  have h₂ : ((K.round reqs).round reqs).Normal reqs := normal_round _
  round_eq_self (normal_round _) (delivered_server_round h₂)
    (delivered_client_round h₂ (delivered_server_round h₁))

/-- From the end of the third round on, every round leaves the state unchanged. -/
theorem play_stable (K : Knowledge) {k : Nat} (hk : 3 ≤ k) :
    K.play reqs (2 * k) = K.play reqs 6 := by
  induction k, hk using Nat.le_induction with
  | base => rfl
  | succ k hk ih =>
    have h6 : K.play reqs 6 = ((K.round reqs).round reqs).round reqs := by
      simp [play, round, turn]
    rw [play_two_mul_succ, ih, h6, round_three_fixed]

/-- Every shape known after some round is known after the third. -/
theorem shapes_play_subset_six (K : Knowledge) (k : Nat) (s : Side) :
    (K.play reqs (2 * k)).shapes s ⊆ (K.play reqs 6).shapes s := by
  rcases le_total k 3 with hk | hk
  · exact shapes_play_mono K s (by omega)
  · rw [play_stable K hk]

/-- The state after three rounds is a fixed point of a round. -/
theorem round_play_six (K : Knowledge) : (K.play reqs 6).round reqs = K.play reqs 6 :=
  (play_two_mul_succ K 3).symm.trans (play_stable K (by norm_num))

/-- At a fixed point of a round, the server's half adds no shape to either peer. -/
theorem half_shapes_of_round_eq (h : K.round reqs = K) (s : Side) :
    (K.half reqs .server).shapes s = K.shapes s := by
  refine Set.Subset.antisymm ?_ (shapes_subset_half K .server s)
  have hsub : (K.half reqs .server).shapes s ⊆ (K.round reqs).shapes s :=
    shapes_subset_half (K.half reqs .server) .client s
  rwa [h] at hsub

/-- After three rounds, the wants of both peers are delivered. -/
theorem delivered_play_six (K : Knowledge) (side : Side) :
    (K.play reqs 6).Delivered reqs side := by
  have h6 : K.play reqs 6 = ((K.round reqs).round reqs).round reqs := by
    simp [play, round, turn]
  rw [h6]
  cases side
  · exact delivered_server_round (normal_round _)
  · exact delivered_client_round (normal_round _) (delivered_server_round (normal_round _))

/-- From the sixth half on, no half changes either peer's shapes. -/
theorem shapes_play_of_six_le (K : Knowledge) {j : Nat} (hj : 6 ≤ j) (s : Side) :
    (K.play reqs j).shapes s = (K.play reqs 6).shapes s := by
  obtain ⟨k, rfl | rfl⟩ := Nat.even_or_odd' j
  · rw [play_stable K (by omega : 3 ≤ k)]
  · rw [play, play_stable K (by omega : 3 ≤ k), turn_two_mul]
    exact half_shapes_of_round_eq (round_play_six K) s

/-- Every shape known at some half is known after the third round. -/
theorem shapes_play_subset_play_six (K : Knowledge) (j : Nat) (s : Side) :
    (K.play reqs j).shapes s ⊆ (K.play reqs 6).shapes s := by
  rcases le_total j 6 with hj | hj
  · exact shapes_play_mono K s hj
  · rw [shapes_play_of_six_le K hj]

/-- A state final after some round is final after the third. -/
theorem Final.play_six {k : Nat} (h : (K.play reqs (2 * k)).Final reqs) :
    (K.play reqs 6).Final reqs :=
  fun s req hreq => (h s req hreq).mono (shapes_play_subset_six K k s)

end Knowledge

end Raceboat.States
