import Raceboat.States.Link
import Mathlib.Data.Nat.Digits

/-!
# Link ids

`create_link` names a link `f"{channel.name}-link-{link_idx}"`. The channel
name is an arbitrary string and may itself contain `-link-` and digits, but
the decimal counter is the run of digits after the last `-`, so two ids with
different counters differ whatever the names.
-/

namespace Raceboat.States

/-- The id `create_link` formats, `f"{channel.name}-link-{link_idx}"`. -/
def linkId (name : String) (idx : Nat) : String :=
  name ++ "-link-" ++ toString idx

/-- Reading a list of decimal digits back as a number. -/
def digitsValue (cs : List Char) : Nat :=
  cs.foldl (fun n c => 10 * n + (c.toNat - 48)) 0

private theorem digitChar_spec : ∀ k < 10,
    (Nat.digitChar k).isDigit = true ∧ (Nat.digitChar k).toNat - 48 = k := by
  decide

private theorem digitsValue_append_singleton (cs : List Char) (c : Char) :
    digitsValue (cs ++ [c]) = 10 * digitsValue cs + (c.toNat - 48) := by
  simp [digitsValue, List.foldl_append]

/-- `Nat.toDigitsCore` prepends the digits of `n`, given enough fuel. -/
private theorem toDigitsCore_spec : ∀ (fuel n : Nat) (ds : List Char), n < fuel →
    ∃ xs, Nat.toDigitsCore 10 fuel n ds = xs ++ ds ∧ (∀ c ∈ xs, c.isDigit = true) ∧
      digitsValue xs = n
  | 0, _, _, h => absurd h (Nat.not_lt_zero _)
  | fuel + 1, n, ds, h => by
    obtain ⟨hdig, hval⟩ := digitChar_spec (n % 10) (Nat.mod_lt _ (by decide))
    simp only [Nat.toDigitsCore]
    split
    · refine ⟨[Nat.digitChar (n % 10)], rfl, by simpa using hdig, ?_⟩
      simp only [digitsValue, List.foldl_cons, List.foldl_nil, hval]
      omega
    · obtain ⟨xs, hxs, hd, hv⟩ :=
        toDigitsCore_spec fuel (n / 10) (Nat.digitChar (n % 10) :: ds) (by omega)
      refine ⟨xs ++ [Nat.digitChar (n % 10)], by simp [hxs], ?_, ?_⟩
      · simpa [or_imp, forall_and, hdig] using hd
      · rw [digitsValue_append_singleton, hv, hval]
        omega

/-- The decimal digits of a counter value are digits. -/
theorem toDigits_isDigit (n : Nat) : ∀ c ∈ Nat.toDigits 10 n, c.isDigit = true := by
  obtain ⟨xs, h, hd, -⟩ := toDigitsCore_spec (n + 1) n [] (by omega)
  simpa [Nat.toDigits, h] using hd

/-- Reading back the decimal digits of a counter value gives the value. -/
theorem digitsValue_toDigits (n : Nat) : digitsValue (Nat.toDigits 10 n) = n := by
  obtain ⟨xs, h, -, hv⟩ := toDigitsCore_spec (n + 1) n [] (by omega)
  simpa [Nat.toDigits, h] using hv

/-- The characters of a number's string are its decimal digits. -/
theorem data_toString (n : Nat) : (toString n).data = Nat.toDigits 10 n := rfl

/-- A run of digits ends at the first `-`, so it is determined by what follows it. -/
theorem eq_of_digits_append_dash : ∀ {p q r s : List Char},
    (∀ c ∈ p, c.isDigit = true) → (∀ c ∈ q, c.isDigit = true) →
    p ++ '-' :: r = q ++ '-' :: s → p = q
  | [], [], _, _, _, _, _ => rfl
  | [], c :: _, _, _, _, hq, h => by
    have hc := hq c (.head _)
    simp only [List.nil_append, List.cons_append, List.cons.injEq] at h
    rw [← h.1] at hc
    exact absurd hc (by decide)
  | c :: _, [], _, _, hp, _, h => by
    have hc := hp c (.head _)
    simp only [List.nil_append, List.cons_append, List.cons.injEq] at h
    rw [h.1] at hc
    exact absurd hc (by decide)
  | c :: p, d :: q, _, _, hp, hq, h => by
    simp only [List.cons_append, List.cons.injEq] at h
    rw [h.1, eq_of_digits_append_dash (fun x hx => hp x (.tail _ hx))
      (fun x hx => hq x (.tail _ hx)) h.2]

/-- Two ids with different counters differ, for any two channel names. -/
theorem linkId_counter_eq {n₁ n₂ : String} {i j : Nat} (h : linkId n₁ i = linkId n₂ j) :
    i = j := by
  have hd := congrArg (fun s : String => s.data.reverse) h
  simp only [linkId, String.data_append, data_toString, List.reverse_append] at hd
  have hrev := eq_of_digits_append_dash
    (fun c hc => toDigits_isDigit i c (List.mem_reverse.mp hc))
    (fun c hc => toDigits_isDigit j c (List.mem_reverse.mp hc))
    (show (Nat.toDigits 10 i).reverse ++ '-' :: 'k' :: 'n' :: 'i' :: 'l' :: '-' :: n₁.data.reverse =
      (Nat.toDigits 10 j).reverse ++ '-' :: 'k' :: 'n' :: 'i' :: 'l' :: '-' :: n₂.data.reverse
      from by simpa using hd)
  rw [← digitsValue_toDigits i, ← digitsValue_toDigits j, List.reverse_inj.mp hrev]

end Raceboat.States
