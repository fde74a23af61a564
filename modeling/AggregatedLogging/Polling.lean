import Mathlib.Data.Nat.Find

/-! Loops that make attempts until one succeeds or the time is over. -/
namespace AggregatedLogging.Polling

variable {σ : Type}

/-- Before each attempt `go` tells whether there is time for it.  An attempt gives its result and
the state behind it; at most `n` rounds are made, from the attempt `i` on. -/
def poll (go : Nat → Bool) (attempt : Nat → σ → Bool × σ) : Nat → Nat → σ → Option (Bool × σ)
  | 0, _, _ => none
  | n + 1, i, s =>
    if go i then
      if (attempt i s).1 then some (attempt i s) else poll go attempt n (i + 1) (attempt i s).2
    else some (false, s)

def Reaches (go ok : Nat → Bool) (i : Nat) : Prop := (∀ j ≤ i, go j = true) ∧ ok i = true

instance (go ok : Nat → Bool) (i : Nat) : Decidable (Reaches go ok i) :=
  inferInstanceAs (Decidable (_ ∧ _))

def Exhausts (go ok : Nat → Bool) (k : Nat) : Prop :=
  go k = false ∧ ∀ i < k, go i = true ∧ ok i = false

/-- In the states that the loop comes to, `ok` is the result of the attempts. -/
structure Decides (attempt : Nat → σ → Bool × σ) (ok : Nat → Bool) (I : Nat → σ → Prop) :
    Prop where
  result : ∀ {i s}, I i s → (attempt i s).1 = ok i
  next : ∀ {i s}, I i s → ok i = false → I (i + 1) (attempt i s).2

section Loop

variable {go ok : Nat → Bool} {attempt : Nat → σ → Bool × σ} {I : Nat → σ → Prop} {s : σ}
  {i : Nat}

theorem poll_succeeds (h : Decides attempt ok I) (hs : I i s) (hgo : go i = true)
    (hok : ok i = true) (n : Nat) :
    poll go attempt (n + 1) i s = some (true, (attempt i s).2) := by
  have hresult := (h.result hs).trans hok
  rw [poll, if_pos hgo, if_pos hresult, ← hresult]

theorem poll_fails (h : Decides attempt ok I) (hs : I i s) (hgo : go i = true)
    (hok : ok i = false) (n : Nat) :
    poll go attempt (n + 1) i s = poll go attempt n (i + 1) (attempt i s).2 := by
  have hresult := (h.result hs).trans hok
  rw [poll, if_pos hgo, hresult, if_neg Bool.false_ne_true]

theorem poll_ends (hgo : go i = false) (n : Nat) :
    poll go attempt (n + 1) i s = some (false, s) := by
  rw [poll, hgo, if_neg Bool.false_ne_true]

theorem poll_some (h : Decides attempt ok I) (hs : I i s) {n : Nat} {b : Bool} {t : σ}
    (hrun : poll go attempt n i s = some (b, t)) :
    ∃ k, (∀ j, i ≤ j → j < k → go j = true ∧ ok j = false) ∧ i ≤ k ∧
      if b then go k = true ∧ ok k = true else go k = false := by
  induction n generalizing i s with
  | zero => contradiction
  | succ n ih =>
    cases hgo : go i with
    | false =>
      rw [poll_ends hgo] at hrun
      cases hrun
      exact ⟨i, fun j hle hlt => absurd hlt (Nat.not_lt.mpr hle), Nat.le_refl i, hgo⟩
    | true =>
      cases hok : ok i with
      | true =>
        rw [poll_succeeds h hs hgo hok] at hrun
        cases hrun
        exact ⟨i, fun j hle hlt => absurd hlt (Nat.not_lt.mpr hle), Nat.le_refl i, hgo, hok⟩
      | false =>
        rw [poll_fails h hs hgo hok] at hrun
        obtain ⟨k, hbefore, hle, hk⟩ := ih (h.next hs hok) hrun
        refine ⟨k, fun j hij hjk => ?_, Nat.le_of_succ_le hle, hk⟩
        rcases Nat.eq_or_lt_of_le hij with rfl | hlt
        · exact ⟨hgo, hok⟩
        · exact hbefore j hlt hjk

theorem poll_arrives (h : Decides attempt ok I) (hs : I i s) (m : Nat)
    (hbefore : ∀ j, i ≤ j → j < i + m → go j = true ∧ ok j = false) :
    ∃ t, I (i + m) t ∧ ∀ n, poll go attempt (m + n) i s = poll go attempt n (i + m) t := by
  induction m generalizing i s with
  | zero => exact ⟨s, hs, fun n => by rw [Nat.zero_add]; rfl⟩
  | succ m ih =>
    obtain ⟨hgo, hok⟩ := hbefore i (Nat.le_refl i) (by omega)
    obtain ⟨t, ht, hrun⟩ := ih (h.next hs hok) fun j hij hj => hbefore j (by omega) (by omega)
    have hsum : i + (m + 1) = i + 1 + m := by omega
    refine ⟨t, hsum ▸ ht, fun n => ?_⟩
    rw [hsum, ← hrun n, show m + 1 + n = m + n + 1 by omega, poll_fails h hs hgo hok]

variable (h : Decides attempt ok I) (hs : I 0 s)

include h hs

theorem poll_true_iff :
    (∃ n t, poll go attempt n 0 s = some (true, t)) ↔ ∃ i, Reaches go ok i := by
  constructor
  · rintro ⟨n, t, hrun⟩
    obtain ⟨k, hbefore, -, hgo, hok⟩ := poll_some h hs hrun
    refine ⟨k, fun j hj => ?_, hok⟩
    rcases Nat.eq_or_lt_of_le hj with rfl | hlt
    · exact hgo
    · exact (hbefore j (Nat.zero_le j) hlt).1
  · intro hreaches
    have hfirst := Nat.find_spec hreaches
    obtain ⟨t, ht, hrun⟩ := poll_arrives h hs (Nat.find hreaches) (by
      intro j _ hj
      rw [Nat.zero_add] at hj
      have hgo := hfirst.1 j (Nat.le_of_lt hj)
      have hnot := Nat.find_min hreaches hj
      refine ⟨hgo, Bool.eq_false_iff.mpr fun hok => hnot ⟨fun l hl => ?_, hok⟩⟩
      exact hfirst.1 l (by omega))
    rw [Nat.zero_add] at ht hrun
    exact ⟨Nat.find hreaches + 1, _, (hrun 1).trans
      (poll_succeeds h ht (hfirst.1 _ (Nat.le_refl _)) hfirst.2 0)⟩

theorem poll_false_iff :
    (∃ n t, poll go attempt n 0 s = some (false, t)) ↔ ∃ k, Exhausts go ok k := by
  constructor
  · rintro ⟨n, t, hrun⟩
    obtain ⟨k, hbefore, -, hgo⟩ := poll_some h hs hrun
    exact ⟨k, hgo, fun i hi => hbefore i (Nat.zero_le i) hi⟩
  · rintro ⟨k, hgo, hbefore⟩
    obtain ⟨t, -, hrun⟩ := poll_arrives h hs k fun j _ hj => hbefore j (by omega)
    rw [Nat.zero_add] at hrun
    exact ⟨k + 1, t, (hrun 1).trans (poll_ends hgo 0)⟩

end Loop

end AggregatedLogging.Polling
