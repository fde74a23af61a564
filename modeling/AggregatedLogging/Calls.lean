import AggregatedLogging.Text

/-! Calls that work on a state and may raise.  A state that a call has left stays as it is
when the call raises. -/
namespace AggregatedLogging.Calls

abbrev Call (σ ε α : Type) := ExceptT ε (StateM σ) α

section Meaning

variable {σ ε α β : Type}

/-- The result of a call, and the state behind it. -/
def run (c : Call σ ε α) (s : σ) : Except ε α × σ := c s

/-- What is asked of a result and of the state behind it. -/
def Lands (Q : α → σ → Prop) (E : ε → σ → Prop) : Except ε α × σ → Prop
  | (.ok a, s) => Q a s
  | (.error e, s) => E e s

/-- From the state `s` the call returns with `Q` or raises with `E`. -/
def Triple (c : Call σ ε α) (s : σ) (Q : α → σ → Prop) (E : ε → σ → Prop) : Prop :=
  Lands Q E (run c s)

end Meaning

section Rules

variable {σ ε α β : Type} {s : σ} {Q Q' : α → σ → Prop} {E E' : ε → σ → Prop}

theorem run_bind_ok {c : Call σ ε α} {f : α → Call σ ε β} {a : α} {t : σ}
    (h : run c s = (.ok a, t)) : run (c >>= f) s = run (f a) t := by
  unfold run at h ⊢
  change StateT.bind c (ExceptT.bindCont f) s = _
  rw [StateT.bind, h]
  rfl

theorem run_bind_error {c : Call σ ε α} {f : α → Call σ ε β} {e : ε} {t : σ}
    (h : run c s = (.error e, t)) : run (c >>= f) s = (.error e, t) := by
  unfold run at h ⊢
  change StateT.bind c (ExceptT.bindCont f) s = _
  rw [StateT.bind, h]
  rfl

theorem run_tryCatch_ok {c : Call σ ε α} {h : ε → Call σ ε α} {a : α} {t : σ}
    (hc : run c s = (.ok a, t)) : run (tryCatch c h) s = (.ok a, t) := by
  unfold run at hc ⊢
  simp only [MonadExcept.tryCatch, tryCatchThe, MonadExceptOf.tryCatch, ExceptT.tryCatch,
    ExceptT.mk, Bind.bind, StateT.bind, hc]
  rfl

theorem run_tryCatch_error {c : Call σ ε α} {h : ε → Call σ ε α} {e : ε} {t : σ}
    (hc : run c s = (.error e, t)) : run (tryCatch c h) s = run (h e) t := by
  unfold run at hc ⊢
  simp only [MonadExcept.tryCatch, tryCatchThe, MonadExceptOf.tryCatch, ExceptT.tryCatch,
    ExceptT.mk, Bind.bind, StateT.bind, hc]

namespace Triple

theorem pure {a : α} (h : Q a s) : Triple (pure a : Call σ ε α) s Q E := h

theorem throw {e : ε} (h : E e s) : Triple (throw e : Call σ ε α) s Q E := h

theorem bind {c : Call σ ε α} {f : α → Call σ ε β} {R : α → σ → Prop} {Q : β → σ → Prop}
    (hc : Triple c s R E) (hf : ∀ a t, R a t → Triple (f a) t Q E) : Triple (c >>= f) s Q E := by
  unfold Triple at hc ⊢
  rcases hrun : run c s with ⟨r | a, t⟩
  · rw [hrun] at hc
    rw [run_bind_error hrun]
    exact hc
  · rw [hrun] at hc
    rw [run_bind_ok hrun]
    exact hf a t hc

theorem get_bind {f : σ → Call σ ε α} (h : Triple (f s) s Q E) : Triple (get >>= f) s Q E := h

theorem set_bind {f : PUnit → Call σ ε α} {t : σ} (h : Triple (f ⟨⟩) t Q E) :
    Triple (set t >>= f) s Q E := h

theorem tryCatch {c : Call σ ε α} {h : ε → Call σ ε α} {R : ε → σ → Prop}
    (hc : Triple c s Q R) (hh : ∀ e t, R e t → Triple (h e) t Q E) :
    Triple (tryCatch c h) s Q E := by
  unfold Triple at hc ⊢
  rcases hrun : run c s with ⟨e | a, t⟩
  · rw [hrun] at hc
    rw [run_tryCatch_error hrun]
    exact hh e t hc
  · rw [hrun] at hc
    rw [run_tryCatch_ok hrun]
    exact hc

theorem mono {c : Call σ ε α} (hc : Triple c s Q E) (hQ : ∀ a t, Q a t → Q' a t)
    (hE : ∀ e t, E e t → E' e t) : Triple c s Q' E' := by
  unfold Triple at hc ⊢
  rcases hrun : run c s with ⟨e | a, t⟩
  · rw [hrun] at hc
    exact hE e t hc
  · rw [hrun] at hc
    exact hQ a t hc

/-- What holds however the call ends. -/
theorem state {c : Call σ ε α} {I : σ → Prop} (hc : Triple c s (fun _ => I) (fun _ => I)) :
    I (run c s).2 := by
  unfold Triple at hc
  rcases hrun : run c s with ⟨e | a, t⟩
  · rw [hrun] at hc
    exact hc
  · rw [hrun] at hc
    exact hc

theorem returns {c : Call σ ε α} (hc : Triple c s Q fun _ _ => False) :
    ∃ a t, run c s = (.ok a, t) ∧ Q a t := by
  unfold Triple at hc
  rcases hrun : run c s with ⟨e | a, t⟩
  · rw [hrun] at hc
    exact absurd hc id
  · rw [hrun] at hc
    exact ⟨a, t, rfl, hc⟩

/-- A loop, with what holds behind the calls for the items that are done. -/
theorem forM {I : List α → σ → Prop} {E : ε → σ → Prop} {f : α → Call σ ε PUnit}
    {xs : List α} (done : List α)
    (hf : ∀ done x t, I done t → Triple (f x) t (fun _ => I (done ++ [x])) E) (hs : I done s) :
    Triple (xs.forM f) s (fun _ => I (done ++ xs)) E := by
  induction xs generalizing done s with
  | nil =>
    rw [List.append_nil]
    exact pure hs
  | cons x xs ih =>
    apply bind (hf done x s hs)
    intro _ t ht
    rw [List.append_cons]
    exact ih (done ++ [x]) ht

end Triple

end Rules

end AggregatedLogging.Calls
