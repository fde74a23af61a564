import Mathlib.Data.List.Basic

/-! Receivers that take a stream octet by octet and put together the items that it carries. -/
namespace AggregatedLogging.Receiver

variable {σ τ ε α β ω : Type}

inductive Step (σ ε α : Type) where
  | more (next : σ)
  | item (value : α) (next : σ)
  | fault (error : ε)

/-- The items of a stream, and how the receiver is behind it. -/
def feed (step : σ → ω → Step σ ε α) : σ → List ω → List α × Except ε σ
  | s, [] => ([], .ok s)
  | s, c :: cs =>
    match step s c with
    | .more t => feed step t cs
    | .item a t => (a :: (feed step t cs).1, (feed step t cs).2)
    | .fault e => ([], .error e)

/-- The octets carry an item, which the last one completes. -/
def Carries (step : σ → ω → Step σ ε α) (s : σ) (octets : List ω) (a : α) (t : σ) : Prop :=
  ∃ body last u, octets = body ++ [last] ∧ feed step s body = ([], .ok u) ∧
    step u last = .item a t

/-- A receiver that checks every item by what the items before have left. -/
def checked (step : σ → ω → Step σ ε α) (check : τ → α → Except ε τ) (s : σ × τ) (c : ω) :
    Step (σ × τ) ε α :=
  match step s.1 c with
  | .more t => .more (t, s.2)
  | .item a t =>
    match check s.2 a with
    | .ok v => .item a (t, v)
    | .error e => .fault e
  | .fault e => .fault e

def taken (next : τ → β → Option (α × τ)) : τ → List β → List α
  | _, [] => []
  | u, b :: bs =>
    match next u b with
    | none => []
    | some (a, v) => a :: taken next v bs

section Feed

variable {step : σ → ω → Step σ ε α} {s t : σ} {xs ys : List ω} {as : List α}

theorem feed_more {c : ω} (h : step s c = .more t) (cs : List ω) :
    feed step s (c :: cs) = feed step t cs := by
  rw [feed, h]

theorem feed_item {c : ω} {a : α} (h : step s c = .item a t) (cs : List ω) :
    feed step s (c :: cs) = (a :: (feed step t cs).1, (feed step t cs).2) := by
  rw [feed, h]

theorem feed_fault {c : ω} {e : ε} (h : step s c = .fault e) (cs : List ω) :
    feed step s (c :: cs) = ([], .error e) := by
  rw [feed, h]

theorem feed_append (h : feed step s xs = (as, .ok t)) (ys : List ω) :
    feed step s (xs ++ ys) = (as ++ (feed step t ys).1, (feed step t ys).2) := by
  induction xs generalizing s as with
  | nil =>
    cases h
    rfl
  | cons c xs ih =>
    cases hc : step s c with
    | more u =>
      rw [feed_more hc] at h
      rw [List.cons_append, feed_more hc, ih h]
    | item a u =>
      rw [feed_item hc] at h
      obtain ⟨rfl, hrest⟩ := Prod.mk.inj h
      rw [List.cons_append, feed_item hc, ih (Prod.ext rfl hrest)]
      rfl
    | fault e =>
      rw [feed_fault hc] at h
      cases h

theorem feed_prefix (h : xs <+: ys) : (feed step s xs).1 <+: (feed step s ys).1 := by
  induction xs generalizing s ys with
  | nil => exact List.nil_prefix
  | cons c xs ih =>
    obtain ⟨rest, rfl⟩ := h
    rw [List.cons_append]
    cases hc : step s c with
    | more t =>
      rw [feed_more hc, feed_more hc]
      exact ih (List.prefix_append xs rest)
    | item a t =>
      rw [feed_item hc, feed_item hc]
      exact List.cons_prefix_cons.mpr ⟨rfl, ih (List.prefix_append xs rest)⟩
    | fault e =>
      rw [feed_fault hc]
      exact List.nil_prefix

theorem Carries.feed {octets : List ω} {a : α} (h : Carries step s octets a t) :
    Receiver.feed step s octets = ([a], .ok t) := by
  obtain ⟨body, last, u, rfl, hbody, hlast⟩ := h
  rw [feed_append hbody, feed_item hlast]
  rfl

theorem Carries.part {octets part : List ω} {a : α} (h : Carries step s octets a t)
    (hpart : part <+: octets) (hlength : part.length < octets.length) :
    (Receiver.feed step s part).1 = [] := by
  obtain ⟨body, last, u, rfl, hbody, -⟩ := h
  have hprefix : part <+: body := by
    rw [List.length_append, List.length_singleton] at hlength
    exact List.prefix_of_prefix_length_le hpart (List.prefix_append body [last]) (by omega)
  have hitems : (Receiver.feed step s part).1 <+: (Receiver.feed step s body).1 :=
    feed_prefix hprefix
  rw [hbody] at hitems
  exact List.prefix_nil.mp hitems

variable {check : τ → α → Except ε τ} {u v : τ}

theorem feed_checked {r : Except ε σ} (h : Receiver.feed step s xs = ([], r)) :
    Receiver.feed (checked step check) (s, u) xs = ([], r.map (·, u)) := by
  induction xs generalizing s with
  | nil =>
    cases h
    rfl
  | cons c xs ih =>
    cases hc : step s c with
    | more t =>
      rw [feed_more hc] at h
      have hmore : checked step check (s, u) c = .more (t, u) := by
        rw [checked, hc]
      rw [feed_more hmore, ih h]
    | item a t =>
      rw [feed_item hc] at h
      cases h
    | fault e =>
      rw [feed_fault hc] at h
      cases h
      have hfault : checked step check (s, u) c = .fault e := by
        rw [checked, hc]
      rw [feed_fault hfault]
      rfl

theorem Carries.checked {octets : List ω} {a : α} (h : Carries step s octets a t)
    (hcheck : check u a = .ok v) :
    Carries (Receiver.checked step check) (s, u) octets a (t, v) := by
  obtain ⟨body, last, w, rfl, hbody, hlast⟩ := h
  refine ⟨body, last, (w, u), rfl, feed_checked hbody, ?_⟩
  simp only [Receiver.checked, hlast, hcheck]

theorem Carries.refused {octets : List ω} {a : α} {e : ε} (h : Carries step s octets a t)
    (hcheck : check u a = .error e) (rest : List ω) :
    Receiver.feed (Receiver.checked step check) (s, u) (octets ++ rest) = ([], .error e) := by
  obtain ⟨body, last, w, rfl, hbody, hlast⟩ := h
  have hfault : Receiver.checked step check (w, u) last = .fault e := by
    simp only [Receiver.checked, hlast, hcheck]
  have hquiet : Receiver.feed (Receiver.checked step check) (s, u) body = ([], .ok (w, u)) :=
    feed_checked hbody
  rw [List.append_assoc, feed_append hquiet, List.singleton_append, feed_fault hfault]
  rfl

variable {bs : List β} {enc : β → List ω} {next : τ → β → Option (α × τ)} {idle : τ → σ}

/-- Of a stream of items that breaks off anywhere, exactly those are received that are there
completely, up to the first one that is not taken. -/
theorem feed_taken
    (hsome : ∀ u, ∀ b ∈ bs, ∀ a v, next u b = some (a, v) →
      Carries step (idle u) (enc b) a (idle v))
    (hnone : ∀ u, ∀ b ∈ bs, next u b = none →
      ∀ rest, (Receiver.feed step (idle u) (enc b ++ rest)).1 = [])
    (u : τ) (hxs : xs <+: bs.flatMap enc) :
    ∃ k, (Receiver.feed step (idle u) xs).1 = (taken next u bs).take k ∧
      (bs.take k).flatMap enc <+: xs ∧
      (xs.length < ((bs.take (k + 1)).flatMap enc).length ∨ k = (taken next u bs).length) := by
  induction bs generalizing xs u with
  | nil =>
    obtain rfl := List.prefix_nil.mp hxs
    exact ⟨0, rfl, List.nil_prefix, .inr rfl⟩
  | cons b bs ih =>
    have hself : b ∈ b :: bs := List.mem_cons_self
    rw [List.flatMap_cons] at hxs
    cases hb : next u b with
    | none =>
      have htaken : taken next u (b :: bs) = [] := by rw [taken, hb]
      have hitems : (Receiver.feed step (idle u) xs).1 <+: _ := feed_prefix hxs
      rw [hnone u b hself hb] at hitems
      rw [htaken]
      exact ⟨0, List.prefix_nil.mp hitems, List.nil_prefix, .inr rfl⟩
    | some next' =>
      obtain ⟨a, v⟩ := next'
      have htaken : taken next u (b :: bs) = a :: taken next v bs := by rw [taken, hb]
      have hcarries := hsome u b hself a v hb
      rw [htaken]
      by_cases hshort : xs.length < (enc b).length
      · have hpart : xs <+: enc b :=
          List.prefix_of_prefix_length_le hxs (List.prefix_append _ _) (Nat.le_of_lt hshort)
        refine ⟨0, hcarries.part hpart hshort, List.nil_prefix, .inl ?_⟩
        rw [List.take_succ_cons, List.take_zero, List.flatMap_singleton]
        exact hshort
      · have hlong : enc b <+: xs :=
          List.prefix_of_prefix_length_le (List.prefix_append _ _) hxs (Nat.le_of_not_lt hshort)
        obtain ⟨rest, rfl⟩ := hlong
        have hrest : rest <+: bs.flatMap enc := (List.prefix_append_right_inj _).mp hxs
        obtain ⟨k, hfeed, hfull, hopen⟩ := ih
          (fun u c hc => hsome u c (List.mem_cons_of_mem b hc))
          (fun u c hc => hnone u c (List.mem_cons_of_mem b hc)) v hrest
        refine ⟨k + 1, ?_, ?_, ?_⟩
        · rw [feed_append hcarries.feed, hfeed]
          rfl
        · rw [List.take_succ_cons, List.flatMap_cons]
          exact (List.prefix_append_right_inj _).mpr hfull
        · rw [List.take_succ_cons, List.flatMap_cons, List.length_append, List.length_append,
            List.length_cons]
          exact hopen.imp (by omega) (congrArg _)

end Feed

end AggregatedLogging.Receiver
