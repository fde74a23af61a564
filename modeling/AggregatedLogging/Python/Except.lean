import Mathlib.Data.List.Basic

/-! The first error of a computation that stops at its first error. -/
namespace AggregatedLogging.Python

variable {ε α β γ : Type}

def error? : Except ε α → Option ε
  | .ok _ => none
  | .error e => some e

theorem bind_ok {x : Except ε α} {f : α → Except ε β} {b : β} :
    (x >>= f) = .ok b ↔ ∃ a, x = .ok a ∧ f a = .ok b := by
  constructor
  · intro h
    cases x with
    | error e => contradiction
    | ok a => exact ⟨a, rfl, h⟩
  · rintro ⟨a, rfl, h⟩
    exact h

theorem bind_error {x : Except ε α} {f : α → Except ε β} {e : ε} :
    (x >>= f) = .error e ↔ x = .error e ∨ ∃ a, x = .ok a ∧ f a = .error e := by
  cases x with
  | error d => simp [bind, Except.bind]
  | ok a => simp [bind, Except.bind]

theorem map_ok {x : Except ε α} {f : α → β} {b : β} :
    x.map f = .ok b ↔ ∃ a, x = .ok a ∧ f a = b := by
  cases x <;> simp [Except.map]

theorem exists_map_ok {x : Except ε α} {f : α → β} :
    (∃ b, x.map f = .ok b) ↔ ∃ a, x = .ok a := by
  cases x <;> simp [Except.map]

theorem error?_bind_ok {a : α} {f : α → Except ε β} : error? (Except.ok a >>= f) = error? (f a) := rfl

@[simp] theorem error?_map (x : Except ε α) (f : α → β) : error? (x.map f) = error? x := by
  cases x <;> rfl

theorem error?_bind_pure (x : Except ε α) (f : α → β) :
    error? (x >>= fun a => pure (f a)) = error? x := by
  cases x <;> rfl

theorem forM_ok {l : List α} {f : α → Except ε PUnit} :
    l.forM f = .ok () ↔ ∀ x ∈ l, f x = .ok () := by
  rw [List.forM_eq_forM]
  induction l with
  | nil => exact iff_of_true rfl (List.forall_mem_nil _)
  | cons x l ih =>
    rw [List.forM_cons, bind_ok, List.forall_mem_cons]
    constructor
    · rintro ⟨_, hx, hl⟩
      exact ⟨hx, ih.mp hl⟩
    · rintro ⟨hx, hl⟩
      exact ⟨(), hx, ih.mpr hl⟩

theorem error?_forM (l : List α) (f : α → Except ε PUnit) :
    error? (l.forM f) = l.findSome? fun x => error? (f x) := by
  rw [List.forM_eq_forM]
  induction l with
  | nil => rfl
  | cons x l ih =>
    rw [List.forM_cons, List.findSome?_cons]
    cases f x with
    | error e => rfl
    | ok u => exact ih

theorem mapM_ok {l : List α} {f : α → Except ε β} {bs : List β} :
    l.mapM f = .ok bs ↔ List.Forall₂ (fun a b => f a = .ok b) l bs := by
  induction l generalizing bs with
  | nil =>
    cases bs with
    | nil => exact iff_of_true rfl .nil
    | cons b bs => exact iff_of_false (fun h => by cases Except.ok.inj h) (fun h => by cases h)
  | cons a l ih =>
    rw [List.mapM_cons, bind_ok]
    constructor
    · rintro ⟨b, hb, h⟩
      obtain ⟨cs, hcs, h⟩ := bind_ok.mp h
      obtain rfl := Except.ok.inj h
      exact .cons hb (ih.mp hcs)
    · rintro (_ | ⟨hb, hcs⟩)
      exact ⟨_, hb, bind_ok.mpr ⟨_, ih.mpr hcs, rfl⟩⟩

theorem exists_mapM_ok {l : List α} {f : α → Except ε β} :
    (∃ bs, l.mapM f = .ok bs) ↔ ∀ a ∈ l, ∃ b, f a = .ok b := by
  induction l with
  | nil => exact iff_of_true ⟨[], rfl⟩ (List.forall_mem_nil _)
  | cons a l ih =>
    rw [List.forall_mem_cons, ← ih]
    constructor
    · rintro ⟨bs, hbs⟩
      cases mapM_ok.mp hbs with
      | cons ha hl => exact ⟨⟨_, ha⟩, _, mapM_ok.mpr hl⟩
    · rintro ⟨⟨b, hb⟩, bs, hbs⟩
      exact ⟨b :: bs, mapM_ok.mpr (.cons hb (mapM_ok.mp hbs))⟩

theorem mapM_eq_map {l : List α} {f : α → Except ε β} {g : α → β} {bs : List β}
    (h : l.mapM f = .ok bs) (hg : ∀ a b, f a = .ok b → b = g a) : bs = l.map g := by
  have hforall := mapM_ok.mp h
  clear h
  induction hforall with
  | nil => rfl
  | cons hab _ ih => rw [List.map_cons, hg _ _ hab, ih]

theorem forall_mapM_ok {l : List α} {f : α → Except ε β} {bs : List β} (h : l.mapM f = .ok bs)
    {p : β → Prop} : (∀ b ∈ bs, p b) ↔ ∀ a ∈ l, ∀ b, f a = .ok b → p b := by
  have hforall := mapM_ok.mp h
  clear h
  induction hforall with
  | nil => simp
  | cons hab _ ih =>
    rw [List.forall_mem_cons, List.forall_mem_cons, hab]
    refine and_congr ?_ ih
    simp

theorem mapM_map (l : List α) (f : α → Except ε β) (g : β → γ) :
    (l.mapM fun a => (f a).map g) = (l.mapM f).map (List.map g) := by
  induction l with
  | nil => rfl
  | cons a l ih =>
    rw [List.mapM_cons, List.mapM_cons, ih]
    cases f a with
    | error e => rfl
    | ok b =>
      cases l.mapM f <;> rfl

theorem exists_bind_ok {x : Except ε α} {f : α → Except ε β} :
    (∃ b, (x >>= f) = .ok b) ↔ ∃ a, x = .ok a ∧ ∃ b, f a = .ok b := by
  cases x with
  | error e => exact iff_of_false (fun h => nomatch h) (fun h => nomatch h)
  | ok a =>
    constructor
    · intro h
      exact ⟨a, rfl, h⟩
    · rintro ⟨_, ha, h⟩
      rw [Except.ok.inj ha]
      exact h

theorem error?_mapM (l : List α) (f : α → Except ε β) :
    error? (l.mapM f) = l.findSome? fun x => error? (f x) := by
  induction l with
  | nil => rfl
  | cons x l ih =>
    rw [List.mapM_cons, List.findSome?_cons]
    cases f x with
    | error e => rfl
    | ok b =>
      rw [error?_bind_ok, error?_bind_pure, ih]
      rfl

/-- A fold whose steps fail independently of the value folded so far. -/
theorem error?_foldlM (l : List α) (f : α → Except ε β) (b : β) :
    error? (l.foldlM (fun _ x => f x) b) = l.findSome? fun x => error? (f x) := by
  induction l generalizing b with
  | nil => rfl
  | cons x l ih =>
    rw [List.foldlM_cons, List.findSome?_cons]
    cases f x with
    | error e => rfl
    | ok c => exact ih c

theorem foldlM_ok {l : List α} {f : α → Except ε β} {b c : β}
    (h : l.foldlM (fun _ x => f x) b = .ok c) :
    (∀ x ∈ l, ∃ d, f x = .ok d) ∧ (l = [] ∧ c = b ∨ ∃ x ∈ l, f x = .ok c) := by
  induction l generalizing b with
  | nil => exact ⟨List.forall_mem_nil _, .inl ⟨rfl, (Except.ok.inj h).symm⟩⟩
  | cons x l ih =>
    rw [List.foldlM_cons] at h
    obtain ⟨d, hd, h⟩ := bind_ok.mp h
    obtain ⟨hall, hlast⟩ := ih h
    refine ⟨List.forall_mem_cons.mpr ⟨⟨d, hd⟩, hall⟩, .inr ?_⟩
    rcases hlast with ⟨-, rfl⟩ | ⟨y, hy, hc⟩
    · exact ⟨x, List.mem_cons_self, hd⟩
    · exact ⟨y, List.mem_cons_of_mem x hy, hc⟩

end AggregatedLogging.Python
