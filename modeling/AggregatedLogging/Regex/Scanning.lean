import AggregatedLogging.Regex.Syntax

/-! The scanner looks ahead by a bounded amount and never past a bar, so the
tokens of a pattern do not change when an alternative is added behind it. -/
namespace AggregatedLogging.Regex

/-- A scanner that reads the same from a text when a bar and more text follow. -/
def Local (f : Text → Option (α × Text)) : Prop :=
  ∀ s a r, f s = some (a, r) →
    r.length ≤ s.length ∧ ∀ u, f (s ++ '|' :: u) = some (a, r ++ '|' :: u)

namespace Local

variable {f g : Text → Option (α × Text)}

theorem pure (a : α) : Local fun s => some (a, s) := by
  intro s b r h
  simp only [Option.some.injEq, Prod.mk.injEq] at h
  obtain ⟨rfl, rfl⟩ := h
  exact ⟨Nat.le_refl _, fun u => rfl⟩

theorem fail : Local fun _ => (none : Option (α × Text)) := by
  intro s a r h
  contradiction

theorem bind (hf : Local f) {k : α → Text → Option (β × Text)} (hk : ∀ a, Local (k a)) :
    Local fun s => (f s).bind fun p => k p.1 p.2 := by
  intro s b r h
  obtain ⟨⟨a, m⟩, ha, hb⟩ := Option.bind_eq_some_iff.mp h
  obtain ⟨hlen, hbar⟩ := hf s a m ha
  obtain ⟨hlen', hbar'⟩ := hk a m b r hb
  exact ⟨Nat.le_trans hlen' hlen, fun u => by simp [hbar u, hbar' u]⟩

theorem map (hf : Local f) (h : α → β) : Local fun s => (f s).map fun p => (h p.1, p.2) := by
  have := hf.bind (k := fun a s => some (h a, s)) fun a => pure (h a)
  simpa only [Option.map_eq_bind, Function.comp_def] using this

theorem filterMap (hf : Local f) (h : α → Option β) :
    Local fun s => (f s).bind fun p => (h p.1).map fun b => (b, p.2) := by
  refine hf.bind (k := fun a s => (h a).map fun b => (b, s)) fun a => ?_
  cases h a with
  | none => exact fail
  | some b => exact pure b

theorem ite (hf : Local f) (hg : Local g) (p : Prop) [Decidable p] :
    Local fun s => if p then f s else g s := by
  by_cases h : p
  · simpa only [h, ↓reduceIte] using hf
  · simpa only [h, ↓reduceIte] using hg

/-- A look at the next character is local when it is not a look for a bar. -/
theorem onHead {x : Char} (hx : x ≠ '|') (hf : Local f) (hg : Local g) :
    Local (Regex.onHead x f g) := by
  intro s a r h
  unfold Regex.onHead at h ⊢
  cases s with
  | nil =>
    simp only [List.head?_nil, reduceCtorEq, ↓reduceIte] at h
    obtain ⟨hlen, hbar⟩ := hg [] a r h
    refine ⟨hlen, fun u => ?_⟩
    simpa [Ne.symm hx] using hbar u
  | cons c s =>
    by_cases hc : c = x
    · simp only [List.head?_cons, hc, ↓reduceIte, List.tail_cons] at h
      obtain ⟨hlen, hbar⟩ := hf s a r h
      refine ⟨Nat.le_succ_of_le hlen, fun u => ?_⟩
      simpa [hc] using hbar u
    · simp only [List.head?_cons, Option.some.injEq, hc, ↓reduceIte] at h
      obtain ⟨hlen, hbar⟩ := hg (c :: s) a r h
      refine ⟨hlen, fun u => ?_⟩
      simpa [hc] using hbar u

theorem cons {k : Char → Text → Option (α × Text)} (hnil : f [] = none)
    (hcons : ∀ c s, f (c :: s) = k c s) (hk : ∀ c, Local (k c)) : Local f := by
  intro s a r h
  cases s with
  | nil => simp [hnil] at h
  | cons c s =>
    rw [hcons] at h
    obtain ⟨hlen, hbar⟩ := hk c s a r h
    refine ⟨Nat.le_succ_of_le hlen, fun u => ?_⟩
    rw [List.cons_append, hcons, hbar u]

end Local

theorem takeWhile_bar (p : Char → Bool) (hp : p '|' = false) (s u : Text) :
    (s ++ '|' :: u).takeWhile p = s.takeWhile p := by
  induction s with
  | nil => simp [hp]
  | cons c s ih => simp only [List.cons_append, List.takeWhile_cons, ih]

theorem dropWhile_bar (p : Char → Bool) (hp : p '|' = false) (s u : Text) :
    (s ++ '|' :: u).dropWhile p = s.dropWhile p ++ '|' :: u := by
  induction s with
  | nil => simp [hp]
  | cons c s ih =>
    simp only [List.cons_append, List.dropWhile_cons, ih]
    split <;> simp

theorem scanHexDigit_local : Local scanHexDigit := by
  refine Local.cons rfl (k := fun c s => (hexValue c).map fun n => (n, s)) (fun _ _ => rfl) ?_
  intro c
  cases hexValue c with
  | none => exact Local.fail
  | some n => exact Local.pure n

theorem scanHex_local : Local scanHex :=
  scanHexDigit_local.bind (k := fun a s => (scanHexDigit s).map fun b =>
    (Char.ofNat (16 * a + b.1), b.2)) fun a =>
      scanHexDigit_local.map fun b => Char.ofNat (16 * a + b)

theorem takeOctal_bar (n : Nat) (s u : Text) :
    takeOctal n (s ++ '|' :: u) = ((takeOctal n s).1, (takeOctal n s).2 ++ '|' :: u) := by
  have hbar : isOctal '|' = false := by decide
  induction n generalizing s with
  | zero => rfl
  | succ n ih =>
    cases s with
    | nil => simp [takeOctal, hbar]
    | cons c s =>
      simp only [List.cons_append, takeOctal, ih]
      split <;> rfl

theorem takeOctal_length (n : Nat) (s : Text) : (takeOctal n s).2.length ≤ s.length := by
  induction n generalizing s with
  | zero => exact Nat.le_refl _
  | succ n ih =>
    cases s with
    | nil => simp [takeOctal]
    | cons c s =>
      have hs := ih s
      simp only [takeOctal]
      split
      · simp only [List.length_cons]
        omega
      · exact Nat.le_refl _

theorem takeOctal_local (n : Nat) (g : Text → α) :
    Local fun s => some (g (takeOctal n s).1, (takeOctal n s).2) := by
  intro s a r h
  simp only [Option.some.injEq, Prod.mk.injEq] at h
  obtain ⟨rfl, rfl⟩ := h
  exact ⟨takeOctal_length n s, fun u => by simp only [takeOctal_bar]⟩

theorem scanDecimal_bar (a : Char) (s u : Text) :
    scanDecimal a (s ++ '|' :: u) = ((scanDecimal a s).1, (scanDecimal a s).2 ++ '|' :: u) := by
  have hoct : isOctal '|' = false := by decide
  have hdig : ('|' : Char).isDigit = false := by decide
  match s with
  | [] => cases u <;> simp [scanDecimal, hoct, hdig]
  | [b] =>
    simp only [List.cons_append, List.nil_append, scanDecimal, hoct, Bool.and_false,
      Bool.false_eq_true, ↓reduceIte]
    split <;> rfl
  | b :: c :: s =>
    simp only [List.cons_append, scanDecimal]
    split
    · rfl
    · split <;> rfl

theorem scanDecimal_length (a : Char) (s : Text) : (scanDecimal a s).2.length ≤ s.length := by
  match s with
  | [] => simp [scanDecimal]
  | [b] => simp only [scanDecimal]; split <;> simp
  | b :: c :: s =>
    simp only [scanDecimal]
    split
    · simp only [List.length_cons]
      omega
    · split <;> simp

theorem scanDecimal_local (a : Char) : Local fun s => some (scanDecimal a s) := by
  intro s t r h
  have hlen := scanDecimal_length a s
  simp only [Option.some.injEq] at h
  rw [h] at hlen
  exact ⟨hlen, fun u => by simp only [scanDecimal_bar, h]⟩

theorem scanOtherEscape_local (c : Char) : Local (scanOtherEscape c) :=
  (scanHex_local.map fun x => Token.item (.lit x)).ite
    ((takeOctal_local 2 fun ds => Token.item (.lit (byte (number 8 ds)))).ite
      ((scanDecimal_local c).ite (Local.pure _) _) _) _

theorem scanEscape_local : Local scanEscape := by
  refine Local.cons rfl (k := fun c s => scanEscape (c :: s)) (fun _ _ => rfl) ?_
  intro c
  simp only [scanEscape]
  rcases anchorEscape c with _ | a
  · rcases classEscape c with _ | i
    · rcases controlEscape c with _ | e
      · exact scanOtherEscape_local c
      · exact Local.pure _
    · exact Local.pure _
  · exact Local.pure _

theorem scanMemberEscape_local : Local scanMemberEscape := by
  refine Local.cons rfl (k := fun c s => scanMemberEscape (c :: s)) (fun _ _ => rfl) ?_
  intro c
  simp only [scanMemberEscape]
  rcases classEscape c with _ | i
  · rcases controlEscape c with _ | e
    · exact (Local.pure _).ite ((scanHex_local.map ClassItem.one).ite
        ((takeOctal_local 2 fun ds => ClassItem.one (byte (number 8 (c :: ds)))).ite
          (Local.fail.ite (Local.pure _) _) _) _) _
    · exact Local.pure _
  · exact Local.pure _

theorem scanMember_local : Local scanMember :=
  Local.cons rfl (k := fun c s => if c = '\\' then scanMemberEscape s else some (.one c, s))
    (fun _ _ => rfl) fun _ => scanMemberEscape_local.ite (Local.pure _) _

theorem scanMembers_mono {n m : Nat} (h : n ≤ m) {first : Bool} {s : Text}
    {p : List ClassItem × Text} (hs : scanMembers n first s = some p) :
    scanMembers m first s = some p := by
  induction n generalizing m first s p with
  | zero => simp [scanMembers] at hs
  | succ n ih =>
    obtain ⟨m, rfl⟩ : ∃ k, m = k + 1 := ⟨m - 1, by omega⟩
    have hnm : n ≤ m := by omega
    simp only [scanMembers] at hs ⊢
    split at hs
    · rename_i hend
      simpa only [hend, ↓reduceIte] using hs
    · rename_i hend
      simp only [hend, Bool.false_eq_true, ↓reduceIte]
      obtain ⟨a, ha, hs⟩ := Option.bind_eq_some_iff.mp hs
      rw [ha, Option.bind_some]
      unfold onHead at hs ⊢
      split at hs
      · rename_i hdash
        rw [if_pos hdash]
        split at hs
        · rename_i hclose
          rw [if_pos hclose]
          exact hs
        · rename_i hclose
          rw [if_neg hclose]
          obtain ⟨b, hb, hs⟩ := Option.bind_eq_some_iff.mp hs
          obtain ⟨i, hi, hs⟩ := Option.bind_eq_some_iff.mp hs
          obtain ⟨q, hq, hs⟩ := Option.map_eq_some_iff.mp hs
          simp [hb, hi, ih hnm hq, hs]
      · rename_i hdash
        rw [if_neg hdash]
        obtain ⟨q, hq, hs⟩ := Option.map_eq_some_iff.mp hs
        simp [ih hnm hq, hs]

theorem scanMembers_local (n : Nat) (first : Bool) : Local (scanMembers n first) := by
  induction n generalizing first with
  | zero => exact Local.fail
  | succ n ih =>
    have htail : Local fun s => (scanMember s).bind fun a =>
        onHead '-'
          (onHead ']' (fun r => some ([a.1, .one '-'], r)) fun r =>
            (scanMember r).bind fun b =>
              (rangeItem a.1 b.1).bind fun i =>
                (scanMembers n false b.2).map fun p => (i :: p.1, p.2))
          (fun r => (scanMembers n false r).map fun p => (a.1 :: p.1, p.2)) a.2 := by
      refine scanMember_local.bind (k := fun a => onHead '-'
        (onHead ']' (fun r => some ([a, .one '-'], r)) fun r =>
          (scanMember r).bind fun b =>
            (rangeItem a b.1).bind fun i =>
              (scanMembers n false b.2).map fun p => (i :: p.1, p.2))
        fun r => (scanMembers n false r).map fun p => (a :: p.1, p.2)) fun a => ?_
      refine Local.onHead (by decide) ?_ ((ih false).map _)
      refine Local.onHead (by decide) (Local.pure _) ?_
      refine scanMember_local.bind (k := fun b s => (rangeItem a b).bind fun i =>
        (scanMembers n false s).map fun p => (i :: p.1, p.2)) fun b => ?_
      cases rangeItem a b with
      | none => exact Local.fail
      | some i => exact (ih false).map _
    cases first with
    | true => exact htail
    | false =>
      have := Local.onHead (x := ']') (by decide) (Local.pure ([] : List ClassItem)) htail
      intro s a r h
      simp only [scanMembers, Bool.not_false, Bool.true_and, decide_eq_true_eq] at h ⊢
      exact this s a r h

theorem scanClassBody_local (n : Nat) : Local (scanClassBody n) :=
  Local.onHead (by decide)
    ((scanMembers_local n true).map fun p => Token.item (.cls true p))
    ((scanMembers_local n true).map fun p => Token.item (.cls false p))

theorem scanClassBody_mono {n m : Nat} (h : n ≤ m) {s : Text} {p : Token × Text}
    (hs : scanClassBody n s = some p) : scanClassBody m s = some p := by
  unfold scanClassBody onHead at hs ⊢
  split at hs
  · rename_i hneg
    obtain ⟨q, hq, rfl⟩ := Option.map_eq_some_iff.mp hs
    simp only [hneg, ↓reduceIte, scanMembers_mono h hq, Option.map_some]
  · rename_i hneg
    obtain ⟨q, hq, rfl⟩ := Option.map_eq_some_iff.mp hs
    simp only [hneg, ↓reduceIte, scanMembers_mono h hq, Option.map_some]

theorem scanClass_local : Local scanClass := by
  intro s a r h
  obtain ⟨hlen, hbar⟩ := scanClassBody_local _ s a r h
  exact ⟨hlen, fun u => scanClassBody_mono (by simp) (hbar u)⟩

theorem scanLazy_local (lo : Nat) (hi : Option Nat) : Local (scanLazy lo hi) :=
  Local.onHead (by decide) (Local.pure _) (Local.pure _)

theorem onHead_bar {x : Char} (hx : x ≠ '|') (f g : Text → β) (s u : Text) :
    onHead x f g (s ++ '|' :: u) =
      if s.head? = some x then f (s.tail ++ '|' :: u) else g (s ++ '|' :: u) := by
  cases s with
  | nil => simp [onHead, Ne.symm hx]
  | cons c s => simp [onHead]

theorem scanBounds_bar (s u : Text) :
    scanBounds (s ++ '|' :: u) = (scanBounds s).map fun p => (p.1, p.2 ++ '|' :: u) := by
  have hdig : ('|' : Char).isDigit = false := by decide
  unfold scanBounds
  rw [takeWhile_bar _ hdig, dropWhile_bar _ hdig, onHead_bar (by decide), onHead_bar (by decide)]
  rw [takeWhile_bar _ hdig, dropWhile_bar _ hdig, onHead_bar (by decide)]
  simp only [onHead]
  split
  · rfl
  · split
    · split <;> rfl
    · rfl

theorem scanBounds_length {s : Text} {b : Text × Option Text} {r : Text}
    (h : scanBounds s = some (b, r)) : r.length ≤ s.length := by
  have htail (t : Text) : t.tail.length ≤ t.length := by simp
  have hdrop (t : Text) : (t.dropWhile Char.isDigit).length ≤ t.length :=
    (List.dropWhile_suffix _).length_le
  simp only [scanBounds, onHead] at h
  split at h
  · simp only [Option.some.injEq, Prod.mk.injEq] at h
    rw [← h.2]
    exact Nat.le_trans (htail _) (hdrop s)
  · split at h
    · split at h
      · simp only [Option.some.injEq, Prod.mk.injEq] at h
        rw [← h.2]
        exact Nat.le_trans (htail _) (Nat.le_trans (hdrop _) (Nat.le_trans (htail _) (hdrop s)))
      · contradiction
    · contradiction

theorem scanBrace_local : Local scanBrace := by
  intro s a r h
  unfold scanBrace at h ⊢
  simp only [scanBounds_bar]
  rcases hb : scanBounds s with _ | ⟨b, q⟩
  · simp only [hb, Option.some.injEq, Prod.mk.injEq] at h
    obtain ⟨rfl, rfl⟩ := h
    exact ⟨Nat.le_refl _, fun u => rfl⟩
  · have hq := scanBounds_length hb
    simp only [hb, Option.map_some] at h ⊢
    split at h
    · rename_i hlit
      simp only [Option.some.injEq, Prod.mk.injEq] at h
      obtain ⟨rfl, rfl⟩ := h
      exact ⟨Nat.le_refl _, fun u => by simp only [hlit, ↓reduceIte]⟩
    · rename_i hlit
      split at h
      · contradiction
      · rename_i hbad
        obtain ⟨hlen, hbar⟩ := scanLazy_local _ _ q a r h
        exact ⟨Nat.le_trans hlen hq, fun u => by rw [if_neg hlit, if_neg hbad, hbar u]⟩

theorem takeUntil_local (stop : Char) : Local (takeUntil stop) := by
  intro s
  induction s with
  | nil => intro a r hs; simp [takeUntil] at hs
  | cons c s ih =>
    intro a r hs
    simp only [List.cons_append, takeUntil] at hs ⊢
    split at hs
    · rename_i hc
      simp only [Option.some.injEq, Prod.mk.injEq] at hs
      obtain ⟨rfl, rfl⟩ := hs
      exact ⟨by simp, fun u => by simp only [hc, ↓reduceIte]⟩
    · rename_i hc
      obtain ⟨⟨b, q⟩, hq, hs⟩ := Option.map_eq_some_iff.mp hs
      simp only [Prod.mk.injEq] at hs
      obtain ⟨rfl, rfl⟩ := hs
      obtain ⟨hlen, hbar⟩ := ih b q hq
      exact ⟨Nat.le_succ_of_le hlen, fun u => by simp [hc, hbar u]⟩

theorem scanName_local (stop : Char) (token : Text → Token) :
    Local (scanName stop token) := by
  refine (takeUntil_local stop).bind
    (k := fun n s => if isName n then some ([token n], s) else none) fun n => ?_
  exact (Local.pure _).ite Local.fail _

theorem scanCondition_local : Local scanCondition :=
  (takeUntil_local ')').bind
    (k := fun n s => (conditionToken n).map fun t => ([t], s)) fun n => by
      cases conditionToken n with
      | none => exact Local.fail
      | some t => exact Local.pure _

theorem skipComment_bar {s r : Text} (h : skipComment s = some r) :
    r.length ≤ s.length ∧ ∀ u, skipComment (s ++ '|' :: u) = some (r ++ '|' :: u) := by
  fun_induction skipComment s with
  | case1 => contradiction
  | case2 s =>
    simp only [Option.some.injEq] at h
    subst h
    exact ⟨Nat.le_succ _, fun u => by unfold skipComment; rfl⟩
  | case3 => contradiction
  | case4 hc e s ih =>
    obtain ⟨hlen, hbar⟩ := ih h
    exact ⟨by simp only [List.length_cons]; omega, fun u => by simp [skipComment, hbar u]⟩
  | case5 c s hclose hesc ih =>
    obtain ⟨hlen, hbar⟩ := ih h
    exact ⟨Nat.le_succ_of_le hlen, fun u => by
      rw [List.cons_append, skipComment.eq_def]
      simp only [hclose, hesc, ↓reduceIte, hbar u]⟩

theorem scanFlags_local (c : Char) : Local fun s => scanFlags (c :: s) := by
  intro s
  induction s generalizing c with
  | nil =>
    intro a r h
    simp [scanFlags] at h
  | cons e s ih =>
    intro a r h
    simp only [scanFlags] at h
    obtain ⟨f, hf, h⟩ := Option.bind_eq_some_iff.mp h
    simp only [List.cons_append, scanFlags, hf, Option.bind_some]
    simp only [List.head?_cons, Option.some.injEq] at h ⊢
    by_cases he : e = ')'
    · simp only [he, ↓reduceIte, List.tail_cons, Option.some.injEq, Prod.mk.injEq] at h ⊢
      obtain ⟨rfl, rfl⟩ := h
      exact ⟨Nat.le_succ _, fun u => ⟨rfl, rfl⟩⟩
    · simp only [he, ↓reduceIte] at h ⊢
      obtain ⟨⟨g, q⟩, hq, h⟩ := Option.map_eq_some_iff.mp h
      simp only [Prod.mk.injEq] at h
      obtain ⟨rfl, rfl⟩ := h
      obtain ⟨hlen, hbar⟩ := ih e g q hq
      refine ⟨Nat.le_succ_of_le hlen, fun u => ?_⟩
      have hu := hbar u
      simp only [scanFlags] at hu
      rw [hu, Option.map_some]

theorem scanNamed_local : Local scanNamed :=
  Local.cons rfl (k := fun c s =>
    if c = '<' then scanName '>' (fun n => .opening (.capture (some n))) s
    else if c = '=' then scanName ')' .refName s
    else none) (fun _ _ => rfl) fun _ =>
      (scanName_local _ _).ite ((scanName_local _ _).ite Local.fail _) _

theorem scanBehind_local (d : Dialect) : Local (scanBehind d) :=
  Local.onHead (by decide) (Local.pure _) (Local.onHead (by decide) (Local.pure _)
    ((scanName_local _ _).ite Local.fail _))

theorem scanExtension_local (d : Dialect) : Local (scanExtension d) := by
  have hcomment : Local fun s => (skipComment s).map fun r => (([] : List Token), r) := by
    intro s a r h
    obtain ⟨q, hq, h⟩ := Option.map_eq_some_iff.mp h
    simp only [Prod.mk.injEq] at h
    obtain ⟨rfl, rfl⟩ := h
    obtain ⟨hlen, hbar⟩ := skipComment_bar hq
    exact ⟨hlen, fun u => by simp only [hbar u, Option.map_some]⟩
  exact Local.cons rfl (fun _ _ => rfl) fun c =>
    scanNamed_local.ite ((Local.pure _).ite (hcomment.ite ((Local.pure _).ite ((Local.pure _).ite
      ((scanBehind_local d).ite (scanCondition_local.ite
        ((scanFlags_local c).map fun f => [Token.flags f]) _) _) _) _) _) _) _

theorem scanChar_local (d : Dialect) (c : Char) : Local (scanChar d c) :=
  (scanEscape_local.map fun t => [t]).ite
    ((scanClass_local.map fun t => [t]).ite
      ((Local.onHead (by decide) (scanExtension_local d) (Local.pure _)).ite
        ((scanBrace_local.map fun t => [t]).ite
          (((scanLazy_local 0 none).map fun t => [t]).ite
            (((scanLazy_local 1 none).map fun t => [t]).ite
              (((scanLazy_local 0 (some 1)).map fun t => [t]).ite
                (Local.pure _) _) _) _) _) _) _) _

/-- A piece of a pattern and the tokens it gives, with what follows it. -/
inductive Scans (d : Dialect) (verbose : Bool) : Text → List Token → Text → Prop where
  | done : Scans d verbose s [] s
  | step : scanToken d verbose s = some (ts, m) → Scans d verbose m us r →
      Scans d verbose s (ts ++ us) r

theorem Scans.append (h : Scans d v s ts m) (h' : Scans d v m us r) :
    Scans d v s (ts ++ us) r := by
  induction h with
  | done => exact h'
  | step hstep _ ih =>
    rw [List.append_assoc]
    exact .step hstep (ih h')

theorem scanToken_progress {d : Dialect} {v : Bool} {s r : Text} {ts : List Token}
    (h : scanToken d v s = some (ts, r)) : r.length < s.length := by
  cases s with
  | nil => contradiction
  | cons c s =>
    have hdrop := (List.dropWhile_suffix (l := s) fun c => c ≠ '\n').length_le
    simp only [scanToken] at h
    split at h
    · simp only [Option.some.injEq, Prod.mk.injEq] at h
      rw [← h.2]
      exact Nat.lt_succ_self _
    · split at h
      · simp only [Option.some.injEq, Prod.mk.injEq] at h
        rw [← h.2, List.length_tail, List.length_cons]
        omega
      · exact Nat.lt_succ_of_le (scanChar_local d c s ts r h).1

theorem scan_iff {d : Dialect} {v : Bool} {fuel : Nat} {s : Text} {ts : List Token}
    (h : s.length ≤ fuel) : scan d v fuel s = some ts ↔ Scans d v s ts [] := by
  constructor
  · induction fuel generalizing s ts with
    | zero =>
      obtain rfl := List.length_eq_zero_iff.mp (Nat.le_zero.mp h)
      intro hs
      simp only [scan, Option.some.injEq] at hs
      exact hs ▸ .done
    | succ fuel ih =>
      cases s with
      | nil =>
        intro hs
        simp only [scan, Option.some.injEq] at hs
        exact hs ▸ .done
      | cons c s =>
        intro hs
        simp only [scan] at hs
        obtain ⟨⟨us, m⟩, hm, hs⟩ := Option.bind_eq_some_iff.mp hs
        obtain ⟨vs, hvs, rfl⟩ := Option.map_eq_some_iff.mp hs
        have := scanToken_progress hm
        exact .step hm (ih (by simp only [List.length_cons] at *; omega) hvs)
  · induction fuel generalizing s ts with
    | zero =>
      obtain rfl := List.length_eq_zero_iff.mp (Nat.le_zero.mp h)
      rintro (_ | ⟨hm, _⟩)
      · rfl
      · contradiction
    | succ fuel ih =>
      rintro (_ | @⟨_, us, m, vs, _, hm, hvs⟩)
      · rfl
      · have hlt := scanToken_progress hm
        cases s with
        | nil => contradiction
        | cons c s =>
          have := ih (by simp only [List.length_cons] at *; omega) hvs
          simp only [scan, hm, Option.bind_some, this, Option.map_some]

/-- Outside of verbose mode, a pattern that is scanned whole gives the same
tokens when an alternative follows. -/
theorem Scans.bar {d : Dialect} {s r : Text} {ts : List Token} (h : Scans d false s ts r)
    (u : Text) : Scans d false (s ++ '|' :: u) ts (r ++ '|' :: u) := by
  induction h with
  | done => exact .done
  | @step s _ m _ _ hstep _ ih =>
    refine .step ?_ ih
    cases s with
    | nil => contradiction
    | cons c s => exact (scanChar_local d c s _ m hstep).2 u

theorem Scans.alternative {d : Dialect} {s u : Text} {ts us : List Token}
    (h : Scans d false s ts []) (h' : Scans d false u us []) :
    Scans d false (s ++ '|' :: u) (ts ++ Token.bar :: us) [] :=
  (h.bar u).append
    (Scans.step (show scanToken d false ('|' :: u) = some ([.bar], u) from rfl) h')

end AggregatedLogging.Regex
