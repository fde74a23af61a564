import AggregatedLogging.Fluentd.Container
import AggregatedLogging.Glob.Leading

/-! The tag patterns of the operations projects, as `run.sh` builds them. -/
namespace AggregatedLogging.Fluentd

open Glob

def isBlank (c : Char) : Bool := c = ' ' || c = '\t' || c = '\n'

def wordsFrom (word : Text) : Text → List Text
  | [] => if word = [] then [] else [word]
  | c :: s =>
    if isBlank c then (if word = [] then wordsFrom [] s else word :: wordsFrom [] s)
    else wordsFrom (word ++ [c]) s

def words (s : Text) : List Text := wordsFrom [] s

/-- The default stands in for an unset and for an empty variable. -/
def ocpOperationsProjects (value : Option Text) : Text :=
  match value with
  | none | some [] => "default openshift openshift- kube-".toList
  | some s => s

/-- The words of the variable, if they stand for themselves. -/
def operationsProjects (value : Option Text) : List Text := words (ocpOperationsProjects value)

def isPrefixWord (p : Text) : Bool := p.getLast? = some '-'

def projectWord (p : Text) : Text := if isPrefixWord p then p ++ ['*'] else p

def projectTag (p : Text) : Text := "**_".toList ++ projectWord p ++ "_**".toList

/-- The patterns that replace `%OCP_FLUENTD_TAGS%` in the configuration. -/
def ocpFluentdTags (value : Option Text) : List Text := (operationsProjects value).map projectTag

example : ocpFluentdTags none =
    ["**_default_**".toList, "**_openshift_**".toList, "**_openshift-*_**".toList,
      "**_kube-*_**".toList] := by decide

def isWordChar (c : Char) : Bool := isLabelChar c || c = '*'

def itemOf : Token → Item
  | .char '*' => .many '.'
  | .char c => .lit c
  | .dots => .many '\n'
  | .escaped c => .lit c
  | .dotsDot => .partEnd

def wordItems (w : Text) : List Item := (tokens w).map itemOf

theorem tokensFrom_word {p : Pending} (hp : p ≠ .escape) {w : Text} (hw : w.all isWordChar = true)
    (r : Text) :
    tokensFrom p (w ++ '_' :: r) = tokensFrom p w ++ Token.char '_' :: tokensFrom .none r := by
  induction w generalizing p with
  | nil => cases p <;> simp_all [tokensFrom, Pending.rest]
  | cons c w ih =>
    rw [List.all_cons, Bool.and_eq_true] at hw
    have hdot : c ≠ '.' := by
      rintro rfl
      simp [isWordChar, isLabelChar] at hw
    have hback : c ≠ '\\' := by
      rintro rfl
      simp [isWordChar, isLabelChar] at hw
    simp only [List.cons_append, tokensFrom, hp, hdot, hback, and_false, ↓reduceIte]
    split
    · exact ih (by decide) hw.2
    · split
      · rw [ih (by decide) hw.2, List.append_assoc]
      · rw [ih (by decide) hw.2, List.append_assoc]
        rfl

def simpleToken : Token → Bool
  | .char c => isWordChar c || c = '_'
  | .dots => true
  | .escaped _ | .dotsDot => false

theorem step_simple {b : Builder} (hdot : b.dot = false) {t : Token} (ht : simpleToken t = true) :
    b.step t = b.add (itemOf t) := by
  cases t with
  | char c =>
    obtain ⟨alts, dot, stack⟩ := b
    obtain rfl : dot = false := hdot
    simp only [Builder.step, Builder.flush, Bool.false_eq_true, ↓reduceIte]
    unfold Builder.char itemOf
    split <;> simp_all [simpleToken, isWordChar, isLabelChar]
  | dots =>
    rw [Builder.step, Builder.flushPart, hdot]
    rfl
  | escaped c => contradiction
  | dotsDot => contradiction

theorem foldl_simple {ts : List Token} (hts : ts.all simpleToken = true) {b : Builder}
    (hdot : b.dot = false) :
    ts.foldl Builder.step b = { b with alts := b.alts.map (· ++ ts.map itemOf) } := by
  induction ts generalizing b with
  | nil => simp
  | cons t ts ih =>
    rw [List.all_cons, Bool.and_eq_true] at hts
    rw [List.foldl_cons, step_simple hdot hts.1, ih hts.2 (show (b.add (itemOf t)).dot = false from hdot)]
    simp [Builder.add, Function.comp_def]

theorem tokensFrom_simple {p : Pending} (hp : p ≠ .escape) {w : Text} (hw : w.all isWordChar = true) :
    (tokensFrom p w).all simpleToken = true := by
  have hstar : simpleToken (.char '*') = true := by decide
  have hrest (p : Pending) (hp : p ≠ .escape) : p.rest.all simpleToken = true := by
    cases p <;> simp_all [Pending.rest, simpleToken]
  induction w generalizing p with
  | nil => exact hrest p hp
  | cons c w ih =>
    rw [List.all_cons, Bool.and_eq_true] at hw
    have hdot : c ≠ '.' := by
      rintro rfl
      simp [isWordChar, isLabelChar] at hw
    have hback : c ≠ '\\' := by
      rintro rfl
      simp [isWordChar, isLabelChar] at hw
    simp only [tokensFrom, hp, hdot, hback, and_false, ↓reduceIte]
    split
    · exact ih (by decide) hw.2
    · split
      · rw [List.all_append, hrest p hp, ih (by decide) hw.2, Bool.and_self]
      · rw [List.all_append, hrest p hp, List.all_cons, ih (by decide) hw.2]
        simp [simpleToken, hw.1]

theorem parse_projectTag {p : Text} (hp : (projectWord p).all isWordChar = true) :
    parse (projectTag p) =
      [.many '\n' :: .lit '_' :: (wordItems (projectWord p) ++ [Item.lit '_', .many '\n'])] := by
  have htokens : tokens (projectTag p) =
      .dots :: .char '_' :: (tokens (projectWord p) ++ [Token.char '_', .dots]) := by
    have hword := tokensFrom_word (p := .none) (by decide) hp ['*', '*']
    have htext : projectTag p = '*' :: '*' :: '_' :: (projectWord p ++ '_' :: ['*', '*']) := by
      simp [projectTag]
    rw [htext, tokens]
    change .dots :: .char '_' :: tokensFrom .none (projectWord p ++ '_' :: ['*', '*']) = _
    rw [hword]
    rfl
  have hsimple : (tokens (projectTag p)).all simpleToken = true := by
    rw [htokens, List.all_cons, List.all_cons, List.all_append, tokens,
      tokensFrom_simple (by decide) hp]
    rfl
  rw [parse, foldl_simple hsimple rfl, htokens]
  simp [Builder.closeAll, wordItems, itemOf]

theorem wordItems_free {w : Text} (hw : w.all isWordChar = true) :
    (wordItems w).all Item.free = true := by
  have hsimple := tokensFrom_simple (p := .none) (by decide) hw
  rw [wordItems, List.all_map, List.all_eq_true]
  intro t ht
  have := List.all_eq_true.mp hsimple t ht
  cases t with
  | char c =>
    change Item.free (itemOf (.char c)) = true
    unfold itemOf
    split <;> first | rfl | contradiction
  | dots => rfl
  | escaped c => contradiction
  | dotsDot => contradiction

def lists (value : Option Text) (ns : Text) : Prop :=
  ∃ p ∈ operationsProjects value, exactly (wordItems (projectWord p)) ns = true

theorem projectWord_all {f : Char → Bool} (hstar : f '*' = true) {p : Text} (hp : p.all f = true) :
    (projectWord p).all f = true := by
  unfold projectWord
  split
  · rw [List.all_append, hp, List.all_cons, hstar]
    rfl
  · exact hp

theorem matchesTag_enclosed {p : Text} (hp : p.all isWordChar = true) {s : Text}
    (hline : '\n' ∉ s) :
    matchesTag (projectTag p) s = true ↔
      ∃ u v w, s = u ++ '_' :: (v ++ '_' :: w) ∧ exactly (wordItems (projectWord p)) v = true := by
  have hword := projectWord_all (f := isWordChar) (by decide) hp
  rw [matchesTag, parse_projectTag hword, List.any_cons, List.any_nil, Bool.or_false]
  exact accepts_enclosed rfl (wordItems_free hword) hline

theorem covers_enclosed {value : Option Text}
    (hwords : ∀ p ∈ operationsProjects value, p.all isWordChar = true) {s : Text}
    (hline : '\n' ∉ s) :
    matchesAny (ocpFluentdTags value) s = true ↔
      ∃ u v w, s = u ++ '_' :: (v ++ '_' :: w) ∧ lists value v := by
  rw [matchesAny, ocpFluentdTags, List.any_map, List.any_eq_true]
  constructor
  · rintro ⟨p, hp, hmatches⟩
    obtain ⟨u, v, w, htext, hv⟩ := (matchesTag_enclosed (hwords p hp) hline).mp hmatches
    exact ⟨u, v, w, htext, p, hp, hv⟩
  · rintro ⟨u, v, w, htext, p, hp, hv⟩
    exact ⟨p, hp, (matchesTag_enclosed (hwords p hp) hline).mpr ⟨u, v, w, htext, hv⟩⟩

/-- Without an underscore a tag is no operations tag, whatever the variable
holds. -/
theorem not_covers {value : Option Text} {s : Text} (hs : '_' ∉ s) :
    matchesAny (ocpFluentdTags value) s = false := by
  rw [matchesAny, ocpFluentdTags, List.any_map, List.any_eq_false]
  intro p hp
  rw [Bool.not_eq_true]
  exact not_matchesTag_of_leads (c := '_') (fun s => rfl) (fun b => rfl)
    (projectWord p ++ "_**".toList) hs

theorem Container.fileTag_parts (c : Container) :
    c.fileTag = (containersTag ++ c.pod) ++
      '_' :: (c.ns ++ '_' :: (c.name ++ '-' :: (c.id ++ logSuffix))) := by
  rw [Container.fileTag, Container.logFile, List.append_assoc]

theorem Container.not_mem_parts (c : Container) {x : Char} (hx : isPodChar x = false)
    (hfront : x ∉ containersTag) (hback : x ∉ logSuffix) :
    x ∉ containersTag ++ c.pod ∧ x ∉ c.ns ∧ x ∉ c.name ++ '-' :: (c.id ++ logSuffix) := by
  have hlabel : isLabelChar x = false := by
    rw [isPodChar, Bool.or_eq_false_iff] at hx
    exact hx.1
  have hdash : x ≠ '-' := by
    rintro rfl
    contradiction
  simp only [List.mem_append, List.mem_cons, not_or]
  exact ⟨⟨hfront, not_mem_podName c.pod_valid hx⟩, not_mem_label c.ns_valid hlabel,
    not_mem_label c.name_valid hlabel, hdash, not_mem_label c.id_valid hlabel, hback⟩

theorem Container.fileTag_line (c : Container) : '\n' ∉ c.fileTag := by
  obtain ⟨hfront, hns, hback⟩ := c.not_mem_parts (x := '\n') (by decide) (by decide) (by decide)
  rw [c.fileTag_parts]
  exact Text.not_mem_split (by decide) hfront (Text.not_mem_split (by decide) hns hback)

/-- The two underscores in the name of a log file pin the patterns to the
namespace. -/
theorem covers_fileTag {value : Option Text}
    (hwords : ∀ p ∈ operationsProjects value, p.all isWordChar = true) (c : Container) :
    matchesAny (ocpFluentdTags value) c.fileTag = true ↔ lists value c.ns := by
  obtain ⟨hfront, hns, hback⟩ := c.not_mem_parts (x := '_') (by decide) (by decide) (by decide)
  rw [covers_enclosed hwords c.fileTag_line, c.fileTag_parts]
  exact enclosed_two hfront hns hback

theorem tokens_label {p : Text} (hp : p.all isLabelChar = true) : tokens p = p.map .char := by
  unfold tokens
  induction p with
  | nil => rfl
  | cons c p ih =>
    rw [List.all_cons, Bool.and_eq_true] at hp
    have hne (x : Char) (hx : isLabelChar x = false) : c ≠ x := by
      rintro rfl
      rw [hp.1] at hx
      contradiction
    simp only [tokensFrom, hne '*' (by decide), hne '\\' (by decide), reduceCtorEq, false_and,
      ↓reduceIte, Pending.rest, List.nil_append, List.map_cons, ih hp.2]

theorem tokens_starred {p : Text} (hp : p.all isLabelChar = true) :
    tokens (p ++ ['*']) = p.map Token.char ++ [Token.char '*'] := by
  unfold tokens
  induction p with
  | nil => rfl
  | cons c p ih =>
    rw [List.all_cons, Bool.and_eq_true] at hp
    have hne (x : Char) (hx : isLabelChar x = false) : c ≠ x := by
      rintro rfl
      rw [hp.1] at hx
      contradiction
    simp only [List.cons_append, tokensFrom, hne '*' (by decide), hne '\\' (by decide), reduceCtorEq,
      false_and, ↓reduceIte, Pending.rest, List.nil_append, List.map_cons, ih hp.2]

theorem map_itemOf_label {p : Text} (hp : p.all isLabelChar = true) :
    (p.map Token.char).map itemOf = lits p := by
  rw [lits, List.map_map]
  refine List.map_congr_left fun c hc => ?_
  have hstar : c ≠ '*' := by
    rintro rfl
    have := List.all_eq_true.mp hp '*' hc
    contradiction
  simp [itemOf]

def standsFor (p ns : Text) : Prop := if isPrefixWord p then p <+: ns else ns = p

instance (p ns : Text) : Decidable (standsFor p ns) :=
  inferInstanceAs (Decidable (if isPrefixWord p then p <+: ns else ns = p))

theorem exactly_projectWord {p ns : Text} (hp : p.all isLabelChar = true) (hns : '.' ∉ ns) :
    exactly (wordItems (projectWord p)) ns = true ↔ standsFor p ns := by
  unfold projectWord standsFor wordItems
  split
  · rw [tokens_starred hp, List.map_append, map_itemOf_label hp]
    change exactly (lits p ++ [Item.many '.']) ns = true ↔ _
    rw [exactly_append (lits_free p) rfl]
    constructor
    · rintro ⟨u, r, rfl, hu, -⟩
      rw [exactly_lits.mp hu]
      exact List.prefix_append p r
    · rintro ⟨r, rfl⟩
      rw [List.mem_append, not_or] at hns
      exact ⟨p, r, rfl, exactly_lits.mpr rfl, exactly_many.mpr hns.2⟩
  · rw [tokens_label hp, map_itemOf_label hp, exactly_lits]

theorem isWordChar_of_label {words : List Text} (h : ∀ p ∈ words, p.all isLabelChar = true) :
    ∀ p ∈ words, p.all isWordChar = true := by
  intro p hp
  have hlabel := List.all_eq_true.mp (h p hp)
  apply List.all_eq_true.mpr
  intro x hx
  rw [isWordChar, hlabel x hx, Bool.true_or]

/-- The records of a log file have an operations tag exactly when the namespace
of the container is listed; the other names in the tag have no part in it. -/
theorem fileTag_matches_iff {value : Option Text}
    (hwords : ∀ p ∈ operationsProjects value, p.all isLabelChar = true) (c : Container) :
    matchesAny (ocpFluentdTags value) c.fileTag = true ↔
      ∃ p ∈ operationsProjects value, standsFor p c.ns := by
  have hns : '.' ∉ c.ns := not_mem_label c.ns_valid (by decide)
  rw [covers_fileTag (isWordChar_of_label hwords)]
  exact exists_congr fun p => and_congr_right fun hp => exactly_projectWord (hwords p hp) hns

def decoyPod : Container where
  pod := "default.openshift-web".toList
  ns := "openshift".toList
  name := "kube-proxy".toList
  id := "0123456789ab".toList
  hash := "a67f366".toList
  uid := "26c51a61-2835-11e6".toList
  attempt := "0".toList
  pod_valid := Eq.refl true
  ns_valid := Eq.refl true
  name_valid := Eq.refl true
  id_valid := Eq.refl true
  hash_valid := Eq.refl true
  uid_valid := Eq.refl true
  attempt_valid := Eq.refl true

theorem fileTag_matches_decoyPod :
    matchesAny (ocpFluentdTags (some "default kube- web".toList)) decoyPod.fileTag = true ↔
      ∃ p ∈ operationsProjects (some "default kube- web".toList), standsFor p decoyPod.ns :=
  fileTag_matches_iff (by decide) decoyPod

end AggregatedLogging.Fluentd
