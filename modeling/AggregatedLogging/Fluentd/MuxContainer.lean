import AggregatedLogging.Fluentd.Outputs
import AggregatedLogging.Regex.Outcomes
import AggregatedLogging.Ruby.Json
import AggregatedLogging.Ruby.Hash

/-! The fields that the first filter of `@MUX` reads off the tag of a log file. -/
namespace AggregatedLogging.Fluentd

open Glob Regex Ruby

def fileNamePattern : Text :=
  "var\\.log\\.containers\\.".toList ++
  "(?<pod_name>[a-z0-9]([-a-z0-9]*[a-z0-9])?(\\.[a-z0-9]([-a-z0-9]*[a-z0-9])?)*)".toList ++
  "_(?<namespace>[^_]+)_(?<container_name>.+)-(?<docker_id>[a-z0-9]+)\\.log(?:\\.raw)?$".toList

def matchFileName (tag : Text) : Option (Text → Option Text) :=
  (compile .ruby fileNamePattern).bind fun r => (r.search tag).map fun m name =>
    (r.names.lookup name).bind m.group

/-- The name that is put together from the tag; without a match the expression raises. -/
def computedName (tag : Text) : Option Text := do
  let md ← matchFileName tag
  let container ← md "container_name".toList
  let pod ← md "pod_name".toList
  let ns ← md "namespace".toList
  return "k8s_".toList ++ container ++ ".0_".toList ++ pod ++ "_".toList ++ ns ++
    "_0_01234567".toList

def computedId (tag : Text) : Option Text := do
  let md ← matchFileName tag
  md "docker_id".toList

/-- `record[key] || computed`. -/
def valueOr (value : Option Json) (computed : Option Text) : Option Json :=
  if value.any Json.truthy then value else computed.map Json.str

/-- The filter, with both fields computed from the record as it came. -/
def containerFilter (tag : Text) (record : Fields) : Option Fields :=
  if matchesTag "kubernetes.var.log.containers.**".toList tag then do
    let name ← valueOr (record.lookup "CONTAINER_NAME".toList) (computedName tag)
    let id ← valueOr (record.lookup "CONTAINER_ID_FULL".toList) (computedId tag)
    return merge record [("CONTAINER_NAME".toList, name), ("CONTAINER_ID_FULL".toList, id)]
  else some record

def isIdChar (c : Char) : Bool := ('a' ≤ c && c ≤ 'z') || ('0' ≤ c && c ≤ '9')

def isDnsLabel (s : Text) : Bool :=
  s.all isLabelChar && s.head?.any isIdChar && s.getLast?.any isIdChar

def IsSubdomain (s : Text) : Prop :=
  ∃ (first : Text) (others : List Text), s = first ++ others.flatMap ('.' :: ·) ∧ isDnsLabel first = true ∧
    ∀ l ∈ others, isDnsLabel l = true

structure PodContainer where
  pod : Text
  ns : Text
  name : Text
  id : Text
  pod_valid : IsSubdomain pod
  ns_valid : isDnsLabel ns = true
  name_valid : isDnsLabel name = true
  id_ne : id ≠ []
  id_valid : id.all isIdChar = true

def logEnd (raw : Bool) : Text := if raw then ".log.raw".toList else ".log".toList

def PodContainer.tag (c : PodContainer) (raw : Bool) : Text :=
  "kubernetes.".toList ++ ("var.log.containers.".toList ++
    (c.pod ++ '_' :: (c.ns ++ '_' :: (c.name ++ '-' :: (c.id ++ logEnd raw)))))

/-- `k8s_CONTAINER.HASH_POD_NAMESPACE_UID_ATTEMPT`. -/
def SplitsAs (s container pod ns : Text) : Prop :=
  ∃ hash uid attempt,
    s = "k8s_".toList ++ ((container ++ '.' :: hash) ++ '_' :: (pod ++ '_' :: (ns ++ '_' ::
      (uid ++ '_' :: attempt)))) ∧
    '.' ∉ container ∧ ∀ part ∈ [container, hash, pod, ns, uid, attempt], '_' ∉ part

/-- `[a-z0-9]`. -/
def idAtom : Atom := .cls false [.range 'a' 'z', .range '0' '9']

/-- `[-a-z0-9]`. -/
def labelAtom : Atom := .cls false [.one '-', .range 'a' 'z', .range '0' '9']

def labelNode (i : Nat) (next : Node) : Node :=
  .seq (.atom idAtom) (.seq (.rep 0 (some 1) true (.capture i
    (.seq (.rep 0 none true (.atom labelAtom)) (.seq (.atom idAtom) .empty)))) next)

def podNode : Node :=
  labelNode 2 (.seq (.rep 0 none true (.capture 3
    (.seq (.atom (.lit '.')) (labelNode 4 .empty)))) .empty)

def rawNode : Node := litsThen ".raw".toList .empty

def rawEnd : Node := .seq (.rep 0 (some 1) true rawNode) (.seq (.atom (.at .lineEnd)) .empty)

def endNode : Node := litsThen ".log".toList rawEnd

def fileNameNode : Node :=
  litsThen "var.log.containers.".toList (.seq (.capture 1 podNode) (litsThen ['_']
    (capturedRun 5 (.cls true [.one '_']) (litsThen ['_']
      (capturedRun 6 .dot (litsThen ['-'] (capturedRun 7 idAtom endNode)))))))

def fileNameRegex : Regex.Pattern where
  node := fileNameNode
  groups := 7
  names := [("docker_id".toList, 7), ("container_name".toList, 6), ("namespace".toList, 5),
    ("pod_name".toList, 1)]
  flags := Dialect.ruby.flags

theorem compile_fileName : compile .ruby fileNamePattern = some fileNameRegex := by
  decide +kernel

section Atoms

variable {fl : Flags}

theorem idAtom_run (hfl : fl.ignoreCase = false) (s : State) :
    (Node.atom idAtom).run fl s = s.eat isIdChar := by
  apply cls_run hfl
  intro c
  simp [ClassItem.holds, isIdChar]

theorem labelAtom_run (hfl : fl.ignoreCase = false) (s : State) :
    (Node.atom labelAtom).run fl s = s.eat isLabelChar := by
  apply cls_run hfl
  intro c
  simp only [ClassItem.holds, isLabelChar, List.any_cons, List.any_nil, Bool.or_false]
  rw [Bool.or_comm]

theorem isLabelChar_of_id {c : Char} (h : isIdChar c = true) : isLabelChar c = true := by
  rw [isLabelChar, isIdChar] at *
  rw [h, Bool.true_or]

theorem isPodChar_of_label {c : Char} (h : isLabelChar c = true) : isPodChar c = true := by
  rw [isPodChar, h, Bool.true_or]

end Atoms

section Labels

variable {fl : Flags}

theorem isDnsLabel_cases {l : Text} (h : isDnsLabel l = true) :
    ∃ x, isIdChar x = true ∧ (l = [x] ∨ ∃ (m : Text) (y : Char), l = x :: (m ++ [y]) ∧
      m.all isLabelChar = true ∧ isIdChar y = true) := by
  rw [isDnsLabel, Bool.and_eq_true, Bool.and_eq_true] at h
  obtain ⟨⟨hall, hhead⟩, hlast⟩ := h
  cases l with
  | nil => contradiction
  | cons x s =>
    refine ⟨x, hhead, ?_⟩
    rcases List.eq_nil_or_concat s with rfl | ⟨m, y, rfl⟩
    · exact .inl rfl
    · rw [List.getLast?_cons, List.concat_eq_append, List.getLast?_concat] at hlast
      rw [List.all_cons, List.concat_eq_append, List.all_append, Bool.and_eq_true,
        Bool.and_eq_true] at hall
      exact .inr ⟨m, y, by rw [List.concat_eq_append], hall.2.1, hlast⟩

theorem takes_labelNode (hfl : fl.ignoreCase = false) {l s : Text} (hl : isDnsLabel l = true)
    (i : Nat) {next : Node} (hnext : next.Takes fl s) : (labelNode i next).Takes fl (l ++ s) := by
  obtain ⟨x, hx, rfl | ⟨m, y, rfl, hm, hy⟩⟩ := isDnsLabel_cases hl
  · apply takes_seq (takes_char (idAtom_run hfl) hx)
    exact takes_seq (u := []) (takes_rep_zero _ _ _) hnext
  · rw [List.cons_append]
    apply takes_seq (takes_char (idAtom_run hfl) hx)
    apply takes_seq _ hnext
    have hend : (m ++ [y]) = [m ++ [y]].flatten := by simp
    rw [hend]
    apply takes_rep
    · intro u hu
      rw [List.mem_singleton.mp hu]
      refine ⟨by simp, takes_capture i ?_⟩
      apply takes_seq (takes_all (labelAtom_run hfl) hm)
      exact takes_seq (takes_char (idAtom_run hfl) hy) takes_empty
    · exact Nat.zero_le _
    · intro h hone
      rw [← Option.some.inj hone]
      exact Nat.le_refl 1

theorem takes_lit (x : Char) : (Node.atom (.lit x)).Takes fl [x] := by
  apply takes_char (p := sameChar fl x) (fun _ => rfl)
  simp [sameChar]

theorem takes_podNode (hfl : fl.ignoreCase = false) {pod : Text} (h : IsSubdomain pod) :
    podNode.Takes fl pod := by
  obtain ⟨first, others, rfl, hfirst, hothers⟩ := h
  apply takes_labelNode hfl hfirst
  have hflat : others.flatMap ('.' :: ·) = (others.map ('.' :: ·)).flatten ++ [] := by
    rw [List.append_nil]
    rfl
  rw [hflat]
  apply takes_seq _ takes_empty
  apply takes_rep
  · intro u hu
    obtain ⟨l, hl, rfl⟩ := List.mem_map.mp hu
    refine ⟨List.cons_ne_nil '.' l, takes_capture 3 ?_⟩
    apply takes_seq (takes_lit '.')
    rw [← List.append_nil l]
    exact takes_labelNode hfl (hothers l hl) 4 takes_empty
  · exact Nat.zero_le _
  · intro h hnone
    contradiction

theorem isDnsLabel_all {l : Text} (h : isDnsLabel l = true) : l.all isLabelChar = true := by
  rw [isDnsLabel, Bool.and_eq_true, Bool.and_eq_true] at h
  exact h.1.1

theorem IsSubdomain.all {pod : Text} (h : IsSubdomain pod) : pod.all isPodChar = true := by
  obtain ⟨first, others, rfl, hfirst, hothers⟩ := h
  have hlabel : ∀ l, isDnsLabel l = true → ∀ c ∈ l, isPodChar c = true := by
    intro l hl c hc
    exact isPodChar_of_label (List.all_eq_true.mp (isDnsLabel_all hl) c hc)
  apply List.all_eq_true.mpr
  intro c hc
  rcases List.mem_append.mp hc with hc | hc
  · exact hlabel first hfirst c hc
  · obtain ⟨l, hl, hc⟩ := List.mem_flatMap.mp hc
    rcases List.mem_cons.mp hc with rfl | hc
    · rfl
    · exact hlabel l (hothers l hl) c hc

end Labels

section Reading

variable {fl : Flags}

theorem idAtom_over : (Node.atom idAtom).over isPodChar := by
  intro c hc
  apply isPodChar_of_label
  apply isLabelChar_of_id
  have hid : isIdChar c = true := by
    rw [← hc]
    simp [classHolds, ClassItem.holds, isIdChar]
  exact hid

theorem labelAtom_over : (Node.atom labelAtom).over isPodChar := by
  intro c hc
  apply isPodChar_of_label
  have hlabel : isLabelChar c = true := by
    rw [← hc]
    simp only [classHolds, ClassItem.holds, isLabelChar, List.any_cons, List.any_nil,
      Bool.or_false, Bool.false_and, Bool.false_xor]
    rw [Bool.or_comm]
  exact hlabel

theorem labelNode_over {i : Nat} {next : Node} (h : next.over isPodChar) :
    (labelNode i next).over isPodChar :=
  ⟨idAtom_over, ⟨labelAtom_over, idAtom_over, trivial⟩, h⟩

theorem podNode_over : podNode.over isPodChar :=
  labelNode_over ⟨⟨rfl, labelNode_over trivial⟩, trivial⟩

def isEndChar (c : Char) : Bool := ".log.raw".toList.contains c

theorem endNode_reads (hfl : fl.literal) {past rest : Text} {c : Captures} {t : State}
    (ht : t ∈ endNode.run fl ⟨⟨past, rest⟩, c⟩) (hline : '\n' ∉ rest) :
    t.captures = c ∧ rest.all isEndChar = true ∧ rest.head? = some '.' := by
  obtain ⟨v, rfl, hv⟩ := (mem_litsThen hfl.1).mp ht
  obtain ⟨r, hr, hlast⟩ := List.mem_flatMap.mp hv
  obtain ⟨s, hs, hempty⟩ := List.mem_flatMap.mp hlast
  obtain rfl := List.mem_singleton.mp hempty
  have hbody : ∀ s t, t ∈ rawNode.run fl s → t.captures = s.captures := by
    rintro ⟨⟨before, after⟩, captures⟩ t ht
    obtain ⟨v, -, hv⟩ := (mem_litsThen hfl.1).mp ht
    rw [List.mem_singleton.mp hv]
  have hcaptures : r.captures = c :=
    iterate_induction (R := fun s t => t.captures = s.captures) (fun _ => rfl)
      (fun _ _ _ h h' => h'.trans h) hbody _ _ _ _ _ _ hr
  have hover : (Node.rep 0 (some 1) true rawNode).over isEndChar :=
    ⟨rfl, rfl, rfl, rfl, trivial⟩
  obtain ⟨u, hu, hall⟩ := Node.run_reads hfl hover hr
  change v = u ++ r.cursor.rest at hu
  change t ∈ (if Anchor.lineEnd.holds fl r.cursor then [r] else []) at hs
  split at hs
  · rename_i hend
    obtain rfl := List.mem_singleton.mp hs
    have hbreak : '\n' ∉ t.cursor.rest := by
      intro hmem
      apply hline
      rw [hu]
      exact List.mem_append_right _ (List.mem_append_right _ hmem)
    have hnil : t.cursor.rest = [] := by
      simp only [Anchor.holds, Bool.or_eq_true, Bool.and_eq_true, decide_eq_true_eq] at hend
      rcases hend with (hend | hend) | hend
      · exact hend
      · rw [hend] at hbreak
        exact absurd List.mem_cons_self hbreak
      · exact absurd (List.mem_of_mem_head? hend.2) hbreak
    rw [hnil, List.append_nil] at hu
    refine ⟨hcaptures, ?_, rfl⟩
    rw [List.all_append, hu, hall]
    rfl
  · exact absurd hs List.not_mem_nil

structure Reads (rest : Text) (t : State) (pod ns name id suffix : Text) : Prop where
  text : rest = "var.log.containers.".toList ++
    (pod ++ '_' :: (ns ++ '_' :: (name ++ '-' :: (id ++ suffix))))
  pod : pod.all isPodChar = true ∧ t.captures 1 = some pod
  ns : '_' ∉ ns ∧ t.captures 5 = some ns
  name : t.captures 6 = some name
  id : id.all isIdChar = true ∧ t.captures 7 = some id
  suffix : suffix.all isEndChar = true ∧ suffix.head? = some '.'

theorem fileNameNode_reads (hfl : fl.literal) {past rest : Text} {c : Captures} {t : State}
    (ht : t ∈ fileNameNode.run fl ⟨⟨past, rest⟩, c⟩) (hline : '\n' ∉ rest) :
    ∃ pod ns name id suffix, Reads rest t pod ns name id suffix := by
  obtain ⟨v₁, rfl, h₁⟩ := (mem_litsThen hfl.1).mp ht
  obtain ⟨pod, v₂, past₂, c₂, rfl, hpod, h₂⟩ := mem_captured hfl podNode_over h₁
  obtain ⟨v₃, rfl, h₃⟩ := (mem_litsThen hfl.1).mp h₂
  obtain ⟨ns, v₄, rfl, -, hns, h₄⟩ := (mem_capturedRun (other_run hfl.1 '_')).mp h₃
  obtain ⟨v₅, rfl, h₅⟩ := (mem_litsThen hfl.1).mp h₄
  obtain ⟨name, v₆, rfl, -, -, h₆⟩ := (mem_capturedRun (dot_run fl)).mp h₅
  obtain ⟨v₇, rfl, h₇⟩ := (mem_litsThen hfl.1).mp h₆
  obtain ⟨id, suffix, rfl, -, hid, h₈⟩ := (mem_capturedRun (idAtom_run hfl.1)).mp h₇
  have hsuffix : '\n' ∉ suffix := by
    intro hmem
    apply hline
    iterate 8 apply List.mem_append_right
    exact hmem
  obtain ⟨hcaptures, hall, hhead⟩ := endNode_reads hfl h₈ hsuffix
  refine ⟨pod, ns, name, id, suffix, rfl, ⟨hpod, ?_⟩, ⟨?_, ?_⟩, ?_, ⟨hid, ?_⟩, hall, hhead⟩
  · rw [hcaptures]
    rfl
  · exact not_mem_of_all hns (by decide)
  · rw [hcaptures]
    rfl
  · rw [hcaptures]
    rfl
  · rw [hcaptures]
    rfl

theorem split_last {x : Char} {a s u r : Text} (hs : x ∉ s) (hr : x ∉ r)
    (h : a ++ x :: s = u ++ x :: r) : a = u ∧ s = r := by
  have hreverse := congrArg List.reverse h
  simp only [List.reverse_append, List.reverse_cons, List.append_assoc, List.singleton_append]
    at hreverse
  obtain ⟨hlast, hfirst⟩ := Text.split_unique (mt List.mem_reverse.mp hs) (mt List.mem_reverse.mp hr)
    hreverse
  exact ⟨List.reverse_inj.mp hfirst, List.reverse_inj.mp hlast⟩

theorem not_dash_end {id suffix : Text} (hid : id.all isIdChar = true)
    (hsuffix : suffix.all isEndChar = true) : '-' ∉ id ++ suffix := by
  rw [List.mem_append, not_or]
  exact ⟨not_mem_of_all hid (by decide), not_mem_of_all hsuffix (by decide)⟩

theorem logEnd_all (raw : Bool) : (logEnd raw).all isEndChar = true := by
  cases raw <;> rfl

theorem Reads.unique {c : PodContainer} {raw : Bool} {t : State} {pod ns name id suffix : Text}
    (h : Reads ("var.log.containers.".toList ++
      (c.pod ++ '_' :: (c.ns ++ '_' :: (c.name ++ '-' :: (c.id ++ logEnd raw))))) t
      pod ns name id suffix) :
    pod = c.pod ∧ ns = c.ns ∧ name = c.name ∧ id = c.id := by
  obtain ⟨hpod, hrest⟩ := Text.split_unique (not_mem_of_all c.pod_valid.all (by decide))
    (not_mem_of_all h.pod.1 (by decide)) (List.append_cancel_left h.text)
  obtain ⟨hns, hrest⟩ := Text.split_unique
    (not_mem_of_all (isDnsLabel_all c.ns_valid) (by decide)) h.ns.1 hrest
  obtain ⟨hname, hrest⟩ := split_last (not_dash_end c.id_valid (logEnd_all raw))
    (not_dash_end h.id.1 h.suffix.1) hrest
  refine ⟨hpod.symm, hns.symm, hname.symm, ?_⟩
  have hdot : ∃ e, logEnd raw = '.' :: e := by
    cases raw
    · exact ⟨_, rfl⟩
    · exact ⟨_, rfl⟩
  obtain ⟨e, he⟩ := hdot
  obtain ⟨s, hs⟩ := List.head?_eq_some_iff.mp h.suffix.2
  rw [he, hs] at hrest
  exact (Text.split_unique (not_mem_of_all c.id_valid (by decide))
    (not_mem_of_all h.id.1 (by decide)) hrest).1.symm

end Reading

section Finding

variable {fl : Flags}

theorem takes_rawNode : rawNode.Takes fl ".raw".toList := by
  rw [rawNode]
  exact takes_seq (takes_lit '.') (takes_seq (takes_lit 'r') (takes_seq (takes_lit 'a')
    (takes_seq (takes_lit 'w') takes_empty)))

theorem exists_endNode (hfl : fl.ignoreCase = false) (raw : Bool) (past : Text) (c : Captures) :
    ∃ t, t ∈ endNode.run fl ⟨⟨past, logEnd raw⟩, c⟩ := by
  have hlast (past : Text) (c : Captures) :
      ∃ t, t ∈ (Node.seq (.atom (.at .lineEnd)) .empty).run fl ⟨⟨past, []⟩, c⟩ :=
    ⟨⟨⟨past, []⟩, c⟩, List.mem_cons_self⟩
  have hopt : (Node.rep 0 (some 1) true rawNode).Takes fl ".raw".toList := by
    apply @takes_rep fl rawNode true 0 (some 1) [".raw".toList]
    · intro u hu
      rw [List.mem_singleton.mp hu]
      exact ⟨by decide, takes_rawNode⟩
    · exact Nat.zero_le 1
    · intro h hone
      rw [← Option.some.inj hone]
      exact Nat.le_refl 1
  have hraw (past : Text) (c : Captures) :
      ∃ t, t ∈ rawEnd.run fl ⟨⟨past, (logEnd raw).drop 4⟩, c⟩ := by
    cases raw with
    | true => exact exists_mem_seq hopt past c (hlast _)
    | false => exact exists_mem_seq (takes_rep_zero _ _ _) past c (hlast _)
  obtain ⟨t, ht⟩ := hraw (".log".toList.reverse ++ past) c
  refine ⟨t, (mem_litsThen hfl).mpr ⟨_, ?_, ht⟩⟩
  cases raw <;> rfl

theorem exists_fileNameNode (hfl : fl.literal) (c : PodContainer) (raw : Bool) (past : Text)
    (captures : Captures) :
    ∃ t, t ∈ fileNameNode.run fl ⟨⟨past, "var.log.containers.".toList ++
      (c.pod ++ '_' :: (c.ns ++ '_' :: (c.name ++ '-' :: (c.id ++ logEnd raw))))⟩, captures⟩ := by
  have hlabel {s : Text} (h : isDnsLabel s = true) : s ≠ [] := by
    rintro rfl
    contradiction
  have hdots : c.name.all (fun d => fl.dotAll || decide (d ≠ '\n')) = true := by
    apply List.all_eq_true.mpr
    intro d hd
    have hne : d ≠ '\n' := by
      rintro rfl
      exact not_mem_of_all (isDnsLabel_all c.name_valid) (by decide) hd
    simp [hne]
  have hns : c.ns.all (fun d => decide (d ≠ '_')) = true := by
    apply List.all_eq_true.mpr
    intro d hd
    rw [decide_eq_true_iff]
    rintro rfl
    exact not_mem_of_all (isDnsLabel_all c.ns_valid) (by decide) hd
  have hrest (past : Text) (captures : Captures) :
      ∃ t, t ∈ (litsThen ['_'] (capturedRun 5 (.cls true [.one '_']) (litsThen ['_']
        (capturedRun 6 .dot (litsThen ['-'] (capturedRun 7 idAtom endNode)))))).run fl
          ⟨⟨past, '_' :: (c.ns ++ '_' :: (c.name ++ '-' :: (c.id ++ logEnd raw)))⟩, captures⟩ := by
    obtain ⟨t, ht⟩ := exists_endNode hfl.1 raw _ _
    refine ⟨t, (mem_litsThen hfl.1).mpr ⟨_, rfl, ?_⟩⟩
    refine (mem_capturedRun (other_run hfl.1 '_')).mpr ⟨_, _, rfl, hlabel c.ns_valid, hns, ?_⟩
    refine (mem_litsThen hfl.1).mpr ⟨_, rfl, ?_⟩
    refine (mem_capturedRun (dot_run fl)).mpr ⟨_, _, rfl, hlabel c.name_valid, hdots, ?_⟩
    refine (mem_litsThen hfl.1).mpr ⟨_, rfl, ?_⟩
    exact (mem_capturedRun (idAtom_run hfl.1)).mpr ⟨_, _, rfl, c.id_ne, c.id_valid, ht⟩
  obtain ⟨t, ht⟩ := exists_mem_seq (takes_capture 1 (takes_podNode hfl.1 c.pod_valid))
    ("var.log.containers.".toList.reverse ++ past) captures (hrest _)
  exact ⟨t, (mem_litsThen hfl.1).mpr ⟨_, rfl, ht⟩⟩

theorem not_break_tag (c : PodContainer) (raw : Bool) :
    '\n' ∉ c.pod ++ '_' :: (c.ns ++ '_' :: (c.name ++ '-' :: (c.id ++ logEnd raw))) := by
  have hpod : '\n' ∉ c.pod := not_mem_of_all c.pod_valid.all (by decide)
  have hns : '\n' ∉ c.ns := not_mem_of_all (isDnsLabel_all c.ns_valid) (by decide)
  have hname : '\n' ∉ c.name := not_mem_of_all (isDnsLabel_all c.name_valid) (by decide)
  have hend : '\n' ∉ c.id ++ logEnd raw := by
    rw [List.mem_append, not_or]
    exact ⟨not_mem_of_all c.id_valid (by decide), not_mem_of_all (logEnd_all raw) (by decide)⟩
  exact Text.not_mem_split (by decide) hpod (Text.not_mem_split (by decide) hns
    (Text.not_mem_split (by decide) hname hend))

theorem matchFileName_tag (c : PodContainer) (raw : Bool) :
    ∃ md, matchFileName (c.tag raw) = some md ∧ md "pod_name".toList = some c.pod ∧
      md "namespace".toList = some c.ns ∧ md "container_name".toList = some c.name ∧
      md "docker_id".toList = some c.id := by
  have hfl : Dialect.ruby.flags.literal := ⟨rfl, rfl⟩
  have hline : '\n' ∉ "var.log.containers.".toList ++
      (c.pod ++ '_' :: (c.ns ++ '_' :: (c.name ++ '-' :: (c.id ++ logEnd raw)))) := by
    rw [List.mem_append, not_or]
    exact ⟨by decide, not_break_tag c raw⟩
  obtain ⟨t, ht⟩ := exists_fileNameNode hfl c raw "kubernetes.".toList.reverse fun _ => none
  obtain ⟨first, others, hrun⟩ := List.exists_cons_of_ne_nil (List.ne_nil_of_mem ht)
  obtain ⟨pod, ns, name, id, suffix, hreads⟩ :=
    fileNameNode_reads hfl (hrun ▸ List.mem_cons_self : first ∈ _) hline
  obtain ⟨rfl, rfl, rfl, rfl⟩ := hreads.unique
  have hsearch : fileNameRegex.search (c.tag raw) = some ⟨⟨"kubernetes.".toList.reverse,
      "var.log.containers.".toList ++
        (c.pod ++ '_' :: (c.ns ++ '_' :: (c.name ++ '-' :: (c.id ++ logEnd raw))))⟩, first⟩ := by
    apply Pattern.search_eq_some.mpr
    refine ⟨"kubernetes.".toList, _, rfl, ?_, ?_⟩
    · change (fileNameNode.run Dialect.ruby.flags _).head?.map _ = _
      rw [hrun]
      rfl
    · intro u v huv hv
      change (fileNameNode.run Dialect.ruby.flags _).head?.map _ = none
      rw [fileNameNode, litsThen_run_fails hfl.1]
      · rfl
      · rintro ⟨s, hs⟩
        obtain ⟨x, w, rfl⟩ := List.exists_cons_of_ne_nil hv
        obtain ⟨rfl, -⟩ := List.cons.inj hs
        have hmem : 'v' ∈ "kubernetes.".toList := by
          rw [huv]
          exact List.mem_append_right _ List.mem_cons_self
        exact absurd hmem (by decide)
  refine ⟨_, by rw [matchFileName, compile_fileName, Option.bind_some, hsearch, Option.map_some],
    hreads.pod.2, hreads.ns.2, hreads.name, hreads.id.2⟩

end Finding

theorem matchesTag_tag (c : PodContainer) (raw : Bool) :
    matchesTag "kubernetes.var.log.containers.**".toList (c.tag raw) = true := by
  have hparse : parse "kubernetes.var.log.containers.**".toList =
      [lits "kubernetes.var.log.containers".toList ++ [Item.partEnd, .many '\n']] := by
    decide +kernel
  rw [matchesTag, hparse, List.any_cons, List.any_nil, Bool.or_false, accepts_lits_append]
  refine ⟨'.' :: (c.pod ++ '_' :: (c.ns ++ '_' :: (c.name ++ '-' :: (c.id ++ logEnd raw)))),
    rfl, ?_⟩
  have hrest : '\n' ∉ '.' :: (c.pod ++ '_' :: (c.ns ++ '_' :: (c.name ++ '-' ::
      (c.id ++ logEnd raw)))) := by
    rw [List.mem_cons, not_or]
    exact ⟨by decide, not_break_tag c raw⟩
  change (true && accepts tagEnd [.many '\n'] true _) = true
  rw [Bool.true_and, accepts_many (b := false) rfl]
  exact ⟨_, [], (List.append_nil _).symm, hrest, rfl⟩

theorem computedName_tag (c : PodContainer) (raw : Bool) :
    computedName (c.tag raw) = some ("k8s_".toList ++ c.name ++ ".0_".toList ++ c.pod ++
      "_".toList ++ c.ns ++ "_0_01234567".toList) := by
  obtain ⟨md, hmd, hpod, hns, hname, -⟩ := matchFileName_tag c raw
  rw [computedName, hmd]
  simp only [Option.bind_eq_bind, Option.bind_some, hpod, hns, hname]
  rfl

theorem computedId_tag (c : PodContainer) (raw : Bool) : computedId (c.tag raw) = some c.id := by
  obtain ⟨md, hmd, -, -, -, hid⟩ := matchFileName_tag c raw
  rw [computedId, hmd]
  exact hid

theorem splitsAs_iff (c : PodContainer) {container pod ns : Text} :
    SplitsAs ("k8s_".toList ++ c.name ++ ".0_".toList ++ c.pod ++ "_".toList ++ c.ns ++
        "_0_01234567".toList) container pod ns ↔
      container = c.name ∧ pod = c.pod ∧ ns = c.ns := by
  have hname_ : '_' ∉ c.name := not_mem_of_all (isDnsLabel_all c.name_valid) (by decide)
  have hnameDot : '.' ∉ c.name := not_mem_of_all (isDnsLabel_all c.name_valid) (by decide)
  have hpod_ : '_' ∉ c.pod := not_mem_of_all c.pod_valid.all (by decide)
  have hns_ : '_' ∉ c.ns := not_mem_of_all (isDnsLabel_all c.ns_valid) (by decide)
  have htext : "k8s_".toList ++ c.name ++ ".0_".toList ++ c.pod ++ "_".toList ++ c.ns ++
      "_0_01234567".toList = "k8s_".toList ++ ((c.name ++ ['.', '0']) ++ '_' :: (c.pod ++ '_' ::
        (c.ns ++ '_' :: (['0'] ++ '_' :: "01234567".toList)))) := by
    simp
  constructor
  · rintro ⟨hash, uid, attempt, h, hdot, hparts⟩
    simp only [List.forall_mem_cons] at hparts
    obtain ⟨hcontainer, hhash, hpod, hns, -⟩ := hparts
    rw [htext] at h
    have hfirst : '_' ∉ container ++ '.' :: hash := Text.not_mem_split (by decide) hcontainer hhash
    have hown : '_' ∉ c.name ++ ['.', '0'] := Text.not_mem_split (by decide) hname_ (by decide)
    obtain ⟨hhead, h⟩ := Text.split_unique hown hfirst (List.append_cancel_left h)
    obtain ⟨hpod, h⟩ := Text.split_unique hpod_ hpod h
    obtain ⟨hns, -⟩ := Text.split_unique hns_ hns h
    exact ⟨(Text.split_unique hnameDot hdot hhead).1.symm, hpod.symm, hns.symm⟩
  · rintro ⟨rfl, rfl, rfl⟩
    refine ⟨['0'], ['0'], "01234567".toList, ?_, hnameDot, ?_⟩
    · exact htext
    · simp only [List.forall_mem_cons]
      exact ⟨hname_, by decide, hpod_, hns_, by decide, by decide, by simp⟩

theorem containerFilter_tag (c : PodContainer) (raw : Bool) {record : Fields}
    (hname : record.lookup "CONTAINER_NAME".toList = none)
    (hid : record.lookup "CONTAINER_ID_FULL".toList = none) :
    containerFilter (c.tag raw) record = some (merge record
      [("CONTAINER_NAME".toList, .str ("k8s_".toList ++ c.name ++ ".0_".toList ++ c.pod ++
        "_".toList ++ c.ns ++ "_0_01234567".toList)),
      ("CONTAINER_ID_FULL".toList, .str c.id)]) := by
  rw [containerFilter, if_pos (matchesTag_tag c raw), hname, hid, computedName_tag, computedId_tag]
  rfl

/-- A record without the two fields gets the identity of the container that its tag names. -/
theorem containerFilter_identity (c : PodContainer) (raw : Bool) {record : Fields}
    (hname : record.lookup "CONTAINER_NAME".toList = none)
    (hid : record.lookup "CONTAINER_ID_FULL".toList = none) :
    ∃ record' name, containerFilter (c.tag raw) record = some record' ∧
      record'.lookup "CONTAINER_ID_FULL".toList = some (.str c.id) ∧
      record'.lookup "CONTAINER_NAME".toList = some (.str name) ∧
      ∀ container pod ns, SplitsAs name container pod ns ↔
        container = c.name ∧ pod = c.pod ∧ ns = c.ns := by
  refine ⟨_, _, containerFilter_tag c raw hname hid, ?_, ?_, fun _ _ _ => splitsAs_iff c⟩
  · rw [lookup_merge]
    rfl
  · rw [lookup_merge]
    rfl

def esContainer : PodContainer where
  pod := "logging-es.ops-1-x2f4k".toList
  ns := "logging".toList
  name := "elastic-search".toList
  id := "da531d7cea12".toList
  pod_valid := ⟨"logging-es".toList, ["ops-1-x2f4k".toList], rfl, by decide, by decide⟩
  ns_valid := Eq.refl true
  name_valid := Eq.refl true
  id_ne := List.cons_ne_nil _ _
  id_valid := Eq.refl true

theorem containerFilter_identity_es :
    ∃ record' name, containerFilter (esContainer.tag true) [("log".toList, .str "up".toList)] =
        some record' ∧
      record'.lookup "CONTAINER_ID_FULL".toList = some (.str esContainer.id) ∧
      record'.lookup "CONTAINER_NAME".toList = some (.str name) ∧
      ∀ container pod ns, SplitsAs name container pod ns ↔
        container = esContainer.name ∧ pod = esContainer.pod ∧ ns = esContainer.ns :=
  containerFilter_identity esContainer true rfl rfl

end AggregatedLogging.Fluentd
