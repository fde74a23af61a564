import AggregatedLogging.Throttle.ProjectPattern
import AggregatedLogging.Regex.Deletion

/-! The lines of a position file. -/
namespace AggregatedLogging.Throttle

open Regex Fluentd

def containersDir : Text := "/var/log/containers/".toList

/-- The log of a container, as the kubelet names it.  Names of pods begin with
a letter or a digit. -/
structure LogFile where
  pod : Text
  ns : Text
  container : Text
  id : Text
  pod_valid : isPodName pod = true
  pod_head : pod.head?.all isLabelChar = true
  ns_valid : isLabel ns = true
  container_valid : isLabel container = true
  id_valid : isLabel id = true

namespace LogFile

def containerId (f : LogFile) : Text := f.container ++ '-' :: f.id

def name (f : LogFile) : Text := f.pod ++ '_' :: (f.ns ++ '_' :: (f.containerId ++ logSuffix))

def path (f : LogFile) : Text := containersDir ++ f.name

theorem not_mem_parts (f : LogFile) {x : Char} (hx : isPodChar x = false) :
    x ∉ f.pod ∧ x ∉ f.ns ∧ x ∉ f.containerId := by
  have hlabel : isLabelChar x = false := by
    rw [isPodChar, Bool.or_eq_false_iff] at hx
    exact hx.1
  have hdash : x ≠ '-' := by
    rintro rfl
    contradiction
  exact ⟨not_mem_podName f.pod_valid hx, not_mem_label f.ns_valid hlabel,
    Text.not_mem_split hdash (not_mem_label f.container_valid hlabel)
      (not_mem_label f.id_valid hlabel)⟩

theorem not_mem_name (f : LogFile) {x : Char} (hx : isPodChar x = false) (hbar : x ≠ '_')
    (hsuffix : x ∉ logSuffix) : x ∉ f.name := by
  obtain ⟨hpod, hns, hid⟩ := f.not_mem_parts hx
  have hback : x ∉ f.containerId ++ logSuffix := by
    rw [List.mem_append, not_or]
    exact ⟨hid, hsuffix⟩
  exact Text.not_mem_split hbar hpod (Text.not_mem_split hbar hns hback)

theorem not_mem_path (f : LogFile) {x : Char} (hx : isPodChar x = false) (hbar : x ≠ '_')
    (hsuffix : x ∉ logSuffix) (hdir : x ∉ containersDir) : x ∉ f.path := by
  rw [path, List.mem_append, not_or]
  exact ⟨hdir, f.not_mem_name hx hbar hsuffix⟩

/-- The suffix marks the end of a name, so no name begins another one. -/
theorem name_of_begins {f g : LogFile} (h : f.name <+: g.name) : f.name = g.name := by
  obtain ⟨t, ht⟩ := h
  obtain ⟨hpod, hns, -⟩ := f.not_mem_parts (x := '_') (by decide)
  obtain ⟨hpod', hns', -⟩ := g.not_mem_parts (x := '_') (by decide)
  have hdot (f : LogFile) : '.' ∉ f.containerId :=
    Text.not_mem_split (by decide) (not_mem_label f.container_valid (by decide))
      (not_mem_label f.id_valid (by decide))
  simp only [name, List.append_assoc, List.cons_append] at ht ⊢
  obtain ⟨hpods, ht⟩ := Text.split_unique hpod hpod' ht
  obtain ⟨hnss, ht⟩ := Text.split_unique hns hns' ht
  have hids : f.containerId = g.containerId := (Text.split_unique (hdot f) (hdot g) ht).1
  rw [hpods, hnss, hids]

theorem path_of_begins {f g : LogFile} (h : f.path <+: g.path) : f.path = g.path := by
  rw [path, path, List.prefix_append_right_inj] at h
  rw [path, path, name_of_begins h]

theorem ns_of_path {f g : LogFile} (h : f.path = g.path) : f.ns = g.ns := by
  obtain ⟨hpod, hns, -⟩ := f.not_mem_parts (x := '_') (by decide)
  obtain ⟨hpod', hns', -⟩ := g.not_mem_parts (x := '_') (by decide)
  have hname : f.name = g.name := List.append_cancel_left h
  exact (Text.split_unique hns hns' (Text.split_unique hpod hpod' hname).2).1

end LogFile

def isHexDigit (c : Char) : Bool := c.isDigit || ('a' ≤ c && c ≤ 'f')

structure Entry where
  file : LogFile
  pos : Text
  inode : Text
  pos_valid : pos.all isHexDigit = true
  inode_valid : inode.all isHexDigit = true

namespace Entry

def path (e : Entry) : Text := e.file.path

def ns (e : Entry) : Text := e.file.ns

def tail (e : Entry) : Text := e.pos ++ '\t' :: (e.inode ++ ['\n'])

def line (e : Entry) : Text := e.path ++ '\t' :: e.tail

theorem not_mem_hex {s : Text} (h : s.all isHexDigit = true) {x : Char}
    (hx : isHexDigit x = false) : x ∉ s := not_mem_of_all h hx

theorem not_mem_tail (e : Entry) {x : Char} (hx : isHexDigit x = false) (htab : x ≠ '\t')
    (hbreak : x ≠ '\n') : x ∉ e.tail := by
  refine Text.not_mem_split htab (not_mem_hex e.pos_valid hx) ?_
  rw [List.mem_append, List.mem_singleton, not_or]
  exact ⟨not_mem_hex e.inode_valid hx, hbreak⟩

theorem line_isLine (e : Entry) : Text.isLine e.line := by
  refine ⟨e.path ++ '\t' :: (e.pos ++ '\t' :: e.inode), ?_, by simp [line, tail]⟩
  have hpath : '\n' ∉ e.path :=
    e.file.not_mem_path (by decide) (by decide) (by decide) (by decide)
  have hpos : '\n' ∉ e.pos := not_mem_hex e.pos_valid (by decide)
  have hinode : '\n' ∉ e.inode := not_mem_hex e.inode_valid (by decide)
  exact Text.not_mem_split (by decide) hpath (Text.not_mem_split (by decide) hpos hinode)

theorem path_begins_line {e : Entry} {f : LogFile} : f.path <+: e.line ↔ e.path = f.path := by
  have htab : '\t' ∉ f.path := f.not_mem_path (by decide) (by decide) (by decide) (by decide)
  rw [line, Text.begins_field htab]
  constructor
  · intro h
    exact (LogFile.path_of_begins h).symm
  · intro h
    exact ⟨[], by rw [List.append_nil, h]⟩

theorem count_line (e : Entry) : e.line.count '/' = 4 := by
  have hname : '/' ∉ e.file.name := e.file.not_mem_name (by decide) (by decide) (by decide)
  have htail : '/' ∉ e.tail := e.not_mem_tail (by decide) (by decide) (by decide)
  simp only [line, path, LogFile.path, List.count_append, List.count_cons]
  rw [List.count_eq_zero.mpr hname, List.count_eq_zero.mpr htail]
  decide

theorem count_path (f : LogFile) : f.path.count '/' = 4 := by
  have hname : '/' ∉ f.name := f.not_mem_name (by decide) (by decide) (by decide)
  rw [LogFile.path, List.count_append, List.count_eq_zero.mpr hname]
  decide

/-- A path has as many slashes as the line of another one, so it does not begin
inside of it. -/
theorem not_path_inside {e : Entry} {f : LogFile} {v : Text} (hv : v <:+ e.line)
    (hne : v ≠ e.line) : ¬ f.path <+: v := by
  intro hpath
  obtain ⟨u, hu⟩ := hv
  cases u with
  | nil => exact hne hu
  | cons c u =>
    have hc : c = '/' := by
      have hhead := congrArg List.head? hu
      rw [line, path, LogFile.path] at hhead
      exact Option.some.inj hhead
    have hcount := congrArg (List.count '/') hu
    rw [e.count_line, hc, List.cons_append, List.count_cons_self, List.count_append] at hcount
    have hle : f.path.count '/' ≤ v.count '/' := hpath.sublist.count_le '/'
    rw [count_path] at hle
    omega

theorem leadsOnly (f : LogFile) (es : List Entry) : LeadsOnly f.path (es.map line) := by
  intro l hl
  obtain ⟨e, -, rfl⟩ := List.mem_map.mp hl
  exact ⟨e.line_isLine, fun v hv hne => not_path_inside hv hne⟩

theorem line_split (e : Entry) : e.line = (containersDir ++ e.file.pod) ++ '_' :: (e.file.ns ++
    '_' :: (e.file.containerId ++ '.' :: 'l' :: 'o' :: 'g' :: '\t' :: e.tail)) := by
  simp [line, path, LogFile.path, LogFile.name, logSuffix]

theorem line_found {project : Text} (hp : '.' ∉ project) (e : Entry) :
    (projectRegex project).found e.line = true ↔ e.ns = project := by
  obtain ⟨hpod, hns, hid⟩ := e.file.not_mem_parts (x := '_') (by decide)
  have hfront : '_' ∉ containersDir ++ e.file.pod := by
    rw [List.mem_append, not_or]
    exact ⟨by decide, hpod⟩
  have htail : '_' ∉ e.tail := e.not_mem_tail (by decide) (by decide) (by decide)
  have hback : '_' ∉ e.file.containerId ++ '.' :: 'l' :: 'o' :: 'g' :: '\t' :: e.tail := by
    simp only [List.mem_append, List.mem_cons, not_or]
    exact ⟨hid, by decide, by decide, by decide, by decide, by decide, htail⟩
  rw [projectRegex_found hp]
  constructor
  · rintro ⟨u, v, d, w, hsplit, -, -⟩
    have := (Glob.enclosed_two (P := fun n => n = project) hfront hns hback).mp
      ⟨u, project, _, e.line_split.symm.trans hsplit, rfl⟩
    exact this
  · rintro rfl
    refine ⟨containersDir ++ e.file.pod, e.file.containerId, '.', '\t' :: e.tail, e.line_split, ?_,
      by decide⟩
    exact (e.file.not_mem_parts (x := '\n') (by decide)).2.2

end Entry

end AggregatedLogging.Throttle
