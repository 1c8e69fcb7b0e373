import Mathlib.Data.List.Forall2
import ScriptFront.Proofs.Batch.Schedule

/-!
# What a Batch Shows

A result of a batch is the **composition** of what its sources come to alone (`Batch.Composes`) if
it shows, in their order, exactly what they show, and fails if and only if one of them does. There
is no more than one composition (`Batch.Composes.unique`).

This depends only on what the reports on the sources say, and not on how long the jobs took, as long
as nobody wants to know (`Batch.composes_of_tells`).
-/

namespace ScriptFront

open Text

/-! ### Reports as they are shown -/

namespace ParseReport

variable {verbose : Bool} {reports : List ParseReport}

/-- One of several reports: its header, and what it shows. -/
def block (verbose : Bool) (r : ParseReport) : Bytes :=
  r.header.out ++ (r.output verbose).out

/-- **What is shown** of several reports: their blocks, with an empty line between any two. -/
theorem out_sections :
    (sections verbose reports).out = join [byte '\n'] (reports.map (block verbose)) := by
  fun_induction sections verbose reports with
  | case1 => rfl
  | case2 r => exact (List.append_nil _).symm
  | case3 r rest hrest ih =>
      obtain ⟨r', rest, rfl⟩ := List.exists_cons_of_ne_nil hrest
      rw [join, List.map_cons, List.map_cons, List.intercalate_cons_cons, ← List.map_cons, ← join,
        ← ih]
      simp [block]

/-- **What is complained about** of several reports, one after the other. -/
theorem err_sections :
    (sections verbose reports).err = reports.flatMap fun r => (r.output verbose).err := by
  fun_induction sections verbose reports with
  | case1 => rfl
  | case2 r => simp [header]
  | case3 r rest _ ih => simp [header, ih]

/-- Several reports are shown in **blocks, with an empty line between neighbours**. -/
theorem out_shown (h : reports.length ≠ 1) :
    (shown verbose reports).out = join [byte '\n'] (reports.map (block verbose)) := by
  unfold shown
  split
  · contradiction
  · exact out_sections

/-- Nothing else is complained about, whether there is one report or several. -/
theorem err_shown :
    (shown verbose reports).err = reports.flatMap fun r => (r.output verbose).err := by
  unfold shown
  split
  · simp
  · exact err_sections

end ParseReport

/-- **The summary** counts the reports that failed, if there are any. -/
theorem ParseJob.summary?_eq {reports : List ParseReport} :
    summary? reports = if reports.countP ParseReport.isFailed = 0 then none else
      some (.within (decimal (reports.countP ParseReport.isFailed) ++ utf8 " of "
        ++ decimal reports.length ++ utf8 " inputs failed") .reported) := by
  rw [summary?]
  split <;> simp_all

namespace Batch

/-! ### The composition -/

/-- A source as one of several: a line with its name, and what it shows alone. -/
def block (b : Batch) (path : Bytes) : Bytes :=
  Output.line (utf8 "==> " ++ Source.title path ++ utf8 " <==") ++ (b.alone path).1.out

/-- Does the source fail alone? -/
def isFailing (b : Batch) (path : Bytes) : Bool :=
  (b.alone path).2.isSome

/-- The result is the **composition, in their order, of what the sources come to alone**. -/
structure Composes (b : Batch) (result : Output × Option Failure) : Prop where
  /-- Several sources are shown each under its header, with an empty line between neighbours. -/
  out : b.paths.length ≠ 1 → result.1.out = join [byte '\n'] (b.paths.map b.block)
  /-- One source is shown as it is. -/
  out_alone : ∀ path, b.paths = [path] → result.1.out = (b.alone path).1.out
  err : result.1.err = b.paths.flatMap fun path => (b.alone path).1.err
  /-- There is no failure exactly if no source fails. -/
  success : result.2 = none ↔ ∀ path ∈ b.paths, (b.alone path).2 = none
  /-- Otherwise everything has been reported, and the failure tells how many sources failed. -/
  failure : ∀ cause, result.2 = some cause → cause = .within (decimal (b.paths.countP b.isFailing)
    ++ utf8 " of " ++ decimal b.paths.length ++ utf8 " inputs failed") .reported
  /-- The tool has no last words, and its exit code tells whether a source failed. -/
  exit : (Ending.ofFailure? result.2).exit = (if b.paths.any b.isFailing then 1 else 0, {})

/-- There is **one composition** only. -/
theorem Composes.unique {b : Batch} {result other : Output × Option Failure}
    (h : b.Composes result) (hother : b.Composes other) : result = other := by
  have hout : result.1.out = other.1.out := by
    by_cases hone : b.paths.length = 1
    · obtain ⟨path, hpath⟩ := List.length_eq_one_iff.mp hone
      rw [h.out_alone path hpath, hother.out_alone path hpath]
    · rw [h.out hone, hother.out hone]
  have herr : result.1.err = other.1.err := h.err.trans hother.err.symm
  have hfailure : result.2 = other.2 := by
    have hnone := h.success.trans hother.success.symm
    rcases hcause : result.2 with _ | cause <;> rcases hcause' : other.2 with _ | cause'
    · rfl
    · rw [hnone.mp hcause] at hcause'
      cases hcause'
    · rw [hnone.mpr hcause'] at hcause
      cases hcause
    · rw [h.failure cause hcause, hother.failure cause' hcause']
  exact Prod.ext (Output.ext hout herr) hfailure

/-- Does the report say of a source what the report on the source alone says? Only the time that the
job took may be another. -/
structure Tells (b : Batch) (path : Bytes) (r : ParseReport) : Prop where
  name : r.name = Source.title path
  result : r.result = (b.report path).result

variable {b : Batch} {path : Bytes} {paths : List Bytes} {r : ParseReport}
  {reports : List ParseReport}

/-- Every report tells of its own source. -/
theorem tells_map_report : List.Forall₂ b.Tells paths (paths.map b.report) :=
  List.forall₂_map_right_iff.mpr (List.forall₂_same.mpr fun _ _ => ⟨rfl, rfl⟩)

/-- A report that tells of a source has failed if the source's own has. -/
theorem Tells.isFailed_eq (h : b.Tells path r) : r.isFailed = (b.report path).isFailed := by
  rw [ParseReport.isFailed, ParseReport.isFailed, h.result]

/-- A report that tells of a source shows what the source's own shows, as long as times are not
shown. -/
theorem Tells.output_eq (h : b.Tells path r) : r.output false = (b.report path).output false := by
  rw [ParseReport.output, ParseReport.output, h.result]
  rfl

/-- What a source comes to alone depends on **nothing but its own text**. -/
theorem alone_congr {readFile : Bytes → Except ReadFault Bytes} {paths : List Bytes}
    (hlive : b.surroundings.isCancelled = false) (hcomplete : b.Complete)
    (hread : readFile path = b.readFile path) :
    alone { b with readFile, paths } path = b.alone path := by
  have htext : text { b with readFile, paths } path = b.text path := by
    by_cases hpath : path = Source.standardInput
    · subst hpath
      rfl
    · simp only [text, Source.read, if_neg hpath, host, Surroundings.sharedHost, hread]
  have hother := alone_eq (b := { b with readFile, paths }) hlive hcomplete path
  rw [hother, alone_eq hlive hcomplete, report, report, htext]
  rfl

/-- Reports that tell the same are mapped to the same. -/
theorem map_of_tells {α : Type} {f : ParseReport → α} {g : Bytes → α}
    (hf : ∀ {path r}, b.Tells path r → f r = g path)
    (h : List.Forall₂ b.Tells paths reports) : reports.map f = paths.map g := by
  induction h with
  | nil => rfl
  | cons htells _ ih => rw [List.map_cons, List.map_cons, hf htells, ih]

section Quiet

variable (hlive : b.surroundings.isCancelled = false) (hcomplete : b.Complete)
include hlive hcomplete

/-- A report that tells of a source has failed if the source fails when it is parsed alone. -/
theorem Tells.isFailed_eq_isFailing (h : b.Tells path r) : r.isFailed = b.isFailing path := by
  rw [isFailing, alone_eq hlive hcomplete, ParseJob.summary?_eq, h.isFailed_eq,
    List.countP_singleton]
  cases (b.report path).isFailed <;> rfl

/-- **As many reports have failed** as there are sources that fail alone. -/
theorem countP_of_tells (h : List.Forall₂ b.Tells paths reports) :
    reports.countP ParseReport.isFailed = paths.countP b.isFailing := by
  induction h with
  | nil => rfl
  | cons htells _ ih =>
      rw [List.countP_cons, List.countP_cons, ih, htells.isFailed_eq_isFailing hlive hcomplete]

variable (hquiet : b.job.verbose = false)
include hquiet

/-- A report that tells of a source shows what is shown when the source is parsed **alone**. -/
theorem Tells.output_eq_alone (h : b.Tells path r) : r.output false = (b.alone path).1 := by
  rw [alone_eq hlive hcomplete, hquiet, h.output_eq]

/-- The block of a report is the one that its source has alone, with the same header. -/
theorem Tells.block_eq (h : b.Tells path r) : r.block false = b.block path := by
  rw [ParseReport.block, h.output_eq_alone hlive hcomplete hquiet, ParseReport.header, h.name]
  rfl

/-- **Reports that tell what the sources have alone** make up the composition. -/
theorem composes_of_tells (h : List.Forall₂ b.Tells b.paths reports) :
    b.Composes (ParseReport.shown b.job.verbose reports, ParseJob.summary? reports) := by
  have hlength : b.paths.length = reports.length := h.length_eq
  have houtput := fun {path r} (h : b.Tells path r) => h.output_eq_alone hlive hcomplete hquiet
  have hcount := countP_of_tells hlive hcomplete h
  have hzero : b.paths.countP b.isFailing = 0 ↔ ∀ path ∈ b.paths, (b.alone path).2 = none := by
    simp [List.countP_eq_zero, isFailing]
  have hsummary : ParseJob.summary? reports = _ := ParseJob.summary?_eq
  rw [hcount, ← hlength] at hsummary
  rw [hquiet]
  constructor
  · intro hmany
    rw [ParseReport.out_shown (hlength ▸ hmany),
      map_of_tells (fun h => h.block_eq hlive hcomplete hquiet) h]
  · intro path hpath
    rw [hpath] at h
    obtain ⟨r, _, htells, hnil, rfl⟩ := List.forall₂_cons_left_iff.mp h
    rw [List.forall₂_nil_left_iff.mp hnil, ParseReport.shown, houtput htells]
  · rw [ParseReport.err_shown, List.flatMap_def,
      map_of_tells (fun h => congrArg Output.err (houtput h)) h]
    rfl
  · rw [hsummary, ← hzero]
    split <;> simp_all
  · intro cause hcause
    rw [hsummary] at hcause
    split at hcause
    · cases hcause
    · exact (Option.some.inj hcause).symm
  · have hany : b.paths.countP b.isFailing = 0 ↔ b.paths.any b.isFailing = false := by
      simp [List.countP_eq_zero]
    rw [hsummary]
    split
    · rw [hany.mp ‹_›]
      rfl
    · rw [Bool.eq_true_of_not_eq_false (hany.not.mp ‹_›)]
      rfl

end Quiet

end Batch

end ScriptFront
