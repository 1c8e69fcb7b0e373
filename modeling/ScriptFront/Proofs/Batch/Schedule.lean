import Mathlib.Data.List.NodupEquivFin
import ScriptFront.Command.Run

/-!
# Parsing in Any Order

A **batch** is a number of sources to parse, with all they are parsed in: the job, the files and
the surroundings. The files may be anywhere and hold anything, or be out of reach for any reason:
all that matters is what comes of reading a path. The jobs of a batch share the standard input, and
whoever reads it takes all that is left of it (`Surroundings.sharedHost`), so the order of the jobs
could be seen.

**It is not seen, if no more than one source is the standard input**: whatever the order is in which
jobs are run, the report on each source is the one it has alone (`Batch.inSlots_eq`), and the batch
as a whole shows these reports in the order of the sources (`Batch.together_eq`).
-/

namespace ScriptFront

open Text

/-- The host over files that do not change, as `Surroundings.host`, for jobs that **share the
standard input**. No job asks whether a path can be watched. -/
def Surroundings.sharedHost (s : Surroundings) (readFile : Bytes → Except ReadFault Bytes) :
    Host (StateM (Except Bytes Bytes)) where
  environment name := return s.environment.lookup name
  readFile path := return readFile path
  readInput := modifyGet fun input => (input, .ok [])
  canWatch path := return (readFile path).map fun _ => ()
  isCancelled := return s.isCancelled
  schedule := s.schedule
  timed x := return (← x, s.elapsed)
  toolchain := s.toolchain
  platform := s.platform

/-- Sources to parse, and what they are parsed in. -/
structure Batch where
  job : ParseJob
  /-- What comes of reading a path: the content of a file, or why there is none. -/
  readFile : Bytes → Except ReadFault Bytes
  surroundings : Surroundings
  paths : List Bytes

namespace Batch

/-- The world that the jobs of the batch see. -/
def host (b : Batch) : Host (StateM (Except Bytes Bytes)) :=
  b.surroundings.sharedHost b.readFile

/-- What parsing the sources **one after the other or all at once** comes to. -/
def parsed (b : Batch) (paths : List Bytes) : Output × Option Failure :=
  ((b.job.runAll b.host paths).run b.surroundings.input).1

/-- What parsing **all sources** comes to. -/
def together (b : Batch) : Output × Option Failure :=
  b.parsed b.paths

/-- What parsing **one source alone** comes to. -/
def alone (b : Batch) (path : Bytes) : Output × Option Failure :=
  b.parsed [path]

/-- The text of a source, or why there is none, with nothing of the standard input read before. -/
def text (b : Batch) (path : Bytes) : Except Failure Bytes :=
  ((Source.read b.host path).run b.surroundings.input).1

/-- What becomes of the text of a source. -/
def outcome (b : Batch) (path : Bytes) : Except Failure Bytes → Except Failure Bytes
  | .error failure => .error failure
  | .ok text => b.job.outcome (Source.title path) text

/-- The **report** on a source alone. -/
def report (b : Batch) (path : Bytes) : ParseReport :=
  ⟨Source.title path, b.outcome path (b.text path), b.surroundings.elapsed⟩

/-- Does at most one job read the standard input? -/
def ReadsOnce (b : Batch) : Prop :=
  ∀ i j : Nat, b.paths[i]? = some Source.standardInput →
    b.paths[j]? = some Source.standardInput → i = j

variable {b : Batch}

/-- If the standard input is named at most once, at most one job reads it. -/
theorem readsOnce_of_countP (h : b.paths.countP (· = Source.standardInput) ≤ 1) :
    b.ReadsOnce := by
  have hdistinct (i j : Nat) (hi : b.paths[i]? = some Source.standardInput)
      (hj : b.paths[j]? = some Source.standardInput) : ¬ i < j := by
    intro hlt
    obtain ⟨hi', hi⟩ := List.getElem?_eq_some_iff.mp hi
    obtain ⟨hj', hj⟩ := List.getElem?_eq_some_iff.mp hj
    have htwice : 2 ≤ b.paths.countP (· = Source.standardInput) :=
      List.duplicate_iff_two_le_count.mp
        (List.duplicate_iff_exists_distinct_get.mpr ⟨⟨i, hi'⟩, ⟨j, hj'⟩, hlt, hi.symm, hj.symm⟩)
    omega
  intro i j hi hj
  have := hdistinct i j hi hj
  have := hdistinct j i hj hi
  omega

/-! ### One job -/

/-- A file is read alike whatever is left of the standard input, and leaves it alone. -/
theorem read_of_ne {path : Bytes} (h : path ≠ Source.standardInput) (input : Except Bytes Bytes) :
    (Source.read b.host path).run input = (b.text path, input) := by
  rw [text, Source.read, if_neg h]
  rfl

/-- A job **reads its source and then parses it**. -/
theorem run_eq (path : Bytes) (input : Except Bytes Bytes) :
    (b.job.run b.host path).run input =
      (⟨Source.title path, b.outcome path ((Source.read b.host path).run input).1,
        b.surroundings.elapsed⟩, ((Source.read b.host path).run input).2) :=
  rfl

/-- A job gives the report that its source has alone. It leaves the standard input alone unless
that is its source. -/
theorem run_report {path : Bytes} {input : Except Bytes Bytes}
    (hinput : path = Source.standardInput → input = b.surroundings.input) :
    ∃ left, (b.job.run b.host path).run input = (b.report path, left) ∧
      (path ≠ Source.standardInput → left = input) := by
  refine ⟨((Source.read b.host path).run input).2, ?_, ?_⟩
  · rw [run_eq]
    by_cases hpath : path = Source.standardInput
    · rw [hinput hpath]
      rfl
    · rw [read_of_ne hpath]
      rfl
  · intro hpath
    rw [read_of_ne hpath]

/-! ### All jobs -/

/-- The job on the source with this number. -/
def numbered (b : Batch) (i : Nat) : StateM (Except Bytes Bytes) (Nat × Option ParseReport) := do
  return (i, ← b.paths[i]?.mapM (b.job.run b.host))

/-- **One job** gives the report that its source has alone, if the input that it is to read is
untouched; and it leaves the input alone if it is not to read it. -/
theorem numbered_run {i : Nat} {input : Except Bytes Bytes}
    (hinput : b.paths[i]? = some Source.standardInput → input = b.surroundings.input) :
    ∃ left, (b.numbered i).run input = ((i, b.paths[i]?.map b.report), left) ∧
      (b.paths[i]? ≠ some Source.standardInput → left = input) := by
  rcases hpath : b.paths[i]? with _ | path
  · exact ⟨input, by rw [numbered, hpath]; rfl, fun _ => rfl⟩
  · rw [hpath, Option.some.injEq] at hinput
    obtain ⟨left, hrun, hleft⟩ := run_report hinput
    refine ⟨left, ?_, fun hne => hleft fun h => hne (congrArg some h)⟩
    rw [numbered, hpath]
    simp only [Option.mapM_some, StateT.run_bind, StateT.run_map, hrun]
    rfl

/-- **Jobs in any order**, none of them twice, give the reports that their sources have alone, as
long as the standard input is untouched for the job that is to read it. A job that has read it
leaves nothing of it, but no later one will ask. -/
theorem mapM_numbered (honce : b.ReadsOnce) {schedule : List Nat} (hnodup : schedule.Nodup)
    {input : Except Bytes Bytes}
    (hinput : ∀ i ∈ schedule, b.paths[i]? = some Source.standardInput →
      input = b.surroundings.input) :
    ((schedule.mapM b.numbered).run input).1 =
      schedule.map fun i => (i, b.paths[i]?.map b.report) := by
  induction schedule generalizing input with
  | nil => rfl
  | cons i schedule ih =>
      obtain ⟨hnot, hnodup⟩ := List.nodup_cons.mp hnodup
      obtain ⟨hi, hschedule⟩ := List.forall_mem_cons.mp hinput
      obtain ⟨left, hrun, hleft⟩ := numbered_run hi
      have hrest : ∀ j ∈ schedule, b.paths[j]? = some Source.standardInput →
          left = b.surroundings.input := by
        intro j hj hstandard
        by_cases hread : b.paths[i]? = some Source.standardInput
        · rw [honce i j hread hstandard] at hnot
          exact absurd hj hnot
        · rw [hleft hread]
          exact hschedule j hj hstandard
      rw [List.mapM_cons, List.map_cons, ← ih hnodup hrest]
      simp only [StateT.run_bind, hrun]
      rfl

/-- The elements of a list by their numbers. -/
theorem filterMap_range {α β : Type} (f : α → β) (as : List α) :
    (List.range as.length).filterMap (fun i => as[i]?.map f) = as.map f := by
  induction as with
  | nil => rfl
  | cons a as ih =>
      rw [List.length_cons, List.range_succ_eq_map, List.filterMap_cons, List.filterMap_map]
      exact congrArg (f a :: ·) ih

/-- Results that are kept by number in any order are **found in the order of the numbers**. -/
theorem filterMap_lookup {schedule : List Nat}
    (hschedule : schedule.Perm (List.range b.paths.length)) :
    (List.range b.paths.length).filterMap
        (fun i => ((schedule.map fun i => (i, b.paths[i]?.map b.report)).lookup i).join) =
      b.paths.map b.report := by
  rw [← filterMap_range b.report b.paths]
  refine List.filterMap_congr ?_
  intro i hi
  rw [List.lookup_graph (fun i => b.paths[i]?.map b.report) (hschedule.mem_iff.mpr hi)]
  rfl

/-- **Whatever the schedule**, the slots hold the reports in the order of the sources. -/
theorem inSlots_eq (honce : b.ReadsOnce) {schedule : List Nat}
    (hschedule : schedule.Perm (List.range b.paths.length)) :
    ((ParseJob.inSlots schedule (b.job.run b.host) b.paths).run b.surroundings.input).1 =
      b.paths.map b.report := by
  have hnodup : schedule.Nodup := hschedule.nodup_iff.mpr List.nodup_range
  have hfinished : ((schedule.mapM b.numbered).run b.surroundings.input).1 = _ :=
    mapM_numbered honce hnodup fun _ _ _ => rfl
  have hslots : ((ParseJob.inSlots schedule (b.job.run b.host) b.paths).run
      b.surroundings.input).1 = (List.range b.paths.length).filterMap fun i =>
        (((schedule.mapM b.numbered).run b.surroundings.input).1.lookup i).join := rfl
  rw [hslots, hfinished, filterMap_lookup hschedule]

/-- Is every order that jobs are run in an order of all of them? -/
def Complete (b : Batch) : Prop :=
  ∀ n, (b.surroundings.schedule n).Perm (List.range n)

/-- **The batch shows the reports of its sources.** -/
theorem together_eq (hlive : b.surroundings.isCancelled = false) (hcomplete : b.Complete)
    (honce : b.ReadsOnce) : b.together =
      (ParseReport.shown b.job.verbose (b.paths.map b.report),
        ParseJob.summary? (b.paths.map b.report)) := by
  have hgoes : b.host.isCancelled = pure false := congrArg pure hlive
  have hrun : b.together =
      let reports := ((ParseJob.inSlots (b.surroundings.schedule b.paths.length)
        (b.job.run b.host) b.paths).run b.surroundings.input).1
      (ParseReport.shown b.job.verbose reports, ParseJob.summary? reports) := by
    rw [together, parsed, ParseJob.runAll, hgoes]
    rfl
  rw [hrun, inSlots_eq honce (hcomplete b.paths.length)]

/-- One source alone shows its report. -/
theorem alone_eq (hlive : b.surroundings.isCancelled = false) (hcomplete : b.Complete)
    (path : Bytes) : b.alone path =
      ((b.report path).output b.job.verbose, ParseJob.summary? [b.report path]) := by
  have honce : ReadsOnce { b with paths := [path] } := by
    intro i j hi hj
    have hlt := (List.getElem?_eq_some_iff.mp hi).1
    have hlt' := (List.getElem?_eq_some_iff.mp hj).1
    rw [List.length_singleton] at hlt hlt'
    omega
  exact together_eq (b := { b with paths := [path] }) hlive hcomplete honce

/-- Where nothing changes while the jobs run, not even the standard input, the batch comes to the
same. -/
theorem runAll_host (hlive : b.surroundings.isCancelled = false) (hcomplete : b.Complete)
    (honce : b.ReadsOnce) (canWatch : Bytes → Except ReadFault Unit) :
    (b.job.runAll (b.surroundings.host b.readFile canWatch) b.paths).run = b.together := by
  have hrun (path : Bytes) :
      (b.job.run (b.surroundings.host b.readFile canWatch) path).run = b.report path := by
    by_cases hpath : path = Source.standardInput
    · subst hpath
      rfl
    · simp only [ParseJob.run, Source.read, if_neg hpath, report, text]
      rfl
  have hnumbered (i : Nat) :
      (b.paths[i]?.mapM (b.job.run (b.surroundings.host b.readFile canWatch))).run =
        b.paths[i]?.map b.report := by
    cases b.paths[i]? with
    | none => rfl
    | some path => exact congrArg some (hrun path)
  have hslots : (ParseJob.inSlots (b.surroundings.schedule b.paths.length)
      (b.job.run (b.surroundings.host b.readFile canWatch)) b.paths).run =
        b.paths.map b.report := by
    rw [ParseJob.inSlots, Id.run_bind, List.idRun_mapM]
    simp only [Id.run_bind, Id.run_pure, hnumbered]
    exact filterMap_lookup (hcomplete b.paths.length)
  have hgoes : (b.surroundings.host b.readFile canWatch).isCancelled = false := hlive
  rw [together_eq hlive hcomplete honce, ParseJob.runAll, ← hslots, hgoes]
  rfl

end Batch

end ScriptFront
