import Mathlib.Logic.Relation
import ScriptFront.Proofs.Batch.Composition

/-!
# Parsing Many Sources at Once

The jobs of a batch **run at the same time**: they are launched in the order of the sources, no more
than a limit of them go on at once, and whichever of them is to take its next step is not
determined. `Batch.Step` is one step of one job. A job is launched, reads its source, and leaves its
report in its slot.

**Whatever the interleaving**, once all jobs have finished their reports are those that the sources
have alone (`Batch.Interleaves.tells`), so that parsing a batch is the composition, in the order of
the sources, of parsing each one (`Batch.interleaving_composes`). A source that fails has no part in
what is shown of the others.
-/

namespace ScriptFront

open Text

/-- How far **a job of a batch** has come. -/
inductive JobStage where
  | waiting
  | launched
  /-- The user wanted to stop before the source was read. -/
  | stopped
  /-- The source has been read, or it is known why it cannot be. -/
  | loaded (text : Except Failure Bytes)
  | finished (report : ParseReport)

namespace JobStage

/-- Does the job take one of the places that there is a limit on? -/
def isRunning : JobStage → Bool
  | .launched | .loaded _ => true
  | .waiting | .stopped | .finished _ => false

end JobStage

/-- The jobs of a batch, in the order of the sources, and what is **left of the standard input**. -/
structure Pool where
  input : Except Bytes Bytes
  stages : List JobStage

/-- Have **all jobs finished**, with these reports in the order of the sources? -/
def Pool.HasFinished (p : Pool) (reports : List ParseReport) : Prop :=
  p.stages = reports.map .finished

namespace Batch

/-- The jobs before any of them is launched. -/
def initial (b : Batch) : Pool :=
  ⟨b.surroundings.input, b.paths.map fun _ => .waiting⟩

/-- **One step of one job.** -/
inductive Step (b : Batch) (limit : Nat) : Pool → Pool → Prop where
  /-- The first job that waits is launched when there is a place for it. -/
  | launch {p : Pool} {i : Nat} (hstage : p.stages[i]? = some .waiting)
      (hfirst : ∀ j < i, p.stages[j]? ≠ some .waiting)
      (hplace : p.stages.countP JobStage.isRunning < limit) :
      Step b limit p { p with stages := p.stages.set i .launched }
  /-- A job finds that the user wants to stop. -/
  | stop {p : Pool} {i : Nat} (hstage : p.stages[i]? = some .launched)
      (hcancelled : b.surroundings.isCancelled = true) :
      Step b limit p { p with stages := p.stages.set i .stopped }
  /-- A job reads its source. -/
  | load {p : Pool} {i : Nat} {path : Bytes} (hpath : b.paths[i]? = some path)
      (hstage : p.stages[i]? = some .launched) (hlive : b.surroundings.isCancelled = false) :
      Step b limit p ⟨((Source.read b.host path).run p.input).2,
        p.stages.set i (.loaded ((Source.read b.host path).run p.input).1)⟩
  /-- A job parses what it has read and leaves its report, however long it took. -/
  | finish {p : Pool} {i : Nat} {path : Bytes} {text : Except Failure Bytes} (elapsed : Bytes)
      (hpath : b.paths[i]? = some path) (hstage : p.stages[i]? = some (.loaded text)) :
      Step b limit p { p with
        stages := p.stages.set i (.finished ⟨Source.title path, b.outcome path text, elapsed⟩) }

/-- An **interleaving** of the jobs, from the time when none is launched. -/
def Interleaves (b : Batch) (limit : Nat) : Pool → Prop :=
  Relation.ReflTransGen (b.Step limit) b.initial

/-! ### The invariant -/

/-- What is true of a job on its way. The standard input is **untouched as long as the job that is
to read it has not**. -/
def Fits (b : Batch) (input : Except Bytes Bytes) (path : Bytes) : JobStage → Prop
  | .waiting | .launched => path = Source.standardInput → input = b.surroundings.input
  | .stopped => True
  | .loaded text => text = b.text path
  | .finished report => b.Tells path report

/-- Every job fits its source. -/
structure Sound (b : Batch) (p : Pool) : Prop where
  length : p.stages.length = b.paths.length
  fits : ∀ {i : Nat} {path : Bytes} {stage : JobStage}, b.paths[i]? = some path →
    p.stages[i]? = some stage → b.Fits p.input path stage

variable {b : Batch} {limit : Nat} {p q : Pool}

/-- What a job that does not read the standard input fits does not depend on what is left of it. -/
theorem Fits.of_ne {input input' : Except Bytes Bytes} {path : Bytes} {stage : JobStage}
    (hpath : path ≠ Source.standardInput) (h : b.Fits input path stage) :
    b.Fits input' path stage := by
  cases stage with
  | waiting | launched => exact fun hread => absurd hread hpath
  | stopped | loaded | finished => exact h

/-- A pool where nothing has been started is sound. -/
theorem sound_initial : b.Sound b.initial := by
  constructor
  · rw [initial, List.length_map]
  · intro i path stage _ hstage
    rw [initial, List.getElem?_map, Option.map_eq_some_iff] at hstage
    obtain ⟨_, -, rfl⟩ := hstage
    exact fun _ => rfl

/-- A pool in which one job has moved on is sound if that job fits its source, and the others fit
theirs with what is now left of the standard input. -/
theorem Sound.set (h : b.Sound p) {i : Nat} {input : Except Bytes Bytes} {stage : JobStage}
    (hfits : ∀ {path}, b.paths[i]? = some path → b.Fits input path stage)
    (hothers : ∀ {j path stage}, j ≠ i → b.paths[j]? = some path → b.Fits p.input path stage →
      b.Fits input path stage) : b.Sound ⟨input, p.stages.set i stage⟩ := by
  constructor
  · rw [List.length_set, h.length]
  · intro j path' stage' hpath' hstage'
    by_cases hj : j = i
    · subst hj
      have hlt : j < p.stages.length := h.length ▸ (List.getElem?_eq_some_iff.mp hpath').1
      rw [List.getElem?_set_self hlt, Option.some.injEq] at hstage'
      rw [← hstage']
      exact hfits hpath'
    · rw [List.getElem?_set_ne (Ne.symm hj)] at hstage'
      exact hothers hj hpath' (h.fits hpath' hstage')

/-- **One step keeps the pool sound.** A job that reads the standard input leaves nothing of it, and
no other job is to read it. -/
theorem Step.sound (honce : b.ReadsOnce) (hstep : b.Step limit p q) (h : b.Sound p) :
    b.Sound q := by
  cases hstep with
  | @launch i hstage _ _ =>
      refine h.set ?_ fun _ _ hfits => hfits
      intro path hpath
      have hfits : b.Fits p.input path .waiting := h.fits hpath hstage
      exact hfits
  | stop hstage _ => exact h.set (fun _ => trivial) fun _ _ hfits => hfits
  | @load i path hpath hstage _ =>
      have huntouched : path = Source.standardInput → p.input = b.surroundings.input :=
        h.fits hpath hstage
      refine h.set ?_ ?_
      · intro path' hpath'
        rw [hpath, Option.some.injEq] at hpath'
        subst hpath'
        by_cases hread : path = Source.standardInput
        · rw [huntouched hread]
          rfl
        · rw [read_of_ne hread]
          rfl
      · intro j path' stage hj hpath' hfits
        by_cases hread : path = Source.standardInput
        · refine hfits.of_ne ?_
          intro hread'
          exact hj (honce j i (hread' ▸ hpath') (hread ▸ hpath))
        · rw [read_of_ne hread]
          exact hfits
  | finish elapsed hpath hstage =>
      have htext := h.fits hpath hstage
      refine h.set ?_ fun _ _ hfits => hfits
      intro path' hpath'
      rw [hpath, Option.some.injEq] at hpath'
      rw [← hpath', htext]
      exact ⟨rfl, rfl⟩

/-- **Every interleaving is sound.** -/
theorem Interleaves.sound (honce : b.ReadsOnce) (h : b.Interleaves limit p) : b.Sound p := by
  induction h with
  | refl => exact sound_initial
  | tail _ hstep ih => exact hstep.sound honce ih

/-- Once all jobs have finished, **each report tells what its source has alone**. -/
theorem Interleaves.tells (honce : b.ReadsOnce) (h : b.Interleaves limit p)
    {reports : List ParseReport} (hfinished : p.HasFinished reports) :
    List.Forall₂ b.Tells b.paths reports := by
  have hsound := h.sound honce
  refine List.forall₂_iff_get.mpr ⟨?_, ?_⟩
  · rw [← hsound.length, hfinished, List.length_map]
  · intro i hpath hreport
    have hstage : p.stages[i]? = some (.finished reports[i]) := by
      rw [hfinished, List.getElem?_map, List.getElem?_eq_getElem hreport]
      rfl
    exact hsound.fits (List.getElem?_eq_getElem hpath) hstage

/-- **Parsing many sources at once is the composition of parsing each one**, in their order,
whatever the files hold and whatever the interleaving of the jobs. It is what running one job after
the other comes to, and what a source comes to in it depends on no other source. -/
theorem interleaving_composes (hquiet : b.job.verbose = false)
    (hlive : b.surroundings.isCancelled = false) (hcomplete : b.Complete)
    (hinput : b.paths.countP (· = Source.standardInput) ≤ 1)
    (h : b.Interleaves limit p) {reports : List ParseReport} (hfinished : p.HasFinished reports) :
    b.Composes (ParseReport.shown b.job.verbose reports, ParseJob.summary? reports) ∧
      (∀ canWatch, (b.job.runAll (b.surroundings.host b.readFile canWatch) b.paths).run =
        (ParseReport.shown b.job.verbose reports, ParseJob.summary? reports)) ∧
      ∀ {path readFile paths}, readFile path = b.readFile path →
        alone { b with readFile, paths } path = b.alone path := by
  have honce := readsOnce_of_countP hinput
  have hcomposes := composes_of_tells hlive hcomplete hquiet (h.tells honce hfinished)
  have htogether := composes_of_tells hlive hcomplete hquiet tells_map_report
  rw [← together_eq hlive hcomplete honce] at htogether
  refine ⟨hcomposes, ?_, alone_congr hlive hcomplete⟩
  intro canWatch
  rw [runAll_host hlive hcomplete honce, htogether.unique hcomposes]

/-! ### Two jobs -/

/-- A file outside the working directory that may not be read, and the standard input. -/
def duo : Batch where
  job := ⟨64, .dump, false⟩
  readFile _ := .error (.other (utf8 "open") (utf8 "permission denied"))
  surroundings := { input := .ok (utf8 "nil;"), schedule := fun n => (List.range n).reverse }
  paths := [utf8 "/root/main", Source.standardInput]

/-- Why there is no text in the file. -/
def denial : Except Failure Bytes :=
  .error (.within (utf8 "read source") (.plain (utf8 "open /root/main: permission denied")))

/-- What becomes of the file. -/
def deniedReport : ParseReport :=
  ⟨utf8 "/root/main", duo.outcome (utf8 "/root/main") denial, utf8 "2ms"⟩

/-- What becomes of the standard input. -/
def inputReport : ParseReport :=
  ⟨utf8 "<stdin>", duo.outcome Source.standardInput (.ok (utf8 "nil;")), utf8 "1ms"⟩

/-- Both jobs go on at once, and the first to be launched is the last to finish. -/
theorem interleaves_duo :
    duo.Interleaves 2 ⟨.ok [], [.finished deniedReport, .finished inputReport]⟩ := by
  have hfile : duo.paths[0]? = some (utf8 "/root/main") := rfl
  have hstandard : duo.paths[1]? = some Source.standardInput := rfl
  have hfirst : duo.Step 2 duo.initial ⟨.ok (utf8 "nil;"), [.launched, .waiting]⟩ :=
    .launch (i := 0) rfl (by omega) (by decide)
  have hsecond : duo.Step 2 ⟨.ok (utf8 "nil;"), [.launched, .waiting]⟩
      ⟨.ok (utf8 "nil;"), [.launched, .launched]⟩ :=
    .launch (i := 1) rfl (by simp) (by decide)
  have hload : duo.Step 2 ⟨.ok (utf8 "nil;"), [.launched, .launched]⟩
      ⟨.ok [], [.launched, .loaded (.ok (utf8 "nil;"))]⟩ :=
    .load hstandard rfl rfl
  have hfail : duo.Step 2 ⟨.ok [], [.launched, .loaded (.ok (utf8 "nil;"))]⟩
      ⟨.ok [], [.loaded denial, .loaded (.ok (utf8 "nil;"))]⟩ :=
    .load hfile rfl rfl
  have hinput : duo.Step 2 ⟨.ok [], [.loaded denial, .loaded (.ok (utf8 "nil;"))]⟩
      ⟨.ok [], [.loaded denial, .finished inputReport]⟩ :=
    .finish _ hstandard rfl
  have hdenied : duo.Step 2 ⟨.ok [], [.loaded denial, .finished inputReport]⟩
      ⟨.ok [], [.finished deniedReport, .finished inputReport]⟩ :=
    .finish _ hfile rfl
  exact (((((Relation.ReflTransGen.single hfirst).tail hsecond).tail hload).tail hfail).tail
    hinput).tail hdenied

/-- Two sources, a file that may not be read and the standard input, in whatever order they are
parsed. -/
theorem interleaving_composes_duo :
    duo.job.verbose = false ∧ duo.surroundings.isCancelled = false ∧ duo.Complete ∧
      duo.paths.countP (· = Source.standardInput) ≤ 1 ∧
      ParseJob.summary? [deniedReport, inputReport] =
        some (.within (utf8 "1 of 2 inputs failed") .reported) ∧
      duo.Composes (ParseReport.shown false [deniedReport, inputReport],
        ParseJob.summary? [deniedReport, inputReport]) := by
  have hcomplete : duo.Complete := fun n => List.reverse_perm (List.range n)
  have hinput : duo.paths.countP (· = Source.standardInput) ≤ 1 := by decide
  have hfinished : Pool.HasFinished ⟨.ok [], [.finished deniedReport, .finished inputReport]⟩
      [deniedReport, inputReport] := rfl
  exact ⟨rfl, rfl, hcomplete, hinput, rfl,
    (interleaving_composes rfl rfl hcomplete hinput interleaves_duo hfinished).1⟩

end Batch

end ScriptFront
