import ScriptFront.Command.Run
import ScriptFront.Proofs.Watch.Run

/-!
# No Change is Lost

A watcher **keeps changes** (`KeepsChanges`) if in every run the first change that comes in is told
at once, a change that comes in after the latest call has a call pending for it that is due no later
than one debounce after that call, and there are never more calls than changes.

What holds along every run is the invariant `Covered`. From it follows that a watcher keeps changes
(`keepsChanges`), provided that **the time before the first call lies further back than the
debounce**. That time is the longest duration ago, and the time that is left to wait is a difference
of durations, which wraps around: the proviso holds exactly if the debounce is at least `-1`
(`Loop.not_wait_start_iff`). The command has a debounce of its own that is positive,
`WatchedFile.debounce`.
-/

namespace ScriptFront.Watch

open Text

/-- A signal that is none of the watcher's business: an event that does not change the content of
its file, or a complaint. -/
def Signal.isForeign (w : Watcher) : Signal → Bool
  | .event e => !e.concerns w.path
  | .error _ => true
  | .expiry | .closed | .cancelled => false

/-- **No change is lost** on the watcher, in whatever order signals come in. -/
structure KeepsChanges (w : Watcher) : Prop where
  /-- The first change that comes in is told at once. -/
  first : ∀ {ts : List Turn} {t : Turn} {l : Loop}, Run w (t :: ts) l → t.isReceipt w = true →
    (∀ u ∈ ts, u.isReceipt w = false) → t.isCall w = true
  /-- Once a change has come in after the latest call, a call is pending, and it is due within the
  debounce from that call on. -/
  pending : ∀ {ts : List Turn} {l : Loop}, Run w ts l →
    (∃ t ∈ sinceCall w ts, t.isReceipt w = true) → ∃ last deadline,
      (calls w ts).head? = some last ∧ l.deadline = some deadline ∧
      deadline ≤ last + w.debounce.toInt
  /-- There are no more calls than changes. -/
  calls_le : ∀ {ts : List Turn} {l : Loop}, Run w ts l → (calls w ts).length ≤ receipts w ts
  /-- Without a debounce every change is told. -/
  calls_eq : w.debounce ≤ 0 → ∀ {ts : List Turn} {l : Loop}, Run w ts l →
    (calls w ts).length = receipts w ts
  /-- What is none of its business changes neither the calls nor what is pending. -/
  foreign : ∀ {ts : List Turn} {t : Turn} {l : Loop}, Run w (t :: ts) l →
    t.signal.isForeign w = true → calls w (t :: ts) = calls w ts ∧ l = t.state

/-! ### The invariant -/

/-- **Every change that came in after the latest call is covered** by a pending call, and every call
that was made or is pending is paid for by a change. -/
structure Covered (w : Watcher) (ts : List Turn) (l : Loop) : Prop where
  due : ∀ deadline, l.deadline = some deadline →
    ∃ last, l.last = some last ∧ deadline ≤ last + w.debounce.toInt
  pending : (∃ t ∈ sinceCall w ts, t.isReceipt w = true) → l.deadline ≠ none
  paid : (calls w ts).length + l.deadline.toList.length ≤ receipts w ts

namespace Run

variable {w : Watcher} {ts : List Turn} {t : Turn} {l : Loop}

/-- One turn keeps changes covered. A change that is told at once leaves a pending call as it is,
which was due after an earlier call, and so is due still earlier after this one. -/
theorem covered_turn (hw : -1 ≤ w.debounce) (hrun : Run w ts t.state)
    (hopen : t.state.isDone = false) (hready : t.state.isReady t.now t.signal = true)
    (hclock : ∀ u ∈ ts, u.now ≤ t.now) (ih : Covered w ts t.state) :
    Covered w (t :: ts) (t.next w) := by
  have hbefore := hrun.before hclock
  have hpaid := ih.paid
  cases Turn.does hopen hready with
  | tells hreceipt hcall _ hnext =>
      constructor
      · intro deadline hdeadline
        rw [hnext] at hdeadline
        obtain ⟨last, hlast, hle⟩ := ih.due deadline hdeadline
        have := hbefore last hlast
        exact ⟨t.now, by rw [hnext], by omega⟩
      · rw [sinceCall_of_isCall hcall]
        rintro ⟨u, hu, -⟩
        cases hu
      · have hsame : (t.next w).deadline = t.state.deadline := by rw [hnext]
        rw [calls_of_isCall hcall, receipts_of_isReceipt hreceipt, hsame, List.length_cons]
        omega
  | defers hreceipt hcall hwait hnext =>
      constructor
      · intro deadline hdeadline
        rw [hnext, Option.some.injEq] at hdeadline
        rw [hnext, ← hdeadline]
        rcases Loop.deadline_cases hw hbefore hwait with hsame | ⟨last, hlast, hover⟩
        · exact ih.due _ hsame
        · exact ⟨last, hlast, Int.le_of_eq hover⟩
      · rw [hnext]
        exact fun _ => nofun
      · rw [calls_of_not_isCall hcall, receipts_of_isReceipt hreceipt, hnext]
        rw [Option.toList_some, List.length_singleton]
        omega
  | fires hreceipt hcall hdue hnext =>
      obtain ⟨deadline, hpending, -⟩ := Loop.isDue_iff.mp hdue
      rw [hpending, Option.toList_some, List.length_singleton] at hpaid
      constructor
      · rw [hnext]
        exact nofun
      · rw [sinceCall_of_isCall hcall]
        rintro ⟨u, hu, -⟩
        cases hu
      · rw [calls_of_isCall hcall, receipts_of_not_isReceipt hreceipt, hnext, List.length_cons]
        rw [Option.toList_none, List.length_nil]
        omega
  | passes hreceipt hcall hlast hdeadline =>
      constructor
      · rw [hdeadline, hlast]
        exact ih.due
      · rw [hdeadline, sinceCall_of_not_isCall hcall]
        rintro ⟨u, hu, hseen⟩
        rcases List.mem_cons.mp hu with rfl | hu
        · rw [hreceipt] at hseen
          cases hseen
        · exact ih.pending ⟨u, hu, hseen⟩
      · rw [hdeadline, calls_of_not_isCall hcall, receipts_of_not_isReceipt hreceipt]
        exact hpaid

/-- Changes are covered **along every run**. -/
theorem covered (hw : -1 ≤ w.debounce) (h : Run w ts l) : Covered w ts l := by
  induction h with
  | start => exact ⟨nofun, fun ⟨_, hu, _⟩ => (by cases hu), Nat.le_refl 0⟩
  | turn hrun hopen hready hclock ih => exact covered_turn hw hrun hopen hready hclock ih

/-- **The first change that comes in is told at once**: if it were put off, a call would have been
made before it, and that call would be paid for by another change. -/
theorem isCall_of_first (hw : -1 ≤ w.debounce) (h : Run w (t :: ts) l)
    (hreceipt : t.isReceipt w = true) (hfirst : ∀ u ∈ ts, u.isReceipt w = false) :
    t.isCall w = true := by
  cases h with
  | turn hrun hopen hready hclock =>
      cases Turn.does hopen hready with
      | tells _ hcall _ _ => exact hcall
      | defers _ _ hwait _ =>
          obtain ⟨last, hlast, -⟩ := (Loop.wait_pos_iff hw (hrun.before hclock)).mp hwait
          rw [hrun.last_eq] at hlast
          have hmade := List.length_pos_of_mem (List.mem_of_head? hlast)
          have hpaid := (hrun.covered hw).paid
          have hnone : receipts w ts = 0 := by
            rw [receipts, List.countP_eq_zero]
            intro u hu
            rw [hfirst u hu]
            exact Bool.false_ne_true
          omega
      | fires _ hcall _ _ => exact hcall
      | passes hnot _ _ _ =>
          rw [hreceipt] at hnot
          cases hnot

/-- Without a debounce nothing is ever pending, and **calls and changes come together**. -/
theorem prompt (hw : -1 ≤ w.debounce) (hnone : w.debounce ≤ 0) (h : Run w ts l) :
    l.deadline = none ∧ (calls w ts).length = receipts w ts := by
  have hle : w.debounce.toInt ≤ 0 := Int64.le_iff_toInt_le.mp hnone
  induction h with
  | start => exact ⟨rfl, rfl⟩
  | @turn ts t hrun hopen hready hclock ih =>
      obtain ⟨hnothing, hcount⟩ := ih
      have hbefore := hrun.before hclock
      cases Turn.does hopen hready with
      | tells hreceipt hcall _ hnext =>
          rw [hnext, calls_of_isCall hcall, receipts_of_isReceipt hreceipt, List.length_cons,
            hcount]
          exact ⟨hnothing, rfl⟩
      | defers _ _ hwait _ =>
          obtain ⟨last, hlast, hlt⟩ := (Loop.wait_pos_iff hw hbefore).mp hwait
          have := hbefore last hlast
          omega
      | fires _ _ hdue _ =>
          obtain ⟨deadline, hpending, -⟩ := Loop.isDue_iff.mp hdue
          rw [hnothing] at hpending
          cases hpending
      | passes hreceipt hcall _ hdeadline =>
          rw [hdeadline, calls_of_not_isCall hcall, receipts_of_not_isReceipt hreceipt]
          exact ⟨hnothing, hcount⟩

/-- A turn on a signal that is none of the watcher's business **calls nothing and leaves the loop as
it is**. -/
theorem foreign (h : Run w (t :: ts) l) (hforeign : t.signal.isForeign w = true) :
    calls w (t :: ts) = calls w ts ∧ l = t.state := by
  have hstep : (t.state.step w t.now t.signal).1 = t.state ∧ t.isCall w = false := by
    rw [Turn.isCall]
    cases hsignal : t.signal with
    | event e =>
        rw [hsignal, Signal.isForeign, Bool.not_eq_true'] at hforeign
        rw [Loop.step_event_of_not_concerns w t.now t.state hforeign]
        exact ⟨rfl, rfl⟩
    | error message =>
        refine ⟨Loop.step_error_fst w t.now t.state message, ?_⟩
        rw [Loop.step]
        split <;> rfl
    | expiry | closed | cancelled =>
        rw [hsignal] at hforeign
        cases hforeign
  cases h with
  | turn _ _ _ _ => exact ⟨calls_of_not_isCall hstep.2, hstep.1⟩

end Run

/-! ### When changes are kept -/

/-- The time before the first call lies **further back than the debounce**, so that the first change
never has to wait, exactly if the debounce is at least `-1`. -/
theorem Loop.not_wait_start_iff {w : Watcher} :
    (∀ now, ¬ 0 < ({} : Loop).wait w now) ↔ -1 ≤ w.debounce := by
  constructor
  · intro hnever
    rcases Int64.lt_or_le w.debounce (-1) with hw | hw
    · exact absurd (Loop.wait_pos_of_lt hw rfl) (hnever 0)
    · exact hw
  · intro hw now hwait
    have hbefore : ({} : Loop).Before now := by
      intro last hlast
      cases hlast
    obtain ⟨last, hlast, -⟩ := (Loop.wait_pos_iff hw hbefore).mp hwait
    cases hlast

/-- **No change is lost**, whatever is watched, for every debounce that the time before the first
call lies further back than: for none, and for every positive one. -/
theorem keepsChanges {w : Watcher} (hw : -1 ≤ w.debounce) : KeepsChanges w := by
  constructor
  · intro ts t l h hreceipt hfirst
    exact h.isCall_of_first hw hreceipt hfirst
  · intro ts l h hseen
    have hcovered := h.covered hw
    obtain ⟨deadline, hdeadline⟩ := Option.ne_none_iff_exists'.mp (hcovered.pending hseen)
    obtain ⟨last, hlast, hle⟩ := hcovered.due deadline hdeadline
    exact ⟨last, deadline, by rw [← h.last_eq, hlast], hdeadline, hle⟩
  · intro ts l h
    have hpaid := (h.covered hw).paid
    omega
  · intro hnone ts l h
    exact (h.prompt hw hnone).2
  · intro ts t l h hforeign
    exact h.foreign hforeign

/-- The command loses no change of a file that it watches. -/
theorem keepsChanges_command :
    -1 ≤ WatchedFile.debounce ∧ KeepsChanges ⟨utf8 "main", WatchedFile.debounce⟩ :=
  ⟨by decide, keepsChanges (by decide)⟩

end ScriptFront.Watch
