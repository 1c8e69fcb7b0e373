import ScriptFront.Watch.Loop

/-!
# Runs of the Watching Loop

A **run** is a finite sequence of turns from the start of the loop (`Run`). At each turn any signal
that is ready may be the one that is taken, also an event while the pending call is due, and the
clock is read once; it never goes back. The history of a run holds the turns **latest first**, each
with the state that it began in.

What a turn can do is said once, in `Turn.does`: it tells a change that has come in, puts it off,
tells the change that was put off, or passes the time. Every invariant of runs is a case analysis
over these four.

Whether a change is put off is a comparison of durations. As long as the debounce is not below
`-1`, the difference of durations is exact, and the loop compares points in time
(`Loop.wait_pos_iff`).
-/

namespace ScriptFront.Watch

open Text

/-! ### Waiting -/

/-- A time that is not negative is cut off at the longest duration. -/
theorem toInt_ofIntClamp {x : Int} (h : 0 ≤ x) :
    (Int64.ofIntClamp x).toInt = min x Int64.maxValue.toInt := by
  have hmax : Int64.maxValue.toInt = 2 ^ 63 - 1 := Int64.toInt_maxValue
  have hmin : Int64.minValue.toInt = -2 ^ 63 := Int64.toInt_minValue
  by_cases hx : x ≤ Int64.maxValue.toInt
  · rw [Int64.toInt_ofIntClamp (by omega) hx]
    omega
  · have hclamp : Int64.ofIntClamp x = Int64.maxValue := by
      rw [Int64.ofIntClamp, dif_pos (by omega), dif_neg hx]
    rw [hclamp]
    omega

namespace Loop

variable {w : Watcher} {l : Loop} {now : Int}

/-- Has the last change been told before `now`, if there was one? -/
def Before (l : Loop) (now : Int) : Prop :=
  ∀ last, l.last = some last → last ≤ now

/-- The time since the last change is not negative. -/
theorem toInt_sinceLast_nonneg (h : l.Before now) : 0 ≤ (l.sinceLast now).toInt := by
  rw [sinceLast]
  split
  · exact Int.le_trans (by decide) (Int.le_of_eq Int64.toInt_maxValue.symm)
  · next last hlast =>
    have hle := h last hlast
    rw [toInt_ofIntClamp (by omega), Int64.toInt_maxValue]
    omega

/-- **The difference is exact** unless the debounce is below `-1`. -/
theorem toInt_wait (hw : -1 ≤ w.debounce) (h : l.Before now) :
    (l.wait w now).toInt = w.debounce.toInt - (l.sinceLast now).toInt := by
  have hlow : -1 ≤ w.debounce.toInt := Int64.le_iff_toInt_le.mp hw
  have hhigh := w.debounce.toInt_lt
  have hsince := toInt_sinceLast_nonneg h
  have hsince' := (l.sinceLast now).toInt_lt
  rw [wait, Int64.toInt_sub, Int.bmod_eq_of_le (by omega) (by omega)]

/-- A change has to wait **exactly if the last one is less than the debounce ago**. -/
theorem wait_pos_iff (hw : -1 ≤ w.debounce) (h : l.Before now) :
    0 < l.wait w now ↔ ∃ last, l.last = some last ∧ now < last + w.debounce.toInt := by
  have hhigh := w.debounce.toInt_lt
  rw [Int64.lt_iff_toInt_lt, toInt_wait hw h, Int64.toInt_zero, sinceLast]
  cases hlast : l.last with
  | none =>
      have hmax : Int64.maxValue.toInt = 2 ^ 63 - 1 := Int64.toInt_maxValue
      simp only [reduceCtorEq, false_and, exists_false, iff_false]
      omega
  | some last =>
      have hle := h last hlast
      simp only [Option.some.injEq, exists_eq_left',
        toInt_ofIntClamp (show 0 ≤ now - last by omega), Int64.toInt_maxValue]
      omega

/-- It then has to wait until the debounce is over. -/
theorem add_wait (hw : -1 ≤ w.debounce) (h : l.Before now) (hwait : 0 < l.wait w now) {last : Int}
    (hlast : l.last = some last) : now + (l.wait w now).toInt = last + w.debounce.toInt := by
  have hle := h last hlast
  have hhigh := w.debounce.toInt_lt
  rw [Int64.lt_iff_toInt_lt, Int64.toInt_zero] at hwait
  simp only [toInt_wait hw h, sinceLast, hlast,
    toInt_ofIntClamp (show 0 ≤ now - last by omega), Int64.toInt_maxValue] at hwait ⊢
  omega

/-- The call that is pending for a change that has to wait **was pending before, or is due when the
debounce is over**. -/
theorem deadline_cases (hw : -1 ≤ w.debounce) (h : l.Before now) (hwait : 0 < l.wait w now) :
    l.deadline = some (l.deadline.getD (now + (l.wait w now).toInt)) ∨
      ∃ last, l.last = some last ∧
        l.deadline.getD (now + (l.wait w now).toInt) = last + w.debounce.toInt := by
  rcases l.deadline with _ | deadline
  · obtain ⟨last, hlast, -⟩ := (wait_pos_iff hw h).mp hwait
    exact .inr ⟨last, hlast, add_wait hw h hwait hlast⟩
  · exact .inl rfl

/-- Below `-1` the difference wraps around, and already **the first change has to wait**. -/
theorem wait_pos_of_lt (hw : w.debounce < -1) (h : l.last = none) : 0 < l.wait w now := by
  have hlow := w.debounce.le_toInt
  have hneg : w.debounce.toInt < -1 := Int64.lt_iff_toInt_lt.mp hw
  have hwrap : (w.debounce.toInt - (2 ^ 63 - 1)).bmod (2 ^ 64) =
      w.debounce.toInt + 2 ^ 63 + 1 := by
    rw [← Int.add_bmod_right, Int.bmod_eq_of_le (by omega) (by omega)]
    omega
  rw [Int64.lt_iff_toInt_lt, wait, sinceLast, h, Int64.toInt_sub, Int64.toInt_maxValue, hwrap,
    Int64.toInt_zero]
  omega

/-- Is the signal ready? The time of the pending call has to have come; everything else may come at
any time. -/
def isReady (l : Loop) (now : Int) : Signal → Bool
  | .expiry => l.isDue now
  | .event _ | .error _ | .closed | .cancelled => true

/-- The pending call is due if its deadline has come. -/
theorem isDue_iff : l.isDue now = true ↔ ∃ deadline, l.deadline = some deadline ∧
    deadline ≤ now := by
  simp only [isDue, Option.any_eq_true, decide_eq_true_eq]

end Loop

/-! ### Turns -/

/-- One **turn** of the loop: the state it begins in, the time, and the signal it answers. -/
structure Turn where
  state : Loop
  now : Int
  signal : Signal
  deriving DecidableEq, Repr

namespace Turn

/-- The state that a turn ends in. -/
def next (w : Watcher) (t : Turn) : Loop :=
  (t.state.step w t.now t.signal).1

/-- Has a change of the watched file come in? -/
def isReceipt (w : Watcher) (t : Turn) : Bool :=
  match t.signal with
  | .event e => e.concerns w.path
  | .expiry | .error _ | .closed | .cancelled => false

/-- Has a change been told? -/
def isCall (w : Watcher) (t : Turn) : Bool :=
  (t.state.step w t.now t.signal).2 = some .change

/-- **What a turn can do.** -/
inductive Does (w : Watcher) (t : Turn) : Prop where
  /-- A change has come in and is told at once. A pending call stays pending. -/
  | tells (hreceipt : t.isReceipt w = true) (hcall : t.isCall w = true)
      (hwait : ¬ 0 < t.state.wait w t.now)
      (hnext : t.next w = { t.state with last := some t.now })
  /-- A change has come in, and a call is pending for it, if not for an earlier one already. -/
  | defers (hreceipt : t.isReceipt w = true) (hcall : t.isCall w = false)
      (hwait : 0 < t.state.wait w t.now)
      (hnext : t.next w = { t.state with
        deadline := some (t.state.deadline.getD (t.now + (t.state.wait w t.now).toInt)) })
  /-- The pending call is made. -/
  | fires (hreceipt : t.isReceipt w = false) (hcall : t.isCall w = true)
      (hdue : t.state.isDue t.now = true)
      (hnext : t.next w = { t.state with last := some t.now, deadline := none })
  /-- Something else has come in. -/
  | passes (hreceipt : t.isReceipt w = false) (hcall : t.isCall w = false)
      (hlast : (t.next w).last = t.state.last) (hdeadline : (t.next w).deadline = t.state.deadline)

/-- A turn of a loop that is not done, on a signal that is ready, does **one of the four**. -/
theorem does {w : Watcher} {t : Turn} (hopen : t.state.isDone = false)
    (hready : t.state.isReady t.now t.signal = true) : t.Does w := by
  obtain ⟨l, now, signal⟩ := t
  cases signal with
  | event e =>
      by_cases hconcerns : e.concerns w.path = true
      · have hstep : l.step w now (.event e) = l.see w now := by
          simp only [Loop.step, show l.isDone = false from hopen, Bool.false_eq_true, if_false,
            hconcerns, if_true]
        by_cases hwait : 0 < l.wait w now
        · rw [Loop.see, if_pos hwait] at hstep
          exact .defers hconcerns (by rw [isCall, hstep]; rfl) hwait (by rw [next, hstep])
        · rw [Loop.see, if_neg hwait, Loop.tell] at hstep
          exact .tells hconcerns (by rw [isCall, hstep]; rfl) hwait (by rw [next, hstep])
      · refine .passes ?_ ?_ ?_ ?_ <;> simp_all [isReceipt, isCall, next, Loop.step]
  | expiry =>
      have hdue : l.isDue now = true := hready
      refine .fires rfl ?_ hdue ?_ <;> simp_all [isCall, next, Loop.step, Loop.tell]
  | error message => refine .passes rfl ?_ ?_ ?_ <;> simp_all [isCall, next, Loop.step]
  | closed => refine .passes rfl ?_ ?_ ?_ <;> simp_all [isCall, next, Loop.step]
  | cancelled => refine .passes rfl ?_ ?_ ?_ <;> simp_all [isCall, next, Loop.step]

end Turn

/-! ### Runs -/

/-- A **run** of the loop from its start, and the state that it leads to. -/
inductive Run (w : Watcher) : List Turn → Loop → Prop where
  | start : Run w [] {}
  | turn {ts : List Turn} {t : Turn} (hrun : Run w ts t.state) (hopen : t.state.isDone = false)
      (hready : t.state.isReady t.now t.signal = true) (hclock : ∀ u ∈ ts, u.now ≤ t.now) :
      Run w (t :: ts) (t.next w)

/-- When changes have been told, the latest first. -/
def calls (w : Watcher) (ts : List Turn) : List Int :=
  (ts.filter (Turn.isCall w)).map Turn.now

/-- How many changes have come in. -/
def receipts (w : Watcher) (ts : List Turn) : Nat :=
  ts.countP (Turn.isReceipt w)

/-- The turns after the latest call. -/
def sinceCall (w : Watcher) (ts : List Turn) : List Turn :=
  ts.takeWhile (! Turn.isCall w ·)

section History

variable {w : Watcher} {t : Turn} {ts : List Turn}

/-- A turn that makes a call adds the time of it. -/
theorem calls_of_isCall (h : t.isCall w = true) : calls w (t :: ts) = t.now :: calls w ts := by
  simp [calls, h]

/-- A turn that makes no call adds none. -/
theorem calls_of_not_isCall (h : t.isCall w = false) : calls w (t :: ts) = calls w ts := by
  simp [calls, h]

/-- A turn in which a change comes in adds one. -/
theorem receipts_of_isReceipt (h : t.isReceipt w = true) :
    receipts w (t :: ts) = receipts w ts + 1 := by
  simp [receipts, h]

/-- A turn in which no change comes in adds none. -/
theorem receipts_of_not_isReceipt (h : t.isReceipt w = false) :
    receipts w (t :: ts) = receipts w ts := by
  simp [receipts, h]

/-- Right after a call there are no turns since the latest one. -/
theorem sinceCall_of_isCall (h : t.isCall w = true) : sinceCall w (t :: ts) = [] := by
  simp [sinceCall, h]

/-- A turn that makes no call is one more since the latest one. -/
theorem sinceCall_of_not_isCall (h : t.isCall w = false) :
    sinceCall w (t :: ts) = t :: sinceCall w ts := by
  simp [sinceCall, h]

end History

namespace Run

variable {w : Watcher} {ts us : List Turn} {t : Turn} {l : Loop}

/-- The turns of a run up to some time are a run. -/
theorem of_append (h : Run w (us ++ ts) l) : ∃ l', Run w ts l' := by
  induction us generalizing l with
  | nil => exact ⟨l, h⟩
  | cons u us ih =>
      cases h with
      | turn hrun => exact ih hrun

/-- The loop remembers **when the latest change was told**. -/
theorem last_eq (h : Run w ts l) : l.last = (calls w ts).head? := by
  induction h with
  | start => rfl
  | turn hrun hopen hready hclock ih =>
      cases Turn.does hopen hready with
      | tells _ hcall _ hnext => rw [hnext, calls_of_isCall hcall, List.head?_cons]
      | defers _ hcall _ hnext => rw [hnext, calls_of_not_isCall hcall, ih]
      | fires _ hcall _ hnext => rw [hnext, calls_of_isCall hcall, List.head?_cons]
      | passes _ hcall hlast _ => rw [hlast, calls_of_not_isCall hcall, ih]

/-- The latest change was told in one of the turns, so not after the time of the next. -/
theorem before (h : Run w ts l) {now : Int} (hclock : ∀ u ∈ ts, u.now ≤ now) : l.Before now := by
  intro last hlast
  rw [h.last_eq] at hlast
  obtain ⟨u, hu, rfl⟩ := List.mem_map.mp (List.mem_of_head? hlast)
  exact hclock u (List.mem_filter.mp hu).1

end Run

end ScriptFront.Watch
