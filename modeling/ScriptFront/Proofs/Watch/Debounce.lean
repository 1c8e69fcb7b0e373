import ScriptFront.Command.Run
import ScriptFront.Proofs.Watch.Run

/-!
# Calls Apart

A history is **debounced** (`Debounced`) if any two calls in a row are at least the debounce apart
and a change came in between them.

The loop debounces **up to the first event that overtakes a call that is due**, and from there on it
need not (`debounced_until_overtaken`). As long as nothing is overtaken, a call leaves nothing
pending, and what is pending is due exactly one debounce after the latest call (`Coalesced`). When
the time of the pending call has come and an event is ready as well, the event may be taken first.
It is told at once, and the pending call, whose change has been told with it, stays pending: it can
be made right after, for no change at all.
-/

namespace ScriptFront.Watch

open Text

/-- Any two calls in a row are **at least the debounce apart**, and a change came in after the first
of them, up to the one that the second tells. -/
def Debounced (w : Watcher) (ts : List Turn) : Prop :=
  ∀ after later between earlier before, ts = after ++ later :: (between ++ earlier :: before) →
    later.isCall w = true → earlier.isCall w = true → (∀ t ∈ between, t.isCall w = false) →
    earlier.now + w.debounce.toInt ≤ later.now ∧ ∃ t ∈ later :: between, t.isReceipt w = true

/-- Does a change that has come in **overtake** a call that is due? -/
def Turn.overtakes (w : Watcher) (t : Turn) : Bool :=
  t.isReceipt w && t.state.isDue t.now

/-- What is pending is due one debounce after the latest call, for a change that came in after
it. -/
structure Coalesced (w : Watcher) (ts : List Turn) (l : Loop) : Prop where
  due : ∀ deadline, l.deadline = some deadline →
    ∃ last, l.last = some last ∧ deadline = last + w.debounce.toInt
  seen : l.deadline ≠ none → ∃ t ∈ sinceCall w ts, t.isReceipt w = true

/-- Where nothing is pending nothing has to be coalesced. -/
theorem Coalesced.of_none {w : Watcher} {ts : List Turn} {l : Loop} (h : l.deadline = none) :
    Coalesced w ts l := by
  constructor
  · intro deadline hdeadline
    rw [h] at hdeadline
    cases hdeadline
  · exact fun hne => absurd h hne

/-- The turns after the latest call, and its time, where that is known. -/
theorem sinceCall_append {w : Watcher} {between : List Turn} {earlier : Turn} (before : List Turn)
    (hearlier : earlier.isCall w = true) (hbetween : ∀ t ∈ between, t.isCall w = false) :
    sinceCall w (between ++ earlier :: before) = between ∧
      (calls w (between ++ earlier :: before)).head? = some earlier.now := by
  induction between with
  | nil =>
      rw [List.nil_append, sinceCall_of_isCall hearlier, calls_of_isCall hearlier]
      exact ⟨rfl, rfl⟩
  | cons t between ih =>
      obtain ⟨ht, hbetween⟩ := List.forall_mem_cons.mp hbetween
      obtain ⟨hsince, hcalls⟩ := ih hbetween
      rw [List.cons_append, sinceCall_of_not_isCall ht, calls_of_not_isCall ht, hsince]
      exact ⟨rfl, hcalls⟩

namespace Run

variable {w : Watcher} {ts : List Turn} {t : Turn} {l : Loop}

/-- A positive debounce is one for which durations are exact. -/
theorem exact_of_pos (hw : 0 < w.debounce) : -1 ≤ w.debounce :=
  Int64.le_trans (by decide) (Int64.le_of_lt hw)

/-- A change that is told at once comes in **when the debounce is over**. -/
theorem over_of_not_wait (hw : 0 < w.debounce) (hrun : Run w ts t.state)
    (hclock : ∀ u ∈ ts, u.now ≤ t.now) (hwait : ¬ 0 < t.state.wait w t.now) {last : Int}
    (hlast : t.state.last = some last) : last + w.debounce.toInt ≤ t.now := by
  have hnot := mt (Loop.wait_pos_iff (exact_of_pos hw) (hrun.before hclock)).mpr hwait
  have hlt : ¬ t.now < last + w.debounce.toInt := fun h => hnot ⟨last, hlast, h⟩
  omega

/-- One turn that overtakes nothing keeps changes coalesced. When a change is told at once the
debounce is over, so that a pending call would be due, and overtaken. -/
theorem coalesced_turn (hw : 0 < w.debounce) (hrun : Run w ts t.state)
    (hopen : t.state.isDone = false) (hready : t.state.isReady t.now t.signal = true)
    (hclock : ∀ u ∈ ts, u.now ≤ t.now) (hprompt : t.overtakes w = false)
    (ih : Coalesced w ts t.state) : Coalesced w (t :: ts) (t.next w) := by
  have hbefore := hrun.before hclock
  cases Turn.does hopen hready with
  | tells hreceipt _ hwait hnext =>
      rw [Turn.overtakes, hreceipt, Bool.true_and] at hprompt
      refine .of_none ?_
      rw [hnext]
      rcases hpending : t.state.deadline with _ | deadline
      · rfl
      · obtain ⟨last, hlast, rfl⟩ := ih.due deadline hpending
        have hover := hrun.over_of_not_wait hw hclock hwait hlast
        rw [Loop.isDue_iff.mpr ⟨_, hpending, hover⟩] at hprompt
        cases hprompt
  | defers hreceipt hcall hwait hnext =>
      constructor
      · intro deadline hdeadline
        rw [hnext, Option.some.injEq] at hdeadline
        rw [hnext, ← hdeadline]
        rcases Loop.deadline_cases (exact_of_pos hw) hbefore hwait with hsame | hover
        · exact ih.due _ hsame
        · exact hover
      · rw [sinceCall_of_not_isCall hcall]
        exact fun _ => ⟨t, List.mem_cons_self, hreceipt⟩
  | fires _ _ _ hnext =>
      refine .of_none ?_
      rw [hnext]
  | passes _ hcall hlast hdeadline =>
      constructor
      · rw [hdeadline, hlast]
        exact ih.due
      · rw [hdeadline, sinceCall_of_not_isCall hcall]
        intro hne
        obtain ⟨u, hu, hseen⟩ := ih.seen hne
        exact ⟨u, List.mem_cons_of_mem t hu, hseen⟩

/-- Changes are coalesced **along every run in which nothing is overtaken**. -/
theorem coalesced (hw : 0 < w.debounce) (h : Run w ts l)
    (hprompt : ∀ t ∈ ts, t.overtakes w = false) : Coalesced w ts l := by
  induction h with
  | start => exact .of_none rfl
  | turn hrun hopen hready hclock ih =>
      obtain ⟨ht, hts⟩ := List.forall_mem_cons.mp hprompt
      exact coalesced_turn hw hrun hopen hready hclock ht (ih hts)

/-- Where changes are coalesced, a call comes **a debounce after the latest one**, and for a change
that came in after it. -/
theorem call_apart (hw : 0 < w.debounce) (h : Run w (t :: ts) l) (hcall : t.isCall w = true)
    (hcoalesced : Coalesced w ts t.state) :
    (∀ last, (calls w ts).head? = some last → last + w.debounce.toInt ≤ t.now) ∧
      ∃ u ∈ t :: sinceCall w ts, u.isReceipt w = true := by
  cases h with
  | turn hrun hopen hready hclock =>
      rw [← hrun.last_eq]
      cases Turn.does hopen hready with
      | tells hreceipt _ hwait _ =>
          constructor
          · intro last hlast
            exact hrun.over_of_not_wait hw hclock hwait hlast
          · exact ⟨t, List.mem_cons_self, hreceipt⟩
      | fires _ _ hdue _ =>
          obtain ⟨deadline, hpending, hle⟩ := Loop.isDue_iff.mp hdue
          constructor
          · intro last hlast
            obtain ⟨last', hlast', rfl⟩ := hcoalesced.due deadline hpending
            rw [hlast, Option.some.injEq] at hlast'
            omega
          · obtain ⟨u, hu, hseen⟩ := hcoalesced.seen (by rw [hpending]; exact nofun)
            exact ⟨u, List.mem_cons_of_mem t hu, hseen⟩
      | defers _ hnot _ _ | passes _ hnot _ _ =>
          rw [hcall] at hnot
          cases hnot

/-- A run in which nothing is overtaken is debounced. -/
theorem debounced (hw : 0 < w.debounce) (h : Run w ts l)
    (hprompt : ∀ t ∈ ts, t.overtakes w = false) : Debounced w ts := by
  intro after later between earlier before hts hlater hearlier hbetween
  subst hts
  obtain ⟨l', hrun⟩ := h.of_append
  have hpast : ∀ t ∈ between ++ earlier :: before, t.overtakes w = false :=
    fun t ht => hprompt t (List.mem_append_right after (List.mem_cons_of_mem later ht))
  obtain ⟨hsince, hlatest⟩ := sinceCall_append before hearlier hbetween
  have hcoalesced : Coalesced w (between ++ earlier :: before) later.state := by
    cases hrun with
    | turn hrun _ _ _ => exact hrun.coalesced hw hpast
  obtain ⟨hapart, hseen⟩ := hrun.call_apart hw hlater hcoalesced
  rw [hsince] at hseen
  exact ⟨hapart earlier.now hlatest, hseen⟩

/-- After the first event that overtakes a call, **the call that was overtaken can be made at
once**. The event itself is told: what it overtakes is due when the debounce is over, and then
nothing is put off. -/
theorem overtaken (hw : 0 < w.debounce) (h : Run w (t :: ts) l)
    (hprompt : ∀ u ∈ ts, u.overtakes w = false) (hovertakes : t.overtakes w = true) :
    t.isCall w = true ∧ Turn.isCall w ⟨l, t.now, .expiry⟩ = true ∧
      Run w (⟨l, t.now, .expiry⟩ :: t :: ts) (Turn.next w ⟨l, t.now, .expiry⟩) := by
  have hrun' := h
  rw [Turn.overtakes, Bool.and_eq_true] at hovertakes
  obtain ⟨hreceipt, hdue⟩ := hovertakes
  cases h with
  | turn hrun hopen hready hclock =>
      have hclock' : ∀ u ∈ t :: ts, u.now ≤ t.now :=
        List.forall_mem_cons.mpr ⟨Int.le_refl _, hclock⟩
      cases Turn.does hopen hready with
      | tells _ hcall _ hnext =>
          have hopen' : (t.next w).isDone = false := by rw [hnext]; exact hopen
          have hdue' : (t.next w).isDue t.now = true := by rw [hnext]; exact hdue
          refine ⟨hcall, ?_, .turn hrun' hopen' hdue' hclock'⟩
          simp [Turn.isCall, Loop.step, Loop.tell, hopen', hdue']
      | defers _ _ hwait _ =>
          obtain ⟨deadline, hpending, hle⟩ := Loop.isDue_iff.mp hdue
          obtain ⟨last, hlast, rfl⟩ := (hrun.coalesced hw hprompt).due deadline hpending
          obtain ⟨last', hlast', hlt⟩ :=
            (Loop.wait_pos_iff (exact_of_pos hw) (hrun.before hclock)).mp hwait
          rw [hlast, Option.some.injEq] at hlast'
          omega
      | fires hnot _ _ _ | passes hnot _ _ _ =>
          rw [hreceipt] at hnot
          cases hnot

end Run

/-- Two calls at the same time are not debounced. -/
theorem not_debounced_of_now_eq {w : Watcher} (hw : 0 < w.debounce) {later earlier : Turn}
    {ts : List Turn} (hlater : later.isCall w = true) (hearlier : earlier.isCall w = true)
    (hnow : later.now = earlier.now) : ¬ Debounced w (later :: earlier :: ts) := by
  intro h
  have hpos : 0 < w.debounce.toInt := Int64.lt_iff_toInt_lt.mp hw
  obtain ⟨hapart, -⟩ := h [] later [] earlier ts rfl hlater hearlier nofun
  omega

/-- **The loop debounces up to the first event that overtakes a call that is due.** Right after such
an event it can make the call that was overtaken, and then it has not. -/
theorem debounced_until_overtaken {w : Watcher} (hw : 0 < w.debounce) {ts : List Turn} {l : Loop}
    (h : Run w ts l) (hprompt : ∀ t ∈ ts, t.overtakes w = false) :
    Debounced w ts ∧ ∀ t, Run w (t :: ts) (t.next w) → t.overtakes w = true →
      ∃ u l', Run w (u :: t :: ts) l' ∧ ¬ Debounced w (u :: t :: ts) := by
  refine ⟨h.debounced hw hprompt, ?_⟩
  intro t ht hovertakes
  obtain ⟨hcall, hcall', hrun⟩ := ht.overtaken hw hprompt hovertakes
  exact ⟨_, _, hrun, not_debounced_of_now_eq hw hcall' hcall rfl⟩

/-! ### An event that overtakes -/

/-- A file that the command watches: calls are to be a tenth of a second apart. -/
def brisk : Watcher :=
  ⟨utf8 "main", WatchedFile.debounce⟩

/-- A write that is told at once. -/
def toldWrite : Turn :=
  ⟨{}, 0, .event ⟨utf8 "main", [.write]⟩⟩

/-- A write half the debounce later, for which a call is pending when the debounce is over. -/
def coalescedWrite : Turn :=
  ⟨toldWrite.next brisk, 50000000, .event ⟨utf8 "main", [.write]⟩⟩

/-- A write that is taken when that call is due. -/
def overtakingWrite : Turn :=
  ⟨coalescedWrite.next brisk, 100000000, .event ⟨utf8 "main", [.write]⟩⟩

/-- The call after all, at the same time. -/
def overtakenCall : Turn :=
  ⟨overtakingWrite.next brisk, 100000000, .expiry⟩

/-- The second write is put off. -/
theorem run_coalescedWrite :
    Run brisk [coalescedWrite, toldWrite] (coalescedWrite.next brisk) :=
  .turn (.turn .start rfl rfl nofun) (by decide) rfl (by decide)

/-- The third write is taken before the call that is due. -/
theorem run_overtakingWrite :
    Run brisk [overtakingWrite, coalescedWrite, toldWrite] (overtakingWrite.next brisk) :=
  .turn run_coalescedWrite (by decide) rfl (by decide)

/-- A watched file, where the third write overtakes the call for the second. -/
theorem debounced_until_overtaken_brisk :
    (∀ t ∈ [coalescedWrite, toldWrite], t.overtakes brisk = false) ∧
      Debounced brisk [coalescedWrite, toldWrite] ∧ overtakingWrite.overtakes brisk = true ∧
      ∃ u l', Run brisk [u, overtakingWrite, coalescedWrite, toldWrite] l' ∧
        ¬ Debounced brisk [u, overtakingWrite, coalescedWrite, toldWrite] := by
  have hprompt : ∀ t ∈ [coalescedWrite, toldWrite], t.overtakes brisk = false := by decide
  have hovertakes : overtakingWrite.overtakes brisk = true := by decide
  obtain ⟨hdebounced, hafter⟩ :=
    debounced_until_overtaken (by decide) run_coalescedWrite hprompt
  exact ⟨hprompt, hdebounced, hovertakes, hafter _ run_overtakingWrite hovertakes⟩

/-- **Not every run is debounced.** Three writes come in, and the last of them is told, together
with the one before it; a third call follows at once, for no change. -/
theorem brisk_not_debounced :
    Run brisk [overtakenCall, overtakingWrite, coalescedWrite, toldWrite]
        (overtakenCall.next brisk) ∧
      calls brisk [overtakenCall, overtakingWrite, coalescedWrite, toldWrite] =
        [100000000, 100000000, 0] ∧
      ¬ Debounced brisk [overtakenCall, overtakingWrite, coalescedWrite, toldWrite] := by
  refine ⟨.turn run_overtakingWrite (by decide) (by decide) (by decide), by decide, ?_⟩
  exact not_debounced_of_now_eq (by decide) (by decide) (by decide) rfl

end ScriptFront.Watch
