import ScriptFront.Proofs.Prefix.Productions

/-!
# Faults lie at the First Offending Token

A list of tokens is **accepted** if it parses under some nesting limit, and *relaxed-accepted* if it
does so once any target may be assigned to. A fault that is due neither to the nesting limit nor to
a target lies at the first token that is wrong: the tokens before it can be completed to a list that
is relaxed-accepted, and no such list begins with them and that token. A refused target is reported
at its assignment, and no accepted list goes on from there
(`Program.fault_at_first_offender`).

The relaxed grammar is a discipline of its own (`Discipline.relaxed`), coupled with the parser's: a
fault other than a refused target is one in both. Where it lies, and that what stands before it can
be completed, is `Discipline.viable_program`.
-/

namespace ScriptFront

open Text Parse

/-! ### Any target may be assigned to -/

/-- The assignment that is made where **targets are not looked at**; what stands for an assignment
to something else does not matter. -/
def relaxedAssignment (target : Expr) (operator : Kind) (value : Expr) : Option Expr :=
  some ((assignment? target operator value).getD (.binary target operator value))

/-- The grammar in which any target may be assigned to. -/
def Discipline.relaxed {σ : Type} : Discipline σ :=
  plain relaxedAssignment

namespace Discipline

variable {σ : Type} [TokenSource σ]

/-- The grammar knows from the target alone whether an assignment is refused. -/
theorem decides_strict : Decides assignment? False := by
  intro target
  cases target with
  | reference name => exact .inl fun _ _ => rfl
  | get object name => exact .inl fun _ _ => rfl
  | _ => exact .inr ⟨id, fun _ _ => rfl⟩

/-- In the relaxed grammar every target can be assigned to. -/
theorem decides_relaxed : Decides relaxedAssignment True :=
  fun _ => .inl fun _ _ => rfl

/-- The parser beside the relaxed one: they differ where a target is refused. -/
def relaxing : Pairing σ σ :=
  .ofEq .strict .relaxed (· = .invalidTarget) False fun target operator value => by
    cases h : assignment? target operator value with
    | some e => exact .inl (by simp [strict, relaxed, plain, relaxedAssignment, h])
    | none => exact .inr ⟨h, rfl⟩

/-- A fault other than a refused target is one in the relaxed grammar too. -/
theorem relaxed_of_strict {d : Nat} {c c' : Cursor σ} {f : ParseFault}
    (h : strict.program d c = .error f c') (hf : f.cause ≠ .invalidTarget) :
    relaxed.program d c = .error f c' := by
  have hagree := (Alike.program (P := relaxing) (.inl rfl) d).agree
    (.ofCursors _ rfl rfl False.elim Eq (fun h => by rw [h]; rfl) fun h => by rw [h])
    c c rfl trivial
  change Agree _ _ _ _ _ _ (strict.program d c) (relaxed.program d c) at hagree
  rw [h] at hagree
  generalize relaxed.program d c = r at hagree ⊢
  cases hagree with
  | error htu hR _ _ =>
      cases htu
      cases hR
      rfl
  | spared hcause => exact absurd hcause hf

end Discipline

/-! ### Lists of tokens -/

/-- The token at a place in a list; behind the list there is the end of the input. -/
def tokenAt (ts : List Token) (k : Nat) : Token :=
  ts.getD k ⟨.eof, [], {}⟩

namespace Cursor

/-- At the beginning of a list of tokens, those that can be taken are a beginning of the list. -/
theorem takes_replay {ts u : List Token} {c : Cursor Replay}
    (h : (Cursor.start (Replay.mk ts)).Takes u c) :
    ∃ rest, ts = u ++ rest ∧ c = Cursor.start (Replay.mk rest) := by
  induction u generalizing ts with
  | nil => exact ⟨ts, rfl, h.symm⟩
  | cons t u ih =>
      cases ts with
      | nil =>
          obtain ⟨rfl, hk, -⟩ := h
          exact absurd rfl hk
      | cons t' ts =>
          obtain ⟨rfl, -, h⟩ := h
          obtain ⟨rest, rfl, hc⟩ := ih h
          exact ⟨rest, rfl, hc⟩

/-- Tokens at the front of a list can be taken, if the end of the input is not among them. -/
theorem replay_takes {u : List Token} (h : ∀ t ∈ u, t.kind ≠ .eof) (rest : List Token) :
    (Cursor.start (Replay.mk (u ++ rest))).Takes u (Cursor.start (Replay.mk rest)) := by
  induction u with
  | nil => rfl
  | cons t u ih =>
      exact ⟨rfl, h t List.mem_cons_self, ih fun s hs => h s (List.mem_cons_of_mem _ hs)⟩

/-- The first token of the rest of a list is the one that stands behind the front. -/
theorem current_replay (u rest : List Token) :
    (Cursor.start (Replay.mk rest)).current = tokenAt (u ++ rest) u.length := by
  cases rest with
  | nil => simp [tokenAt, Cursor.start, TokenSource.next, Replay.next]
  | cons t rest => simp [tokenAt, Cursor.start, TokenSource.next, Replay.next]

end Cursor

/-! ### Where a fault lies -/

namespace Discipline

variable {assign : Expr → Kind → Expr → Option Expr} {r : Prop}

/-- No program is read from the list, with any number of charges. -/
def Rejects (D : Discipline Replay) (ts : List Token) : Prop :=
  ∀ n, ∃ f c, D.program n (Cursor.start (Replay.mk ts)) = .error f c

/-- A list that is rejected is no program under any nesting limit. -/
theorem Rejects.run_ne_ok {D : Discipline Replay} {ts : List Token} (h : D.Rejects ts)
    (setting : Int) (p : Program) :
    ((Parser.start setting (Replay.mk ts)).run (D.program (Parser.limitOf setting))).1 ≠ .ok p := by
  obtain ⟨f, c, hrun⟩ := h (Parser.limitOf setting)
  rw [Parser.run_of_error hrun]
  exact nofun

/-- **A fault lies at the first token that no continuation can rescue**: every list that begins like
this one up to that token is rejected, and if the grammar is relaxed, the tokens before it can be
completed. The tokens before it lead to the first token of whatever comes in its place. -/
theorem fault_at (hassign : Decides assign r) {n : Nat} {ts : List Token} {f : ParseFault}
    {c : Cursor Replay} (h : (plain assign).program n (Cursor.start (Replay.mk ts)) = .error f c)
    (hdeep : f.cause ≠ .tooDeep) :
    ∃ k ≤ ts.length, f.span = (tokenAt ts k).span ∧
      (f.cause = .invalidTarget → (tokenAt ts k).kind.isAssignment = true) ∧
      ((tokenAt ts k).kind ≠ .eof → ∀ more, (plain assign).Rejects (ts.take (k + 1) ++ more)) ∧
      ((tokenAt ts k).kind = .eof → (plain assign).Rejects (ts.take k)) ∧
      (r → ∃ more p m, ∀ n, m ≤ n → ∃ c,
        (plain assign).program n (Cursor.start (Replay.mk (ts.take k ++ more))) = .ok p c) := by
  have hrun := (viable_program hassign (n + 1)).explained n (Nat.lt_succ_self n)
    (Cursor.start (Replay.mk ts)) trivial
  rw [h] at hrun
  obtain ⟨u, ⟨c', hu, hspan, htarget, hdoom⟩, hcompletes⟩ := hrun hdeep
  obtain ⟨rest, rfl, rfl⟩ := Cursor.takes_replay hu
  have hsolid := hu.kind_ne_eof
  have hcurrent := Cursor.current_replay u rest
  have htake : (u ++ rest).take u.length = u := List.take_left
  have hreject : ∀ tail, (Cursor.start (Replay.mk tail)).current.Same
      (Cursor.start (Replay.mk rest)).current → (plain assign).Rejects (u ++ tail) :=
    fun tail hsame n => hdoom n _ _ (Cursor.replay_takes hsolid tail) hsame
  refine ⟨u.length, by simp, hcurrent ▸ hspan, hcurrent ▸ htarget, ?_, ?_, ?_⟩
  · intro hk more
    cases rest with
    | nil => exact absurd (by rw [← hcurrent]; rfl) hk
    | cons t rest =>
        have hpast : (u ++ t :: rest).take (u.length + 1) ++ more = u ++ (t :: more) := by
          rw [List.take_append, List.take_of_length_le (Nat.le_succ _)]
          simp
        rw [hpast]
        exact hreject (t :: more) (.refl t)
  · intro hk
    rw [htake, ← List.append_nil u]
    refine hreject [] ⟨?_, fun hne => absurd rfl hne⟩
    rw [hcurrent, hk]
    rfl
  · intro hr
    obtain ⟨v, p, hsolid', m, hm⟩ := hcompletes hr
    refine ⟨v, p, m, fun n hn => ?_⟩
    have htakes := Cursor.replay_takes hsolid' []
    rw [List.append_nil] at htakes
    rw [htake]
    rcases (hm _ _ htakes rfl).2 n with hok | ⟨hlt, -⟩
    · exact ⟨_, hok⟩
    · omega

end Discipline

namespace Program

/-- The program that a source of tokens spells **if any target may be assigned to**. -/
def relaxedOfTokens {σ : Type} [TokenSource σ] (setting : Int) (source : σ) :
    Except ParseFault Program :=
  ((Parser.start setting source).run (Discipline.relaxed.program (Parser.limitOf setting))).1

/-- The list parses under some nesting limit. -/
def Accepted (ts : List Token) : Prop :=
  ∃ setting p, ofTokens setting (Replay.mk ts) = .ok p

/-- The list parses under some nesting limit if any target may be assigned to. -/
def RelaxedAccepted (ts : List Token) : Prop :=
  ∃ setting p, relaxedOfTokens setting (Replay.mk ts) = .ok p

/-- A list that the parser rejects with any number of charges is not accepted. -/
theorem not_accepted {ts : List Token} (h : Discipline.strict.Rejects ts) : ¬Accepted ts := by
  rintro ⟨setting, p, hp⟩
  rw [ofTokens_eq_run] at hp
  exact h.run_ne_ok setting p hp

/-- A list that the relaxed grammar rejects is not accepted by it. -/
theorem not_relaxedAccepted {ts : List Token} (h : Discipline.relaxed.Rejects ts) :
    ¬RelaxedAccepted ts := by
  rintro ⟨setting, p, hp⟩
  exact h.run_ne_ok setting p hp

/-- A list that is read with enough charges is accepted under a limit that high. -/
theorem relaxedAccepted {ts : List Token} {p : Program} {m : Nat}
    (h : ∀ n, m ≤ n → ∃ c,
      Discipline.relaxed.program n (Cursor.start (Replay.mk ts)) = .ok p c) :
    RelaxedAccepted ts := by
  have hlimit : Parser.limitOf (m + 1 : Nat) = m + 1 := by
    rw [Parser.limitOf, if_neg (by omega), Int.toNat_natCast]
  obtain ⟨c, hc⟩ := h (m + 1) (Nat.le_succ m)
  refine ⟨(m + 1 : Nat), p, ?_⟩
  rw [relaxedOfTokens, hlimit, Parser.run_of_ok hc]

/-- **A fault lies at the first offending token**, the `k`-th. If a target is refused, that token
is the assignment and no accepted list begins like this one up to it. Any other fault that is not
due to the nesting limit stands after a beginning of a relaxed-accepted list, and no such list goes
on with the token it lies at; at the end of the input, the list up to there is not one. -/
theorem fault_at_first_offender {setting : Int} {ts : List Token} {f : ParseFault}
    (h : ofTokens setting (Replay.mk ts) = .error f) (hdeep : f.cause ≠ .tooDeep) :
    ∃ k ≤ ts.length, f.span = (tokenAt ts k).span ∧
      (f.cause = .invalidTarget → (tokenAt ts k).kind.isAssignment = true ∧
        ∀ more, ¬Accepted (ts.take (k + 1) ++ more)) ∧
      (f.cause ≠ .invalidTarget →
        (∃ more, RelaxedAccepted (ts.take k ++ more)) ∧
        ((tokenAt ts k).kind ≠ .eof → ∀ more, ¬RelaxedAccepted (ts.take (k + 1) ++ more)) ∧
        ((tokenAt ts k).kind = .eof → ¬RelaxedAccepted (ts.take k))) := by
  rw [ofTokens_eq_run] at h
  obtain ⟨c, hrun⟩ := Parser.error_of_run h
  by_cases hcause : f.cause = .invalidTarget
  · obtain ⟨k, hk, hspan, htarget, hreject, -⟩ :=
      Discipline.fault_at Discipline.decides_strict hrun hdeep
    have hassign := htarget hcause
    refine ⟨k, hk, hspan, fun _ => ⟨hassign, fun more => ?_⟩, fun hne => absurd hcause hne⟩
    exact not_accepted (hreject (Kind.ne_eof_of_holds rfl hassign) more)
  · obtain ⟨k, hk, hspan, -, hreject, hend, hcompletes⟩ :=
      Discipline.fault_at Discipline.decides_relaxed (Discipline.relaxed_of_strict hrun hcause)
        hdeep
    obtain ⟨more, p, m, hm⟩ := hcompletes trivial
    refine ⟨k, hk, hspan, fun heq => absurd heq hcause,
      fun _ => ⟨⟨more, relaxedAccepted hm⟩, ?_, ?_⟩⟩
    · exact fun hne more => not_relaxedAccepted (hreject hne more)
    · exact fun heq => not_relaxedAccepted (hend heq)

/-- The tokens of `1 = f ( 2 ;`, with a target that is no such and a call that is not closed. -/
def unclosedCall : List Token :=
  [⟨.number, utf8 "1", ⟨1, 0, 1⟩⟩, ⟨.punctuator .equals, utf8 "=", ⟨1, 2, 3⟩⟩,
    ⟨.identifier, utf8 "f", ⟨1, 4, 5⟩⟩, ⟨.punctuator .parenLeft, utf8 "(", ⟨1, 5, 6⟩⟩,
    ⟨.number, utf8 "2", ⟨1, 6, 7⟩⟩, ⟨.punctuator .semicolon, utf8 ";", ⟨1, 7, 8⟩⟩]

/-- The semicolon is the first offender: the five tokens before it begin a relaxed-accepted list,
and none begins with all six. -/
theorem fault_at_first_offender_unclosedCall :
    ofTokens 4 (Replay.mk unclosedCall) =
        .error ⟨.expected (.punctuator .parenRight) (utf8 ";"), ⟨1, 7, 8⟩⟩ ∧
      (∃ more, RelaxedAccepted (unclosedCall.take 5 ++ more)) ∧
      ∀ more, ¬RelaxedAccepted (unclosedCall.take 6 ++ more) := by
  have hrun : ofTokens 4 (Replay.mk unclosedCall) =
      .error ⟨.expected (.punctuator .parenRight) (utf8 ";"), ⟨1, 7, 8⟩⟩ := by rfl
  obtain ⟨k, hk, hspan, -, hfault⟩ := fault_at_first_offender hrun nofun
  have hplace : ∀ k ≤ 6, (⟨1, 7, 8⟩ : Span) = (tokenAt unclosedCall k).span → k = 5 := by decide
  obtain rfl := hplace k hk hspan
  obtain ⟨hmore, hnone, -⟩ := hfault nofun
  exact ⟨hrun, hmore, hnone nofun⟩

end Program

end ScriptFront
