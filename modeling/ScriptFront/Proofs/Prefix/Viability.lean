import ScriptFront.Proofs.Parallel.Progress

/-!
# Viable Prefixes

A fault is reported at the first token that nothing after it could have rescued, and what stands
before that token is the beginning of something that parses. Both are said here of **every run of
a parser**, for a parser that is given as a family, one member for each number of charges:

* a success has read tokens that are read so before every token that may follow, by every member
  with charges enough (`Parse.Accepts`);
* a fault lies at a token such that every run over the tokens up to and including it fails
  (`Parse.Located`), and the tokens before it can be completed to a phrase that is accepted.

`Parse.Viable` holds both, together with one phrase that the parser accepts. A completion is put
together from such phrases, so what the parts of the grammar may begin with (`B`) and be followed
by (`F`) has to fit; `Parse.Viable.bind`, `Parse.Viable.dispatch` and `Parse.Viable.foldWhile` say
how for sequences, choices and loops.
-/

namespace ScriptFront

open Text

/-- Tokens that **differ in their place only**; at the end of the input there is nothing else. -/
def Token.Same (t u : Token) : Prop :=
  t.kind = u.kind ∧ (t.kind ≠ .eof → t.value = u.value)

namespace Token.Same

/-- A token differs from itself in nothing. -/
@[simp] theorem refl (t : Token) : t.Same t := ⟨rfl, fun _ => rfl⟩

/-- Tokens that differ in their place only do so from all that do. -/
theorem trans {t u v : Token} (h : t.Same u) (h' : u.Same v) : t.Same v :=
  ⟨h.1.trans h'.1, fun hk => (h.2 hk).trans (h'.2 (h.1 ▸ hk))⟩

end Token.Same

namespace Cursor

variable {σ : Type} [TokenSource σ]

/-- **Taking** the tokens, none of them the end of the input, leads from one cursor to the
other. -/
def Takes : Cursor σ → List Token → Cursor σ → Prop
  | c, [], c' => c = c'
  | c, t :: ts, c' => c.current = t ∧ t.kind ≠ .eof ∧ c.step.Takes ts c'

/-- Tokens are taken together if they are taken in turn. -/
theorem takes_append {c c'' : Cursor σ} {ts us : List Token} :
    c.Takes (ts ++ us) c'' ↔ ∃ c', c.Takes ts c' ∧ c'.Takes us c'' := by
  induction ts generalizing c with
  | nil => simp [Takes]
  | cons t ts ih =>
      rw [List.cons_append, Takes, ih]
      constructor
      · rintro ⟨ht, hk, c', h, h'⟩
        exact ⟨c', ⟨ht, hk, h⟩, h'⟩
      · rintro ⟨c', ⟨ht, hk, h⟩, h'⟩
        exact ⟨ht, hk, c', h, h'⟩

/-- Tokens that are taken in turn are taken together. -/
theorem Takes.append {c c' c'' : Cursor σ} {ts us : List Token} (h : c.Takes ts c')
    (h' : c'.Takes us c'') : c.Takes (ts ++ us) c'' :=
  takes_append.mpr ⟨c', h, h'⟩

/-- The end of the input is never taken. -/
theorem Takes.kind_ne_eof {c c' : Cursor σ} {ts : List Token} (h : c.Takes ts c') :
    ∀ t ∈ ts, t.kind ≠ .eof := by
  induction ts generalizing c with
  | nil => exact nofun
  | cons t ts ih => exact List.forall_mem_cons.mpr ⟨h.2.1, ih h.2.2⟩

/-- Where the same tokens are taken up to the same token, they begin with the same token. -/
theorem Takes.same_current {c c' d d' : Cursor σ} {ts : List Token} (hc : c.Takes ts c')
    (hd : d.Takes ts d') (h : d'.current.Same c'.current) : d.current.Same c.current := by
  cases ts with
  | nil =>
      cases hc
      cases hd
      exact h
  | cons t ts =>
      rw [hc.1, hd.1]
      exact .refl t

end Cursor

namespace Parse

variable {σ : Type} [TokenSource σ] {α β : Type}

/-! ### Phrases -/

/-- The parsers of the family **accept** the tokens `w` as `a` wherever a token in `F` follows, or
have not charges enough; and the token that is current then is in `B`. -/
def Accepts (X : Nat → Parse σ α) (w : List Token) (B F : Token → Prop) (a : α) : Prop :=
  (∀ t ∈ w, t.kind ≠ .eof) ∧
    ∃ m, ∀ d d' : Cursor σ, d.Takes w d' → F d'.current →
      B d.current ∧ ∀ n, X n d = .ok a d' ∨ n < m ∧ ∃ f c, X n d = .error f c

namespace Accepts

variable {X : Nat → Parse σ α} {w v : List Token} {B B' F F' G : Token → Prop} {a : α} {b : β}

/-- A phrase may begin with more tokens and be followed by fewer. -/
theorem mono (h : Accepts X w B F a) (hB : ∀ t, B t → B' t) (hF : ∀ t, F' t → F t) :
    Accepts X w B' F' a := by
  obtain ⟨hw, m, h⟩ := h
  refine ⟨hw, m, fun d d' ht hf => ?_⟩
  obtain ⟨hb, hrun⟩ := h d d' ht (hF _ hf)
  exact ⟨hB _ hb, hrun⟩

/-- Parsers that run alike where the phrase begins accept it alike. -/
theorem of_eq {Y : Nat → Parse σ α} (h : Accepts Y w B F a)
    (heq : ∀ n d, B d.current → X n d = Y n d) : Accepts X w B F a := by
  obtain ⟨hw, m, h⟩ := h
  refine ⟨hw, m, fun d d' ht hf => ?_⟩
  obtain ⟨hb, hrun⟩ := h d d' ht hf
  refine ⟨hb, fun n => ?_⟩
  rw [heq n d hb]
  exact hrun n

/-- **Phrases are put together** where the second begins with what may follow the first. -/
theorem bind {f : α → Nat → Parse σ β} (hx : Accepts X w B G a) (hf : Accepts (f a) v G F b) :
    Accepts (fun n => X n >>= fun a => f a n) (w ++ v) B F b := by
  obtain ⟨hw, m, hx⟩ := hx
  obtain ⟨hv, l, hf⟩ := hf
  refine ⟨fun t ht => (List.mem_append.mp ht).elim (hw t) (hv t), max m l, fun d d'' ht hF => ?_⟩
  obtain ⟨d', hw', hv'⟩ := Cursor.takes_append.mp ht
  obtain ⟨hG, hsecond⟩ := hf d' d'' hv' hF
  obtain ⟨hB, hfirst⟩ := hx d d' hw' hG
  refine ⟨hB, fun n => ?_⟩
  rcases hfirst n with hx | ⟨hn, g, e, hx⟩
  · rcases hsecond n with hf | ⟨hn, g, e, hf⟩
    · exact .inl ((bind_ok hx).trans hf)
    · exact .inr ⟨by omega, g, e, (bind_ok hx).trans hf⟩
  · exact .inr ⟨by omega, g, e, bind_error hx⟩

end Accepts

/-! ### Runs -/

/-- The fault `f` of a run from `c` **lies after the tokens** `u`, and no run over these and the
token it lies at ends otherwise than in a fault. Where a target is refused, that token is an
assignment. -/
def Located (X : Nat → Parse σ α) (c : Cursor σ) (f : ParseFault) (u : List Token) : Prop :=
  ∃ c', c.Takes u c' ∧ f.span = c'.current.span ∧
    (f.cause = .invalidTarget → c'.current.kind.isAssignment = true) ∧
    ∀ n d d', d.Takes u d' → d'.current.Same c'.current → ∃ g e, X n d = .error g e

/-- **What is said of a run** from `c`: a success has read a phrase, and a fault is located. In a
`relaxed` grammar, what stands before the fault can be completed to a phrase. A phrase begins with
a token in `B` or with the token of the run itself. -/
def Explained (relaxed : Prop) (X : Nat → Parse σ α) (B F : Token → Prop) (c : Cursor σ) :
    EStateM.Result ParseFault (Cursor σ) α → Prop
  | .ok a c' => ∃ w, c.Takes w c' ∧
      Accepts X w (fun t => B t ∨ t.Same c.current) (fun t => F t ∨ t.Same c'.current) a
  | .error f _ => f.cause ≠ .tooDeep → ∃ u, Located X c f u ∧
      (relaxed → ∃ v a, Accepts X (u ++ v) (fun t => B t ∨ t.Same c.current) F a)

namespace Explained

variable {r : Prop} {X : Nat → Parse σ α} {B B' F F' G : Token → Prop} {c : Cursor σ}

/-- Phrases may begin with more tokens and be followed by fewer. -/
theorem mono {res : EStateM.Result ParseFault (Cursor σ) α} (h : Explained r X B F c res)
    (hB : ∀ t, B t → B' t ∨ t.Same c.current) (hF : ∀ t, F' t → F t) :
    Explained r X B' F' c res := by
  have hB' : ∀ t, (B t ∨ t.Same c.current) → B' t ∨ t.Same c.current :=
    fun t ht => ht.elim (hB t) .inr
  cases res with
  | ok a c' =>
      obtain ⟨w, hw, ha⟩ := h
      exact ⟨w, hw, ha.mono hB' fun t ht => ht.imp_left (hF t)⟩
  | error f c' =>
      intro hf
      obtain ⟨u, hu, hv⟩ := h hf
      refine ⟨u, hu, fun hr => ?_⟩
      obtain ⟨v, a, ha⟩ := hv hr
      exact ⟨v, a, ha.mono hB' hF⟩

/-- Runs are explained alike for parsers that run alike at `B` and at the token of the run. -/
theorem of_eq {Y : Nat → Parse σ α} {res : EStateM.Result ParseFault (Cursor σ) α}
    (h : Explained r Y B F c res)
    (heq : ∀ n d, B d.current ∨ d.current.Same c.current → X n d = Y n d) :
    Explained r X B F c res := by
  cases res with
  | ok a c' =>
      obtain ⟨w, hw, ha⟩ := h
      exact ⟨w, hw, ha.of_eq heq⟩
  | error f c' =>
      intro hf
      obtain ⟨u, ⟨c'', hu, hspan, htarget, hdoom⟩, hv⟩ := h hf
      refine ⟨u, ⟨c'', hu, hspan, htarget, fun n d d' hd hsame => ?_⟩, fun hr => ?_⟩
      · rw [heq n d (.inr (hu.same_current hd hsame))]
        exact hdoom n d d' hd hsame
      · obtain ⟨v, a, ha⟩ := hv hr
        exact ⟨v, a, ha.of_eq heq⟩

/-- **A sequence is explained by its parts.** If the first part fails, what completes it is
followed by a phrase of the second. -/
theorem bind {f : α → Nat → Parse σ β} {n : Nat} (hx : Explained r X B G c (X n c))
    (hfiller : ∀ a, ∃ w b, Accepts (f a) w G F b)
    (hf : ∀ a c', X n c = .ok a c' → Explained r (f a) G F c' (f a n c')) :
    Explained r (fun n => X n >>= fun a => f a n) B F c ((X n >>= fun a => f a n) c) := by
  cases hrun : X n c with
  | error g e =>
      rw [bind_error hrun]
      rw [hrun] at hx
      intro hg
      obtain ⟨u, ⟨c', hu, hspan, htarget, hdoom⟩, hv⟩ := hx hg
      refine ⟨u, ⟨c', hu, hspan, htarget, fun n d d' hd hsame => ?_⟩, fun hr => ?_⟩
      · obtain ⟨g, e, he⟩ := hdoom n d d' hd hsame
        exact ⟨g, e, bind_error he⟩
      · obtain ⟨v, a, ha⟩ := hv hr
        obtain ⟨w, b, hb⟩ := hfiller a
        refine ⟨v ++ w, b, ?_⟩
        rw [← List.append_assoc]
        exact ha.bind hb
  | ok a c₁ =>
      rw [bind_ok hrun]
      have hy := hf a c₁ hrun
      rw [hrun] at hx
      obtain ⟨w, hw, ha⟩ := hx
      cases hrun' : f a n c₁ with
      | ok b c₂ =>
          rw [hrun'] at hy
          obtain ⟨v, hv, hb⟩ := hy
          exact ⟨w ++ v, hw.append hv, ha.bind hb⟩
      | error g e =>
          rw [hrun'] at hy
          intro hg
          obtain ⟨u, ⟨c', hu, hspan, htarget, hdoom⟩, hv⟩ := hy hg
          refine ⟨w ++ u, ⟨c', hw.append hu, hspan, htarget, fun n d d'' hd hsame => ?_⟩,
            fun hr => ?_⟩
          · obtain ⟨d', hdw, hdu⟩ := Cursor.takes_append.mp hd
            obtain ⟨m, hm⟩ := ha.2
            rcases (hm d d' hdw (.inr (hu.same_current hdu hsame))).2 n with hok | ⟨-, g, e, he⟩
            · obtain ⟨g, e, he⟩ := hdoom n d' d'' hdu hsame
              exact ⟨g, e, (bind_ok hok).trans he⟩
            · exact ⟨g, e, bind_error he⟩
          · obtain ⟨v, b, hb⟩ := hv hr
            refine ⟨v, b, ?_⟩
            rw [List.append_assoc]
            exact ha.bind hb

end Explained

/-! ### Viable parsers -/

/-- **Every run** from a token in `S` with fewer than `N` charges is explained, and there is a
phrase that is accepted. -/
structure Viable (relaxed : Prop) (N : Nat) (S B F : Token → Prop) (X : Nat → Parse σ α) :
    Prop where
  filler : ∃ w a, Accepts X w B F a
  explained : ∀ n < N, ∀ c : Cursor σ, S c.current → Explained relaxed X B F c (X n c)

/-- Every token. -/
def anyToken (_ : Token) : Prop := True

namespace Viable

variable {r : Prop} {N : Nat} {S S' B B' F F' G : Token → Prop} {X : Nat → Parse σ α}

/-- What is viable stays so from fewer tokens, with more that begin its phrases and fewer that
follow them. -/
theorem mono (h : Viable r N S B F X) (hS : ∀ t, S' t → S t) (hB : ∀ t, B t → B' t)
    (hF : ∀ t, F' t → F t) : Viable r N S' B' F' X where
  filler := by
    obtain ⟨w, a, ha⟩ := h.filler
    exact ⟨w, a, ha.mono hB hF⟩
  explained n hn c hc := (h.explained n hn c (hS _ hc)).mono (fun t ht => .inl (hB t ht)) hF

/-- What is viable from any token is so from some, with more that begin its phrases. -/
theorem widen (h : Viable r N anyToken B F X) (hB : ∀ t, B t → B' t) : Viable r N S B' F X :=
  h.mono (fun _ _ => trivial) hB fun _ ht => ht

/-- What is viable is so with fewer tokens that follow its phrases. -/
theorem narrow (h : Viable r N S B F X) (hF : ∀ t, F' t → F t) : Viable r N S B F' X :=
  h.mono (fun _ ht => ht) (fun _ ht => ht) hF

/-- **Viable parsers are viable in sequence**, where every token that may begin a phrase of the
second may follow one of the first. -/
theorem bind {f : α → Nat → Parse σ β} (hx : Viable r N S B G X)
    (hf : ∀ a, Viable r N anyToken G F (f a)) :
    Viable r N S B F (fun n => X n >>= fun a => f a n) where
  filler := by
    obtain ⟨w, a, ha⟩ := hx.filler
    obtain ⟨v, b, hb⟩ := (hf a).filler
    exact ⟨w ++ v, b, ha.bind hb⟩
  explained n hn c hc :=
    (hx.explained n hn c hc).bind (fun a => (hf a).filler)
      fun a c' _ => (hf a).explained n hn c' trivial

/-- A result by itself is viable, by the phrase without tokens. -/
theorem pure (a : α) : Viable r N S F F (fun _ => (Pure.pure a : Parse σ α)) where
  filler := ⟨[], a, nofun, 0, fun d d' ht hF => by cases ht; exact ⟨hF, fun _ => .inl rfl⟩⟩
  explained n hn c hc :=
    ⟨[], rfl, nofun, 0, fun d d' ht hF => by cases ht; exact ⟨hF, fun _ => .inl rfl⟩⟩

/-- A function of the result changes nothing about the phrases. -/
theorem map (g : α → β) (hx : Viable r N S B F X) : Viable r N S B F (fun n => g <$> X n) := by
  simp only [map_eq_pure_bind]
  exact hx.bind fun a => .pure (g a)

/-- Consuming a token that is not the end of the input; anything may follow. -/
theorem advance {t : Token} (ht : B t) (hk : t.kind ≠ .eof) (hS : ∀ t, S t → t.kind ≠ .eof) :
    Viable r N S B F (fun _ => (Parse.advance : Parse σ Token)) where
  filler := by
    refine ⟨[t], t, by simpa using hk, 0, ?_⟩
    rintro d d' ⟨rfl, -, rfl⟩ -
    exact ⟨ht, fun _ => .inl rfl⟩
  explained n hn c hc := by
    refine ⟨[c.current], ⟨rfl, hS _ hc, rfl⟩, by simpa using hS _ hc, 0, ?_⟩
    rintro d d' ⟨hd, -, rfl⟩ -
    exact ⟨.inr (hd ▸ .refl _), fun _ => .inl (by rw [← hd]; rfl)⟩

/-- Consuming the token that the run begins with. -/
theorem consume {t : Token} (hk : t.kind ≠ .eof) :
    Viable r N (·.Same t) (·.Same t) F (fun _ => (Parse.advance : Parse σ Token)) :=
  .advance (.refl t) hk fun _ ht => ht.1 ▸ hk

end Viable

/-! ### Choices -/

/-- **No run succeeds** from a token in `S`; and where the grammar is relaxed, it is that token
which is refused. -/
structure Hopeless (relaxed : Prop) (N : Nat) (S : Token → Prop) (X : Nat → Parse σ α) :
    Prop where
  fails : ∀ n (c : Cursor σ), S c.current → ∃ f c', X n c = .error f c'
  located : ∀ n < N, ∀ (c : Cursor σ) f c', S c.current → X n c = .error f c' →
    f.cause ≠ .tooDeep → ∃ u, Located X c f u ∧ (relaxed → u = [])

/-- A token that is refused at once. -/
theorem Hopeless.of_fails {r : Prop} {N : Nat} {t : Token} {X : Nat → Parse σ α}
    (h : ∀ n (c : Cursor σ), c.current.Same t → ∃ f c', X n c = .error f c' ∧
      f.span = c.current.span ∧ f.cause ≠ .invalidTarget) : Hopeless r N (·.Same t) X where
  fails n c hc := by
    obtain ⟨f, c', hx, -⟩ := h n c hc
    exact ⟨f, c', hx⟩
  located n hn c f c' hc hx hdeep := by
    obtain ⟨g, e, hx', hspan, hcause⟩ := h n c hc
    rw [hx] at hx'
    cases hx'
    refine ⟨[], ⟨c, rfl, hspan, fun h => absurd h hcause, fun n d d' hd hsame => ?_⟩, fun _ => rfl⟩
    cases hd
    obtain ⟨g, e, hx', -⟩ := h n d (hsame.trans hc)
    exact ⟨g, e, hx'⟩

/-- Where a run of `Z` is one of a hopeless `X`, the token it refuses can only be replaced: what
stands before it is completed by a phrase of `Z`. -/
theorem Hopeless.explained {r : Prop} {N n : Nat} {B F : Token → Prop} {c : Cursor σ}
    {X Z : Nat → Parse σ α} (h : Hopeless r N (·.Same c.current) X) (hn : n < N)
    (hfiller : ∃ w a, Accepts Z w B F a)
    (heq : ∀ n d, d.current.Same c.current → Z n d = X n d) : Explained r Z B F c (X n c) := by
  obtain ⟨g, e, hx⟩ := h.fails n c (.refl _)
  rw [hx]
  intro hdeep
  obtain ⟨u, ⟨c', hu, hspan, htarget, hdoom⟩, hnil⟩ := h.located n hn c g e (.refl _) hx hdeep
  refine ⟨u, ⟨c', hu, hspan, htarget, fun n d d' hd hs => ?_⟩, fun hr => ?_⟩
  · rw [heq n d (hu.same_current hd hs)]
    exact hdoom n d d' hd hs
  · obtain ⟨w, a, ha⟩ := hfiller
    refine ⟨w, a, ?_⟩
    rw [hnil hr]
    exact ha.mono (fun _ hu => .inl hu) fun _ hu => hu

/-- **A choice by the current token**, every one of which leads to a branch that is viable, in
phrases that begin with that token, or to one that is hopeless; and one of the first sort there
is. -/
theorem Viable.dispatch {r : Prop} {N : Nat} {S B F : Token → Prop} {Z : Nat → Parse σ α}
    (hfiller : ∃ t X, Viable r N (·.Same t) (·.Same t) F X ∧ (∀ u, u.Same t → B u) ∧
      ∀ n d, d.current.Same t → Z n d = X n d)
    (h : ∀ t, S t → ∃ X, (∀ n d, d.current.Same t → Z n d = X n d) ∧
      (Viable r N (·.Same t) (·.Same t) F X ∨ Hopeless r N (·.Same t) X)) :
    Viable r N S B F Z := by
  have hfill : ∃ w a, Accepts Z w B F a := by
    obtain ⟨t, X, hv, hB, heq⟩ := hfiller
    obtain ⟨w, a, ha⟩ := hv.filler
    exact ⟨w, a, (ha.of_eq heq).mono hB fun _ hu => hu⟩
  refine ⟨hfill, fun n hn c hc => ?_⟩
  obtain ⟨X, heq, hX⟩ := h c.current hc
  rw [heq n c (.refl _)]
  rcases hX with hv | hh
  · have hZ := (hv.explained n hn c (.refl _)).of_eq fun n d hd => heq n d (hd.elim id id)
    exact hZ.mono (fun _ hu => .inr hu) fun _ ht => ht
  · exact hh.explained hn hfill heq

/-- **The first alternative** of a choice by kind, and the choice among the others. -/
theorem Viable.firstOf {r : Prop} {N : Nat} {S B F : Token → Prop} {p : Kind → Prop}
    [DecidablePred p] {X : Nat → Parse σ α} {g : Kind → Nat → Parse σ α}
    (hX : ∀ t, S t → p t.kind →
      Viable r N (·.Same t) (·.Same t) F X ∨ Hopeless r N (·.Same t) X)
    (hg : Viable r N (fun t => S t ∧ ¬p t.kind) B F (fun n => Parse.kind >>= fun k => g k n))
    (hB : ∀ t, B t → ¬p t.kind) :
    Viable r N S B F (fun n => Parse.kind >>= fun k => if p k then X n else g k n) := by
  have hrest : ∀ n (d : Cursor σ), ¬p d.current.kind →
      (Parse.kind >>= fun k => if p k then X n else g k n) d =
        (Parse.kind >>= fun k => g k n) d := fun n d hd => by
    rw [kind_bind, kind_bind, if_neg hd]
  have hfill : ∃ w a, Accepts (fun n => Parse.kind >>= fun k => if p k then X n else g k n)
      w B F a := by
    obtain ⟨w, a, ha⟩ := hg.filler
    exact ⟨w, a, ha.of_eq fun n d hd => hrest n d (hB _ hd)⟩
  refine ⟨hfill, fun n hn c hc => ?_⟩
  by_cases hp : p c.current.kind
  · have heq : ∀ n d, d.current.Same c.current →
        (Parse.kind >>= fun k => if p k then X n else g k n) d = X n d := fun n d hd => by
      rw [kind_bind, if_pos (hd.1 ▸ hp)]
    rw [kind_bind, if_pos hp]
    rcases hX c.current hc hp with hv | hh
    · have hZ := (hv.explained n hn c (.refl _)).of_eq
        (X := fun n => Parse.kind >>= fun k => if p k then X n else g k n)
        fun n d hd => heq n d (hd.elim id id)
      exact hZ.mono (fun _ hu => .inr hu) fun _ ht => ht
    · exact hh.explained hn hfill heq
  · rw [hrest n c hp]
    exact (hg.explained n hn c ⟨hc, hp⟩).of_eq fun n d hd =>
      hrest n d (hd.elim (hB _) fun hd => hd.1 ▸ hp)

/-- **Two alternatives** told apart by the current kind, of which phrases lead to one or to the
other. -/
theorem Viable.choice {r : Prop} {N : Nat} {S B B' F : Token → Prop} {p : Kind → Prop}
    [DecidablePred p] {X Y : Nat → Parse σ α} (hX : Viable r N (fun t => p t.kind) B F X)
    (hY : Viable r N (fun t => ¬p t.kind) B' F Y) (hB : ∀ t, B t → p t.kind)
    (hB' : ∀ t, B' t → ¬p t.kind) :
    Viable r N S (fun t => B t ∨ B' t) F
      (fun n => Parse.kind >>= fun k => if p k then X n else Y n) where
  filler := by
    obtain ⟨w, a, ha⟩ := hX.filler
    refine ⟨w, a, (ha.of_eq fun n d hd => ?_).mono (fun _ => .inl) fun _ hu => hu⟩
    rw [kind_bind, if_pos (hB _ hd)]
  explained n hn c _ := by
    rw [kind_bind]
    by_cases hp : p c.current.kind
    · rw [if_pos hp]
      have h := (hX.explained n hn c hp).of_eq
        (X := fun n => Parse.kind >>= fun k => if p k then X n else Y n) fun n d hd => by
          rw [kind_bind, if_pos (hd.elim (hB _) fun hd => hd.1 ▸ hp)]
      exact h.mono (fun _ hu => .inl (.inl hu)) fun _ hu => hu
    · rw [if_neg hp]
      have h := (hY.explained n hn c hp).of_eq
        (X := fun n => Parse.kind >>= fun k => if p k then X n else Y n) fun n d hd => by
          rw [kind_bind, if_neg (hd.elim (hB' _) fun hd => hd.1 ▸ hp)]
      exact h.mono (fun _ hu => .inl (.inr hu)) fun _ hu => hu

/-! ### Charges -/

/-- The family with **one charge taken** before each of its members. -/
def charge (X : Nat → Parse σ α) : Nat → Parse σ α
  | 0 => tooDeep
  | n + 1 => X n

/-- A phrase that is accepted is so with one charge more. -/
theorem Accepts.charge {X : Nat → Parse σ α} {w : List Token} {B F : Token → Prop} {a : α}
    (h : Accepts X w B F a) : Accepts (charge X) w B F a := by
  obtain ⟨hw, m, h⟩ := h
  refine ⟨hw, m + 1, fun d d' ht hF => ?_⟩
  obtain ⟨hB, hrun⟩ := h d d' ht hF
  refine ⟨hB, fun n => ?_⟩
  cases n with
  | zero => exact .inr ⟨Nat.succ_pos m, _, _, rfl⟩
  | succ n => exact (hrun n).imp_right fun h => ⟨Nat.succ_lt_succ h.1, h.2⟩

/-- What is said of runs with fewer than `N` charges is said of those with one more. -/
theorem Viable.charge {r : Prop} {N : Nat} {S B F : Token → Prop} {X : Nat → Parse σ α}
    (h : Viable r N S B F X) : Viable r (N + 1) S B F (charge X) where
  filler := by
    obtain ⟨w, a, ha⟩ := h.filler
    exact ⟨w, a, ha.charge⟩
  explained n hn c hc := by
    cases n with
    | zero => exact fun hdeep => absurd rfl hdeep
    | succ n =>
        have hrun := h.explained n (Nat.lt_of_succ_lt_succ hn) c hc
        rw [Parse.charge]
        cases hres : X n c with
        | ok a c' =>
            rw [hres] at hrun
            obtain ⟨w, hw, ha⟩ := hrun
            exact ⟨w, hw, ha.charge⟩
        | error f c' =>
            rw [hres] at hrun
            intro hdeep
            obtain ⟨u, ⟨c'', hu, hspan, htarget, hdoom⟩, hv⟩ := hrun hdeep
            refine ⟨u, ⟨c'', hu, hspan, htarget, fun n d d' hd hs => ?_⟩, fun hr => ?_⟩
            · cases n with
              | zero => exact ⟨_, _, rfl⟩
              | succ n => exact hdoom n d d' hd hs
            · obtain ⟨v, a, ha⟩ := hv hr
              exact ⟨v, a, ha.charge⟩

/-! ### Loops -/

/-- **A loop** is viable if its rounds are. What a round may be followed by includes what follows
the loop and what a round begins with. Induction on the tokens that can still come. -/
theorem Viable.foldWhile {r : Prop} {N : Nat} {S L F : Token → Prop} {continues : Kind → Bool}
    {g : α → Nat → Parse σ α} (heof : continues .eof = false)
    (hprogress : ∀ a n, Advances (continues · = true) true (g a n))
    (hround : ∀ a t, continues t.kind = true →
      Viable r N (·.Same t) (fun u => u.Same t ∨ L u ∧ continues u.kind = true) L (g a))
    (hF : ∀ t, F t → L t ∧ continues t.kind = false) (a : α) :
    Viable r N S L F (fun n => foldWhile continues (g · n) a) := by
  have hstop : ∀ a n (c : Cursor σ), continues c.current.kind = false →
      Parse.foldWhile continues (g · n) a c = .ok a c := fun a n c hk => by
    rw [foldWhile_eq, foldWithin_stop hk]
  have hgo : ∀ a n (c : Cursor σ), continues c.current.kind = true →
      Parse.foldWhile continues (g · n) a c =
        (g a n >>= fun b => Parse.foldWhile continues (g · n) b) c := fun a n c hk => by
    rw [foldWhile_unroll heof (fun a => hprogress a n), kind_bind, if_pos hk]
  have hfill : ∀ a, ∃ w b, Accepts (fun n => Parse.foldWhile continues (g · n) a) w L F b := by
    refine fun a => ⟨[], a, nofun, 0, fun d d' ht hd => ?_⟩
    cases ht
    exact ⟨(hF _ hd).1, fun n => .inl (hstop a n d (hF _ hd).2)⟩
  have hleft : ∀ a (c : Cursor σ), continues c.current.kind = false →
      Explained r (fun n => Parse.foldWhile continues (g · n) a) L F c (.ok a c) := by
    refine fun a c hk => ⟨[], rfl, nofun, 0, fun d d' ht hd => ?_⟩
    cases ht
    rcases hd with hd | hd
    · exact ⟨.inl (hF _ hd).1, fun n => .inl (hstop a n d (hF _ hd).2)⟩
    · exact ⟨.inr hd, fun n => .inl (hstop a n d (hd.1 ▸ hk))⟩
  have hrun : ∀ m n, n < N → ∀ a (c : Cursor σ), c.remaining ≤ m →
      Explained r (fun n => Parse.foldWhile continues (g · n) a) L F c
        (Parse.foldWhile continues (g · n) a c) := by
    intro m n hn
    induction m with
    | zero =>
        intro a c hm
        have hk : continues c.current.kind = false := by
          rw [Cursor.kind_eq_eof_of_remaining (Nat.le_zero.mp hm), heof]
        rw [hstop a n c hk]
        exact hleft a c hk
    | succ m ih =>
        intro a c hm
        cases hk : continues c.current.kind with
        | false =>
            rw [hstop a n c hk]
            exact hleft a c hk
        | true =>
            rw [hgo a n c hk]
            have hboth := ((hround a c.current hk).explained n hn c (.refl _)).bind (n := n)
              (f := fun b n => Parse.foldWhile continues (g · n) b) hfill
              fun b c' hb => by
                have hlt : c'.remaining + 1 ≤ c.remaining := (hprogress a n).ok hk hb
                exact ih b c' (by omega)
            have hloop := hboth.of_eq (X := fun n => Parse.foldWhile continues (g · n) a)
              fun n d hd => by
                refine hgo a n d ?_
                rcases hd with (hd | hd) | hd
                · exact hd.1 ▸ hk
                · exact hd.2
                · exact hd.1 ▸ hk
            exact hloop.mono (fun t ht => ht.elim .inr fun ht => .inl ht.1) fun _ ht => ht
  exact ⟨hfill a, fun n hn c _ => hrun _ n hn a c (Nat.le_refl _)⟩

end Parse

end ScriptFront
