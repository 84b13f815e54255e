import HclTidy.Proofs.Expr.Alike
import HclTidy.Proofs.Indexed.Reader

/-!
# Single steps of reading by index

Where a state of the reader by index stands for a cursor, looking ahead and eating do on the list what
taking a token does on the cursor. The reader may have passed over line breaks that the cursor has
still in front of it, as long as they are layout.
-/

set_option autoImplicit false

namespace HclTidy

/-- Tokens as they are seen in a line mode. -/
def LineMode.view (mode : LineMode) (ts : List Token) : List Token :=
  match mode with
  | .significant => ts
  | .ignored => ts.dropWhile (Token.isKind .newline)

theorem LineMode.view_suffix (mode : LineMode) (ts : List Token) : mode.view ts <:+ ts := by
  cases mode with
  | significant => exact List.suffix_refl ts
  | ignored => exact List.dropWhile_suffix _

/-- Tokens as they are seen from `offset` tokens further on. -/
def LineMode.ahead (mode : LineMode) : Nat → List Token → List Token
  | 0, ts => ts
  | offset + 1, ts => mode.ahead offset (mode.view ts.tail)

theorem Cursor.view_eq (mode : LineMode) (c : Cursor) : c.view mode = mode.view c.rest := by
  cases mode <;> rfl

theorem LineMode.view_view (mode : LineMode) (ts : List Token) : mode.view (mode.view ts) = mode.view ts := by
  cases mode with
  | significant => rfl
  | ignored => exact List.dropWhile_idempotent _ _

/-- Behind layout, line breaks come next in neither mode. -/
theorem LineMode.view_ignored (mode : LineMode) (ts : List Token) :
    mode.view (LineMode.view .ignored ts) = LineMode.view .ignored ts := by
  cases mode with
  | significant => rfl
  | ignored => exact LineMode.view_view .ignored ts

namespace Indexed

/-! ## Runs -/

section Runs

variable {α β γ : Type}

def Yields (x : Run β) (s : State) (b : β) (s' : State) : Prop := x s = some (.ok (b, s'))

def Refuses (x : Run β) (s : State) (failure : ParseFailure) : Prop :=
  x s = some (.error (.refused failure))

/-- From some depth on the runs do what the reading does: they yield a value where the reading has one,
and refuse for the same reason where it has none. -/
def Follows (r : Reading α) (x : Nat → Run β) (s : State) (P : α → β → State → Prop) : Prop :=
  match r with
  | .ok a => ∃ b s', (∀ᶠ depth in Filter.atTop, Yields (x depth) s b s') ∧ P a b s'
  | .error failure => ∀ᶠ depth in Filter.atTop, Refuses (x depth) s failure

theorem yields_pure (b : β) (s : State) : Yields (pure b) s b s := rfl

section Single

variable {x : Run β} {k : β → Run γ} {s s' s'' : State} {b : β}

theorem bind_of_yields (h : Yields x s b s') : (x >>= k) s = k b s' := by
  have hbind : (x >>= k) s = (match x s with
      | some (.ok (b, s')) => k b s'
      | some (.error halt) => some (.error halt)
      | none => none : Option (Except Halt (γ × State))) := by
    change (x s >>= fun p => k p.1 p.2 : ExceptT Halt Option (γ × State)) = _
    generalize x s = r
    match r with
    | some (.ok (b, s')) => rfl
    | some (.error halt) => rfl
    | none => rfl
  rw [hbind, show x s = _ from h]

theorem Yields.bind {d : γ} (h : Yields x s b s') (hk : Yields (k b) s' d s'') :
    Yields (x >>= k) s d s'' := (bind_of_yields h).trans hk

theorem Refuses.bind {failure : ParseFailure} (h : Refuses x s failure) :
    Refuses (x >>= k) s failure := by
  change (x s >>= fun p => k p.1 p.2 : ExceptT Halt Option (γ × State)) = _
  rw [show x s = _ from h]
  rfl

end Single

variable {x : Nat → Run β} {k : Nat → β → Run γ} {s s' : State} {a : α} {b : β} {r : Reading α}
  {P : α → β → State → Prop} {Q : α → γ → State → Prop}

theorem eventually_of_succ {p : Nat → Prop} (h : ∀ᶠ depth in Filter.atTop, p (depth + 1)) :
    ∀ᶠ depth in Filter.atTop, p depth := by
  rw [← Filter.map_add_atTop_eq_nat 1]
  exact h

/-- A run may be opened, which takes one off its depth. -/
theorem Follows.deeper (h : Follows r (fun depth => x (depth + 1)) s P) : Follows r x s P := by
  cases r with
  | ok a =>
    obtain ⟨b, s', hb, hp⟩ := h
    exact ⟨b, s', eventually_of_succ hb, hp⟩
  | error failure => exact eventually_of_succ h

theorem Follows.eventually (h : ∀ᶠ depth in Filter.atTop, Yields (x depth) s b s')
    (hk : Follows r (fun depth => k depth b) s' Q) : Follows r (fun depth => x depth >>= k depth) s Q := by
  cases r with
  | ok a =>
    obtain ⟨d, s'', hd, hq⟩ := hk
    exact ⟨d, s'', (h.and hd).mono fun _ h => h.1.bind h.2, hq⟩
  | error failure => exact (h.and hk).mono fun _ h => (bind_of_yields h.1).trans h.2

theorem Follows.after {x : Run β} (h : Yields x s b s') (hk : Follows r (fun depth => k depth b) s' Q) :
    Follows r (fun depth => x >>= k depth) s Q := .eventually (.of_forall fun _ => h) hk

theorem follows_yields {x : Run β} (h : Yields x s b s') (hp : P a b s') :
    Follows (.ok a) (fun _ => x) s P := ⟨b, s', .of_forall fun _ => h, hp⟩

theorem follows_pure (h : P a b s) : Follows (.ok a) (fun _ => pure b) s P :=
  follows_yields (yields_pure b s) h

theorem follows_refuses {x : Run β} {failure : ParseFailure} (h : Refuses x s failure) :
    Follows (.error failure) (fun _ => x) s P := .of_forall fun _ => h

theorem Follows.bind {δ : Type} {next : α → Reading δ} {R : δ → γ → State → Prop} (h : Follows r x s P)
    (hk : ∀ a b s', P a b s' → Follows (next a) (fun depth => k depth b) s' R) :
    Follows (r >>= next) (fun depth => x depth >>= k depth) s R := by
  cases r with
  | ok a =>
    obtain ⟨b, s', hb, hp⟩ := h
    exact Follows.eventually hb (hk a b s' hp)
  | error failure => exact Filter.Eventually.mono h fun _ h => h.bind

theorem Follows.mono {P' : α → β → State → Prop} (h : Follows r x s P)
    (himp : ∀ a b s', P a b s' → P' a b s') : Follows r x s P' := by
  cases r with
  | ok a =>
    obtain ⟨b, s', hb, hp⟩ := h
    exact ⟨b, s', hb, himp a b s' hp⟩
  | error failure => exact h

/-- The reading goes on where the run is done. -/
theorem Follows.map {δ : Type} {next : α → Reading δ} {R : δ → β → State → Prop} (h : Follows r x s P)
    (hk : ∀ a b s', P a b s' → Follows (next a) (fun _ => pure b) s' R) : Follows (r >>= next) x s R := by
  rw [show x = fun depth => x depth >>= pure from funext fun _ => (bind_pure _).symm]
  exact h.bind hk

/-- The run goes on where the reading is done. -/
theorem Follows.andThen (h : Follows r x s P)
    (hk : ∀ a b s', P a b s' → Follows (.ok a) (fun depth => k depth b) s' Q) :
    Follows r (fun depth => x depth >>= k depth) s Q := by
  cases r with
  | ok a =>
    obtain ⟨b, s', hb, hp⟩ := h
    exact Follows.eventually hb (hk a b s' hp)
  | error failure => exact Filter.Eventually.mono h fun _ h => h.bind

end Runs

/-! ## Places -/

/-- The list of tokens ends in its only token for the end of the text. -/
structure EndsIn (input : Input) (code : List Token) (last : Token) : Prop where
  tokens : input.tokens = code ++ [last]
  kind : last.kind = .endOfText
  inner : ∀ t ∈ code, t.kind ≠ .endOfText

/-- The tokens from the index of the state on are `ts` and the end of the text, and the cursor stands
where the state stands otherwise. -/
structure Stands (input : Input) (code : List Token) (last : Token) (ts : List Token) (s : State)
    (c : Cursor) : Prop where
  tokens : input.tokens.drop s.position = ts ++ [last]
  stop : s.stop = c.stop
  events : s.events = c.events
  suffix : c.rest <:+ code

section Places

variable (input : Input) (code : List Token) (last : Token)

/-- Right where the cursor stands. -/
abbrev Exact (s : State) (c : Cursor) : Prop := Stands input code last c.rest s c

/-- At the token that comes next. -/
abbrev Settled (mode : LineMode) (s : State) (c : Cursor) : Prop :=
  Stands input code last (c.view mode) s c

/-- Where the same token comes next. -/
def At (mode : LineMode) (s : State) (c : Cursor) : Prop :=
  ∃ ts, Stands input code last ts s c ∧ s.mode.view ts = c.view mode

end Places

variable {input : Input} {code : List Token} {last : Token} {mode : LineMode} {s s' : State}
  {c : Cursor} {ts : List Token}

theorem Stands.with (h : Stands input code last ts s c) (hposition : s'.position = s.position)
    (hstop : s'.stop = s.stop) (hevents : s'.events = s.events) : Stands input code last ts s' c :=
  ⟨by rw [hposition]; exact h.tokens, hstop.trans h.stop, hevents.trans h.events, h.suffix⟩

theorem Stands.at_exact (h : Exact input code last s c) (hmode : s.mode = mode) :
    At input code last mode s c := ⟨c.rest, h, by rw [hmode, Cursor.view_eq]⟩

theorem Stands.at_settled (h : Settled input code last mode s c) (hmode : s.mode = mode) :
    At input code last mode s c :=
  ⟨c.view mode, h, by rw [hmode, Cursor.view_eq, LineMode.view_view]⟩

/-- Behind layout the next token is the same in every mode. -/
theorem Stands.at_ignored (h : Settled input code last .ignored s c) : At input code last .ignored s c :=
  ⟨c.view .ignored, h, by rw [Cursor.view_eq, LineMode.view_ignored]⟩

/-- The mode is that of the cursor, and the same token comes next. -/
structure Ready (input : Input) (code : List Token) (last : Token) (mode : LineMode) (s : State)
    (c : Cursor) : Prop where
  place : At input code last mode s c
  mode : s.mode = mode

/-- What has been read from a state on: the reader is at a place, its modes are as before, at least `n`
tokens have been eaten, and the index has moved on by those at least. -/
structure Came (place : State → Cursor → Prop) (n : Nat) (s : State) (c : Cursor) (s' : State) : Prop where
  here : place s' c
  modes : s'.modes = s.modes
  eaten : s.eaten + n ≤ s'.eaten
  position : s'.eaten + s.position ≤ s.eaten + s'.position

section Came

variable {place place' : State → Cursor → Prop} {m n : Nat} {s'' : State} {d : Cursor}

theorem State.mode_of_modes (h : s'.modes = s.modes) : s'.mode = s.mode := by
  unfold State.mode
  rw [h]

theorem Came.mode_eq (h : Came place n s c s') : s'.mode = s.mode := State.mode_of_modes h.modes

theorem Came.refl (h : place s c) : Came place 0 s c s := ⟨h, rfl, Nat.le_refl _, Nat.le_refl _⟩

theorem Came.trans (h : Came place n s c s') (h' : Came place' m s' d s'') :
    Came place' (n + m) s d s'' where
  here := h'.here
  modes := h'.modes.trans h.modes
  eaten := by have := h.eaten; have := h'.eaten; omega
  position := by have := h.position; have := h'.position; omega

theorem Came.of_le (h : Came place n s c s') (hm : m ≤ n) : Came place m s c s' :=
  { h with eaten := (Nat.add_le_add_left hm _).trans h.eaten }

theorem Came.of_imp (h : Came place n s c s') (himp : place s' c → place' s' c) : Came place' n s c s' :=
  { h with here := himp h.here }

theorem Came.moved (h : Came place n s c s') (hn : 0 < n) : s.eaten < s'.eaten :=
  Nat.lt_of_lt_of_le (Nat.lt_add_of_pos_right hn) h.eaten

theorem Came.ready_exact (h : Came (Exact input code last) n s c s') (hmode : s.mode = mode) :
    Ready input code last mode s' c :=
  ⟨h.here.at_exact (h.mode_eq.trans hmode), h.mode_eq.trans hmode⟩

theorem Came.ready_settled (h : Came (Settled input code last mode) n s c s') (hmode : s.mode = mode) :
    Ready input code last mode s' c :=
  ⟨h.here.at_settled (h.mode_eq.trans hmode), h.mode_eq.trans hmode⟩

/-- Right where the cursor stands, the same token comes next. -/
theorem Came.at_exact (h : Came (Exact input code last) n s c s') (hmode : s.mode = mode) :
    Came (At input code last mode) n s c s' := h.of_imp fun _ => (h.ready_exact hmode).place

theorem Came.ready (h : Came (At input code last mode) n s c s') (hmode : s.mode = mode) :
    Ready input code last mode s' c := ⟨h.here, h.mode_eq.trans hmode⟩

end Came

/-- The next token has been looked at, and the same token comes next again. -/
structure Peeked (input : Input) (code : List Token) (last : Token) (mode : LineMode) (s : State)
    (c : Cursor) (s' : State) : Prop extends Came (Settled input code last mode) 0 s c s' where
  again : At input code last mode s' c

theorem Peeked.came_again (h : Peeked input code last mode s c s') :
    Came (At input code last mode) 0 s c s' := h.of_imp fun _ => h.again

/-! ## Looking ahead -/

theorem getElem?_of_drop {i : Nat} {t : Token} (h : input.tokens.drop i = t :: ts) :
    input.tokens[i]? = some t := by
  rw [← Nat.add_zero i, ← List.getElem?_drop, h]
  rfl

theorem drop_succ {i : Nat} {t : Token} (h : input.tokens.drop i = t :: ts) :
    input.tokens.drop (i + 1) = ts := by
  rw [← List.tail_drop, h]
  rfl

theorem yields_tokenAt {i : Nat} {t : Token} (h : input.tokens.drop i = t :: ts) (s : State) :
    Yields (tokenAt input i) s t s := by
  unfold tokenAt
  rw [getElem?_of_drop h]
  rfl

theorem skipFrom_of_drop {i : Nat} {t : Token} (h : input.tokens.drop i = t :: ts) :
    skipFrom input i = if t.kind = .newline then skipFrom input (i + 1) else pure i := by
  rw [skipFrom]
  split
  · next hnone =>
    rw [getElem?_of_drop h] at hnone
    cases hnone
  · next token htoken =>
    rw [getElem?_of_drop h] at htoken
    obtain rfl := Option.some.inj htoken
    rfl

theorem yields_skipFrom (hlast : last.kind ≠ .newline) (s : State) {i : Nat}
    (h : input.tokens.drop i = ts ++ [last]) :
    ∃ j, Yields (skipFrom input i) s j s ∧ i ≤ j ∧
      input.tokens.drop j = ts.dropWhile (Token.isKind .newline) ++ [last] := by
  induction ts generalizing i with
  | nil =>
    refine ⟨i, ?_, Nat.le_refl i, h⟩
    rw [skipFrom_of_drop h, if_neg hlast]
    exact yields_pure i s
  | cons t ts ih =>
    rw [skipFrom_of_drop h]
    by_cases hn : t.kind = .newline
    · obtain ⟨j, hj, hle, hdrop⟩ := ih (drop_succ h)
      rw [if_pos hn, Comparison.dropWhile_cons_newline hn]
      exact ⟨j, hj, Nat.le_of_succ_le hle, hdrop⟩
    · rw [if_neg hn, Comparison.dropWhile_cons hn]
      exact ⟨i, yields_pure i s, Nat.le_refl i, h⟩

theorem yields_settle (hlast : last.kind ≠ .newline) (mode : LineMode) (s : State) {i : Nat}
    (h : input.tokens.drop i = ts ++ [last]) :
    ∃ j, Yields (settle input mode i) s j s ∧ i ≤ j ∧ input.tokens.drop j = mode.view ts ++ [last] := by
  cases mode with
  | significant => exact ⟨i, yields_pure i s, Nat.le_refl i, h⟩
  | ignored => exact yields_skipFrom hlast s h

theorem EndsIn.ne_newline (hend : EndsIn input code last) : last.kind ≠ .newline := by
  rw [hend.kind]
  decide

theorem head_append (ts : List Token) (last : Token) :
    ∃ rest, ts ++ [last] = ts.headD last :: rest := by
  cases ts with
  | nil => exact ⟨[], rfl⟩
  | cons t ts => exact ⟨ts ++ [last], rfl⟩

theorem yields_lookAhead (hend : EndsIn input code last) (mode : LineMode) (s : State) (offset : Nat)
    {i : Nat} (hcode : ts <:+ code) (h : input.tokens.drop i = ts ++ [last]) :
    Yields (lookAhead input mode i offset) s ((mode.ahead offset ts).headD last) s := by
  induction offset generalizing ts i with
  | zero =>
    obtain ⟨rest, hrest⟩ := head_append ts last
    exact yields_tokenAt (h.trans hrest) s
  | succ offset ih =>
    rw [lookAhead]
    cases ts with
    | nil =>
      have hnil (mode : LineMode) (n : Nat) : mode.ahead n [] = [] := by
        induction n with
        | zero => rfl
        | succ n ih => cases mode <;> exact ih
      refine (yields_tokenAt h s).bind ?_
      rw [if_pos hend.kind, hnil]
      exact yields_pure last s
    | cons t ts =>
      have hview := (mode.view_suffix ts).trans ((List.suffix_cons t ts).trans hcode)
      obtain ⟨j, hj, -, hdrop⟩ := yields_settle hend.ne_newline mode s (drop_succ h)
      refine (yields_tokenAt h s).bind ?_
      rw [if_neg (hend.inner t (hcode.subset (List.mem_cons_self ..)))]
      exact hj.bind (ih hview hdrop)

/-- Looking ahead by any number of tokens. -/
theorem yields_peek_ahead (hend : EndsIn input code last) (offset : Nat)
    (h : At input code last mode s c) :
    ∃ s', Yields (peek input offset) s ((s.mode.ahead offset (c.view mode)).headD last) s' ∧
      Peeked input code last mode s c s' := by
  obtain ⟨ts, hs, hview⟩ := h
  obtain ⟨j, hj, hle, hdrop⟩ := yields_settle hend.ne_newline s.mode s hs.tokens
  rw [hview] at hdrop
  have hsettled : Settled input code last mode { s with position := j } c :=
    ⟨hdrop, hs.stop, hs.events, hs.suffix⟩
  have hagain : At input code last mode { s with position := j } c :=
    ⟨_, hsettled, by change s.mode.view (c.view mode) = _; rw [← hview, LineMode.view_view]⟩
  refine ⟨{ s with position := j }, ?_, ⟨hsettled, rfl, Nat.le_refl _, Nat.add_le_add_left hle _⟩, hagain⟩
  have hget : Yields (get : Run State) s s s := rfl
  have hset : Yields (set { s with position := j } : Run Unit) s () { s with position := j } := rfl
  have hcode := (c.view_suffix mode).trans hs.suffix
  exact hget.bind (hj.bind (hset.bind (yields_lookAhead hend s.mode _ offset hcode hdrop)))

/-- Looking at the next token. -/
theorem yields_peek (hend : EndsIn input code last) (h : At input code last mode s c) :
    ∃ s', Yields (peek input 0) s (c.peek ⟨input.text, last⟩ mode) s' ∧
      Peeked input code last mode s c s' := yields_peek_ahead hend 0 h

/-- Looking at the token behind the next one. -/
theorem yields_peek_one (hend : EndsIn input code last) (h : Ready input code last mode s c)
    {next : Step Token c} (hnext : c.take? mode = some next) :
    ∃ s', Yields (peek input 1) s (next.next.peek ⟨input.text, last⟩ mode) s' ∧
      Peeked input code last mode s c s' := by
  have hpeek := yields_peek_ahead hend 1 h.place
  rwa [h.mode, Cursor.view_of_take? hnext] at hpeek

/-! ## Eating -/

/-- What is taken comes next. -/
theorem peek_of_takeIf? {wanted : Token → Bool} {next : Step Token c} (source : Source)
    (h : c.takeIf? mode wanted = some next) :
    c.peek source mode = next.value ∧ wanted next.value = true :=
  have hview := Cursor.view_of_takeIf? h
  ⟨Cursor.peek_of_view source hview.1, hview.2⟩

/-- What is not taken is not wanted. -/
theorem not_wanted_peek {wanted : Token → Bool} (source : Source)
    (hlast : wanted source.endToken = false) (h : c.takeIf? mode wanted = none) :
    wanted (c.peek source mode) = false := by
  cases hview : c.view mode with
  | nil =>
    rw [Cursor.peek, hview]
    exact hlast
  | cons t ts =>
    rw [Cursor.peek_of_view _ hview]
    exact Cursor.not_wanted_of_none hview h

theorem takeIf?_of_take? {wanted : Token → Bool} {next : Step Token c} (h : c.take? mode = some next)
    (hwanted : wanted next.value = true) : c.takeIf? mode wanted = some next := by
  rw [Cursor.takeIf?, h]
  exact if_pos hwanted

/-- The end of the text is never wanted. -/
def NeverEnd (wanted : Wanted) : Prop := ∀ t, fits wanted t = true → t.kind ≠ .endOfText

theorem neverEnd_ofKind {kind : Token.Kind} (h : kind ≠ .endOfText) : NeverEnd (.ofKind kind) := by
  intro t ht
  rwa [show t.kind = kind from of_decide_eq_true ht]

theorem neverEnd_ofWord (word : Text) : NeverEnd (.ofWord word) := by
  intro t ht
  rw [fits, Token.isWord, Bool.and_eq_true, decide_eq_true_iff] at ht
  rw [ht.1]
  decide

theorem NeverEnd.not_last {wanted : Wanted} (h : NeverEnd wanted) (hend : EndsIn input code last) :
    fits wanted last = false := Bool.eq_false_iff.mpr fun hfits => h last hfits hend.kind

theorem follows_refuse {α β : Type} {P : α → β → State → Prop} (h : s.events = c.events)
    (fault : GrammarFault) (token : Token) :
    Follows (c.fail fault token) (fun _ => (refuse fault token : Run β)) s P := by
  unfold Cursor.fail
  rw [← h]
  exact follows_refuses rfl

section Eating

variable (hend : EndsIn input code last)

include hend

theorem yields_eat {wanted : Wanted} (hwanted : NeverEnd wanted) (h : At input code last mode s c)
    {next : Step Token c} (hnext : c.takeIf? mode (fits wanted) = some next) :
    ∃ s', Yields (eat input wanted) s next.value s' ∧
      Came (Exact input code last) 1 s next.next s' := by
  obtain ⟨hview, hfits⟩ := Cursor.view_of_takeIf? hnext
  obtain ⟨s₁, hpeek, hs₁⟩ := yields_peek hend h
  rw [Cursor.peek_of_view _ hview] at hpeek
  have hpassed := Cursor.passed_of_take? (Cursor.take?_of_takeIf? hnext)
  have hevents : next.next.events = c.events := by
    have htake := Cursor.take?_of_takeIf? hnext
    unfold Cursor.take? at htake
    split at htake
    · cases htake
    · cases htake
      rfl
  refine ⟨{ s₁ with position := s₁.position + 1, stop := next.value.stop, eaten := s₁.eaten + 1 },
    hpeek.bind ?_, ⟨?_, hpassed.1.symm, hs₁.here.events.trans hevents.symm,
      next.suffix.trans hs₁.here.suffix⟩, hs₁.modes, Nat.add_le_add_right hs₁.eaten 1, ?_⟩
  · rw [if_pos hfits, if_neg (hwanted _ hfits)]
    have hadvance : Yields (advance next.value) s₁ () _ := rfl
    exact hadvance.bind (yields_pure _ _)
  · change input.tokens.drop (s₁.position + 1) = _
    rw [← List.tail_drop, hs₁.here.tokens, hview]
    rfl
  · have hmoved := hs₁.position
    dsimp only
    omega

theorem refuses_eat {wanted : Wanted} (hwanted : NeverEnd wanted) (h : At input code last mode s c)
    (hnone : c.takeIf? mode (fits wanted) = none) : Refuses (eat input wanted) s
      ⟨.grammar (.expected wanted) (c.peek ⟨input.text, last⟩ mode), c.events⟩ := by
  obtain ⟨s₁, hpeek, hs₁⟩ := yields_peek hend h
  rw [Refuses, eat, bind_of_yields hpeek,
    if_neg (Bool.eq_false_iff.mp (not_wanted_peek ⟨input.text, last⟩ (hwanted.not_last hend) hnone)),
    ← hs₁.here.events]
  rfl

theorem follows_expect {kind : Token.Kind} (hk : kind ≠ .endOfText) (h : At input code last mode s c) :
    Follows (c.expect ⟨input.text, last⟩ mode kind) (fun _ => eat input (.ofKind kind)) s
      fun next token s' =>
      token = next.value ∧ Came (Exact input code last) 1 s next.next s' := by
  unfold Cursor.expect
  cases hnext : c.accept? mode kind with
  | some next =>
    obtain ⟨s', hs', hcame⟩ := yields_eat hend (neverEnd_ofKind hk) h hnext
    exact follows_yields hs' ⟨rfl, hcame⟩
  | none => exact follows_refuses (refuses_eat hend (neverEnd_ofKind hk) h hnext)

theorem follows_expectWord (word : Text) (h : At input code last mode s c) :
    Follows (c.expectWord ⟨input.text, last⟩ mode word) (fun _ => eat input (.ofWord word)) s
      fun next token s' =>
      token = next.value ∧ Came (Exact input code last) 1 s next.next s' := by
  unfold Cursor.expectWord
  cases hnext : c.acceptWord? mode word with
  | some next =>
    obtain ⟨s', hs', hcame⟩ := yields_eat hend (neverEnd_ofWord word) h hnext
    exact follows_yields hs' ⟨rfl, hcame⟩
  | none => exact follows_refuses (refuses_eat hend (neverEnd_ofWord word) h hnext)

theorem yields_eat_accept {kind : Token.Kind} (hk : kind ≠ .endOfText) (h : At input code last mode s c)
    {next : Step Token c} (hnext : c.accept? mode kind = some next) :
    ∃ s', Yields (eat input (.ofKind kind)) s next.value s' ∧
      Came (Exact input code last) 1 s next.next s' :=
  yields_eat hend (neverEnd_ofKind hk) h hnext

/-- Eating a token whose kind is known. -/
theorem yields_eat_kind {kind : Token.Kind} (hk : kind ≠ .endOfText) (h : At input code last mode s c)
    {next : Step Token c} (hnext : c.take? mode = some next) (hkind : next.value.kind = kind) :
    ∃ s', Yields (eat input (.ofKind kind)) s next.value s' ∧
      Came (Exact input code last) 1 s next.next s' :=
  yields_eat_accept hend hk h (takeIf?_of_take? hnext (decide_eq_true hkind))

theorem yields_maybeEat_some {wanted : Wanted} (hwanted : NeverEnd wanted)
    (h : At input code last mode s c) {next : Step Token c}
    (hnext : c.takeIf? mode (fits wanted) = some next) :
    ∃ s', Yields (maybeEat input wanted) s (some next.value) s' ∧
      Came (Exact input code last) 1 s next.next s' := by
  obtain ⟨s₁, hpeek, hs₁⟩ := yields_peek hend h
  obtain ⟨hvalue, hfits⟩ := peek_of_takeIf? ⟨input.text, last⟩ hnext
  obtain ⟨s₂, heat, hs₂⟩ := yields_eat hend hwanted hs₁.again hnext
  refine ⟨s₂, hpeek.bind ?_, (hs₁.trans hs₂).of_le (by omega)⟩
  rw [hvalue, if_pos hfits]
  exact heat.bind (yields_pure _ _)

theorem yields_maybeEat_none {wanted : Wanted} (hwanted : NeverEnd wanted)
    (h : At input code last mode s c) (hnone : c.takeIf? mode (fits wanted) = none) :
    ∃ s', Yields (maybeEat input wanted) s none s' ∧ Peeked input code last mode s c s' := by
  obtain ⟨s₁, hpeek, hs₁⟩ := yields_peek hend h
  refine ⟨s₁, hpeek.bind ?_, hs₁⟩
  rw [if_neg (Bool.eq_false_iff.mp (not_wanted_peek ⟨input.text, last⟩ (hwanted.not_last hend) hnone))]
  exact yields_pure none s₁

theorem yields_accept_some {kind : Token.Kind} (hk : kind ≠ .endOfText)
    (h : At input code last mode s c) {next : Step Token c} (hnext : c.accept? mode kind = some next) :
    ∃ s', Yields (maybeEat input (.ofKind kind)) s (some next.value) s' ∧
      Came (Exact input code last) 1 s next.next s' :=
  yields_maybeEat_some hend (neverEnd_ofKind hk) h hnext

theorem yields_accept_none {kind : Token.Kind} (hk : kind ≠ .endOfText)
    (h : At input code last mode s c) (hnone : c.accept? mode kind = none) :
    ∃ s', Yields (maybeEat input (.ofKind kind)) s none s' ∧ Peeked input code last mode s c s' :=
  yields_maybeEat_none hend (neverEnd_ofKind hk) h hnone

/-- A token that may be there is passed over. -/
theorem yields_skip (kind : Token.Kind) (hk : kind ≠ .endOfText) (h : Ready input code last mode s c) :
    ∃ found? s', Yields (maybeEat input (.ofKind kind)) s found? s' ∧
      Came (At input code last mode) 0 s (c.skip mode kind).next s' := by
  unfold Cursor.skip
  cases hnext : c.accept? mode kind with
  | some next =>
    obtain ⟨s', hs', hcame⟩ := yields_accept_some hend hk h.place hnext
    exact ⟨_, s', hs', (hcame.at_exact h.mode).of_le (Nat.zero_le 1)⟩
  | none =>
    obtain ⟨s', hs', hpeeked⟩ := yields_accept_none hend hk h.place hnext
    exact ⟨_, s', hs', hpeeked.came_again⟩

end Eating

/-! ## The rest of the state -/

theorem yields_push (mode : LineMode) (s : State) :
    Yields (push mode) s () { s with modes := mode :: s.modes } := rfl

/-- Taking the mode off that was put on in front moves nothing. -/
theorem Came.popped {ts : Cursor → List Token} {n : Nat}
    (h : Came (fun s c => Stands input code last (ts c) s c) n { s with modes := mode :: s.modes } c s') :
    ∃ s'', Yields pop s' () s'' ∧ Came (fun s c => Stands input code last (ts c) s c) n s c s'' := by
  have hget : Yields (get : Run State) s' s' s' := rfl
  refine ⟨{ s' with modes := s.modes }, hget.bind ?_, h.here.with rfl rfl rfl, rfl, h.eaten, h.position⟩
  rw [h.modes]
  rfl

theorem yields_eaten (s : State) : Yields eaten s s.eaten s := rfl

theorem yields_record (event : ParseEvent) (s : State) :
    Yields (record event) s () { s with events := event :: s.events } := rfl

theorem Came.recorded {n : Nat} (h : Came (Exact input code last) n s c s') (event : ParseEvent) :
    Came (Exact input code last) n s (c.record event) { s' with events := event :: s'.events } :=
  ⟨⟨h.here.tokens, h.here.stop, congrArg (event :: ·) h.here.events, h.here.suffix⟩, h.modes, h.eaten,
    h.position⟩

theorem yields_moved {before : Nat} (h : before < s.eaten) : Yields (moved before) s () s := by
  have hget : Yields (get : Run State) s s s := rfl
  refine hget.bind ?_
  rw [if_neg (Nat.not_le.mpr h)]
  exact yields_pure () s

theorem yields_sourceFrom (input : Input) (last : Token) (start : Nat) (h : s.stop = c.stop) :
    Yields (sourceFrom input start) s (c.sourceFrom ⟨input.text, last⟩ start) s := by
  rw [Cursor.sourceFrom, ← h]
  rfl

/-! ## Line breaks -/

/-- Where line breaks count, passing over them takes the index to what is no line break. -/
theorem eventually_skipNewlines (hend : EndsIn input code last) {s : State} (hmode : s.mode = .significant)
    (h : input.tokens.drop s.position = ts ++ [last]) :
    ∃ j, (∀ᶠ depth in Filter.atTop, Yields (skipNewlines input depth) s () { s with position := j }) ∧
      s.position ≤ j ∧ input.tokens.drop j = ts.dropWhile (Token.isKind .newline) ++ [last] := by
  have hpeek {t : Token} {rest : List Token} {s : State} (hmode : s.mode = .significant)
      (h : input.tokens.drop s.position = t :: rest) : Yields (peek input 0) s t s := by
    have hget : Yields (get : Run State) s s s := rfl
    have hset : Yields (set s : Run Unit) s () s := rfl
    refine hget.bind ?_
    rw [hmode]
    exact (yields_pure s.position s).bind (hset.bind (yields_tokenAt h s))
  have hstop {t : Token} {rest : List Token} {s : State} (hmode : s.mode = .significant)
      (hn : t.kind ≠ .newline) (h : input.tokens.drop s.position = t :: rest) :
      ∀ᶠ depth in Filter.atTop, Yields (skipNewlines input depth) s () s := by
    refine eventually_of_succ (.of_forall fun depth => (hpeek hmode h).bind ?_)
    rw [if_neg hn]
    exact yields_pure () s
  induction ts generalizing s with
  | nil => exact ⟨s.position, hstop hmode hend.ne_newline h, Nat.le_refl _, h⟩
  | cons t ts ih =>
    by_cases hn : t.kind = .newline
    · obtain ⟨j, hj, hle, hdrop⟩ := ih (s := { s with position := s.position + 1 }) hmode (drop_succ h)
      refine ⟨j, ?_, Nat.le_of_succ_le hle, by rw [hdrop, Comparison.dropWhile_cons_newline hn]⟩
      have hmodify : Yields (modify fun s : State => { s with position := s.position + 1 } : Run Unit) s ()
          { s with position := s.position + 1 } := rfl
      refine eventually_of_succ (hj.mono fun depth hj => (hpeek hmode h).bind ?_)
      rw [if_pos hn]
      exact hmodify.bind hj
    · exact ⟨s.position, hstop hmode hn h, Nat.le_refl _, by rw [h, Comparison.dropWhile_cons hn]⟩

/-- Passing over line breaks from right where the cursor stands. -/
theorem exact_skipNewlines (hend : EndsIn input code last) (hmode : s.mode = .significant)
    (h : Exact input code last s c) :
    ∃ s', (∀ᶠ depth in Filter.atTop, Yields (skipNewlines input depth) s () s') ∧
      Came (Exact input code last) 0 s c.skipNewlines s' := by
  obtain ⟨j, hj, hle, hdrop⟩ := eventually_skipNewlines hend hmode h.tokens
  exact ⟨_, hj, ⟨hdrop, h.stop, h.events, (c.view_suffix .ignored).trans h.suffix⟩, rfl, Nat.le_refl _,
    Nat.add_le_add_left hle _⟩

theorem follows_endOfItem (hend : EndsIn input code last) (h : Ready input code last .significant s c) :
    Follows (c.endOfItem ⟨input.text, last⟩) (fun _ => endOfItem input) s fun _ _ s' =>
      Came (Exact input code last) 0 s c s' := by
  obtain ⟨s', hpeek, hs'⟩ := yields_peek hend h.place
  refine Follows.after hpeek ?_
  unfold Cursor.endOfItem
  dsimp only
  split
  · exact follows_pure hs'.toCame
  · exact follows_refuse hs'.here.events _ _

end Indexed

end HclTidy
