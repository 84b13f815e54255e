import Mathlib
import HclTidy.Expr.Parser

/-!
# Token lists that read alike

Two token lists read alike up to their ends when their tokens agree but for the text of heredocs and
of strings with interpolations, for their offsets and columns and for a fixed shift of their lines;
or, where the comparison is exact, but for a fixed shift of their places. What reads a token off the
one list reads the same off the other, as long as it does not read on into the end; and where it
stops on the first side, nothing on the second side keeps it going.
-/

set_option autoImplicit false

namespace HclTidy

/-! ## Single tokens -/

namespace Cursor

variable {c : Cursor} {mode : LineMode} {wanted : Token → Bool}

theorem take?_of_view {t : Token} {ts : List Token} (h : c.view mode = t :: ts) :
    ∃ s, c.take? mode = some s ∧ s.value = t ∧ s.next.rest = ts := by
  unfold take?
  split
  · next hnil =>
    rw [h] at hnil
    cases hnil
  · next t' ts' hcons =>
    rw [h] at hcons
    cases hcons
    exact ⟨_, rfl, rfl, rfl⟩

theorem view_of_take? {s : Step Token c} (h : c.take? mode = some s) :
    c.view mode = s.value :: s.next.rest := by
  unfold take? at h
  split at h
  · cases h
  · next t ts hcons =>
    cases h
    exact hcons

theorem takeIf?_of_view {t : Token} {ts : List Token} (h : c.view mode = t :: ts)
    (ht : wanted t = true) :
    ∃ s, c.takeIf? mode wanted = some s ∧ s.value = t ∧ s.next.rest = ts := by
  obtain ⟨s, hs, rfl, rfl⟩ := take?_of_view h
  refine ⟨s, ?_, rfl, rfl⟩
  simp only [takeIf?, hs, ht, if_true]

theorem takeIf?_none_of_view {t : Token} {ts : List Token} (h : c.view mode = t :: ts)
    (ht : wanted t = false) : c.takeIf? mode wanted = none := by
  obtain ⟨s, hs, rfl, rfl⟩ := take?_of_view h
  simp only [takeIf?, hs, ht, Bool.false_eq_true, if_false]

theorem view_of_takeIf? {s : Step Token c} (h : c.takeIf? mode wanted = some s) :
    c.view mode = s.value :: s.next.rest ∧ wanted s.value = true := by
  unfold takeIf? at h
  split at h
  · next step hstep =>
    split at h
    · next hw =>
      cases h
      exact ⟨view_of_take? hstep, hw⟩
    · cases h
  · cases h

theorem peek_of_view {t : Token} {ts : List Token} (source : Source) (h : c.view mode = t :: ts) :
    c.peek source mode = t := by
  rw [peek, h]
  rfl

theorem expect_ok {source : Source} {kind : Token.Kind} {s : Step Token c}
    (h : c.expect source mode kind = .ok s) : c.takeIf? mode (Token.isKind kind) = some s := by
  unfold expect accept? at h
  split at h
  · next step hs =>
    cases h
    exact hs
  · cases h

theorem expect_of_some {source : Source} {kind : Token.Kind} {s : Step Token c}
    (h : c.takeIf? mode (Token.isKind kind) = some s) : c.expect source mode kind = .ok s := by
  unfold expect accept?
  rw [h]

theorem expectWord_ok {source : Source} {word : Text} {s : Step Token c}
    (h : c.expectWord source mode word = .ok s) :
    c.takeIf? mode (Token.isWord .ident word) = some s := by
  unfold expectWord acceptWord? at h
  split at h
  · next step hs =>
    cases h
    exact hs
  · cases h

theorem expectWord_of_some {source : Source} {word : Text} {s : Step Token c}
    (h : c.takeIf? mode (Token.isWord .ident word) = some s) :
    c.expectWord source mode word = .ok s := by
  unfold expectWord acceptWord?
  rw [h]

/-- The second cursor stands right behind a token of the first. -/
def Passed (c : Cursor) (t : Token) (next : Cursor) : Prop :=
  next.stop = t.stop ∧ t :: next.rest <:+ c.rest

theorem Passed.of_suffix {d next : Cursor} {t : Token} (h : d.Passed t next)
    (hsuffix : d.rest <:+ c.rest) : c.Passed t next := ⟨h.1, h.2.trans hsuffix⟩

theorem passed_of_take? {s : Step Token c} (h : c.take? mode = some s) : c.Passed s.value s.next := by
  refine ⟨?_, (view_of_take? h) ▸ c.view_suffix mode⟩
  unfold take? at h
  split at h
  · cases h
  · cases h
    rfl

theorem take?_of_takeIf? {s : Step Token c} (h : c.takeIf? mode wanted = some s) :
    c.take? mode = some s := by
  unfold takeIf? at h
  split at h
  · next step hstep =>
    split at h
    · cases h
      exact hstep
    · cases h
  · cases h

theorem take?_none_of_nil (h : c.view mode = []) : c.take? mode = none := by
  cases hs : c.take? mode with
  | none => rfl
  | some s =>
    rw [view_of_take? hs] at h
    cases h

theorem takeIf?_none_of_nil (h : c.view mode = []) : c.takeIf? mode wanted = none := by
  rw [takeIf?, take?_none_of_nil h]

theorem not_wanted_of_none {t : Token} {ts : List Token} (hview : c.view mode = t :: ts)
    (h : c.takeIf? mode wanted = none) : wanted t = false := by
  rw [Bool.eq_false_iff]
  intro hwanted
  obtain ⟨s, hs, -⟩ := takeIf?_of_view hview hwanted
  rw [h] at hs
  cases hs

end Cursor

theorem Reading.bind_ok {ε α β : Type} {x : Except ε α} {g : α → Except ε β} {b : β}
    (h : (x >>= g) = .ok b) : ∃ a, x = .ok a ∧ g a = .ok b := by
  cases x with
  | error e => cases h
  | ok a => exact ⟨a, rfl, h⟩

/-- The second mode passes over every line break that the first one passes over. -/
def LineMode.Loosens (mode mode' : LineMode) : Prop := mode' = mode ∨ mode' = .ignored

theorem LineMode.loosens_refl (mode : LineMode) : mode.Loosens mode := .inl rfl

/-! ## Token lists -/

/-- The fixed data of a comparison: what may be left at the end of each side, how many tokens are
left on the first side at least, the lines that are to be added on each side, whether the tokens
agree in full, and which offset on the second side stands for which on the first. -/
structure Comparison where
  Ended : List Token → Prop
  Ended' : List Token → Prop
  behind : Nat
  shift : Nat
  shift' : Nat
  exact : Prop
  place : Nat → Nat → Prop
  behind_le : ∀ {ts}, Ended ts → behind ≤ ts.length
  taken : ∀ {ts t us}, Ended ts → ts.dropWhile (Token.isKind .newline) = t :: us → us.length < behind
  closes' : ∀ {ts t us}, Ended' ts → ts.dropWhile (Token.isKind .newline) = t :: us → t.kind = .rbrace

namespace Comparison

/-- Tokens that no reader tells apart. -/
structure Same (f : Comparison) (t t' : Token) : Prop where
  kind : t'.kind = t.kind
  text : t.kind ≠ .heredoc → t.kind ≠ .string → t'.text = t.text
  label : t.kind = .string → (Template.partsOf true t.text).all Template.Part.isLiteral = true →
    t'.text = t.text
  line : t.start.line + f.shift = t'.start.line + f.shift'
  exact : f.exact → t'.text = t.text ∧ f.place t.start.offset t'.start.offset ∧
    f.place t.stop t'.stop

def AllNewlines (ts : List Token) : Prop := ∀ t ∈ ts, t.kind = .newline

inductive Alike (f : Comparison) : List Token → List Token → Prop
  | ended {ts ts'} : f.Ended ts → f.Ended' ts' → Alike f ts ts'
  | cons {t t' ts ts'} : f.Same t t' → Alike f ts ts' → Alike f (t :: ts) (t' :: ts')

variable {f : Comparison}

theorem same_isKind {t t' : Token} (h : f.Same t t') (kind : Token.Kind) :
    t'.isKind kind = t.isKind kind := by
  rw [Token.isKind, Token.isKind, h.kind]

theorem same_isWord {t t' : Token} (h : f.Same t t') {kind : Token.Kind} (word : Text)
    (hk : kind ≠ .heredoc ∧ kind ≠ .string) : t'.isWord kind word = t.isWord kind word := by
  unfold Token.isWord
  rw [h.kind]
  by_cases hkind : t.kind = kind
  · rw [h.text (by rw [hkind]; exact hk.1) (by rw [hkind]; exact hk.2)]
  · simp [hkind]

theorem dropWhile_newlines {ts : List Token} (h : AllNewlines ts) {t : Token} (rest : List Token)
    (ht : t.kind ≠ .newline) :
    (ts ++ t :: rest).dropWhile (Token.isKind .newline) = t :: rest := by
  have hall : ∀ u ∈ ts, Token.isKind .newline u = true := fun u hu => decide_eq_true (h u hu)
  rw [List.dropWhile_append_of_pos hall, List.dropWhile_cons_of_neg (by simpa [Token.isKind] using ht)]

theorem dropWhile_cons_newline {t : Token} (h : t.kind = .newline) (ts : List Token) :
    (t :: ts).dropWhile (Token.isKind .newline) = ts.dropWhile (Token.isKind .newline) :=
  List.dropWhile_cons_of_pos (decide_eq_true h)

theorem dropWhile_cons {t : Token} (h : t.kind ≠ .newline) (ts : List Token) :
    (t :: ts).dropWhile (Token.isKind .newline) = t :: ts :=
  List.dropWhile_cons_of_neg (by rwa [Token.isKind, decide_eq_true_iff])

theorem alike_length {ts ts' : List Token} (h : f.Alike ts ts') : f.behind ≤ ts.length := by
  induction h with
  | ended hts _ => exact f.behind_le hts
  | cons _ _ ih =>
    rw [List.length_cons]
    omega

/-! ## The next tokens -/

/-- The next tokens: the same on both sides, or on the first side one that must not be read and on
the second side none that reading goes on with. -/
inductive Next (f : Comparison) : List Token → List Token → Prop
  | same {t t' ts ts'} : f.Same t t' → f.Alike ts ts' → Next f (t :: ts) (t' :: ts')
  | ended {ts ts'} : (∀ t us, ts = t :: us → t.kind = .newline ∨ us.length < f.behind) →
      (∀ t us, ts' = t :: us → t.kind = .newline ∨ t.kind = .rbrace) → Next f ts ts'

theorem kind_of_ended {ts us : List Token} {t : Token} (h : f.Ended ts) (heq : ts = t :: us) :
    t.kind = .newline ∨ us.length < f.behind := by
  by_cases hn : t.kind = .newline
  · exact .inl hn
  · exact .inr (f.taken h (by rw [heq, dropWhile_cons hn]))

theorem kind_of_ended' {ts us : List Token} {t : Token} (h : f.Ended' ts) (heq : ts = t :: us) :
    t.kind = .newline ∨ t.kind = .rbrace := by
  by_cases hn : t.kind = .newline
  · exact .inl hn
  · exact .inr (f.closes' h (by rw [heq, dropWhile_cons hn]))

/-- Where line breaks end an item on both sides. -/
theorem next_self {ts ts' : List Token} (h : f.Alike ts ts') : f.Next ts ts' := by
  cases h with
  | ended hts hts' =>
    exact .ended (fun _ _ => kind_of_ended hts) (fun _ _ => kind_of_ended' hts')
  | cons hs hrest => exact .same hs hrest

/-- Behind line breaks, where they are layout on both sides. -/
theorem next_dropWhile {ts ts' : List Token} (h : f.Alike ts ts') :
    f.Next (ts.dropWhile (Token.isKind .newline)) (ts'.dropWhile (Token.isKind .newline)) := by
  induction h with
  | ended hts hts' =>
    exact .ended (fun t us heq => .inr (f.taken hts heq)) (fun t us heq => .inr (f.closes' hts' heq))
  | cons hs hrest ih =>
    rename_i t t' ts ts'
    by_cases hn : t.kind = .newline
    · rw [dropWhile_cons_newline hn, dropWhile_cons_newline (hs.kind.trans hn)]
      exact ih
    · rw [dropWhile_cons hn, dropWhile_cons (hs.kind ▸ hn)]
      exact .same hs hrest

/-- Where line breaks are layout on the second side only. -/
theorem next_loosened {ts ts' : List Token} (h : f.Alike ts ts')
    (hsettled : ts.length = f.behind ∨ ∀ t us, ts = t :: us → t.kind ≠ .newline) :
    f.Next ts (ts'.dropWhile (Token.isKind .newline)) := by
  cases h with
  | ended hts hts' =>
    exact .ended (fun _ _ => kind_of_ended hts) (fun _ _ heq => .inr (f.closes' hts' heq))
  | cons hs hrest =>
    rename_i t t' ts ts'
    obtain hlen | hhead := hsettled
    · have hle := alike_length hrest
      rw [List.length_cons] at hlen
      omega
    · have hn := hhead t ts rfl
      rw [dropWhile_cons (hs.kind ▸ hn)]
      exact .same hs hrest

/-- Where the modes differ, the first side does not stop at a line break before the end. -/
def Settled (f : Comparison) (mode mode' : LineMode) (ts : List Token) : Prop :=
  mode' = mode ∨ ts.length = f.behind ∨ ∀ t us, ts = t :: us → t.kind ≠ .newline

section Steps

variable {c c' : Cursor} {mode mode' : LineMode} {wanted : Token → Bool}

theorem next_of_alike (hm : mode.Loosens mode') (h : f.Alike c.rest c'.rest)
    (hsettled : f.Settled mode mode' c.rest) : f.Next (c.view mode) (c'.view mode') := by
  cases mode with
  | ignored =>
    obtain rfl : mode' = .ignored := hm.elim id id
    exact next_dropWhile h
  | significant =>
    cases mode' with
    | significant => exact next_self h
    | ignored => exact next_loosened h (hsettled.resolve_left nofun)

/-- Nothing is taken where a line break, a closing brace or nothing comes next. -/
theorem takeIf?_none_of_stop {ts : List Token} (hview : c.view mode = ts)
    (hstop : ∀ t us, ts = t :: us → t.kind = .newline ∨ t.kind = .rbrace)
    (hend : ∀ t, t.kind = .newline ∨ t.kind = .rbrace → wanted t = false) :
    c.takeIf? mode wanted = none := by
  cases ts with
  | nil => exact Cursor.takeIf?_none_of_nil hview
  | cons t us => exact Cursor.takeIf?_none_of_view hview (hend _ (hstop t us rfl))

/-- A token that is read is no line break. -/
theorem settled_of_takeIf? (hm : mode.Loosens mode')
    (hnewline : ∀ t, t.kind = .newline → wanted t = false) {s : Step Token c}
    (hs : c.takeIf? mode wanted = some s) : f.Settled mode mode' c.rest := by
  cases mode with
  | ignored => exact .inl (hm.elim id id)
  | significant =>
    obtain ⟨hview, hwanted⟩ := Cursor.view_of_takeIf? hs
    refine .inr (.inr fun t us heq hk => ?_)
    rw [show c.rest = s.value :: s.next.rest from hview] at heq
    cases heq
    rw [hnewline _ hk] at hwanted
    cases hwanted

/-- A token that comes next on the first side, not behind the end, comes next on the second side. -/
def Ahead (f : Comparison) (mode mode' : LineMode) (c c' : Cursor) : Prop :=
  ∀ t us, c.view mode = t :: us → t.kind ≠ .newline → f.behind ≤ us.length →
    ∃ t' us', c'.view mode' = t' :: us' ∧ f.Same t t' ∧ f.Alike us us'

theorem ahead_of_alike (hm : mode.Loosens mode') (h : f.Alike c.rest c'.rest) :
    f.Ahead mode mode' c c' := by
  intro t us hview hn hlen
  have hsettled : f.Settled mode mode' c.rest := by
    cases mode with
    | ignored => exact .inl (hm.elim id id)
    | significant =>
      refine .inr (.inr fun u vs heq => ?_)
      rw [show c.rest = t :: us from hview] at heq
      cases heq
      exact hn
  have hnext := next_of_alike hm h hsettled
  rw [hview] at hnext
  generalize c'.view mode' = ts' at hnext ⊢
  cases hnext with
  | same hs hrest => exact ⟨_, _, rfl, hs, hrest⟩
  | ended hstop _ =>
    obtain hk | hlt := hstop t us rfl
    · exact absurd hk hn
    · omega

/-! ## Reading single tokens -/

/-- A test that gives the same answer on tokens that are the same. -/
def Respects (f : Comparison) (wanted : Token → Bool) : Prop :=
  ∀ t t', f.Same t t' → wanted t' = wanted t

theorem takeIf?_ahead (h : f.Ahead mode mode' c c') (hw : f.Respects wanted)
    (hnewline : ∀ t, t.kind = .newline → wanted t = false) {s : Step Token c}
    (hs : c.takeIf? mode wanted = some s) (hlen : f.behind ≤ s.next.rest.length) :
    ∃ s', c'.takeIf? mode' wanted = some s' ∧ f.Same s.value s'.value ∧
      f.Alike s.next.rest s'.next.rest := by
  obtain ⟨hview, hwanted⟩ := Cursor.view_of_takeIf? hs
  have hn : s.value.kind ≠ .newline := by
    intro hk
    rw [hnewline _ hk] at hwanted
    cases hwanted
  obtain ⟨t', us', hview', hsame, hrest⟩ := h _ _ hview hn hlen
  obtain ⟨s', hs', rfl, rfl⟩ := Cursor.takeIf?_of_view hview'
    (show wanted t' = true by rw [hw _ _ hsame, hwanted])
  exact ⟨s', hs', hsame, hrest⟩

theorem takeIf?_some (hm : mode.Loosens mode') (h : f.Alike c.rest c'.rest) (hw : f.Respects wanted)
    (hnewline : ∀ t, t.kind = .newline → wanted t = false) {s : Step Token c}
    (hs : c.takeIf? mode wanted = some s) (hlen : f.behind ≤ s.next.rest.length) :
    ∃ s', c'.takeIf? mode' wanted = some s' ∧ f.Same s.value s'.value ∧
      f.Alike s.next.rest s'.next.rest :=
  takeIf?_ahead (ahead_of_alike hm h) hw hnewline hs hlen

theorem takeIf?_none (hm : mode.Loosens mode') (h : f.Alike c.rest c'.rest)
    (hsettled : f.Settled mode mode' c.rest) (hw : f.Respects wanted)
    (hend : ∀ t, t.kind = .newline ∨ t.kind = .rbrace → wanted t = false)
    (hs : c.takeIf? mode wanted = none) : c'.takeIf? mode' wanted = none := by
  have hnext := next_of_alike hm h hsettled
  generalize hview : c.view mode = ts at hnext
  generalize hview' : c'.view mode' = ts' at hnext
  cases hnext with
  | same hsame hrest =>
    refine Cursor.takeIf?_none_of_view hview' ?_
    rw [hw _ _ hsame]
    exact Cursor.not_wanted_of_none hview hs
  | ended _ hstop' => exact takeIf?_none_of_stop hview' hstop' hend

theorem respects_isKind (kind : Token.Kind) : f.Respects (Token.isKind kind) :=
  fun _ _ h => same_isKind h kind

theorem respects_isWord (word : Text) {kind : Token.Kind} (hk : kind ≠ .heredoc ∧ kind ≠ .string) :
    f.Respects (Token.isWord kind word) := fun _ _ h => same_isWord h word hk

theorem isKind_newline {kind : Token.Kind} (hk : kind ≠ .newline) :
    ∀ t : Token, t.kind = .newline → t.isKind kind = false := by
  intro t ht
  rw [Token.isKind, ht]
  exact decide_eq_false (Ne.symm hk)

theorem isKind_end {kind : Token.Kind} (hk : kind ≠ .newline ∧ kind ≠ .rbrace) :
    ∀ t : Token, t.kind = .newline ∨ t.kind = .rbrace → t.isKind kind = false := by
  rintro t (ht | ht)
  · exact isKind_newline hk.1 t ht
  · rw [Token.isKind, ht]
    exact decide_eq_false (Ne.symm hk.2)

theorem isWord_end {kind : Token.Kind} (word : Text) (hk : kind ≠ .newline ∧ kind ≠ .rbrace) :
    ∀ t : Token, t.kind = .newline ∨ t.kind = .rbrace → t.isWord kind word = false := by
  intro t ht
  have hkind := of_decide_eq_false (isKind_end hk t ht)
  rw [Token.isWord, decide_eq_false hkind, Bool.false_and]

/-- The next token of a kind. -/
theorem expect_alike {source : Source} (source' : Source) {kind : Token.Kind} (hk : kind ≠ .newline)
    (hm : mode.Loosens mode') (h : f.Alike c.rest c'.rest) {s : Step Token c}
    (hs : c.expect source mode kind = .ok s) (hlen : f.behind ≤ s.next.rest.length) :
    ∃ s', c'.expect source' mode' kind = .ok s' ∧ f.Same s.value s'.value ∧
      f.Alike s.next.rest s'.next.rest := by
  obtain ⟨s', hs', hsame, hrest⟩ := takeIf?_some hm h (respects_isKind kind) (isKind_newline hk)
    (Cursor.expect_ok hs) hlen
  exact ⟨s', Cursor.expect_of_some hs', hsame, hrest⟩

theorem settled_of_expect {source : Source} {kind : Token.Kind} (hk : kind ≠ .newline)
    (hm : mode.Loosens mode') {s : Step Token c} (hs : c.expect source mode kind = .ok s) :
    f.Settled mode mode' c.rest :=
  settled_of_takeIf? hm (isKind_newline hk) (Cursor.expect_ok hs)

theorem expectWord_alike {source : Source} (source' : Source) {word : Text} (h : f.Alike c.rest c'.rest)
    {s : Step Token c} (hs : c.expectWord source mode word = .ok s)
    (hlen : f.behind ≤ s.next.rest.length) :
    ∃ s', c'.expectWord source' mode word = .ok s' ∧ f.Alike s.next.rest s'.next.rest := by
  obtain ⟨s', hs', -, hrest⟩ := takeIf?_some mode.loosens_refl h (respects_isWord word (by decide))
    (fun t ht => isWord_end word (by decide) t (.inl ht)) (Cursor.expectWord_ok hs) hlen
  exact ⟨s', Cursor.expectWord_of_some hs', hrest⟩

theorem accept?_some {kind : Token.Kind} (hk : kind ≠ .newline) (hm : mode.Loosens mode')
    (h : f.Alike c.rest c'.rest) {s : Step Token c} (hs : c.accept? mode kind = some s)
    (hlen : f.behind ≤ s.next.rest.length) :
    ∃ s', c'.accept? mode' kind = some s' ∧ f.Same s.value s'.value ∧
      f.Alike s.next.rest s'.next.rest :=
  takeIf?_some hm h (respects_isKind kind) (isKind_newline hk) hs hlen

theorem settled_of_accept? {kind : Token.Kind} (hk : kind ≠ .newline) (hm : mode.Loosens mode')
    {s : Step Token c} (hs : c.accept? mode kind = some s) : f.Settled mode mode' c.rest :=
  settled_of_takeIf? hm (isKind_newline hk) hs

theorem accept?_none {kind : Token.Kind} (hk : kind ≠ .newline ∧ kind ≠ .rbrace)
    (hm : mode.Loosens mode') (h : f.Alike c.rest c'.rest) (hsettled : f.Settled mode mode' c.rest)
    (hs : c.accept? mode kind = none) : c'.accept? mode' kind = none :=
  takeIf?_none hm h hsettled (respects_isKind kind) (isKind_end hk) hs

theorem skip_alike (mode : LineMode) {kind : Token.Kind} (hk : kind ≠ .newline ∧ kind ≠ .rbrace)
    (h : f.Alike c.rest c'.rest) (hlen : f.behind ≤ (c.skip mode kind).next.rest.length) :
    f.Alike (c.skip mode kind).next.rest (c'.skip mode kind).next.rest := by
  unfold Cursor.skip at hlen ⊢
  cases hs : c.accept? mode kind with
  | none =>
    rw [accept?_none hk mode.loosens_refl h (.inl rfl) hs]
    exact h
  | some s =>
    rw [hs] at hlen
    obtain ⟨s', hs', -, hrest⟩ := accept?_some hk.1 mode.loosens_refl h hs hlen
    rw [hs']
    exact hrest

/-! ## Inside brackets -/

/-- A token before the end is still to be read where line breaks are layout. -/
def Inside (f : Comparison) (c : Cursor) : Prop := f.behind < (c.view .ignored).length

theorem inside_of_takeIf? {s : Step Token c} (hs : c.takeIf? .ignored wanted = some s)
    (hlen : f.behind ≤ s.next.rest.length) : f.Inside c := by
  rw [Inside, (Cursor.view_of_takeIf? hs).1, List.length_cons]
  omega

theorem inside_of_expect {source : Source} {kind : Token.Kind} {s : Step Token c}
    (hs : c.expect source .ignored kind = .ok s) (hlen : f.behind ≤ s.next.rest.length) : f.Inside c :=
  inside_of_takeIf? (Cursor.expect_ok hs) hlen

theorem length_dropWhile_le_of_suffix {ts us : List Token} (h : ts <:+ us) :
    (ts.dropWhile (Token.isKind .newline)).length ≤ (us.dropWhile (Token.isKind .newline)).length := by
  obtain ⟨before, rfl⟩ := h
  induction before with
  | nil => exact Nat.le_refl _
  | cons t before ih =>
    rw [List.cons_append]
    by_cases hn : t.kind = .newline
    · rw [dropWhile_cons_newline hn]
      exact ih
    · rw [dropWhile_cons hn, List.length_cons, List.length_append]
      have := (List.dropWhile_suffix (l := ts) (Token.isKind .newline)).length_le
      omega

theorem Inside.of_suffix {d : Cursor} (h : f.Inside d) (hsuffix : d.rest <:+ c.rest) : f.Inside c :=
  Nat.lt_of_lt_of_le h (length_dropWhile_le_of_suffix hsuffix)

theorem Inside.behind_lt (h : f.Inside c) : f.behind < c.rest.length :=
  Nat.lt_of_lt_of_le h (c.view_length_le .ignored)

/-- Where a token is still to be read, the next one is the same on both sides. -/
theorem same_inside (h : f.Alike c.rest c'.rest) (hin : f.Inside c) :
    ∃ t t' us us', c.view .ignored = t :: us ∧ c'.view .ignored = t' :: us' ∧ f.Same t t' ∧
      f.Alike us us' := by
  rw [Inside] at hin
  cases hview : c.view .ignored with
  | nil =>
    rw [hview] at hin
    cases hin
  | cons t us =>
    rw [hview, List.length_cons] at hin
    have hn : t.kind ≠ .newline := by
      have hnot := List.head?_dropWhile_not (Token.isKind .newline) c.rest
      rw [show c.rest.dropWhile _ = t :: us from hview] at hnot
      exact of_decide_eq_false hnot
    obtain ⟨t', us', hview', hsame, hrest⟩ :=
      ahead_of_alike (LineMode.loosens_refl .ignored) h t us hview hn (by omega)
    exact ⟨t, t', us, us', rfl, hview', hsame, hrest⟩

theorem peek_inside (source source' : Source) (h : f.Alike c.rest c'.rest) (hin : f.Inside c) :
    (c'.peek source' .ignored).kind = (c.peek source .ignored).kind := by
  obtain ⟨t, t', us, us', hview, hview', hsame, -⟩ := same_inside h hin
  rw [Cursor.peek_of_view source hview, Cursor.peek_of_view source' hview', hsame.kind]

theorem endOfItem_alike {source source' : Source} (hend : source'.endToken.kind = .endOfText)
    (h : f.Alike c.rest c'.rest) (hs : c.endOfItem source = .ok ()) :
    c'.endOfItem source' = .ok () := by
  have hnext : f.Next (c.view .significant) (c'.view .significant) := next_self h
  generalize hview : c.view .significant = ts at hnext
  generalize hview' : c'.view .significant = ts' at hnext
  unfold Cursor.endOfItem at hs ⊢
  cases hnext with
  | same hsame _ =>
    rw [Cursor.peek_of_view source hview] at hs
    rw [Cursor.peek_of_view source' hview']
    simp only [hsame.kind] at hs ⊢
    split at hs
    · next hk => rw [if_pos hk]
    · cases hs
  | ended _ hstop' =>
    refine if_pos ?_
    cases ts' with
    | nil =>
      rw [Cursor.peek, hview', List.headD_nil, hend]
      rfl
    | cons t' us' =>
      rw [Cursor.peek_of_view source' hview']
      obtain hk | hk := hstop' t' us' rfl <;> simp [hk]

end Steps

/-! ## Texts between places -/

/-- The texts of a comparison: the second one ends where its tokens end, and where the comparison is
exact, a piece between two places is the same on both sides. -/
structure Sources (f : Comparison) (source source' : Source) : Prop where
  ending : source'.endToken.kind = .endOfText
  slice : f.exact → ∀ {a a' b b'}, f.place a a' → f.place b b' →
    source'.text.slice a' b' = source.text.slice a b

end Comparison

end HclTidy
