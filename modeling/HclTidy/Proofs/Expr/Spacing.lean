import HclTidy.Proofs.Expr.Alike

/-!
# Line breaks between brackets

Inside the brackets of a value line breaks are layout. So two token lists read alike when the second
has line breaks added there, unless one comes between a name and the parenthesis of its call, which
has to stand on the line of the name, or between the `*` and the `]` of a splat. What is read has the
same shape, and sources that are the same up to white space.
-/

set_option autoImplicit false

namespace HclTidy

/-! ## Values up to white space -/

/-- The text without its white space. -/
def Text.squeezed (t : Text) : Text := t.filter fun c => !Text.isBlank c

/-- The same text with other white space behind its first character. -/
structure Text.Loosened (t t' : Text) : Prop where
  squeezed : t'.squeezed = t.squeezed
  head : t'.head? = t.head?

namespace Expr

mutual

/-- The expression with its sources without their white space. -/
def squeezed : Expr → Expr
  | .literal s => .literal s.squeezed
  | .template s heredoc parts => .template s heredoc parts
  | .tuple s items => .tuple s.squeezed (allSqueezed items)
  | .object s items => .object s.squeezed (allPairsSqueezed items)
  | .traversal s root => .traversal s.squeezed root
  | .call s name args => .call s.squeezed name (allSqueezed args)
  | .unknown s => .unknown s.squeezed

def allSqueezed : List Expr → List Expr
  | [] => []
  | item :: rest => item.squeezed :: allSqueezed rest

def allPairsSqueezed : List (Expr × Expr) → List (Expr × Expr)
  | [] => []
  | (key, value) :: rest => (key.squeezed, value.squeezed) :: allPairsSqueezed rest

end

/-- Two expressions of the same shape. -/
structure SameShape (e e' : Expr) : Prop where
  squeezed : e'.squeezed = e.squeezed
  number : e'.isNumber = e.isNumber

theorem SameShape.refl (e : Expr) : SameShape e e := ⟨rfl, rfl⟩

theorem isStaticIndex_squeezed (e : Expr) : e.squeezed.isStaticIndex = e.isStaticIndex := by
  cases e <;> rfl

theorem SameShape.isStaticIndex {e e' : Expr} (h : SameShape e e') :
    e'.isStaticIndex = e.isStaticIndex := by
  rw [← isStaticIndex_squeezed, h.squeezed, isStaticIndex_squeezed]

theorem squeezed_withStep (e : Expr) (static : Bool) (text : Text) :
    (e.withStep static text).squeezed = e.squeezed.withStep static text.squeezed := by
  cases e <;> cases static <;> rfl

theorem isNumber_withStep (e : Expr) (static : Bool) (text : Text) :
    (e.withStep static text).isNumber = false := by
  cases e <;> cases static <;> rfl

theorem SameShape.withStep {e e' : Expr} (h : SameShape e e') (static : Bool) {text text' : Text}
    (ht : text.Loosened text') : SameShape (e.withStep static text) (e'.withStep static text') := by
  refine ⟨?_, ?_⟩
  · rw [squeezed_withStep, squeezed_withStep, h.squeezed, ht.squeezed]
  · rw [isNumber_withStep, isNumber_withStep]

theorem SameShape.unknown {text text' : Text} (h : text.Loosened text') :
    SameShape (.unknown text) (.unknown text') :=
  ⟨congrArg Expr.unknown h.squeezed, rfl⟩

theorem SameShape.literal {text text' : Text} (h : text.Loosened text') :
    SameShape (.literal text) (.literal text') := by
  refine ⟨congrArg Expr.literal h.squeezed, ?_⟩
  have hhead := h.head
  cases text <;> cases text' <;> simp_all [isNumber]

/-- A traversal in parentheses is one with another source; other values stay. -/
theorem sameShape_inParens {e e' : Expr} {text text' : Text} (ht : text.Loosened text') :
    SameShape e e' →
      SameShape (match e with | .traversal _ root => .traversal text root | value => value)
        (match e' with | .traversal _ root => .traversal text' root | value => value) := by
  intro h
  have hsqueezed := h.squeezed
  cases e with
  | traversal s root =>
    cases e' with
    | traversal s' root' =>
      simp only [Expr.squeezed, traversal.injEq] at hsqueezed
      obtain rfl := hsqueezed.2
      exact ⟨congrArg (traversal · root') ht.squeezed, rfl⟩
    | _ => simp only [Expr.squeezed, reduceCtorEq] at hsqueezed
  | _ =>
    cases e' with
    | traversal => simp only [Expr.squeezed, reduceCtorEq] at hsqueezed
    | _ => exact h

end Expr

/-! ## Nesting -/

/-- Where a token stands: outside the values of a file, or in a value, inside a number of brackets. -/
inductive Nesting where
  | outside
  | inside (depth : Nat)
deriving DecidableEq

namespace Nesting

/-- The place behind a token. -/
def next (t : Token) : Nesting → Nesting
  | outside => if t.kind = .equal then inside 0 else outside
  | inside 0 =>
    if t.opens then inside 1 else if t.closes || t.kind = .newline then outside else inside 0
  | inside (depth + 1) =>
    if t.opens then inside (depth + 2) else if t.closes then inside depth else inside (depth + 1)

/-- The mode in which a place is read; names and labels are read in both modes. -/
def Allows : Nesting → LineMode → Prop
  | outside, _ => True
  | inside 0, mode => mode = .significant
  | inside (_ + 1), mode => mode = .ignored

theorem allows_outside (mode : LineMode) : outside.Allows mode := trivial

theorem allows_value : (inside 0).Allows .significant := rfl

theorem allows_ignored (depth : Nat) : (inside (depth + 1)).Allows .ignored := rfl

section Next

variable {depth : Nat} {t : Token} {kind : Token.Kind}

theorem next_opening (hk : kind = .lbrace ∨ kind = .lbrack ∨ kind = .lparen) (ht : t.kind = kind) :
    (inside depth).next t = inside (depth + 1) := by
  have hopens : t.opens = true := by
    rw [Token.opens, ht]
    obtain rfl | rfl | rfl := hk <;> rfl
  cases depth <;> exact if_pos hopens

theorem next_closing (hk : kind = .rbrace ∨ kind = .rbrack ∨ kind = .rparen) (ht : t.kind = kind) :
    (inside (depth + 1)).next t = inside depth := by
  have hopens : ¬ t.opens = true := by
    rw [Token.opens, ht]
    obtain rfl | rfl | rfl := hk <;> decide
  have hcloses : t.closes = true := by
    rw [Token.closes, ht]
    obtain rfl | rfl | rfl := hk <;> rfl
  exact (if_neg hopens).trans (if_pos hcloses)

/-- A token that is no bracket and no line break. -/
def isInner (kind : Token.Kind) : Bool :=
  !(kind = .lbrace || kind = .lbrack || kind = .lparen || kind = .rbrace || kind = .rbrack ||
    kind = .rparen || kind = .newline)

theorem next_inner (hk : isInner kind = true) (ht : t.kind = kind) :
    (inside depth).next t = inside depth := by
  subst ht
  simp only [isInner, Bool.not_eq_true', Bool.or_eq_false_iff] at hk
  obtain ⟨⟨⟨⟨⟨⟨h₁, h₂⟩, h₃⟩, h₄⟩, h₅⟩, h₆⟩, h₇⟩ := hk
  cases depth <;> simp [next, Token.opens, Token.closes, h₁, h₂, h₃, h₄, h₅, h₆, h₇]

end Next

/-- Line breaks do not count where they are layout. -/
theorem next_newline {p : Nesting} {t : Token} (hp : p ≠ inside 0) (ht : t.kind = .newline) :
    p.next t = p := by
  match p with
  | outside => exact if_neg (by rw [ht]; decide)
  | inside 0 => exact absurd rfl hp
  | inside (depth + 1) => simp [next, Token.opens, Token.closes, ht]

end Nesting

/-! ## Token lists -/

/-- A parenthesis or `::` on the line of a name, behind line breaks if need be. -/
def Token.callBehind (name : Token) (ts : List Token) : Bool :=
  match ts.dropWhile (Token.isKind .newline) with
  | [] => false
  | t :: _ => (t.kind = .lparen || t.kind = .doubleColon) && t.start.line = name.start.line

/-- The fixed data of a comparison: both sources, and which offset on the second side stands for the
start of a token on the first, and which for its end. -/
structure Spacing where
  source : Source
  source' : Source
  starts : Nat → Nat → Prop
  stops : Nat → Nat → Prop
  slice : ∀ {a a' b b'}, starts a a' → stops b b' →
    (source.text.slice a b).Loosened (source'.text.slice a' b')
  ending : source.endToken.kind = .endOfText
  ending' : source'.endToken.kind = .endOfText
  last : starts source.endToken.start.offset source'.endToken.start.offset

namespace Spacing

variable {g : Spacing}

/-- The same token at another place. -/
structure Same (g : Spacing) (t t' : Token) : Prop where
  kind : t'.kind = t.kind
  text : t'.text = t.text
  start : g.starts t.start.offset t'.start.offset
  stop : g.stops t.stop t'.stop
  inText : t.kind ≠ .endOfText

/-- The tokens behind a token on both sides: they make it a call on both or on none, and on the second
side no line break parts a `*` from a `]`. -/
structure Behind (t t' : Token) (ts ts' : List Token) : Prop where
  call : t.kind = .ident → t'.callBehind ts' = t.callBehind ts
  splat : t.isWord .operator ['*'] = true → ∀ u us, ts = u :: us → u.kind = .rbrack →
    ∃ u' us', ts' = u' :: us' ∧ u'.kind = .rbrack

/-- The tokens behind a place on both sides: on the second side line breaks may be added inside brackets. -/
inductive Spaced (g : Spacing) : Nesting → List Token → List Token → Prop
  | nil {p} : Spaced g p [] []
  | cons {p t t' ts ts'} : g.Same t t' → Behind t t' ts ts' → Spaced g (p.next t) ts ts' →
      Spaced g p (t :: ts) (t' :: ts')
  | feed {depth n ts ts'} : n.kind = .newline → Spaced g (.inside (depth + 1)) ts ts' →
      Spaced g (.inside (depth + 1)) ts (n :: ts')

/-- The next tokens where no line break can have been added in front of them. -/
inductive Next (g : Spacing) (p : Nesting) : List Token → List Token → Prop
  | nil : Next g p [] []
  | cons {t t' ts ts'} : g.Same t t' → Behind t t' ts ts' → Spaced g (p.next t) ts ts' →
      Next g p (t :: ts) (t' :: ts')

theorem next_significant {p : Nesting} {ts ts' : List Token} (h : g.Spaced p ts ts')
    (hp : ∀ depth, p ≠ .inside (depth + 1)) : g.Next p ts ts' := by
  cases h with
  | nil => exact .nil
  | cons hsame hbehind hrest => exact .cons hsame hbehind hrest
  | feed => exact absurd rfl (hp _)

theorem next_ignored {p : Nesting} {ts ts' : List Token} (h : g.Spaced p ts ts') (hp : p ≠ .inside 0) :
    g.Next p (ts.dropWhile (Token.isKind .newline)) (ts'.dropWhile (Token.isKind .newline)) := by
  induction h with
  | nil => exact .nil
  | @cons p t t' ts ts' hsame hbehind hrest ih =>
    by_cases hn : t.kind = .newline
    · rw [Nesting.next_newline hp hn] at ih
      rw [Comparison.dropWhile_cons_newline hn, Comparison.dropWhile_cons_newline (hsame.kind.trans hn)]
      exact ih hp
    · rw [Comparison.dropWhile_cons hn, Comparison.dropWhile_cons (hsame.kind ▸ hn)]
      exact .cons hsame hbehind hrest
  | feed hn _ ih =>
    rw [Comparison.dropWhile_cons_newline hn]
    exact ih hp

/-- Cursors at a place. -/
structure At (g : Spacing) (p : Nesting) (c c' : Cursor) : Prop where
  rest : g.Spaced p c.rest c'.rest
  stop : g.stops c.stop c'.stop

section Cursors

variable {p q : Nesting} {mode : LineMode} {c c' : Cursor}

theorem next_view (hp : p.Allows mode) (h : g.Spaced p c.rest c'.rest) :
    g.Next p (c.view mode) (c'.view mode) := by
  match p, mode with
  | .outside, .significant => exact next_significant h (by simp)
  | .outside, .ignored => exact next_ignored h (by simp)
  | .inside 0, .significant => exact next_significant h (by simp)
  | .inside (depth + 1), .ignored => exact next_ignored h (by simp)

/-! ## Reading single tokens -/

/-- The same token has been taken on both sides. -/
structure Taken (g : Spacing) (p : Nesting) (s : Step Token c) (s' : Step Token c') : Prop where
  same : g.Same s.value s'.value
  behind : Behind s.value s'.value s.next.rest s'.next.rest
  next : g.At (p.next s.value) s.next s'.next

theorem take?_rel (hp : p.Allows mode) (h : g.Spaced p c.rest c'.rest) :
    Option.Rel (g.Taken p) (c.take? mode) (c'.take? mode) := by
  have hnext := next_view hp h
  generalize hview : c.view mode = ts at hnext
  generalize hview' : c'.view mode = ts' at hnext
  cases hnext with
  | nil =>
    rw [Cursor.take?_none_of_nil hview, Cursor.take?_none_of_nil hview']
    exact .none
  | cons hsame hbehind hrest =>
    obtain ⟨s, hs, rfl, rfl⟩ := Cursor.take?_of_view hview
    obtain ⟨s', hs', rfl, rfl⟩ := Cursor.take?_of_view hview'
    rw [hs, hs']
    refine .some ⟨hsame, hbehind, hrest, ?_⟩
    rw [(Cursor.passed_of_take? hs).1, (Cursor.passed_of_take? hs').1]
    exact hsame.stop

theorem isKind_same (kind : Token.Kind) (t t' : Token) (hk : t'.kind = t.kind) (_ : t'.text = t.text) :
    Token.isKind kind t' = Token.isKind kind t := by
  rw [Token.isKind, Token.isKind, hk]

theorem isWord_same (kind : Token.Kind) (word : Text) (t t' : Token) (hk : t'.kind = t.kind)
    (ht : t'.text = t.text) : Token.isWord kind word t' = Token.isWord kind word t := by
  rw [Token.isWord, Token.isWord, hk, ht]

theorem takeIf?_rel {wanted : Token → Bool}
    (hw : ∀ t t' : Token, t'.kind = t.kind → t'.text = t.text → wanted t' = wanted t)
    (hp : p.Allows mode) (h : g.Spaced p c.rest c'.rest) :
    Option.Rel (fun s s' => g.Taken p s s' ∧ wanted s.value = true) (c.takeIf? mode wanted)
      (c'.takeIf? mode wanted) := by
  have htaken := take?_rel hp h
  unfold Cursor.takeIf?
  generalize c.take? mode = found at htaken
  generalize c'.take? mode = found' at htaken
  cases htaken with
  | none => exact .none
  | @some s s' htaken =>
    dsimp only
    rw [hw s.value s'.value htaken.same.kind htaken.same.text]
    cases hwanted : wanted s.value with
    | false => exact .none
    | true => exact .some ⟨htaken, hwanted⟩

/-- A token of a kind has been taken on both sides. -/
structure TakenTo (g : Spacing) (q : Nesting) (kind : Token.Kind) (s : Step Token c) (s' : Step Token c') :
    Prop where
  same : g.Same s.value s'.value
  kind : s.value.kind = kind
  next : g.At q s.next s'.next

theorem accept?_rel {kind : Token.Kind} (hq : ∀ t : Token, t.kind = kind → p.next t = q)
    (hp : p.Allows mode) (h : g.Spaced p c.rest c'.rest) :
    Option.Rel (g.TakenTo q kind) (c.accept? mode kind) (c'.accept? mode kind) := by
  have htaken := takeIf?_rel (isKind_same kind) hp h
  unfold Cursor.accept?
  generalize c.takeIf? mode _ = found at htaken
  generalize c'.takeIf? mode _ = found' at htaken
  cases htaken with
  | none => exact .none
  | some htaken =>
    have hkind := of_decide_eq_true htaken.2
    exact .some ⟨htaken.1.same, hkind, hq _ hkind ▸ htaken.1.next⟩

theorem acceptWord?_rel (word : Text) {depth : Nat} (h : g.Spaced (.inside (depth + 1)) c.rest c'.rest) :
    Option.Rel (g.TakenTo (.inside (depth + 1)) .ident) (c.acceptWord? .ignored word)
      (c'.acceptWord? .ignored word) := by
  have htaken := takeIf?_rel (isWord_same .ident word) (Nesting.allows_ignored depth) h
  unfold Cursor.acceptWord?
  generalize c.takeIf? _ _ = found at htaken
  generalize c'.takeIf? _ _ = found' at htaken
  cases htaken with
  | none => exact .none
  | @some s s' htaken =>
    have hkind : s.value.kind = .ident := by
      have hword := htaken.2
      rw [Token.isWord, Bool.and_eq_true] at hword
      exact of_decide_eq_true hword.1
    exact .some ⟨htaken.1.same, hkind, Nesting.next_inner (by decide) hkind ▸ htaken.1.next⟩

end Cursors

/-! ## Readings that keep step -/

/-- Where the first side reads something, the second side reads something that is related to it. -/
def Follows {α β : Type} (R : α → β → Prop) (r : Reading α) (r' : Reading β) : Prop :=
  ∀ a, r = .ok a → ∃ b, r' = .ok b ∧ R a b

section Follows

variable {α α' β β' : Type} {R : α → α' → Prop} {S : β → β' → Prop}

theorem follows_ok {a : α} {a' : α'} (h : R a a') : Follows R (.ok a) (.ok a') := by
  rintro b ⟨⟩
  exact ⟨a', rfl, h⟩

theorem follows_error (e : ParseFailure) (r' : Reading α') : Follows R (.error e) r' := by
  rintro b ⟨⟩

theorem Follows.bind {r : Reading α} {r' : Reading α'} {k : α → Reading β} {k' : α' → Reading β'}
    (h : Follows R r r') (hk : ∀ a a', R a a' → Follows S (k a) (k' a')) :
    Follows S (r >>= k) (r' >>= k') := by
  intro b hb
  obtain ⟨a, rfl, ha⟩ := Reading.bind_ok hb
  obtain ⟨a', rfl, hR⟩ := h a rfl
  exact hk a a' hR b ha

end Follows

/-- What has been read on both sides, up to a place, has the values that are asked for. -/
structure StepSpaced (g : Spacing) (q : Nesting) {α : Type} (V : α → α → Prop) {c c' : Cursor}
    (s : Step α c) (s' : Step α c') : Prop where
  next : g.At q s.next s'.next
  value : V s.value s'.value

structure TailSpaced (g : Spacing) (q : Nesting) {α : Type} (V : α → α → Prop) {c c' : Cursor}
    (s : Tail α c) (s' : Tail α c') : Prop where
  next : g.At q s.next s'.next
  value : V s.value s'.value

section Cursors

variable {p q : Nesting} {mode : LineMode} {c c' : Cursor} {depth : Nat}

theorem accept?_inner (kind : Token.Kind) (hk : Nesting.isInner kind = true)
    (hp : (Nesting.inside depth).Allows mode) (h : g.Spaced (.inside depth) c.rest c'.rest) :
    Option.Rel (g.TakenTo (.inside depth) kind) (c.accept? mode kind) (c'.accept? mode kind) :=
  accept?_rel (fun _ => Nesting.next_inner hk) hp h

theorem expect_follows {kind : Token.Kind} (hq : ∀ t : Token, t.kind = kind → p.next t = q)
    (hp : p.Allows mode) (h : g.Spaced p c.rest c'.rest) :
    Follows (g.TakenTo q kind) (c.expect g.source mode kind) (c'.expect g.source' mode kind) := by
  have htaken := accept?_rel hq hp h
  unfold Cursor.expect
  generalize c.accept? mode kind = found at htaken
  generalize c'.accept? mode kind = found' at htaken
  cases htaken with
  | none => exact follows_error _ _
  | some htaken => exact follows_ok htaken

theorem expect_inner {kind : Token.Kind} (hk : Nesting.isInner kind = true)
    (hp : (Nesting.inside depth).Allows mode) (h : g.Spaced (.inside depth) c.rest c'.rest) :
    Follows (g.TakenTo (.inside depth) kind) (c.expect g.source mode kind)
      (c'.expect g.source' mode kind) :=
  expect_follows (fun _ => Nesting.next_inner hk) hp h

theorem expect_opening {kind : Token.Kind} (hk : kind = .lbrace ∨ kind = .lbrack ∨ kind = .lparen)
    (hp : (Nesting.inside depth).Allows mode) (h : g.Spaced (.inside depth) c.rest c'.rest) :
    Follows (g.TakenTo (.inside (depth + 1)) kind) (c.expect g.source mode kind)
      (c'.expect g.source' mode kind) :=
  expect_follows (fun _ => Nesting.next_opening hk) hp h

theorem expect_closing {kind : Token.Kind} (hk : kind = .rbrace ∨ kind = .rbrack ∨ kind = .rparen)
    (h : g.Spaced (.inside (depth + 1)) c.rest c'.rest) :
    Follows (g.TakenTo (.inside depth) kind) (c.expect g.source .ignored kind)
      (c'.expect g.source' .ignored kind) :=
  expect_follows (fun _ => Nesting.next_closing hk) (Nesting.allows_ignored depth) h

/-- The `]` behind the `*` of a splat, looked for where line breaks may count. -/
theorem expect_splat (hp : (Nesting.inside depth).Allows mode)
    (h : g.Spaced (.inside (depth + 1)) c.rest c'.rest)
    (hclose : ∀ u us, c.rest = u :: us → u.kind = .rbrack →
      ∃ u' us', c'.rest = u' :: us' ∧ u'.kind = .rbrack) :
    Follows (g.TakenTo (.inside depth) .rbrack) (c.expect g.source mode .rbrack)
      (c'.expect g.source' mode .rbrack) := by
  cases depth with
  | succ depth =>
    obtain rfl : mode = .ignored := hp
    exact expect_closing (.inr (.inl rfl)) h
  | zero =>
    obtain rfl : mode = .significant := hp
    intro s hs
    obtain ⟨hview, hkind⟩ := Cursor.view_of_takeIf? (Cursor.expect_ok hs)
    have hkind : s.value.kind = .rbrack := of_decide_eq_true hkind
    obtain ⟨u', us', hrest', hkind'⟩ := hclose _ _ hview hkind
    rw [show c.rest = s.value :: s.next.rest from hview, hrest'] at h
    cases h with
    | feed hn =>
      rw [hkind'] at hn
      cases hn
    | cons hsame _ hrest =>
      have hview' : c'.view .significant = u' :: us' := hrest'
      have hwanted : Token.isKind .rbrack u' = true := decide_eq_true hkind'
      obtain ⟨s', hs', rfl, rfl⟩ := Cursor.takeIf?_of_view hview' hwanted
      refine ⟨s', Cursor.expect_of_some hs', hsame, hkind, ?_, ?_⟩
      · exact Nesting.next_closing (.inr (.inl rfl)) hkind ▸ hrest
      · rw [(Cursor.passed_of_take? (Cursor.take?_of_takeIf? (Cursor.expect_ok hs))).1,
          (Cursor.passed_of_take? (Cursor.take?_of_takeIf? hs')).1]
        exact hsame.stop

theorem expectWord_follows {word : Text} (h : g.Spaced (.inside (depth + 1)) c.rest c'.rest) :
    Follows (g.TakenTo (.inside (depth + 1)) .ident) (c.expectWord g.source .ignored word)
      (c'.expectWord g.source' .ignored word) := by
  have htaken := acceptWord?_rel word h
  unfold Cursor.expectWord
  generalize c.acceptWord? _ word = found at htaken
  generalize c'.acceptWord? _ word = found' at htaken
  cases htaken with
  | none => exact follows_error _ _
  | some htaken => exact follows_ok htaken

theorem skip_at (kind : Token.Kind) (hk : Nesting.isInner kind = true)
    (h : g.At (.inside (depth + 1)) c c') :
    g.At (.inside (depth + 1)) (c.skip .ignored kind).next (c'.skip .ignored kind).next := by
  have htaken := accept?_inner kind hk (Nesting.allows_ignored depth) h.rest
  unfold Cursor.skip
  generalize c.accept? .ignored kind = found at htaken
  generalize c'.accept? .ignored kind = found' at htaken
  cases htaken with
  | none => exact h
  | some htaken => exact htaken.next

/-- The token that comes next is of the same kind, and starts at the place for it. -/
theorem peek_same (hp : p.Allows mode) (h : g.Spaced p c.rest c'.rest) :
    (c'.peek g.source' mode).kind = (c.peek g.source mode).kind ∧
      g.starts (c.peek g.source mode).start.offset (c'.peek g.source' mode).start.offset := by
  have hnext := next_view hp h
  unfold Cursor.peek
  generalize c.view mode = ts at hnext
  generalize c'.view mode = ts' at hnext
  cases hnext with
  | nil => exact ⟨g.ending'.trans g.ending.symm, g.last⟩
  | cons hsame => exact ⟨hsame.kind, hsame.start⟩

/-- What has been read since a token that starts at a place. -/
theorem loosened_sourceFrom {start start' : Nat} (hstart : g.starts start start') (h : g.At p c c') :
    (c.sourceFrom g.source start).Loosened (c'.sourceFrom g.source' start') :=
  g.slice hstart h.stop

end Cursors

end Spacing

end HclTidy
