import HclTidy.Proofs.Block.Sound
import HclTidy.Proofs.Expr.Brackets

/-!
# The brackets of a file

The tokens of a file that is read are bracketed. Its blocks begin with the names that begin an item
outside all brackets and that are no names of attributes, and with no others.
-/

set_option autoImplicit false

namespace HclTidy

open Token Reading Cursor

/-! ## Bodies -/

namespace Body

variable (source : Source)

theorem gives_readLabels (c : Cursor) :
    Gives (fun s => Paired .significant c.rest s.next.rest) (readLabels source c) := by
  rw [readLabels]
  split
  · exact gives_ok (.refl _ _)
  · next first hfirst =>
    have := first.shorter
    have hfirst := paired_takeIf? hfirst fun t ht => by
      rw [Bool.or_eq_true, decide_eq_true_iff, decide_eq_true_iff] at ht
      obtain hk | hk := ht <;> rw [hk] <;> rfl
    intro s hs
    obtain ⟨label, -, hs⟩ := bind_ok hs
    obtain ⟨more, hmore, hs⟩ := bind_ok hs
    cases hs
    exact hfirst.trans (gives_readLabels first.next more hmore)
termination_by c.rest.length

theorem paired_expect_lbrace {mode : LineMode} {c : Cursor} {opening : Step Token c}
    {ts : List Token} (hs : c.expect source mode .lbrace = .ok opening)
    (h : Leaves opening.next.rest ts) : Paired mode c.rest ts := by
  obtain ⟨hview, hkind⟩ := view_of_takeIf? (expect_ok hs)
  refine (hview ▸ c.paired_view mode).trans (paired_opens ?_ h)
  rw [Token.opens, of_decide_eq_true hkind]
  rfl

theorem gives_read (c : Cursor) :
    Gives (fun s => Paired .ignored c.rest s.next.rest) (read source c) := by
  intro s hs
  have hshort := c.skipNewlines_length_le
  have hskip : Paired .ignored c.rest c.skipNewlines.rest := c.paired_view .ignored
  rw [read] at hs
  split at hs
  · cases hs
    exact hskip
  · split at hs
    · cases hs
    · obtain ⟨name, hname, hs⟩ := bind_ok hs
      have := name.shorter
      have hname := hskip.trans (gives_expect rfl name hname).ignored
      dsimp only at hs
      split at hs
      · next equal hequal =>
        have := equal.shorter
        obtain ⟨value, hvalue, hs⟩ := bind_ok hs
        have := value.shorter
        obtain ⟨_, -, hs⟩ := bind_ok hs
        obtain ⟨more, hmore, hs⟩ := bind_ok hs
        cases hs
        have hitem := (paired_accept? hequal rfl).trans (Expr.gives_read source _ _ value hvalue)
        exact hname.trans (hitem.ignored.trans (gives_read value.next more hmore))
      · obtain ⟨labels, hlabels, hs⟩ := bind_ok hs
        have := labels.notLonger
        obtain ⟨opening, hopening, hs⟩ := bind_ok hs
        have := opening.shorter
        obtain ⟨inner, hinner, hs⟩ := bind_ok hs
        have := inner.notLonger
        obtain ⟨closing, hclosing, hs⟩ := bind_ok hs
        have := closing.shorter
        obtain ⟨_, -, hs⟩ := bind_ok hs
        obtain ⟨more, hmore, hs⟩ := bind_ok hs
        cases hs
        have hclose := (gives_read opening.next inner hinner).leaves
          (gives_closing (.inr (.inr rfl)) closing hclosing)
        have hitem := (gives_readLabels source name.next labels hlabels).trans
          (paired_expect_lbrace source hopening hclose)
        exact hname.trans (hitem.ignored.trans (gives_read closing.next more hmore))
termination_by c.rest.length

end Body

/-! ## Where blocks begin -/

namespace Token

/-- An item may begin behind the tokens: no bracket is open there, and a line break or nothing comes
before. -/
def itemBegins (before : List Token) : Bool :=
  opened before == closed before && before.getLast?.all (Token.isKind .newline)

/-- The token begins a block: a name where an item may begin, with no `=` behind it. -/
def beginsBlock (before : List Token) (t : Token) (after : List Token) : Bool :=
  itemBegins before && t.isKind .ident && !after.head?.any (Token.isKind .equal)

/-- The names that begin blocks, among the tokens behind `before`. -/
def blockNames (before : List Token) : List Token → List Token
  | [] => []
  | t :: ts =>
    if beginsBlock before t ts then t :: blockNames (before ++ [t]) ts
    else blockNames (before ++ [t]) ts

theorem itemBegins_concat (before : List Token) {t : Token} (ht : t.kind ≠ .newline) :
    itemBegins (before ++ [t]) = false := by
  rw [itemBegins, List.getLast?_concat, Option.all_some, Token.isKind, decide_eq_false ht,
    Bool.and_false]

theorem blockNames_append {before used : List Token} (rest : List Token)
    (h : ∀ front t, front ++ [t] <+: used →
      (itemBegins (before ++ front) && t.isKind .ident) = false) :
    blockNames before (used ++ rest) = blockNames (before ++ used) rest := by
  induction used generalizing before with
  | nil => rw [List.nil_append, List.append_nil]
  | cons t used ih =>
    have hfirst := h [] t (List.prefix_append [t] used)
    rw [List.append_nil] at hfirst
    rw [List.cons_append, blockNames, beginsBlock, hfirst, Bool.false_and, if_neg Bool.false_ne_true,
      ih, ← List.append_cons]
    intro front u hfront
    rw [← List.append_cons]
    exact h (t :: front) u (List.cons_prefix_cons.mpr ⟨rfl, hfront⟩)

theorem blockNames_newlines (before : List Token) {used : List Token} (rest : List Token)
    (h : ∀ t ∈ used, t.kind = .newline) :
    blockNames before (used ++ rest) = blockNames (before ++ used) rest := by
  refine blockNames_append rest fun front t hfront => ?_
  rw [Token.isKind, h t (hfront.subset (by simp))]
  exact Bool.and_false _

/-- No item begins inside another one: its line breaks stand behind brackets that are still open. -/
theorem blockNames_item {before used : List Token} {t : Token} (rest : List Token)
    (ht : t.NoBracket) (hn : t.kind ≠ .newline) (hbefore : opened before = closed before)
    (hused : Bracketed .significant used) :
    blockNames (before ++ [t]) (used ++ rest) = blockNames (before ++ t :: used) rest := by
  rw [List.append_cons before t used]
  refine blockNames_append rest fun front u hfront => ?_
  suffices itemBegins (before ++ [t] ++ front) = false by rw [this, Bool.false_and]
  obtain rfl | ⟨front, v, rfl⟩ := List.eq_nil_or_concat' front
  · rw [List.append_nil]
    exact itemBegins_concat before hn
  · rw [← List.append_assoc]
    by_cases hv : v.kind = .newline
    · have hplain := noBracket_newline hv
      have hlt := hused.open_of_newline rfl front v ((List.prefix_append _ _).trans hfront) hv
      have hne : opened (before ++ [t] ++ front ++ [v]) ≠ closed (before ++ [t] ++ front ++ [v]) := by
        simp only [opened_append, closed_append, opened_cons, closed_cons, ht.opens, ht.closes,
          hplain.opens, hplain.closes, opened_nil, closed_nil]
        omega
      rw [itemBegins, beq_false_of_ne hne, Bool.false_and]
    · exact itemBegins_concat _ hv

end Token

namespace ParsedFile

variable {source : Source} {file : Text} {keepSource : Bool}

/-- The tokens behind `before` are bracketed, and the names that begin blocks among them are those of
the blocks. -/
def NamesOf (before rest : List Token) (blocks : List Block) : Prop :=
  Bracketed .ignored rest ∧ (blockNames before rest).map Token.text = blocks.map Block.type

/-- A line break comes next, or has just been passed. -/
def AtBreak (before rest : List Token) : Prop :=
  before.getLast?.all (Token.isKind .newline) = true ∨
    ∀ t, rest.head? = some t → t.kind = .newline ∨ t.kind = .rbrace

theorem atBreak_of_endOfItem {c : Cursor} (before : List Token) {u : Unit}
    (hend : ∀ t ∈ c.rest, t.kind ≠ .endOfText) (h : c.endOfItem source = .ok u) :
    AtBreak before c.rest := by
  refine .inr fun t ht => ?_
  obtain ⟨ts, hts⟩ := List.head?_eq_some_iff.mp ht
  have hview : c.view .significant = t :: ts := hts
  unfold endOfItem at h
  rw [peek_of_view source hview] at h
  simp only [Bool.or_eq_true, decide_eq_true_iff, or_assoc] at h
  split at h
  · next hkind =>
    obtain hk | hk | hk := hkind
    · exact .inl hk
    · exact absurd hk (hend t (hts ▸ List.mem_cons_self ..))
    · exact .inr hk
  · cases h

theorem itemBegins_newlines {before nls rest : List Token} {name : Token}
    (hnls : ∀ t ∈ nls, t.kind = .newline) (hbefore : opened before = closed before)
    (hbreak : AtBreak before (nls ++ name :: rest)) (hname : name.kind = .ident) :
    itemBegins (before ++ nls) = true := by
  have hplain : opened (before ++ nls) = closed (before ++ nls) := by
    have hnet := (bracketed_newlines hnls).closed_eq
    rw [opened_append, closed_append]
    omega
  rw [itemBegins, hplain, beq_self_eq_true, Bool.true_and]
  obtain rfl | ⟨front, t, rfl⟩ := List.eq_nil_or_concat' nls
  · rw [List.append_nil]
    refine hbreak.resolve_right fun h => ?_
    have hk := h name rfl
    rw [hname] at hk
    obtain hk | hk := hk <;> cases hk
  · rw [← List.append_assoc, List.getLast?_concat]
    exact decide_eq_true (hnls t (by simp))

theorem equal_head (c : Cursor) :
    c.rest.head?.any (Token.isKind .equal) = (c.accept? .significant .equal).isSome := by
  change (c.view .significant).head?.any _ = _
  cases hview : c.view .significant with
  | nil =>
    rw [accept?, takeIf?_none_of_nil hview]
    rfl
  | cons t ts =>
    rw [List.head?_cons, Option.any_some]
    cases ht : t.isKind .equal with
    | true =>
      obtain ⟨s, hs, -⟩ := takeIf?_of_view hview ht
      rw [accept?, hs]
      rfl
    | false =>
      rw [accept?, takeIf?_none_of_view hview ht]
      rfl

theorem exists_newlines (c : Cursor) :
    ∃ nls, c.rest = nls ++ c.skipNewlines.rest ∧ ∀ t ∈ nls, t.kind = .newline := by
  refine ⟨_, List.takeWhile_append_dropWhile.symm, fun t ht => ?_⟩
  have hkind := List.mem_takeWhile_imp ht
  exact of_decide_eq_true hkind

/-- An item of a file: its name, and what is read with it up to the next item. -/
theorem namesOf_item {before ts : List Token} {c : Cursor} {name : Step Token c.skipNewlines}
    {blocks : List Block} (hbefore : opened before = closed before) (hbreak : AtBreak before c.rest)
    (hname : c.skipNewlines.expect source .significant .ident = .ok name)
    (hitem : Paired .significant name.next.rest ts)
    (hrest : ∀ before, opened before = closed before → NamesOf before ts blocks) :
    Bracketed .ignored c.rest ∧
      (blockNames before c.rest).map Token.text =
        (if (name.next.accept? .significant .equal).isSome then [] else [name.value.text])
          ++ blocks.map Block.type := by
  obtain ⟨nls, hnls, hnewlines⟩ := exists_newlines c
  obtain ⟨hview, hkind⟩ := view_of_takeIf? (expect_ok hname)
  replace hkind : name.value.kind = .ident := of_decide_eq_true hkind
  obtain ⟨used, hnext, hused⟩ := hitem
  have hplain : name.value.NoBracket :=
    ⟨by rw [Token.opens, hkind]; rfl, by rw [Token.closes, hkind]; rfl⟩
  rw [show c.skipNewlines.rest = _ from hview] at hnls
  rw [hnls] at hbreak ⊢
  have hbegins := itemBegins_newlines hnewlines hbefore hbreak hkind
  have hbalanced : opened (before ++ nls) = closed (before ++ nls) := by
    rw [itemBegins, Bool.and_eq_true, beq_iff_eq] at hbegins
    exact hbegins.1
  obtain ⟨hbracketed, hnames⟩ := hrest (before ++ nls ++ name.value :: used) (by
    have hnet := hused.closed_eq
    rw [opened_append, closed_append, opened_cons, closed_cons, hplain.opens, hplain.closes]
    omega)
  have hmode : LineMode.ignored ≠ .significant := by decide
  refine ⟨(bracketed_newlines hnewlines).append (.plain hplain (fun h => absurd h hmode) ?_), ?_⟩
  · rw [hnext]
    exact hused.ignored.append hbracketed
  · rw [← equal_head, blockNames_newlines before _ hnewlines, blockNames, beginsBlock, hbegins,
      Token.isKind, decide_eq_true hkind, hnext,
      blockNames_item ts hplain (by rw [hkind]; decide) hbalanced hused]
    cases (used ++ ts).head?.any (Token.isKind .equal) with
    | true => exact hnames
    | false => exact congrArg (name.value.text :: ·) hnames

theorem namesOf_readBlocks : ∀ {c : Cursor} {previousEnd : Nat} {blocks : List Block}
    {events : List ParseEvent} {before : List Token},
    readBlocks source file keepSource previousEnd c = .ok (blocks, events) →
    (∀ t ∈ c.rest, t.kind ≠ .endOfText) → opened before = closed before → AtBreak before c.rest →
    NamesOf before c.rest blocks := by
  intro c
  induction hn : c.rest.length using Nat.strongRecOn generalizing c with
  | ind n ih =>
    subst hn
    intro previousEnd blocks events before hs hend hbefore hbreak
    have hshort := c.skipNewlines_length_le
    rw [readBlocks] at hs
    split at hs
    · next hpeek =>
      cases hs
      obtain ⟨nls, hnls, hnewlines⟩ := exists_newlines c
      have hrest : c.skipNewlines.rest = [] := by
        cases hview : c.skipNewlines.view .significant with
        | nil => exact hview
        | cons t ts =>
          rw [peek_of_view source hview] at hpeek
          rw [hnls, show c.skipNewlines.rest = _ from hview] at hend
          exact absurd hpeek (hend t (by simp))
      rw [hnls, hrest]
      refine ⟨(bracketed_newlines hnewlines).append .nil, ?_⟩
      rw [blockNames_newlines before [] hnewlines]
      rfl
    · obtain ⟨name, hname, hs⟩ := bind_ok hs
      have h₁ := name.shorter
      have hsuffix := name.suffix.trans (c.view_suffix .ignored)
      dsimp only at hs
      split at hs
      · next equal hequal =>
        have h₂ := equal.shorter
        obtain ⟨value, hvalue, hs⟩ := bind_ok hs
        have h₃ := value.shorter
        obtain ⟨_, hitem, hs⟩ := bind_ok hs
        have hitem' := (paired_accept? hequal rfl).trans (Expr.gives_read source _ _ value hvalue)
        have hend' : ∀ t ∈ value.next.rest, t.kind ≠ .endOfText := fun t ht =>
          hend t ((value.suffix.trans (equal.suffix.trans hsuffix)).subset ht)
        have h := namesOf_item hbefore hbreak hname hitem' fun before hbefore =>
          have hbreak : AtBreak before value.next.rest := atBreak_of_endOfItem before hend' hitem
          ih (c := value.next.record _) value.next.rest.length (by omega) rfl hs hend' hbefore hbreak
        rwa [hequal] at h
      · next hequal =>
        obtain ⟨labels, hlabels, hs⟩ := bind_ok hs
        have h₂ := labels.notLonger
        obtain ⟨header, hheader, hs⟩ := bind_ok hs
        have h₃ := header.notLonger
        obtain ⟨opening, hopening, hs⟩ := bind_ok hs
        have h₄ := opening.shorter
        obtain ⟨body, hbody, hs⟩ := bind_ok hs
        have h₅ := body.notLonger
        obtain ⟨closing, hclosing, hs⟩ := bind_ok hs
        have h₆ := closing.shorter
        obtain ⟨_, hitem, hs⟩ := bind_ok hs
        obtain ⟨⟨more, passed⟩, hmore, hs⟩ := bind_ok hs
        cases hs
        have hheader' : header.next.rest = labels.next.rest := by
          unfold checkLabels at hheader
          split at hheader
          · cases hheader
            rfl
          · split at hheader
            · cases hheader
              rfl
            · cases hheader
        have hclose := (Body.gives_read source opening.next body hbody).leaves
          (gives_closing (.inr (.inr rfl)) closing hclosing)
        have hitem' := (Body.gives_readLabels source name.next labels hlabels).trans
          (hheader' ▸ Body.paired_expect_lbrace source hopening hclose)
        have hend' : ∀ t ∈ closing.next.rest, t.kind ≠ .endOfText := fun t ht =>
          hend t ((closing.suffix.trans (body.suffix.trans (opening.suffix.trans
            (header.suffix.trans (labels.suffix.trans hsuffix))))).subset ht)
        have h := namesOf_item hbefore hbreak hname hitem' fun before hbefore =>
          ih closing.next.rest.length (by omega) rfl hmore hend' hbefore
            (atBreak_of_endOfItem before hend' hitem)
        rwa [hequal] at h

/-- The tokens of a file that is read, comments aside, are bracketed, and the names that begin blocks
among them are those of its blocks. -/
theorem namesOf_ofText {parsed : ParsedFile} {text : Text} {events : List ParseEvent}
    {stream : TokenStream} (hstream : TokenStream.ofText text = .ok stream)
    (h : ofText file keepSource text = .ok (parsed, events)) :
    NamesOf [] (stream.tokens.filter fun t => t.kind ≠ .comment) parsed.blocks := by
  unfold ofText at h
  rw [hstream] at h
  obtain ⟨⟨blocks, passed⟩, hblocks, h⟩ := bind_ok h
  cases h
  refine namesOf_readBlocks hblocks (fun t ht => ?_) rfl (.inl rfl)
  obtain ⟨ws, tail, -, hfit, -, rfl⟩ := exists_lexemes hstream
  obtain ⟨rest, hfits⟩ := fits_of_mem_tokensAt hfit t (List.mem_of_mem_filter ht)
  exact fits_not_endOfText hfits

end ParsedFile

end HclTidy
