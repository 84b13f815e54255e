import HclTidy.Proofs.Expr.Spacing

/-!
# Brackets in pairs

Tokens are bracketed when every opening bracket among them is closed behind it, and nothing is closed
that has not been opened. Where line breaks count, they stand inside brackets only. Such tokens close
as many brackets as they open, and no front of them closes more than it opens.
-/

set_option autoImplicit false

namespace HclTidy.Token

/-- The number of brackets that tokens open. -/
def opened (ts : List Token) : Nat := ts.countP Token.opens

/-- The number of brackets that tokens close. -/
def closed (ts : List Token) : Nat := ts.countP Token.closes

@[simp] theorem opened_nil : opened [] = 0 := rfl

@[simp] theorem closed_nil : closed [] = 0 := rfl

@[simp] theorem opened_cons (t : Token) (ts : List Token) :
    opened (t :: ts) = opened ts + if t.opens then 1 else 0 := List.countP_cons

@[simp] theorem closed_cons (t : Token) (ts : List Token) :
    closed (t :: ts) = closed ts + if t.closes then 1 else 0 := List.countP_cons

@[simp] theorem opened_append (ts us : List Token) : opened (ts ++ us) = opened ts + opened us :=
  List.countP_append

@[simp] theorem closed_append (ts us : List Token) : closed (ts ++ us) = closed ts + closed us :=
  List.countP_append

theorem closes_of_opens {t : Token} (h : t.opens = true) : t.closes = false := by
  simp only [opens, Bool.or_eq_true, decide_eq_true_eq, or_assoc] at h
  obtain h | h | h := h <;> rw [closes, h] <;> rfl

theorem opens_of_closes {t : Token} (h : t.closes = true) : t.opens = false := by
  rw [Bool.eq_false_iff]
  intro hopens
  rw [closes_of_opens hopens] at h
  cases h

theorem kind_of_inner {t : Token} (h : Nesting.isInner t.kind = true) :
    t.opens = false ∧ t.closes = false ∧ t.kind ≠ .newline := by
  simp only [Nesting.isInner, Bool.not_eq_true', Bool.or_eq_false_iff] at h
  obtain ⟨⟨⟨⟨⟨⟨h₁, h₂⟩, h₃⟩, h₄⟩, h₅⟩, h₆⟩, h₇⟩ := h
  refine ⟨?_, ?_, of_decide_eq_false h₇⟩
  · rw [opens, h₁, h₂, h₃]
    rfl
  · rw [closes, h₄, h₅, h₆]
    rfl

/-- A token that is no bracket. -/
structure NoBracket (t : Token) : Prop where
  opens : t.opens = false
  closes : t.closes = false

theorem noBracket_newline {t : Token} (h : t.kind = .newline) : t.NoBracket :=
  ⟨by rw [Token.opens, h]; rfl, by rw [Token.closes, h]; rfl⟩

theorem noBracket_comment {t : Token} (h : t.kind = .comment) : t.NoBracket :=
  ⟨by rw [Token.opens, h]; rfl, by rw [Token.closes, h]; rfl⟩

theorem opened_filter {p : Token → Bool} {ts : List Token} (h : ∀ t ∈ ts, p t = false → t.NoBracket) :
    opened (ts.filter p) = opened ts := by
  rw [opened, opened, List.countP_filter]
  refine List.countP_congr fun t ht => ?_
  cases hp : p t with
  | true => simp
  | false => simp [(h t ht hp).opens]

theorem closed_filter {p : Token → Bool} {ts : List Token} (h : ∀ t ∈ ts, p t = false → t.NoBracket) :
    closed (ts.filter p) = closed ts := by
  rw [closed, closed, List.countP_filter]
  refine List.countP_congr fun t ht => ?_
  cases hp : p t with
  | true => simp
  | false => simp [(h t ht hp).closes]

/-- No front of the tokens closes more brackets than it opens. -/
def NeverOverclosed (ts : List Token) : Prop := ∀ front, front <+: ts → closed front ≤ opened front

/-- No front of the tokens closes more brackets than it opens and `n` more. -/
def Covered (n : Nat) (ts : List Token) : Prop :=
  ∀ front, front <+: ts → closed front ≤ n + opened front

theorem covered_zero {ts : List Token} : Covered 0 ts ↔ NeverOverclosed ts := by
  simp only [Covered, NeverOverclosed, Nat.zero_add]

theorem Covered.append {n : Nat} {ts us : List Token} (h : Covered n (ts ++ us)) :
    Covered n ts ∧ ∀ m, m + closed ts = n + opened ts → Covered m us := by
  refine ⟨fun front hfront => h front (hfront.trans (List.prefix_append ts us)),
    fun m hm front hfront => ?_⟩
  have hle := h (ts ++ front) ((List.prefix_append_right_inj ts).mpr hfront)
  rw [opened_append, closed_append] at hle
  omega

theorem Covered.cons {n m : Nat} {t : Token} {ts : List Token} (h : Covered n (t :: ts))
    (hm : m + closed [t] = n + opened [t]) : Covered m ts := by
  have happend : Covered n ([t] ++ ts) := h
  exact happend.append.2 m hm

theorem Covered.of_front {n : Nat} {ts us : List Token} (h : Covered n us) (hts : ts <+: us) :
    Covered n ts := fun front hfront => h front (hfront.trans hts)

theorem Covered.filter {n : Nat} {p : Token → Bool} {ts : List Token} (h : Covered n ts)
    (hp : ∀ t ∈ ts, p t = false → t.NoBracket) : Covered n (ts.filter p) := by
  rintro front ⟨rest, hrest⟩
  obtain ⟨us, vs, rfl, rfl, -⟩ := List.filter_eq_append_iff.mp hrest.symm
  have hplain : ∀ t ∈ us, p t = false → t.NoBracket := fun t ht => hp t (List.mem_append_left vs ht)
  rw [opened_filter hplain, closed_filter hplain]
  exact h us (List.prefix_append us vs)

/-- Comments decide nothing about brackets. -/
theorem neverOverclosed_of_code {ts : List Token}
    (h : NeverOverclosed (ts.filter fun t => t.kind ≠ .comment)) : NeverOverclosed ts := by
  intro front hfront
  have hplain : ∀ t ∈ front, (decide (t.kind ≠ .comment)) = false → t.NoBracket := fun t _ ht =>
    noBracket_comment (not_not.mp (of_decide_eq_false ht))
  rw [← opened_filter hplain, ← closed_filter hplain]
  exact h _ (hfront.filter _)

/-! ## Bracketed tokens -/

/-- Every opening bracket among the tokens is closed behind it. Line breaks stand anywhere where they
are layout, and inside brackets otherwise. -/
inductive Bracketed : LineMode → List Token → Prop
  | nil {mode} : Bracketed mode []
  | plain {mode t ts} : t.NoBracket → (mode = .significant → t.kind ≠ .newline) → Bracketed mode ts →
      Bracketed mode (t :: ts)
  | brackets {mode opening inner closing ts} : opening.opens = true → closing.closes = true →
      Bracketed .ignored inner → Bracketed mode ts →
      Bracketed mode (opening :: (inner ++ closing :: ts))

variable {mode : LineMode} {ts us : List Token}

theorem Bracketed.append (h : Bracketed mode ts) (h' : Bracketed mode us) :
    Bracketed mode (ts ++ us) := by
  induction h with
  | nil => exact h'
  | plain hplain hbreak _ ih => exact .plain hplain hbreak (ih h')
  | brackets hopening hclosing hinner _ _ ih =>
    rw [List.cons_append, List.append_assoc, List.cons_append]
    exact .brackets hopening hclosing hinner (ih h')

theorem Bracketed.ignored (h : Bracketed mode ts) : Bracketed .ignored ts := by
  induction h with
  | nil => exact .nil
  | plain hplain _ _ ih => exact .plain hplain nofun ih
  | brackets hopening hclosing hinner _ _ ih => exact .brackets hopening hclosing hinner ih

theorem bracketed_newlines (h : ∀ t ∈ ts, t.kind = .newline) : Bracketed .ignored ts := by
  induction ts with
  | nil => exact .nil
  | cons t ts ih =>
    obtain ⟨ht, hts⟩ := List.forall_mem_cons.mp h
    exact .plain (noBracket_newline ht) nofun (ih hts)

/-- Bracketed tokens close what they open. -/
theorem Bracketed.closed_eq (h : Bracketed mode ts) : closed ts = opened ts := by
  induction h with
  | nil => rfl
  | plain hplain _ _ ih => simp [hplain.opens, hplain.closes, ih]
  | brackets hopening hclosing _ _ ihInner ih =>
    simp [hopening, hclosing, closes_of_opens hopening, opens_of_closes hclosing, ihInner, ih]
    omega

/-- A front of bracketed tokens ends before, inside or behind the first pair of brackets. -/
theorem prefix_brackets {opening closing : Token} {inner front : List Token}
    (h : front <+: opening :: (inner ++ closing :: ts)) :
    front = [] ∨ (∃ rest, front = opening :: rest ∧ rest <+: inner) ∨
      ∃ rest, front = opening :: (inner ++ closing :: rest) ∧ rest <+: ts := by
  obtain rfl | ⟨rest, rfl, hrest⟩ := List.prefix_cons_iff.mp h
  · exact .inl rfl
  refine .inr ?_
  obtain hshort | ⟨more, rfl⟩ :=
    List.prefix_or_prefix_of_prefix hrest (List.prefix_append inner (closing :: ts))
  · exact .inl ⟨rest, rfl, hshort⟩
  · rw [List.prefix_append_right_inj] at hrest
    obtain rfl | ⟨last, rfl, hlast⟩ := List.prefix_cons_iff.mp hrest
    · exact .inl ⟨inner, by rw [List.append_nil], List.prefix_refl _⟩
    · exact .inr ⟨last, rfl, hlast⟩

section Counts

variable {opening closing : Token} {inner : List Token} (rest : List Token)

theorem counts_opening (hopening : opening.opens = true) :
    closed (opening :: rest) = closed rest ∧ opened (opening :: rest) = opened rest + 1 := by
  simp [hopening, closes_of_opens hopening]

theorem counts_brackets (hopening : opening.opens = true) (hclosing : closing.closes = true)
    (hinner : Bracketed .ignored inner) :
    closed (opening :: (inner ++ closing :: rest)) = opened inner + 1 + closed rest ∧
      opened (opening :: (inner ++ closing :: rest)) = opened inner + 1 + opened rest := by
  have heq := hinner.closed_eq
  simp [hopening, hclosing, closes_of_opens hopening, opens_of_closes hclosing]
  omega

end Counts

theorem Bracketed.neverOverclosed (h : Bracketed mode ts) : NeverOverclosed ts := by
  induction h with
  | nil =>
    intro front hfront
    rw [List.prefix_nil.mp hfront]
    exact Nat.le_refl 0
  | plain hplain _ _ ih =>
    intro front hfront
    obtain rfl | ⟨rest, rfl, hrest⟩ := List.prefix_cons_iff.mp hfront
    · exact Nat.le_refl 0
    · simpa [hplain.opens, hplain.closes] using ih rest hrest
  | brackets hopening hclosing hinner _ ihInner ih =>
    intro front hfront
    obtain rfl | ⟨rest, rfl, hrest⟩ | ⟨rest, rfl, hrest⟩ := prefix_brackets hfront
    · exact Nat.le_refl 0
    · obtain ⟨hclosed, hopened⟩ := counts_opening rest hopening
      rw [hclosed, hopened]
      exact Nat.le_succ_of_le (ihInner rest hrest)
    · obtain ⟨hclosed, hopened⟩ := counts_brackets rest hopening hclosing hinner
      rw [hclosed, hopened]
      exact Nat.add_le_add_left (ih rest hrest) _

/-- A line break that is no layout stands behind a bracket that is still open. -/
theorem Bracketed.open_of_newline (h : Bracketed mode ts) (hmode : mode = .significant) :
    ∀ (front : List Token) (t : Token), front ++ [t] <+: ts → t.kind = .newline →
      closed front < opened front := by
  induction h with
  | nil =>
    intro front t hfront
    simp at hfront
  | plain hplain hbreak _ ih =>
    intro front t hfront ht
    cases front with
    | nil =>
      obtain ⟨rfl, -⟩ := List.cons_prefix_cons.mp hfront
      exact absurd ht (hbreak hmode)
    | cons u front =>
      obtain ⟨rfl, hrest⟩ := List.cons_prefix_cons.mp hfront
      simpa [hplain.opens, hplain.closes] using ih hmode front t hrest ht
  | brackets hopening hclosing hinner _ _ ih =>
    intro front t hfront ht
    obtain rfl | ⟨rest, rfl, hrest⟩ | ⟨rest, rfl, -⟩ :=
      prefix_brackets ((List.prefix_append front [t]).trans hfront)
    · obtain ⟨rfl, -⟩ := List.cons_prefix_cons.mp hfront
      rw [(noBracket_newline ht).opens] at hopening
      cases hopening
    · obtain ⟨hclosed, hopened⟩ := counts_opening rest hopening
      rw [hclosed, hopened]
      exact Nat.lt_succ_of_le (hinner.neverOverclosed rest hrest)
    · obtain ⟨hclosed, hopened⟩ := counts_brackets rest hopening hclosing hinner
      rw [hclosed, hopened]
      exact Nat.add_lt_add_left (ih hmode rest t (by simpa using hfront) ht) _

/-! ## What lies between two places -/

/-- The tokens from `ts` on up to `ts'` are bracketed. -/
def Paired (mode : LineMode) (ts ts' : List Token) : Prop :=
  ∃ used, ts = used ++ ts' ∧ Bracketed mode used

/-- Behind `ts` the bracket around it is closed, and `ts'` follows the closing bracket. -/
def Leaves (ts ts' : List Token) : Prop :=
  ∃ t, t.closes = true ∧ Paired .ignored ts (t :: ts')

variable {ts₁ ts₂ ts₃ : List Token} {t : Token}

theorem Paired.refl (mode : LineMode) (ts : List Token) : Paired mode ts ts := ⟨[], rfl, .nil⟩

theorem Paired.trans (h : Paired mode ts₁ ts₂) (h' : Paired mode ts₂ ts₃) : Paired mode ts₁ ts₃ := by
  obtain ⟨used, rfl, hused⟩ := h
  obtain ⟨used', rfl, hused'⟩ := h'
  exact ⟨used ++ used', (List.append_assoc ..).symm, hused.append hused'⟩

theorem Paired.ignored (h : Paired mode ts₁ ts₂) : Paired .ignored ts₁ ts₂ := by
  obtain ⟨used, rfl, hused⟩ := h
  exact ⟨used, rfl, hused.ignored⟩

theorem Paired.leaves (h : Paired .ignored ts₁ ts₂) (h' : Leaves ts₂ ts₃) : Leaves ts₁ ts₃ := by
  obtain ⟨t, ht, hrest⟩ := h'
  exact ⟨t, ht, h.trans hrest⟩

theorem paired_inner (ht : Nesting.isInner t.kind = true) (ts : List Token) :
    Paired mode (t :: ts) ts := by
  obtain ⟨hopens, hcloses, hkind⟩ := kind_of_inner ht
  exact ⟨[t], rfl, .plain ⟨hopens, hcloses⟩ (fun _ => hkind) .nil⟩

/-- From an opening bracket up to behind the one that closes it. -/
theorem paired_opens (ht : t.opens = true) (h : Leaves ts₁ ts₂) : Paired mode (t :: ts₁) ts₂ := by
  obtain ⟨closing, hclosing, used, rfl, hused⟩ := h
  exact ⟨t :: (used ++ [closing]), by simp, .brackets ht hclosing hused .nil⟩

end HclTidy.Token
