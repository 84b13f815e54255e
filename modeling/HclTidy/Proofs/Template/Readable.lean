import HclTidy.Proofs.Template.Segments

/-!
# Parts that read back

Parts between quotes are scanned as themselves exactly when they are readable: no two literal parts
touch, the scanner passes over each of them in front of what follows it, and the inside of each
interpolation leads up to the brace behind it. So single parts may be exchanged, as long as each new
one can be passed over in the place of the old one.
-/

set_option autoImplicit false

namespace HclTidy.Template

/-! ## Passing over a part -/

/-- From inside `levels`, the scanner passes over the text up to the end of the part that it is in:
up to the closing brace of the outermost interpolation, or, outside of interpolations, over literal
text. `follow` is what stands behind. -/
inductive Leads (follow : Text) : List Level → Text → Prop
  | literal : Leads follow [] []
  | closing : Leads follow [.braces 0] []
  | endQuote {l ls t} : Leads follow (l :: ls) t → Leads follow (.quote :: l :: ls) ('"' :: t)
  | escape {ls e t} : InQuotes ls → Leads follow ls t → Leads follow ls ('\\' :: e :: t)
  | escapedMarker {ls c t} : InQuotes ls → isMarker c = true → Leads follow ls t →
      Leads follow ls (c :: c :: '{' :: t)
  | interpolate {l ls c t} : InQuotes (l :: ls) → isMarker c = true →
      Leads follow (.braces 0 :: l :: ls) t → Leads follow (l :: ls) (c :: '{' :: t)
  | plain {ls c t} : InQuotes ls → c ≠ '\n' ∧ c ≠ '"' ∧ c ≠ '\\' → StandsAlone c (t ++ follow) →
      Leads follow ls t → Leads follow ls (c :: t)
  | openBrace {n ls t} : Leads follow (.braces (n + 1) :: ls) t →
      Leads follow (.braces n :: ls) ('{' :: t)
  | closeBrace {n ls t} : Leads follow (.braces n :: ls) t →
      Leads follow (.braces (n + 1) :: ls) ('}' :: t)
  | leave {l ls t} : Leads follow (l :: ls) t → Leads follow (.braces 0 :: l :: ls) ('}' :: t)
  | enter {n ls t} : Leads follow (.quote :: .braces n :: ls) t →
      Leads follow (.braces n :: ls) ('"' :: t)
  | inside {n ls c t} : c ≠ '"' ∧ c ≠ '{' ∧ c ≠ '}' → Leads follow (.braces n :: ls) t →
      Leads follow (.braces n :: ls) (c :: t)

/-- The parts as they stand in front of the closing quote, with the quote. -/
def closed (parts : List Part) : Text := parts.flatMap Part.written ++ ['"']

inductive Readable : List Part → Prop
  | nil : Readable []
  | literal {t parts} : t ≠ [] → Leads (closed parts) [] t →
      (∀ p ∈ parts.head?, p.isLiteral = false) → Readable parts → Readable (.literal t :: parts)
  | interpolation {directive inner parts} : Leads ('}' :: closed parts) [.braces 0] inner →
      Readable parts → Readable (.interpolation directive inner :: parts)

theorem closed_cons (p : Part) (parts : List Part) : closed (p :: parts) = p.written ++ closed parts := by
  rw [closed, List.flatMap_cons, List.append_assoc, closed]

theorem closed_interpolation (directive : Bool) (inner : Text) (parts : List Part) :
    closed (.interpolation directive inner :: parts) =
      marker directive :: '{' :: (inner ++ '}' :: closed parts) := by
  rw [closed_cons, Part.written, List.cons_append, List.cons_append, List.append_assoc]
  rfl

/-! ## What follows a part -/

/-- Literal text in front of the first text stands as well in front of the second one. -/
def Replaces (follow follow' : Text) : Prop :=
  ∀ c t, StandsAlone c (t ++ follow) → StandsAlone c (t ++ follow')

theorem replaces_of_two (d e : Char) (s s' : Text) : Replaces (d :: e :: s) (d :: e :: s') := by
  intro c t h hc
  obtain ⟨hbrace, hdouble⟩ := h hc
  match t with
  | [] =>
    refine ⟨fun u hu => ?_, fun u hu => ?_⟩
    · cases hu
      exact hbrace _ rfl
    · cases hu
      exact hdouble _ rfl
  | [a] =>
    refine ⟨fun u hu => ?_, fun u hu => ?_⟩
    · cases hu
      exact hbrace _ rfl
    · cases hu
      exact hdouble _ rfl
  | a :: b :: t =>
    refine ⟨fun u hu => ?_, fun u hu => ?_⟩
    · cases hu
      exact hbrace _ rfl
    · cases hu
      exact hdouble _ rfl

/-- A character that is part of no marker separates what stands on its two sides. -/
theorem replaces_of_one {d : Char} (hbrace : d ≠ '{') (hmarker : isMarker d = false) (s s' : Text) :
    Replaces (d :: s) (d :: s') := by
  intro c t h hc
  obtain ⟨hone, htwo⟩ := h hc
  match t with
  | [] =>
    refine ⟨fun u hu => ?_, fun u hu => ?_⟩
    · cases hu
      exact hbrace rfl
    · cases hu
      rw [hmarker] at hc
      cases hc
  | [a] =>
    refine ⟨fun u hu => ?_, fun u hu => ?_⟩
    · cases hu
      exact hone _ rfl
    · cases hu
      exact hbrace rfl
  | a :: b :: t =>
    refine ⟨fun u hu => ?_, fun u hu => ?_⟩
    · cases hu
      exact hone _ rfl
    · cases hu
      exact htwo _ rfl

theorem Leads.replace {follow follow' : Text} (hfollow : Replaces follow follow') {levels : List Level}
    {t : Text} (h : Leads follow levels t) : Leads follow' levels t := by
  induction h with
  | literal => exact .literal
  | closing => exact .closing
  | endQuote _ ih => exact .endQuote ih
  | escape hls _ ih => exact .escape hls ih
  | escapedMarker hls hc _ ih => exact .escapedMarker hls hc ih
  | interpolate hls hc _ ih => exact .interpolate hls hc ih
  | plain hls hc ha _ ih => exact .plain hls hc (hfollow _ _ ha) ih
  | openBrace _ ih => exact .openBrace ih
  | closeBrace _ ih => exact .closeBrace ih
  | leave _ ih => exact .leave ih
  | enter _ ih => exact .enter ih
  | inside hc _ ih => exact .inside hc ih

/-! ## What the scanner gives is readable -/

/-- Where the scanner stands at the end of the part that it is in. -/
def outermost (frames : List Frame) : List Frame :=
  match frames.getLast? with
  | some (.braces directive start _) => [.braces directive start 0]
  | _ => []

theorem outermost_cons (frame : Frame) {frames : List Frame} (h : frames ≠ []) :
    outermost (frame :: frames) = outermost frames := by
  obtain ⟨second, frames, rfl⟩ := List.exists_cons_of_ne_nil h
  rw [outermost, List.getLast?_cons_cons, outermost]

theorem outermost_braces (directive : Bool) (start m n : Nat) (outer : List Frame) :
    outermost (.braces directive start m :: outer) = outermost (.braces directive start n :: outer) := by
  cases outer with
  | nil => rfl
  | cons frame outer =>
    have hne := List.cons_ne_nil frame outer
    rw [outermost_cons _ hne, outermost_cons _ hne]

/-- The part that text collected inside `frames` becomes, with the parts behind it. -/
def finish (frames : List Frame) (collected : Text) (rest : List Part) : List Part :=
  match outermost frames with
  | .braces directive _ _ :: _ => .interpolation directive collected :: rest
  | _ => pending collected.reverse ++ rest

theorem finish_congr {frames frames' : List Frame} (h : outermost frames' = outermost frames)
    (collected : Text) (rest : List Part) : finish frames' collected rest = finish frames collected rest := by
  rw [finish, h, finish]

/-- What stands behind the part that the scanner is in. -/
def following : List Frame → List Part → Text
  | [], rest => closed rest
  | _ :: _, rest => '}' :: closed rest

/-- The text goes on up to the end of the part that the scanner is in, and then with readable
parts. -/
def Continues (frames : List Frame) (piece text after : Text) (parts : List Part) : Prop :=
  ∃ passed rest, text = passed ++ (following frames rest ++ after) ∧
    Leads (following frames rest) (frames.map Frame.level) passed ∧
    parts = finish frames (piece.reverse ++ passed) rest ∧
    (frames = [] → ∀ p ∈ rest.head?, p.isLiteral = false) ∧ Readable rest

section Continues

variable {frames frames' : List Frame} {piece text after : Text} {parts : List Part}

/-- One step of the scanner, from `frames` to `frames'` over the characters `more`. -/
theorem Continues.step (more : Text) (h : Continues frames' (more.reverse ++ piece) text after parts)
    (hfollow : ∀ rest, following frames' rest = following frames rest)
    (houtermost : outermost frames' = outermost frames)
    (hnil : frames = [] → frames' = [])
    (hleads : ∀ follow passed, text = passed ++ (follow ++ after) →
      Leads follow (frames'.map Frame.level) passed → Leads follow (frames.map Frame.level) (more ++ passed)) :
    Continues frames piece (more ++ text) after parts := by
  obtain ⟨passed, rest, htext, hpassed, hparts, hhead, hrest⟩ := h
  rw [hfollow] at htext hpassed
  refine ⟨more ++ passed, rest, ?_, hleads _ _ htext hpassed, ?_, fun h => hhead (hnil h), hrest⟩
  · rw [htext, List.append_assoc]
  · rw [hparts, finish_congr houtermost, List.reverse_append, List.reverse_reverse, List.append_assoc]

/-- A step that stays on its level. -/
theorem Continues.same (more : Text) (h : Continues frames (more.reverse ++ piece) text after parts)
    (hleads : ∀ follow passed, text = passed ++ (follow ++ after) →
      Leads follow (frames.map Frame.level) passed → Leads follow (frames.map Frame.level) (more ++ passed)) :
    Continues frames piece (more ++ text) after parts :=
  h.step more (fun _ => rfl) rfl id hleads

theorem readable_of_continues (h : Continues [] [] text after parts) :
    Readable parts ∧ text = closed parts ++ after := by
  obtain ⟨passed, rest, rfl, hpassed, hparts, hhead, hrest⟩ := h
  replace hparts : parts = pending passed.reverse ++ rest := hparts
  subst hparts
  unfold pending
  split
  · next hnil =>
    obtain rfl : passed = [] := by simpa using hnil
    exact ⟨hrest, rfl⟩
  · next hne =>
    rw [List.reverse_reverse, List.singleton_append, closed_cons, List.append_assoc]
    exact ⟨.literal (by simpa using hne) hpassed (hhead rfl) hrest, rfl⟩

end Continues

theorem continues_of_scan {frames : List Frame} {offset : Nat} {piece text after : Text}
    {parts : List Part} (h : scan true frames offset piece text = .ok (parts, after)) :
    frames.getLast? ≠ some .quote → Continues frames piece text after parts := by
  fun_induction scan true frames offset piece text generalizing parts after
  case case1 | case3 | case4 | case8 | case12 | case15 | case17 => cases h
  case case2 h' => exact absurd rfl h'
  case case5 d s n outer _ ih =>
    intro hlast
    exact (ih h hlast).step ['"'] (fun _ => rfl) (outermost_cons _ (List.cons_ne_nil _ _)) (by simp)
      fun _ _ _ => .enter
  case case6 d s n outer _ ih =>
    intro hlast
    exact (ih h (getLast_braces _ hlast)).step ['{'] (fun _ => rfl) (outermost_braces d s _ _ outer) (by simp)
      fun _ _ _ => .openBrace
  case case7 d s outer n _ _ ih =>
    intro hlast
    exact (ih h (getLast_braces _ hlast)).step ['}'] (fun _ => rfl) (outermost_braces d s _ _ outer) (by simp)
      fun _ _ _ => .closeBrace
  case case9 d s parts' after' hrun _ _ ih =>
    cases h
    intro _
    obtain ⟨hparts, rfl⟩ := readable_of_continues (ih hrun (by simp))
    exact ⟨[], parts', rfl, .closing, by rw [List.append_nil]; rfl, (by simp), hparts⟩
  case case10 outer hne _ _ ih =>
    intro hlast
    obtain ⟨frame, frames, rfl⟩ := List.exists_cons_of_ne_nil hne
    exact (ih h hlast).step ['}'] (fun _ => rfl) (outermost_cons _ hne).symm (by simp)
      fun _ _ _ => .leave
  case case11 hq ho hc ih =>
    intro hlast
    exact (ih h hlast).same [_] fun _ _ _ => .inside ⟨hq, ho, hc⟩
  case case13 hc =>
    cases h
    intro _
    obtain ⟨-, rfl⟩ := closing_of_quote hc
    exact ⟨[], [], rfl, .literal, by simp [finish, outermost], fun _ => by simp, .nil⟩
  case case14 frame outer hnot inString _ hc ih =>
    intro hlast
    obtain rfl := of_decide_eq_true (show decide (_ = '"') = true from hc)
    cases frame with
    | quote =>
      obtain ⟨hne, hlast⟩ := ne_nil_of_quote hlast
      obtain ⟨frame, frames, rfl⟩ := List.exists_cons_of_ne_nil hne
      exact (ih h hlast).step ['"'] (fun _ => rfl) (outermost_cons _ hne).symm (by simp)
        fun _ _ _ => .endQuote
    | braces d s n => exact (hnot d s n outer rfl).elim
  case case16 c string hnot inString _ _ hc e rest ih =>
    intro hlast
    obtain rfl := of_decide_eq_true (show decide (c = '\\') = true from hc)
    exact (ih h hlast).same ['\\', e] fun _ _ _ => .escape (inQuotes_of_frames hnot)
  case case18 c hc rest parts' after' hrun _ _ _ _ _ ih =>
    cases h
    intro _
    obtain ⟨inner, behind, rfl, hinner, hparts, -, hbehind⟩ := ih hrun (by simp)
    replace hparts : parts' = .interpolation (c = '%') inner :: behind := hparts
    refine ⟨[], parts', ?_, .literal, ?_, fun _ p hp => ?_, ?_⟩
    · rw [hparts, following, closed_interpolation, marker_of_isMarker hc]
      simp [following]
    · rw [List.append_nil, finish, outermost, List.getLast?_nil, List.reverse_reverse]
    · rw [hparts] at hp
      cases hp
      rfl
    · rw [hparts]
      exact .interpolation hinner hbehind
  case case19 c string hnot inString _ _ _ hc rest hne ih =>
    intro hlast
    obtain ⟨frame, frames, rfl⟩ := List.exists_cons_of_ne_nil hne
    exact (ih h hlast).step [c, '{'] (fun _ => rfl) (outermost_cons _ hne) (by simp)
      fun _ _ _ => .interpolate (inQuotes_of_frames hnot) hc
  case case20 string hnot inString c rest _ _ _ _ hc ih =>
    intro hlast
    exact (ih h hlast).same [c, c, '{'] fun _ _ _ => .escapedMarker (inQuotes_of_frames hnot) hc
  case case21 c string hnot inString _ _ _ hc d rest hd hne ih =>
    intro hlast
    have ha : StandsAlone c (d :: '{' :: rest) := by
      intro _
      refine ⟨?_, ?_⟩
      · intro t ht
        cases ht
        exact hd rfl
      · intro t ht
        cases ht
        exact hne rfl
    obtain ⟨hn, hq, hb, -⟩ := ne_special_of_isMarker hc
    refine (ih h hlast).same [c] fun follow passed htext => .plain (inQuotes_of_frames hnot) ⟨hn, hq, hb⟩ ?_
    rw [htext, ← List.append_assoc] at ha
    exact standsAlone_of_append ha
  case case22 c string hnot inString _ _ _ hc rest hbrace hdouble ih =>
    intro hlast
    have ha : StandsAlone c rest := fun _ => ⟨hbrace, hdouble c⟩
    obtain ⟨hn, hq, hb, -⟩ := ne_special_of_isMarker hc
    refine (ih h hlast).same [c] fun follow passed htext => .plain (inQuotes_of_frames hnot) ⟨hn, hq, hb⟩ ?_
    rw [htext, ← List.append_assoc] at ha
    exact standsAlone_of_append ha
  case case23 c rest string hnot inString hn hq hb hc ih =>
    intro hlast
    have hplain : c ≠ '\n' ∧ c ≠ '"' ∧ c ≠ '\\' := by
      simp only [inString, Bool.true_or, Bool.true_and, decide_eq_true_eq] at hn hq hb
      exact ⟨hn, hq, hb⟩
    exact (ih h hlast).same [c] fun _ _ _ => .plain (inQuotes_of_frames hnot) hplain
      (standsAlone_of_not_isMarker _ (by simpa [isMarker] using hc))

/-! ## Readable parts are scanned as themselves -/

/-- From `frames` the scanner collects the text up to the end of the part that it is in. -/
def Collects (follow : Text) (frames : List Frame) (passed : Text) : Prop :=
  ∀ offset piece, ∃ offset', scan true frames offset piece (passed ++ follow) =
    scan true (outermost frames) offset' (passed.reverse ++ piece) follow

theorem Collects.step {follow : Text} {frames : List Frame} {passed : Text} (more : Text)
    (h : ∀ offset piece, ∃ frames' offset', scan true frames offset piece (more ++ (passed ++ follow)) =
      scan true frames' offset' (more.reverse ++ piece) (passed ++ follow) ∧
      outermost frames' = outermost frames ∧ Collects follow frames' passed) :
    Collects follow frames (more ++ passed) := by
  intro offset piece
  obtain ⟨frames', between, hstep, houtermost, hrest⟩ := h offset piece
  obtain ⟨offset', hrun⟩ := hrest between (more.reverse ++ piece)
  refine ⟨offset', ?_⟩
  rw [List.append_assoc, hstep, hrun, houtermost, List.reverse_append, List.append_assoc]

theorem collects_of_leads {follow : Text} {levels : List Level} {passed : Text}
    (h : Leads follow levels passed) :
    ∀ frames : List Frame, frames.map Frame.level = levels → frames.getLast? ≠ some .quote →
      Collects follow frames passed := by
  induction h with
  | literal =>
    intro frames hf _ offset piece
    rw [List.map_eq_nil_iff] at hf
    subst hf
    exact ⟨offset, rfl⟩
  | closing =>
    intro frames hf _ offset piece
    obtain ⟨d, s, outer, rfl, houter⟩ := frames_of_braces hf
    rw [List.map_eq_nil_iff] at houter
    subst houter
    exact ⟨offset, rfl⟩
  | endQuote _ ih =>
    intro frames hf hlast
    obtain ⟨outer, rfl, hls⟩ := frames_of_quote hf
    obtain ⟨hne, hlast⟩ := ne_nil_of_quote hlast
    refine .step ['"'] fun offset piece => ⟨outer, offset + 1, ?_, (outermost_cons _ hne).symm, ih _ hls hlast⟩
    rw [List.singleton_append, scan.eq_def]
    simp
  | escape hls _ ih =>
    intro frames hf hlast
    subst hf
    exact .step ['\\', _] fun offset piece =>
      ⟨frames, offset + 2, scan_escape offset piece _ _ hls, rfl, ih _ rfl hlast⟩
  | escapedMarker hls hc _ ih =>
    intro frames hf hlast
    subst hf
    exact .step [_, _, '{'] fun offset piece =>
      ⟨frames, offset + 3, scan_escapedMarker offset piece _ hc hls, rfl, ih _ rfl hlast⟩
  | @interpolate l ls c t hls hc _ ih =>
    intro frames hf hlast
    obtain ⟨outer, rfl⟩ : ∃ outer, frames = .quote :: outer := by
      obtain rfl | houter := frames_of_inQuotes (hf ▸ hls)
      · cases hf
      · exact houter
    have hne : Frame.quote :: outer ≠ [] := List.cons_ne_nil _ _
    refine .step [c, '{'] fun offset piece =>
      ⟨.braces (c = '%') offset 0 :: .quote :: outer, offset + 2, scan_nest offset piece _ hc outer,
        outermost_cons _ hne, ih _ ?_ hlast⟩
    rw [List.map_cons, hf, Frame.level]
  | plain hls hc ha _ ih =>
    intro frames hf hlast
    subst hf
    exact .step [_] fun offset piece =>
      ⟨frames, offset + 1, scan_plain offset piece _ hc ha hls, rfl, ih _ rfl hlast⟩
  | openBrace _ ih =>
    intro frames hf hlast
    obtain ⟨d, s, outer, rfl, rfl⟩ := frames_of_braces hf
    refine .step ['{'] fun offset piece =>
      ⟨.braces d s (_ + 1) :: outer, offset + 1, ?_, outermost_braces .., ih _ rfl (getLast_braces _ hlast)⟩
    rw [List.singleton_append, scan.eq_def]
    simp
  | closeBrace _ ih =>
    intro frames hf hlast
    obtain ⟨d, s, outer, rfl, rfl⟩ := frames_of_braces hf
    refine .step ['}'] fun offset piece =>
      ⟨.braces d s _ :: outer, offset + 1, ?_, outermost_braces .., ih _ rfl (getLast_braces _ hlast)⟩
    rw [List.singleton_append, scan.eq_def]
    simp
  | leave _ ih =>
    intro frames hf hlast
    obtain ⟨d, s, outer, rfl, hls⟩ := frames_of_braces hf
    obtain ⟨frame, outer, rfl⟩ : ∃ frame outer', outer = frame :: outer' := by
      cases outer with
      | nil => cases hls
      | cons frame outer => exact ⟨frame, outer, rfl⟩
    have hne : frame :: outer ≠ [] := List.cons_ne_nil _ _
    refine .step ['}'] fun offset piece =>
      ⟨frame :: outer, offset + 1, ?_, (outermost_cons _ hne).symm, ih _ hls hlast⟩
    rw [List.singleton_append, scan.eq_def]
    simp
  | @enter n ls t _ ih =>
    intro frames hf hlast
    obtain ⟨d, s, outer, rfl, rfl⟩ := frames_of_braces hf
    have hne : Frame.braces d s n :: outer ≠ [] := List.cons_ne_nil _ _
    refine .step ['"'] fun offset piece =>
      ⟨.quote :: .braces d s n :: outer, offset + 1, ?_, outermost_cons _ hne, ih _ rfl hlast⟩
    rw [List.singleton_append, scan.eq_def]
    simp
  | inside hc _ ih =>
    intro frames hf hlast
    obtain ⟨d, s, outer, rfl, rfl⟩ := frames_of_braces hf
    refine .step [_] fun offset piece =>
      ⟨.braces d s _ :: outer, offset + 1, ?_, rfl, ih _ rfl hlast⟩
    rw [List.singleton_append, scan.eq_def]
    simp [hc]

/-- What the scanner has collected becomes a literal part in front of readable parts. -/
theorem scan_pending {parts : List Part} (h : ∀ p ∈ parts.head?, p.isLiteral = false) (offset : Nat)
    (piece : Text) : scan true [] offset piece (closed parts) =
      (scan true [] offset [] (closed parts)).map fun r => (pending piece ++ r.1, r.2) := by
  match parts with
  | [] =>
    rw [closed, scan.eq_def, scan.eq_def]
    simp [pending, Except.map]
  | .literal t :: parts => exact absurd (h _ rfl) Bool.noConfusion
  | .interpolation directive inner :: parts =>
    have hmarker : isMarker (marker directive) = true := by cases directive <;> rfl
    rw [closed_interpolation, scan_interpolate offset piece _ hmarker, scan_interpolate offset [] _ hmarker]
    cases scan true [.braces (marker directive = '%') offset 0] (offset + 2) []
      (inner ++ '}' :: closed parts) <;> rfl

theorem scan_of_readable {parts : List Part} (h : Readable parts) (offset : Nat) :
    scan true [] offset [] (closed parts) = .ok (parts, []) := by
  induction h generalizing offset with
  | nil =>
    rw [closed, scan.eq_def]
    simp [pending]
  | @literal t parts hne hleads hhead _ ih =>
    obtain ⟨offset', hrun⟩ := collects_of_leads hleads [] rfl (by simp) offset []
    rw [closed_cons, Part.written, hrun, outermost, List.getLast?_nil, scan_pending hhead, ih]
    simp [pending, Except.map, hne]
  | @interpolation directive inner parts hleads _ ih =>
    have hmarker : isMarker (marker directive) = true := by cases directive <;> rfl
    have hdirective : (marker directive = '%' : Bool) = directive := by cases directive <;> rfl
    obtain ⟨offset', hrun⟩ :=
      collects_of_leads hleads [.braces directive offset 0] rfl (by simp) (offset + 2) []
    rw [closed_interpolation, scan_interpolate _ _ _ hmarker, hdirective, hrun, outermost,
      List.getLast?_singleton, scan.eq_def]
    simp [ih, pending, Except.map]

theorem scanQuoted_closed_iff {parts : List Part} :
    scanQuoted 0 ('"' :: closed parts) = .ok (parts, []) ↔ Readable parts := by
  rw [scanQuoted]
  exact ⟨fun h => (readable_of_continues (continues_of_scan h (by simp))).1, fun h => scan_of_readable h _⟩

/-! ## Exchanging interpolations -/

/-- Wherever the first part stands, the second one is passed over as well. -/
inductive Exchanges : Part → Part → Prop
  | literal (text : Text) : Exchanges (.literal text) (.literal text)
  | interpolation {directive inner inner'} :
      (∀ follow, Leads ('}' :: follow) [.braces 0] inner → Leads ('}' :: follow) [.braces 0] inner') →
      Exchanges (.interpolation directive inner) (.interpolation directive inner')

theorem Readable.exchange {parts parts' : List Part} (h : Readable parts)
    (hparts : List.Forall₂ Exchanges parts parts') : Readable parts' := by
  induction h generalizing parts' with
  | nil =>
    cases hparts
    exact .nil
  | @literal t parts hne hleads hhead _ ih =>
    obtain _ | ⟨hpart, hrest⟩ := hparts
    cases hpart
    match hrest with
    | .nil => exact .literal hne hleads (by simp) .nil
    | .cons (.literal _) _ => exact absurd (hhead _ rfl) Bool.noConfusion
    | .cons (.interpolation hinner) hrest =>
      refine .literal hne (hleads.replace ?_) (fun p hp => ?_) (ih (.cons (.interpolation hinner) hrest))
      · rw [closed_interpolation, closed_interpolation]
        exact replaces_of_two _ _ _ _
      · cases hp
        rfl
  | interpolation hleads _ ih =>
    obtain _ | ⟨hpart, hrest⟩ := hparts
    cases hpart with
    | interpolation hinner =>
      exact .interpolation (hinner _ (hleads.replace (replaces_of_one (by decide) rfl _ _))) (ih hrest)

/-! ## Text beside an expression -/

/-- Neither a quote nor a brace, so that the scanner stays on its level. -/
def Plain (text : Text) : Prop := ∀ c ∈ text, c ≠ '"' ∧ c ≠ '{' ∧ c ≠ '}'

section Plain

variable {follow : Text} {levels : List Level} {t : Text}

theorem quote_mem_of_leads (h : Leads follow levels t) : .quote ∈ levels → '"' ∈ t := by
  induction h with
  | literal | closing => simp
  | endQuote | enter => simp
  | escape _ _ ih | escapedMarker _ _ _ ih | plain _ _ _ _ ih | inside _ _ ih =>
    intro hq
    simp [ih hq]
  | interpolate _ _ _ ih =>
    intro hq
    simp [ih (List.mem_cons_of_mem _ hq)]
  | openBrace _ ih | closeBrace _ ih =>
    intro hq
    simpa using ih (by simpa using hq)
  | leave _ ih =>
    intro hq
    simpa using ih (by simpa using hq)

theorem quote_mem_of_inQuotes (h : InQuotes levels) (hne : levels ≠ []) : .quote ∈ levels := by
  match levels with
  | [] => exact absurd rfl hne
  | .quote :: ls => exact List.mem_cons_self ..
  | .braces depth :: ls => exact absurd rfl (h depth ls)

/-- Text that is plain has nothing left to close but the brace behind it. -/
theorem leads_nil_of_plain (h : Leads follow levels t) : Plain t → levels ≠ [] → Leads follow levels [] := by
  induction h with
  | literal => exact fun _ hne => absurd rfl hne
  | closing => exact fun _ _ => .closing
  | @escape ls e t _ _ ih =>
    exact fun ht => ih fun c hc => ht c (List.mem_cons_of_mem _ (List.mem_cons_of_mem e hc))
  | plain _ _ _ _ ih | inside _ _ ih => exact fun ht => ih fun c hc => ht c (List.mem_cons_of_mem _ hc)
  | endQuote | enter => exact fun ht => absurd rfl (ht '"' (by simp)).1
  | escapedMarker | interpolate | openBrace => exact fun ht => absurd rfl (ht '{' (by simp)).2.1
  | closeBrace | leave => exact fun ht => absurd rfl (ht '}' (by simp)).2.2

/-- Plain text behind an expression may go. -/
theorem Leads.dropBehind {behind : Text} (hbehind : Plain behind) (h : Leads follow levels t) :
    ∀ source, t = source ++ behind → levels ≠ [] → Leads follow levels source := by
  induction h with
  | literal => exact fun _ _ hne => absurd rfl hne
  | closing =>
    intro source heq _
    obtain ⟨rfl, -⟩ := List.append_eq_nil_iff.mp heq.symm
    exact .closing
  | endQuote h ih =>
    intro source heq hne
    obtain ⟨rfl, rfl⟩ | ⟨source, rfl, ht⟩ := List.cons_eq_append_iff.mp heq
    · exact leads_nil_of_plain (.endQuote h) hbehind hne
    · exact .endQuote (ih source ht (List.cons_ne_nil _ _))
  | @escape ls e t hls h ih =>
    intro source heq hne
    have hquote := quote_mem_of_leads h (quote_mem_of_inQuotes hls hne)
    obtain ⟨rfl, rfl⟩ | ⟨source, rfl, ht⟩ := List.cons_eq_append_iff.mp heq
    · exact leads_nil_of_plain (.escape hls h) hbehind hne
    obtain ⟨rfl, rfl⟩ | ⟨source, rfl, ht'⟩ := List.cons_eq_append_iff.mp ht
    · exact absurd rfl (hbehind '"' (List.mem_cons_of_mem e hquote)).1
    · exact .escape hls (ih source ht' hne)
  | @escapedMarker ls c t hls hc h ih =>
    intro source heq hne
    obtain ⟨rfl, rfl⟩ | ⟨source, rfl, ht⟩ := List.cons_eq_append_iff.mp heq
    · exact absurd rfl (hbehind '{' (by simp)).2.1
    obtain ⟨rfl, rfl⟩ | ⟨source, rfl, ht'⟩ := List.cons_eq_append_iff.mp ht
    · exact absurd rfl (hbehind '{' (by simp)).2.1
    obtain ⟨rfl, rfl⟩ | ⟨source, rfl, ht''⟩ := List.cons_eq_append_iff.mp ht'
    · exact absurd rfl (hbehind '{' (by simp)).2.1
    · exact .escapedMarker hls hc (ih source ht'' hne)
  | interpolate hls hc h ih =>
    intro source heq hne
    obtain ⟨rfl, rfl⟩ | ⟨source, rfl, ht⟩ := List.cons_eq_append_iff.mp heq
    · exact absurd rfl (hbehind '{' (by simp)).2.1
    obtain ⟨rfl, rfl⟩ | ⟨source, rfl, ht'⟩ := List.cons_eq_append_iff.mp ht
    · exact absurd rfl (hbehind '{' (by simp)).2.1
    · exact .interpolate hls hc (ih source ht' (List.cons_ne_nil _ _))
  | @plain ls c t hls hc ha h ih =>
    intro source heq hne
    have hquote := quote_mem_of_leads h (quote_mem_of_inQuotes hls hne)
    obtain ⟨rfl, rfl⟩ | ⟨source, rfl, ht⟩ := List.cons_eq_append_iff.mp heq
    · exact leads_nil_of_plain (.plain hls hc ha h) hbehind hne
    refine .plain hls hc ?_ (ih source ht hne)
    -- The quote that ends the string around `c` is part of the expression.
    subst ht
    have hquote : '"' ∈ source :=
      (List.mem_append.mp hquote).resolve_right fun hq => (hbehind '"' hq).1 rfl
    obtain ⟨s, s', rfl⟩ := List.append_of_mem hquote
    simp only [List.append_assoc, List.cons_append] at ha ⊢
    exact replaces_of_one (by decide) rfl _ _ c s ha
  | openBrace h ih =>
    intro source heq hne
    obtain ⟨rfl, rfl⟩ | ⟨source, rfl, ht⟩ := List.cons_eq_append_iff.mp heq
    · exact leads_nil_of_plain (.openBrace h) hbehind hne
    · exact .openBrace (ih source ht (List.cons_ne_nil _ _))
  | closeBrace h ih =>
    intro source heq hne
    obtain ⟨rfl, rfl⟩ | ⟨source, rfl, ht⟩ := List.cons_eq_append_iff.mp heq
    · exact leads_nil_of_plain (.closeBrace h) hbehind hne
    · exact .closeBrace (ih source ht (List.cons_ne_nil _ _))
  | leave h ih =>
    intro source heq hne
    obtain ⟨rfl, rfl⟩ | ⟨source, rfl, ht⟩ := List.cons_eq_append_iff.mp heq
    · exact leads_nil_of_plain (.leave h) hbehind hne
    · exact .leave (ih source ht (List.cons_ne_nil _ _))
  | enter h ih =>
    intro source heq hne
    obtain ⟨rfl, rfl⟩ | ⟨source, rfl, ht⟩ := List.cons_eq_append_iff.mp heq
    · exact leads_nil_of_plain (.enter h) hbehind hne
    · exact .enter (ih source ht (List.cons_ne_nil _ _))
  | inside hc h ih =>
    intro source heq hne
    obtain ⟨rfl, rfl⟩ | ⟨source, rfl, ht⟩ := List.cons_eq_append_iff.mp heq
    · exact leads_nil_of_plain (.inside hc h) hbehind hne
    · exact .inside hc (ih source ht hne)

theorem Leads.tail {n : Nat} {ls : List Level} {c : Char} (hc : c ≠ '"' ∧ c ≠ '{' ∧ c ≠ '}')
    (h : Leads follow (.braces n :: ls) (c :: t)) : Leads follow (.braces n :: ls) t := by
  cases h with
  | inside _ h => exact h
  | escape hls | escapedMarker hls | interpolate hls | plain hls => exact absurd rfl (hls _ _)
  | openBrace => exact absurd rfl hc.2.1
  | closeBrace | leave => exact absurd rfl hc.2.2
  | enter => exact absurd rfl hc.1

theorem Leads.dropBefore {before : Text} (hbefore : Plain before) {n : Nat} {ls : List Level}
    (h : Leads follow (.braces n :: ls) (before ++ t)) : Leads follow (.braces n :: ls) t := by
  induction before with
  | nil => exact h
  | cons c before ih =>
    exact ih (fun d hd => hbefore d (List.mem_cons_of_mem _ hd)) (h.tail (hbefore c (List.mem_cons_self ..)))

end Plain

/-- In an interpolation, plain text on both sides of an expression may go. -/
theorem exchanges_of_plain {directive : Bool} {before source behind : Text} (hbefore : Plain before)
    (hbehind : Plain behind) : Exchanges (.interpolation directive (before ++ (source ++ behind)))
      (.interpolation directive source) :=
  .interpolation fun _ h => (h.dropBefore hbefore).dropBehind hbehind source rfl (List.cons_ne_nil _ _)

end HclTidy.Template
