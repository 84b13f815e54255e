import HclTidy.Proofs.Text.Lines
import HclTidy.Template.Basic

/-!
# Scanning quoted templates

`Scans levels used literal` describes what the scanner does from inside `levels` until the quoted
template ends: `used` is the text it consumes, the closing quote included, and `literal` tells that
it has met no interpolation on the outermost level. The relation mentions neither offsets nor the
text behind the template, so both are free when the scanner runs again. What the scanner has passed
since the last part began is part of its state, so that at every step the parts, written out, give
back the text.
-/

set_option autoImplicit false

namespace HclTidy.Template

/-- What encloses the scanner, without the offsets that only error messages need. -/
inductive Level where
  | quote
  | braces (depth : Nat)
deriving DecidableEq

def Frame.level : Frame → Level
  | .quote => .quote
  | .braces _ _ depth => .braces depth

def isMarker (c : Char) : Bool := c = '$' || c = '%'

/-- The scanner is between quotes and not directly inside an interpolation. -/
def InQuotes (levels : List Level) : Prop := ∀ depth outer, levels ≠ .braces depth :: outer

/-- Neither an interpolation begins with `c` nor an escaped marker. -/
def StandsAlone (c : Char) (text : Text) : Prop :=
  isMarker c = true → (∀ t, text ≠ '{' :: t) ∧ ∀ t, text ≠ c :: '{' :: t

inductive Scans : List Level → Text → Bool → Prop
  | finish : Scans [] ['"'] true
  | endQuote {ls t l} : Scans ls t l → Scans (.quote :: ls) ('"' :: t) l
  | escape {ls e t l} : InQuotes ls → Scans ls t l → Scans ls ('\\' :: e :: t) l
  | escapedMarker {ls c t l} : InQuotes ls → isMarker c = true → Scans ls t l →
      Scans ls (c :: c :: '{' :: t) l
  | interpolate {ls c t l} : InQuotes ls → isMarker c = true → Scans (.braces 0 :: ls) t l →
      Scans ls (c :: '{' :: t) false
  | plain {ls c t l} : InQuotes ls → c ≠ '\n' ∧ c ≠ '"' ∧ c ≠ '\\' → StandsAlone c t →
      Scans ls t l → Scans ls (c :: t) l
  | openBrace {n ls t l} : Scans (.braces (n + 1) :: ls) t l → Scans (.braces n :: ls) ('{' :: t) l
  | closeBrace {n ls t l} : Scans (.braces n :: ls) t l → Scans (.braces (n + 1) :: ls) ('}' :: t) l
  | leave {ls t l} : Scans ls t l → Scans (.braces 0 :: ls) ('}' :: t) false
  | enter {n ls t l} : Scans (.quote :: .braces n :: ls) t l → Scans (.braces n :: ls) ('"' :: t) l
  | inside {n ls c t l} : c ≠ '"' ∧ c ≠ '{' ∧ c ≠ '}' → Scans (.braces n :: ls) t l →
      Scans (.braces n :: ls) (c :: t) l

theorem inQuotes_nil : InQuotes [] := by
  intro _ _ h
  cases h

theorem inQuotes_of_frames {frames : List Frame}
    (h : ∀ d s n outer, frames = .braces d s n :: outer → False) :
    InQuotes (frames.map Frame.level) := by
  intro depth outer heq
  cases frames with
  | nil => cases heq
  | cons frame frames =>
    cases frame with
    | quote => cases heq
    | braces d s n => exact h d s n frames rfl

theorem marker_of_isMarker {c : Char} (h : isMarker c = true) : marker (c = '%') = c := by
  simp only [isMarker, Bool.or_eq_true, decide_eq_true_eq] at h
  rcases h with rfl | rfl <;> rfl

theorem ne_special_of_isMarker {c : Char} (h : isMarker c = true) :
    c ≠ '\n' ∧ c ≠ '"' ∧ c ≠ '\\' ∧ c ≠ '{' := by
  simp only [isMarker, Bool.or_eq_true, decide_eq_true_eq] at h
  rcases h with rfl | rfl <;> decide

theorem isBlank_of_isMarker {c : Char} (h : isMarker c = true) : Text.isBlank c = false := by
  simp only [isMarker, Bool.or_eq_true, decide_eq_true_eq] at h
  rcases h with rfl | rfl <;> decide

/-! ## From the scanner to the relation -/

theorem standsAlone_of_append {c : Char} {used after : Text} (h : StandsAlone c (used ++ after)) :
    StandsAlone c used := by
  intro hc
  refine ⟨?_, ?_⟩
  · rintro t rfl
    exact (h hc).1 (t ++ after) rfl
  · rintro t rfl
    exact (h hc).2 (t ++ after) rfl

theorem standsAlone_of_not_isMarker {c : Char} (t : Text) (h : isMarker c = false) :
    StandsAlone c t := by
  intro hc
  rw [h] at hc
  cases hc

theorem scans_of_scan {frames : List Frame} {offset : Nat} {piece text after : Text}
    {parts : List Part} (h : scan true frames offset piece text = .ok (parts, after)) :
    ∃ used literal, text = used ++ after ∧ Scans (frames.map Frame.level) used literal := by
  fun_induction scan true frames offset piece text generalizing parts after
  case case1 => cases h
  case case2 h' => exact absurd rfl h'
  case case3 => cases h
  case case4 => cases h
  case case5 ih =>
    obtain ⟨used, l, rfl, hs⟩ := ih h
    exact ⟨_, l, rfl, .enter hs⟩
  case case6 ih =>
    obtain ⟨used, l, rfl, hs⟩ := ih h
    exact ⟨_, l, rfl, .openBrace hs⟩
  case case7 ih =>
    obtain ⟨used, l, rfl, hs⟩ := ih h
    exact ⟨_, l, rfl, .closeBrace hs⟩
  case case8 => cases h
  case case9 hrun _ _ ih =>
    cases h
    obtain ⟨used, l, rfl, hs⟩ := ih hrun
    exact ⟨_, false, rfl, .leave hs⟩
  case case10 outer hne _ _ ih =>
    obtain ⟨used, l, rfl, hs⟩ := ih h
    exact ⟨_, false, rfl, .leave hs⟩
  case case11 hq ho hc ih =>
    obtain ⟨used, l, rfl, hs⟩ := ih h
    exact ⟨_, l, rfl, .inside ⟨hq, ho, hc⟩ hs⟩
  case case12 => cases h
  case case13 hc =>
    cases h
    obtain rfl := of_decide_eq_true hc
    exact ⟨_, true, rfl, .finish⟩
  case case14 frame outer hnot inString _ hc ih =>
    obtain ⟨used, l, rfl, hs⟩ := ih h
    obtain rfl := of_decide_eq_true (show decide (_ = '"') = true from hc)
    cases frame with
    | quote => exact ⟨_, l, rfl, .endQuote hs⟩
    | braces d s n => exact (hnot d s n outer rfl).elim
  case case15 => cases h
  case case16 c string hnot inString _ _ hc e rest ih =>
    obtain ⟨used, l, rfl, hs⟩ := ih h
    obtain rfl := of_decide_eq_true (show decide (c = '\\') = true from hc)
    exact ⟨_, l, rfl, .escape (inQuotes_of_frames hnot) hs⟩
  case case17 => cases h
  case case18 hc rest parts' after' hrun hnot inString _ _ _ ih =>
    cases h
    obtain ⟨used, l, rfl, hs⟩ := ih hrun
    exact ⟨_, false, rfl, .interpolate inQuotes_nil hc hs⟩
  case case19 string hnot inString _ _ _ hc rest hne ih =>
    obtain ⟨used, l, rfl, hs⟩ := ih h
    exact ⟨_, false, rfl, .interpolate (inQuotes_of_frames hnot) hc hs⟩
  case case20 string hnot d after' _ inString _ _ _ hc ih =>
    obtain ⟨used, l, rfl, hs⟩ := ih h
    exact ⟨_, l, rfl, .escapedMarker (inQuotes_of_frames hnot) hc hs⟩
  case case21 c string hnot inString _ _ _ hc d after' hd hne ih =>
    obtain ⟨used, l, hu, hs⟩ := ih h
    have ha : StandsAlone c (d :: '{' :: after') := by
      intro _
      refine ⟨?_, ?_⟩
      · intro t ht
        cases ht
        exact hd rfl
      · intro t ht
        cases ht
        exact hne rfl
    rw [hu] at ha ⊢
    obtain ⟨hn, hq, hb, -⟩ := ne_special_of_isMarker hc
    exact ⟨_, l, rfl, .plain (inQuotes_of_frames hnot) ⟨hn, hq, hb⟩ (standsAlone_of_append ha) hs⟩
  case case22 c string hnot inString _ _ _ hc rest hbrace hdouble ih =>
    obtain ⟨used, l, rfl, hs⟩ := ih h
    have ha : StandsAlone c (used ++ after) := fun _ => ⟨hbrace, hdouble c⟩
    obtain ⟨hn, hq, hb, -⟩ := ne_special_of_isMarker hc
    exact ⟨_, l, rfl, .plain (inQuotes_of_frames hnot) ⟨hn, hq, hb⟩ (standsAlone_of_append ha) hs⟩
  case case23 c rest string hnot inString hn hq hb hc ih =>
    obtain ⟨used, l, rfl, hs⟩ := ih h
    have hplain : c ≠ '\n' ∧ c ≠ '"' ∧ c ≠ '\\' := by
      simp only [inString, Bool.true_or, Bool.true_and, decide_eq_true_eq] at hn hq hb
      exact ⟨hn, hq, hb⟩
    exact ⟨_, l, rfl, .plain (inQuotes_of_frames hnot) hplain
      (standsAlone_of_not_isMarker _ (by simpa [isMarker] using hc)) hs⟩

/-! ## What the scanner has passed -/

/-- What the scanner has passed since the last part began. -/
def opened : List Frame → Text → Text
  | [], piece => piece.reverse
  | [.braces directive _ _], piece => marker directive :: '{' :: piece.reverse
  | [.quote], piece => piece.reverse
  | _ :: second :: rest, piece => opened (second :: rest) piece

theorem opened_cons (frames : List Frame) (c : Char) (piece : Text) :
    opened frames (c :: piece) = opened frames piece ++ [c] := by
  fun_induction opened frames piece with
  | case1 => simp [opened]
  | case2 => simp [opened]
  | case3 => simp [opened]
  | case4 piece frame second rest ih => simp [opened, ih]

theorem opened_of_ne_nil (frame : Frame) {frames : List Frame} (h : frames ≠ []) (piece : Text) :
    opened (frame :: frames) piece = opened frames piece := by
  cases frames with
  | nil => exact absurd rfl h
  | cons second rest => simp [opened]

theorem opened_braces (d : Bool) (start m n : Nat) (outer : List Frame) (piece : Text) :
    opened (.braces d start m :: outer) piece = opened (.braces d start n :: outer) piece := by
  cases outer with
  | nil => rfl
  | cons frame outer => simp [opened]

theorem written_pending (piece : Text) : (pending piece).flatMap Part.written = piece.reverse := by
  unfold pending
  split
  · next h => simp [List.isEmpty_iff.mp h]
  · simp [Part.written]

/-- What stands behind the parts of a template. -/
def closing (quoted : Bool) : Text := if quoted then ['"'] else []

/-- The parts, written out, are what has been passed since the last one began and the text up to
the end of the template. -/
def Covers (quoted : Bool) (parts : List Part) (after passed text : Text) : Prop :=
  ∃ used, text = used ++ after ∧ (quoted = false → after = []) ∧
    parts.flatMap Part.written ++ closing quoted = passed ++ used

theorem Covers.step {quoted : Bool} {parts : List Part} {after text : Text} {frames : List Frame}
    {piece : Text} {c : Char} (h : Covers quoted parts after (opened frames (c :: piece)) text) :
    Covers quoted parts after (opened frames piece) (c :: text) := by
  obtain ⟨used, rfl, hafter, hwritten⟩ := h
  rw [opened_cons, List.append_assoc] at hwritten
  exact ⟨c :: used, rfl, hafter, hwritten⟩

theorem opened_quote (outer : List Frame) (piece : Text) :
    opened (.quote :: outer) piece = opened outer piece := by
  cases outer with
  | nil => rfl
  | cons frame outer => exact opened_of_ne_nil _ (List.cons_ne_nil frame outer) piece

theorem closing_of_quote {quoted : Bool} {c : Char}
    (h : ((quoted || !([] : List Frame).isEmpty) && decide (c = '"')) = true) :
    quoted = true ∧ c = '"' := by
  simpa using h

/-- The scanner drops nothing and adds nothing. -/
theorem covers_of_scan {quoted : Bool} {frames : List Frame} {offset : Nat} {piece text after : Text}
    {parts : List Part} (h : scan quoted frames offset piece text = .ok (parts, after)) :
    Covers quoted parts after (opened frames piece) text := by
  fun_induction scan quoted frames offset piece text generalizing parts after
  case case1 | case3 | case4 | case8 | case12 | case15 | case17 => cases h
  case case2 hquoted =>
    cases h
    rw [Bool.not_eq_true] at hquoted
    exact ⟨[], rfl, fun _ => rfl, by rw [written_pending, hquoted]; rfl⟩
  case case5 ih =>
    have hrest := (ih h).step
    rwa [opened_of_ne_nil _ (List.cons_ne_nil _ _)] at hrest
  case case6 directive start depth outer _ ih =>
    have hrest := (ih h).step
    rwa [opened_braces directive start _ depth] at hrest
  case case7 directive start outer depth _ _ ih =>
    have hrest := (ih h).step
    rwa [opened_braces directive start _ depth.succ] at hrest
  case case9 directive start parts' after' hrun _ _ ih =>
    cases h
    obtain ⟨used, rfl, hafter, hwritten⟩ := ih hrun
    refine ⟨'}' :: used, rfl, hafter, ?_⟩
    rw [List.flatMap_cons, List.append_assoc, hwritten]
    simp [opened, Part.written]
  case case10 directive start outer hne _ _ ih =>
    have hrest := (ih h).step
    rwa [← opened_of_ne_nil (.braces directive start 0) hne] at hrest
  case case13 hc =>
    cases h
    obtain ⟨rfl, rfl⟩ := closing_of_quote hc
    exact ⟨['"'], rfl, fun h => absurd h.symm Bool.false_ne_true, by rw [written_pending]; rfl⟩
  case case14 frame outer hnot _ _ hc ih =>
    cases frame with
    | quote =>
      have hrest := (ih h).step
      rwa [← opened_quote] at hrest
    | braces directive start depth => exact (hnot directive start depth outer rfl).elim
  case case16 ih => exact (ih h).step.step
  case case18 c hc rest parts' after' hrun _ _ _ _ _ ih =>
    cases h
    obtain ⟨used, rfl, hafter, hwritten⟩ := ih hrun
    refine ⟨c :: '{' :: used, rfl, hafter, ?_⟩
    rw [List.flatMap_append, List.append_assoc, hwritten, written_pending]
    simp only [opened, marker_of_isMarker hc]
    rfl
  case case19 c string hnot _ _ _ _ hc rest hne ih =>
    have hrest := (ih h).step.step
    rwa [opened_of_ne_nil _ hne] at hrest
  case case20 ih => exact (ih h).step.step.step
  case case11 ih | case21 ih | case22 ih | case23 ih => exact (ih h).step

/-! ## From the relation to the scanner -/

theorem frames_of_inQuotes {frames : List Frame} (h : InQuotes (frames.map Frame.level)) :
    frames = [] ∨ ∃ outer, frames = .quote :: outer := by
  cases frames with
  | nil => exact .inl rfl
  | cons frame outer =>
    cases frame with
    | quote => exact .inr ⟨outer, rfl⟩
    | braces d s n => exact (h n _ rfl).elim

section Steps

variable {frames : List Frame} (offset : Nat) (piece t : Text)

/-- The scanner between quotes, at a character that does not end the template. -/
theorem scan_inQuotes {c : Char} (hn : c ≠ '\n') (hq : c ≠ '"') :
    InQuotes (frames.map Frame.level) → scan true frames offset piece (c :: t) =
      if c = '\\' then
        match t with
        | [] => .error .unterminatedEscape
        | e :: t => scan true frames (offset + 2) (e :: c :: piece) t
      else if isMarker c then
        match t with
        | '{' :: t =>
          match frames with
          | [] =>
            match scan true [.braces (c = '%') offset 0] (offset + 2) [] t with
            | .error e => .error e
            | .ok (parts, after) => .ok (pending piece ++ parts, after)
          | _ => scan true (.braces (c = '%') offset 0 :: frames) (offset + 2) ('{' :: c :: piece) t
        | d :: '{' :: after =>
          if d = c then scan true frames (offset + 3) ('{' :: d :: c :: piece) after
          else scan true frames (offset + 1) (c :: piece) (d :: '{' :: after)
        | t => scan true frames (offset + 1) (c :: piece) t
      else scan true frames (offset + 1) (c :: piece) t := by
  intro h
  unfold isMarker
  obtain rfl | ⟨outer, rfl⟩ := frames_of_inQuotes h
  all_goals
    rw [scan.eq_def]
    simp only [hn, hq, Bool.true_or, Bool.true_and, decide_false, Bool.false_eq_true, if_false,
      decide_eq_true_eq]
    rfl

theorem scan_escape (e : Char) (h : InQuotes (frames.map Frame.level)) :
    scan true frames offset piece ('\\' :: e :: t) =
      scan true frames (offset + 2) (e :: '\\' :: piece) t :=
  scan_inQuotes offset piece _ (by decide) (by decide) h

theorem scan_escapedMarker {c : Char} (hc : isMarker c = true)
    (h : InQuotes (frames.map Frame.level)) :
    scan true frames offset piece (c :: c :: '{' :: t) =
      scan true frames (offset + 3) ('{' :: c :: c :: piece) t := by
  obtain ⟨hn, hq, hb, ho⟩ := ne_special_of_isMarker hc
  rw [scan_inQuotes offset piece _ hn hq h, if_neg hb, if_pos hc]
  simp

theorem scan_plain {c : Char} (hc : c ≠ '\n' ∧ c ≠ '"' ∧ c ≠ '\\') (ha : StandsAlone c t)
    (h : InQuotes (frames.map Frame.level)) :
    scan true frames offset piece (c :: t) = scan true frames (offset + 1) (c :: piece) t := by
  obtain ⟨hn, hq, hb⟩ := hc
  rw [scan_inQuotes offset piece _ hn hq h, if_neg hb]
  split
  · next hm =>
    obtain ⟨hbrace, hdouble⟩ := ha hm
    split
    · exact absurd rfl (hbrace _)
    · rw [if_neg (by rintro rfl; exact hdouble _ rfl)]
    · rfl
  · rfl

theorem scan_interpolate {c : Char} (hc : isMarker c = true) :
    scan true [] offset piece (c :: '{' :: t) =
      (scan true [.braces (c = '%') offset 0] (offset + 2) [] t).map fun r =>
        (pending piece ++ r.1, r.2) := by
  obtain ⟨hn, hq, hb, ho⟩ := ne_special_of_isMarker hc
  have houter : InQuotes (([] : List Frame).map Frame.level) := inQuotes_nil
  rw [scan_inQuotes offset piece _ hn hq houter, if_neg hb, if_pos hc]
  cases hrun : scan true [.braces (c = '%') offset 0] (offset + 2) [] t <;> simp [hrun, Except.map]

theorem scan_nest {c : Char} (hc : isMarker c = true) (outer : List Frame) :
    scan true (.quote :: outer) offset piece (c :: '{' :: t) =
      scan true (.braces (c = '%') offset 0 :: .quote :: outer) (offset + 2) ('{' :: c :: piece) t := by
  obtain ⟨hn, hq, hb, ho⟩ := ne_special_of_isMarker hc
  rw [scan_inQuotes offset piece _ hn hq (inQuotes_of_frames (by simp)), if_neg hb, if_pos hc]
  simp

end Steps

theorem all_isLiteral_pending (piece : Text) : (pending piece).all Part.isLiteral = true := by
  unfold pending
  split <;> rfl

theorem standsAlone_append {levels : List Level} {used : Text} {literal : Bool} {c : Char}
    (h : Scans levels used literal) (after : Text) (ha : StandsAlone c used) :
    StandsAlone c (used ++ after) := by
  intro hc
  obtain ⟨hbrace, hdouble⟩ := ha hc
  obtain ⟨-, hq, -, -⟩ := ne_special_of_isMarker hc
  match used, h with
  | [d], h =>
    have hd : d = '"' := by
      cases h with
      | finish => rfl
      | endQuote hs => rfl
      | plain _ _ _ hs => cases hs
      | openBrace hs => cases hs
      | closeBrace hs => cases hs
      | leave hs => cases hs
      | enter hs => rfl
      | inside _ hs => cases hs
    subst hd
    refine ⟨by rintro t ⟨⟩, ?_⟩
    rintro t ht
    cases ht
    exact hq rfl
  | d :: e :: used, h =>
    refine ⟨?_, ?_⟩
    · rintro t ht
      cases ht
      exact hbrace _ rfl
    · rintro t ht
      cases ht
      exact hdouble _ rfl

theorem frames_of_braces {frames : List Frame} {n : Nat} {ls : List Level}
    (h : frames.map Frame.level = .braces n :: ls) :
    ∃ d s outer, frames = .braces d s n :: outer ∧ outer.map Frame.level = ls := by
  cases frames with
  | nil => cases h
  | cons frame outer =>
    cases frame with
    | quote => cases h
    | braces d s m =>
      cases h
      exact ⟨d, s, outer, rfl, rfl⟩

theorem frames_of_quote {frames : List Frame} {ls : List Level}
    (h : frames.map Frame.level = .quote :: ls) :
    ∃ outer, frames = .quote :: outer ∧ outer.map Frame.level = ls := by
  cases frames with
  | nil => cases h
  | cons frame outer =>
    cases frame with
    | quote =>
      cases h
      exact ⟨outer, rfl, rfl⟩
    | braces d s m => cases h

theorem ne_nil_of_quote {outer : List Frame}
    (h : (Frame.quote :: outer).getLast? ≠ some .quote) :
    outer ≠ [] ∧ outer.getLast? ≠ some .quote := by
  cases outer with
  | nil => exact absurd rfl h
  | cons frame outer => exact ⟨by simp, h⟩

theorem getLast_braces {d : Bool} {start m : Nat} {outer : List Frame} (n : Nat)
    (h : (Frame.braces d start m :: outer).getLast? ≠ some .quote) :
    (Frame.braces d start n :: outer).getLast? ≠ some .quote := by
  cases outer with
  | nil => nofun
  | cons frame outer => exact h

/-- The frame without its offset. -/
def Frame.unplaced : Frame → Frame
  | .quote => .quote
  | .braces directive _ depth => .braces directive 0 depth

/-- The same frames at other offsets. -/
def SameFrames (frames frames' : List Frame) : Prop :=
  frames'.map Frame.unplaced = frames.map Frame.unplaced

theorem SameFrames.map_level {frames frames' : List Frame} (h : SameFrames frames frames') :
    frames'.map Frame.level = frames.map Frame.level := by
  have hlevel (frames : List Frame) :
      (frames.map Frame.unplaced).map Frame.level = frames.map Frame.level := by
    rw [List.map_map]
    refine List.map_congr_left fun frame _ => ?_
    cases frame <;> rfl
  rw [← hlevel, h, hlevel]

theorem SameFrames.of_quote {outer frames : List Frame} (h : SameFrames (.quote :: outer) frames) :
    ∃ outer', frames = .quote :: outer' ∧ SameFrames outer outer' := by
  unfold SameFrames at h
  cases frames with
  | nil => cases h
  | cons frame outer' =>
    rw [List.map_cons, List.map_cons, List.cons.injEq] at h
    cases frame with
    | quote => exact ⟨outer', rfl, h.2⟩
    | braces d s n => cases h.1

theorem SameFrames.of_braces {d : Bool} {s n : Nat} {outer frames : List Frame}
    (h : SameFrames (.braces d s n :: outer) frames) :
    ∃ s' outer', frames = .braces d s' n :: outer' ∧ SameFrames outer outer' := by
  unfold SameFrames at h
  cases frames with
  | nil => cases h
  | cons frame outer' =>
    rw [List.map_cons, List.map_cons, List.cons.injEq] at h
    cases frame with
    | quote => cases h.1
    | braces d' s' n' =>
      obtain ⟨hframe, houter⟩ := h
      cases hframe
      exact ⟨s', outer', rfl, houter⟩

theorem SameFrames.nil {frames : List Frame} (h : SameFrames [] frames) : frames = [] :=
  List.map_eq_nil_iff.mp h

theorem SameFrames.cons {frames frames' : List Frame} (h : SameFrames frames frames')
    {frame frame' : Frame} (hframe : frame'.unplaced = frame.unplaced) :
    SameFrames (frame :: frames) (frame' :: frames') := by
  rw [SameFrames, List.map_cons, List.map_cons, hframe, h]

theorem SameFrames.quote {frames frames' : List Frame} (h : SameFrames frames frames') :
    SameFrames (.quote :: frames) (.quote :: frames') := h.cons rfl

/-- What the scanner returns on `used`, wherever `used` stands and whatever stands behind it. -/
def Yields (frames : List Frame) (piece used : Text) (parts : List Part) : Prop :=
  ∀ (frames' : List Frame) (offset : Nat) (after : Text), SameFrames frames frames' →
    scan true frames' offset piece (used ++ after) = .ok (parts, after)

theorem yields_of_scans {levels : List Level} {used : Text} {literal : Bool}
    (h : Scans levels used literal) :
    ∀ (frames : List Frame) (piece : Text), frames.map Frame.level = levels →
      frames.getLast? ≠ some .quote →
      ∃ parts, Yields frames piece used parts ∧ parts.all Part.isLiteral = (frames.isEmpty && literal) := by
  induction h with
  | finish =>
    intro frames piece hf hlast
    rw [List.map_eq_nil_iff] at hf
    subst hf
    refine ⟨pending piece, fun frames' offset after hsame => ?_, all_isLiteral_pending piece⟩
    rw [hsame.nil, List.singleton_append, scan.eq_def]
    simp
  | endQuote hs ih =>
    intro frames piece hf hlast
    obtain ⟨outer, rfl, hls⟩ := frames_of_quote hf
    obtain ⟨hne, hlast⟩ := ne_nil_of_quote hlast
    obtain ⟨parts, hrun, hl⟩ := ih outer ('"' :: piece) hls hlast
    refine ⟨parts, fun frames' offset after hsame => ?_, ?_⟩
    · obtain ⟨outer', rfl, houter⟩ := hsame.of_quote
      rw [List.cons_append, scan.eq_def]
      simpa using hrun outer' (offset + 1) after houter
    · rw [hl, List.isEmpty_eq_false_iff.mpr hne]
      rfl
  | escape hls hs ih =>
    intro frames piece hf hlast
    subst hf
    obtain ⟨parts, hrun, hl⟩ := ih frames (_ :: '\\' :: piece) rfl hlast
    refine ⟨parts, fun frames' offset after hsame => ?_, hl⟩
    exact (scan_escape offset piece _ _ (hsame.map_level ▸ hls)).trans
      (hrun frames' (offset + 2) after hsame)
  | escapedMarker hls hc hs ih =>
    intro frames piece hf hlast
    subst hf
    obtain ⟨parts, hrun, hl⟩ := ih frames ('{' :: _ :: _ :: piece) rfl hlast
    refine ⟨parts, fun frames' offset after hsame => ?_, hl⟩
    exact (scan_escapedMarker offset piece _ hc (hsame.map_level ▸ hls)).trans
      (hrun frames' (offset + 3) after hsame)
  | interpolate hls hc hs ih =>
    rename_i c t l
    intro frames piece hf hlast
    subst hf
    obtain rfl | ⟨outer, rfl⟩ := frames_of_inQuotes hls
    · obtain ⟨parts, hrun, hl⟩ := ih [.braces (c = '%') 0 0] [] rfl nofun
      refine ⟨pending piece ++ parts, fun frames' offset after hsame => ?_, ?_⟩
      · have hinner := hrun [.braces (c = '%') offset 0] (offset + 2) after rfl
        rw [hsame.nil, List.cons_append, List.cons_append, scan_interpolate offset piece _ hc, hinner]
        rfl
      · rw [List.all_append, hl]
        exact Bool.and_false _
    · obtain ⟨parts, hrun, hl⟩ := ih (.braces (c = '%') 0 0 :: .quote :: outer) ('{' :: c :: piece)
        rfl hlast
      refine ⟨parts, fun frames' offset after hsame => ?_, hl⟩
      obtain ⟨outer', rfl, -⟩ := hsame.of_quote
      exact (scan_nest offset piece _ hc outer').trans (hrun _ (offset + 2) after (hsame.cons rfl))
  | plain hls hc ha hs ih =>
    intro frames piece hf hlast
    subst hf
    obtain ⟨parts, hrun, hl⟩ := ih frames (_ :: piece) rfl hlast
    refine ⟨parts, fun frames' offset after hsame => ?_, hl⟩
    exact (scan_plain offset piece _ hc (standsAlone_append hs after ha)
      (hsame.map_level ▸ hls)).trans (hrun frames' (offset + 1) after hsame)
  | openBrace hs ih =>
    intro frames piece hf hlast
    obtain ⟨d, s, outer, rfl, rfl⟩ := frames_of_braces hf
    obtain ⟨parts, hrun, hl⟩ := ih (.braces d s (_ + 1) :: outer) ('{' :: piece) rfl (getLast_braces _ hlast)
    refine ⟨parts, fun frames' offset after hsame => ?_, hl⟩
    obtain ⟨s', outer', rfl, houter⟩ := hsame.of_braces
    have hinner := hrun (.braces d s' (_ + 1) :: outer') (offset + 1) after (houter.cons rfl)
    rw [List.cons_append, scan.eq_def]
    simpa using hinner
  | closeBrace hs ih =>
    intro frames piece hf hlast
    obtain ⟨d, s, outer, rfl, rfl⟩ := frames_of_braces hf
    obtain ⟨parts, hrun, hl⟩ := ih (.braces d s _ :: outer) ('}' :: piece) rfl (getLast_braces _ hlast)
    refine ⟨parts, fun frames' offset after hsame => ?_, hl⟩
    obtain ⟨s', outer', rfl, houter⟩ := hsame.of_braces
    have hinner := hrun (.braces d s' _ :: outer') (offset + 1) after (houter.cons rfl)
    rw [List.cons_append, scan.eq_def]
    simpa using hinner
  | leave hs ih =>
    intro frames piece hf hlast
    obtain ⟨d, s, outer, rfl, rfl⟩ := frames_of_braces hf
    cases outer with
    | nil =>
      obtain ⟨parts, hrun, hl⟩ := ih [] [] rfl nofun
      refine ⟨.interpolation d piece.reverse :: parts, fun frames' offset after hsame => ?_, rfl⟩
      obtain ⟨s', outer', rfl, houter⟩ := hsame.of_braces
      rw [houter.nil, List.cons_append, scan.eq_def]
      simp [hrun [] (offset + 1) after rfl]
    | cons frame outer =>
      obtain ⟨parts, hrun, hl⟩ := ih (frame :: outer) ('}' :: piece) rfl hlast
      refine ⟨parts, fun frames' offset after hsame => ?_, hl⟩
      obtain ⟨s', outer', rfl, houter⟩ := hsame.of_braces
      have hinner := hrun outer' (offset + 1) after houter
      cases outer' with
      | nil => cases houter
      | cons frame' outer' =>
        rw [List.cons_append, scan.eq_def]
        simpa using hinner
  | enter hs ih =>
    intro frames piece hf hlast
    obtain ⟨d, s, outer, rfl, rfl⟩ := frames_of_braces hf
    obtain ⟨parts, hrun, hl⟩ := ih (.quote :: .braces d s _ :: outer) ('"' :: piece) rfl hlast
    refine ⟨parts, fun frames' offset after hsame => ?_, hl⟩
    obtain ⟨s', outer', rfl, -⟩ := hsame.of_braces
    rw [List.cons_append, scan.eq_def]
    simpa using hrun _ (offset + 1) after hsame.quote
  | inside hc hs ih =>
    intro frames piece hf hlast
    obtain ⟨d, s, outer, rfl, rfl⟩ := frames_of_braces hf
    obtain ⟨parts, hrun, hl⟩ := ih (.braces d s _ :: outer) (_ :: piece) rfl hlast
    refine ⟨parts, fun frames' offset after hsame => ?_, hl⟩
    have hinner := hrun frames' (offset + 1) after hsame
    obtain ⟨s', outer', rfl, -⟩ := hsame.of_braces
    rw [List.cons_append, scan.eq_def]
    simpa [hc] using hinner

/-! ## Quoted templates -/

theorem scanQuoted_ok {offset : Nat} {text after : Text} {parts : List Part}
    (h : scanQuoted offset text = .ok (parts, after)) :
    ∃ used literal, text = '"' :: used ++ after ∧ Scans [] used literal := by
  unfold scanQuoted at h
  split at h
  · obtain ⟨used, l, rfl, hs⟩ := scans_of_scan h
    exact ⟨used, l, rfl, hs⟩
  · cases h
  · cases h

/-- A quoted template has the same parts wherever it stands and whatever stands behind it. -/
theorem scanQuoted_of_scans {used : Text} {literal : Bool} (h : Scans [] used literal) :
    ∃ parts, (∀ offset after, scanQuoted offset ('"' :: used ++ after) = .ok (parts, after)) ∧
      parts.flatMap Part.written ++ ['"'] = used ∧ parts.all Part.isLiteral = literal := by
  obtain ⟨parts, hrun, hl⟩ := yields_of_scans h [] [] rfl nofun
  obtain ⟨used', hused, -, hwritten⟩ := covers_of_scan (hrun [] 0 [] rfl)
  refine ⟨parts, fun offset after => hrun [] (offset + 1) after rfl, ?_, by simpa using hl⟩
  rw [List.append_cancel_right hused]
  exact hwritten

theorem scanQuoted_moved {offset : Nat} {text after : Text} {parts : List Part}
    (h : scanQuoted offset text = .ok (parts, after)) :
    ∃ used literal, text = '"' :: used ++ after ∧ Scans [] used literal ∧
      (∀ offset after, scanQuoted offset ('"' :: used ++ after) = .ok (parts, after)) ∧
      parts.flatMap Part.written ++ ['"'] = used := by
  obtain ⟨used, literal, rfl, hs⟩ := scanQuoted_ok h
  obtain ⟨parts', hrun, hw, -⟩ := scanQuoted_of_scans hs
  rw [hrun] at h
  cases h
  exact ⟨used, literal, rfl, hs, hrun, hw⟩

theorem partsOf_of_scanQuoted {text after : Text} {parts : List Part}
    (h : scanQuoted 0 text = .ok (parts, after)) : partsOf true text = parts := by
  unfold partsOf
  rw [if_pos rfl, h]

theorem partsOf_of_scans {used : Text} {literal : Bool} (h : Scans [] used literal) :
    (partsOf true ('"' :: used)).all Part.isLiteral = literal ∧
      (partsOf true ('"' :: used)).flatMap Part.written ++ ['"'] = used := by
  obtain ⟨parts, hrun, hw, hl⟩ := scanQuoted_of_scans h
  have hparts := hrun 0 []
  rw [List.append_nil] at hparts
  rw [partsOf_of_scanQuoted hparts]
  exact ⟨hl, hw⟩

theorem flatMap_literalText {parts : List Part} (h : parts.all Part.isLiteral = true) :
    parts.flatMap Part.literalText = parts.flatMap Part.written := by
  induction parts with
  | nil => rfl
  | cons part parts ih =>
    rw [List.all_cons, Bool.and_eq_true] at h
    rw [List.flatMap_cons, List.flatMap_cons, ih h.2]
    cases part with
    | literal text => rfl
    | interpolation d inner => cases h.1

/-! ## Blanks before the first line feed -/

theorem not_scans_newline {levels : List Level} {t : Text} {literal : Bool}
    (hls : InQuotes levels) : ¬ Scans levels ('\n' :: t) literal := by
  intro h
  cases h with
  | escapedMarker _ hc _ => exact (ne_special_of_isMarker hc).1 rfl
  | interpolate _ hc _ => exact (ne_special_of_isMarker hc).1 rfl
  | plain _ hc _ _ => exact hc.1 rfl
  | inside _ _ => exact hls _ _ rfl

theorem standsAlone_trimRight {c : Char} {a b : Text} (h : StandsAlone c (a ++ '\n' :: b)) :
    StandsAlone c (Text.trimRight a ++ '\n' :: b) := by
  intro hc
  obtain ⟨hbrace, hdouble⟩ := h hc
  obtain ⟨hn, -, -, -⟩ := ne_special_of_isMarker hc
  obtain ⟨g, -, hg⟩ := Text.exists_trimRight a
  generalize Text.trimRight a = k at hg
  subst hg
  match k with
  | [] =>
    refine ⟨by rintro t ⟨⟩, ?_⟩
    rintro t ht
    cases ht
    exact hn rfl
  | [d] =>
    refine ⟨?_, by rintro t ⟨⟩⟩
    rintro t ht
    cases ht
    exact hbrace _ rfl
  | d :: e :: k =>
    refine ⟨?_, ?_⟩
    · rintro t ht
      cases ht
      exact hbrace _ rfl
    · rintro t ht
      cases ht
      exact hdouble _ rfl

/-- `P` holds when the white space in front of the first line feed has gone. -/
def Trims (P : Text → Prop) (t : Text) : Prop :=
  ∀ a b, t = a ++ '\n' :: b → '\n' ∉ a → P (Text.trimRight a ++ '\n' :: b)

section Trims

variable {P Q : Text → Prop} {c : Char} {t : Text}

theorem trims_of_not_mem (h : '\n' ∉ t) : Trims P t := by
  rintro a b rfl
  exact absurd (by simp) h

theorem trims_newline (h : P ('\n' :: t)) : Trims P ('\n' :: t) := by
  intro a b heq ha
  cases a with
  | nil =>
    cases heq
    exact h
  | cons d a =>
    cases heq
    exact absurd (List.mem_cons_self ..) ha

theorem Trims.cons (h : Trims P t) (hc : Text.isBlank c = false) (hPQ : ∀ u, P u → Q (c :: u)) :
    Trims Q (c :: t) := by
  intro a b heq ha
  obtain ⟨a', rfl, heq, ha'⟩ := Text.eq_cons_of_cons_eq heq ha (by rintro rfl; cases hc)
  rw [Text.trimRight_cons_of_not_blank _ hc]
  exact hPQ _ (h a' b heq ha')

/-- The line feed cannot be the first character, so that the character in front of it stays. -/
theorem Trims.cons_of_not_newline (h : Trims P t) (hc : c ≠ '\n') (hnot : ∀ u, ¬ P ('\n' :: u))
    (hPQ : ∀ u, P u → Q (c :: u)) : Trims Q (c :: t) := by
  intro a b heq ha
  obtain ⟨a', rfl, heq, ha'⟩ := Text.eq_cons_of_cons_eq heq ha hc
  have hrest := h a' b heq ha'
  have hne : Text.trimRight a' ≠ [] := by
    intro hnil
    rw [hnil] at hrest
    exact hnot b hrest
  rw [Text.trimRight_cons_of_ne_nil _ hne]
  exact hPQ _ hrest

/-- A character that may also go. -/
theorem Trims.cons_self (h : Trims P t) (hc : c ≠ '\n') (hP : ∀ u, P u → P (c :: u)) :
    Trims P (c :: t) := by
  cases hb : Text.isBlank c with
  | false => exact h.cons hb hP
  | true =>
    intro a b heq ha
    obtain ⟨a', rfl, heq, ha'⟩ := Text.eq_cons_of_cons_eq heq ha hc
    have hrest := h a' b heq ha'
    by_cases hnil : Text.trimRight a' = []
    · rw [Text.trimRight_cons_of_eq_nil hnil hb]
      rwa [hnil] at hrest
    · rw [Text.trimRight_cons_of_ne_nil _ hnil]
      exact hP _ hrest

end Trims

/-- The first line feed of a template lies inside an interpolation or behind a backslash, so the
white space in front of it may go. -/
theorem scans_trimRight {levels : List Level} {used : Text} {literal : Bool}
    (h : Scans levels used literal) : Trims (Scans levels · literal) used := by
  induction h with
  | finish => exact trims_of_not_mem (by decide)
  | endQuote hs ih => exact ih.cons (by decide) fun _ => .endQuote
  | @escape ls e t l hls hs ih =>
    refine Trims.cons (P := fun u => Scans ls ('\\' :: u) l) ?_ (by decide) fun _ h => h
    by_cases he : e = '\n'
    · subst he
      exact trims_newline (.escape hls hs)
    · exact ih.cons_of_not_newline he (fun _ => not_scans_newline hls) fun _ => .escape hls
  | @escapedMarker ls c t l hls hc hs ih =>
    have hb := isBlank_of_isMarker hc
    exact ((ih.cons (Q := fun u => Scans ls (c :: c :: u) l) (by decide) fun _ => .escapedMarker hls hc).cons
      (Q := fun u => Scans ls (c :: u) l) hb fun _ h => h).cons hb fun _ h => h
  | @interpolate ls c t l hls hc hs ih =>
    exact (ih.cons (Q := fun u => Scans ls (c :: u) false) (by decide) fun _ => .interpolate hls hc).cons
      (isBlank_of_isMarker hc) fun _ h => h
  | @plain ls c t l hls hc hst hs ih =>
    have hboth : Trims (fun u => StandsAlone c u ∧ Scans ls u l) t := fun a b heq ha =>
      ⟨standsAlone_trimRight (heq ▸ hst), ih a b heq ha⟩
    exact hboth.cons_of_not_newline hc.1 (fun _ h => not_scans_newline hls h.2) fun _ h =>
      .plain hls hc h.1 h.2
  | openBrace hs ih => exact ih.cons (by decide) fun _ => .openBrace
  | closeBrace hs ih => exact ih.cons (by decide) fun _ => .closeBrace
  | leave hs ih => exact ih.cons (by decide) fun _ => .leave
  | enter hs ih => exact ih.cons (by decide) fun _ => .enter
  | @inside n ls c t l hc hs ih =>
    by_cases hn : c = '\n'
    · subst hn
      exact trims_newline (.inside hc hs)
    · exact ih.cons_self hn fun _ => .inside hc

/-- In a template without interpolations no white space stands in front of the first line feed. -/
theorem trims_self_of_scans {levels : List Level} {used : Text} {literal : Bool}
    (h : Scans levels used literal) (hlevels : levels = []) (hliteral : literal = true) :
    Trims (· = used) used := by
  induction h with
  | finish => exact trims_of_not_mem (by decide)
  | @escape ls e t l hls hs ih =>
    refine Trims.cons (P := (· = e :: t)) ?_ (by decide) fun _ => congrArg _
    by_cases he : e = '\n'
    · subst he
      exact trims_newline rfl
    · refine (ih hlevels hliteral).cons_of_not_newline he ?_ fun _ => congrArg _
      rintro u rfl
      exact not_scans_newline hls hs
  | @escapedMarker ls c t l hls hc hs ih =>
    have hb := isBlank_of_isMarker hc
    exact (((ih hlevels hliteral).cons (Q := (· = '{' :: t)) (by decide) fun _ => congrArg _).cons
      (Q := (· = c :: '{' :: t)) hb fun _ => congrArg _).cons hb fun _ => congrArg _
  | @plain ls c t l hls hc hst hs ih =>
    refine (ih hlevels hliteral).cons_of_not_newline hc.1 ?_ fun _ => congrArg _
    rintro u rfl
    exact not_scans_newline hls hs
  | interpolate => cases hliteral
  | endQuote | openBrace | closeBrace | leave | enter | inside => cases hlevels

theorem trimRight_eq_self_of_scans {a b : Text} (h : Scans [] (a ++ '\n' :: b) true) (ha : '\n' ∉ a) :
    Text.trimRight a = a :=
  List.append_cancel_right (trims_self_of_scans h rfl rfl a b rfl ha)

end HclTidy.Template
