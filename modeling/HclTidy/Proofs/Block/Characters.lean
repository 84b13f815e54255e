import HclTidy.Proofs.Block.RoundTrip
import HclTidy.Proofs.Layout.Characters
import HclTidy.Proofs.Text.Utf8

/-!
# The characters of written blocks

Raw bodies and leading comments are parts of the text that the blocks are read from, so that they
have no carriage return when the text has none. Neither has the text that is written for them, which
therefore is read back from a file as it was written.
-/

set_option autoImplicit false

namespace HclTidy

variable {P : Char → Prop}

/-! ## Names and labels -/

theorem Token.isIdentChar_of_fits {text after : Text} (h : Fits .ident text after) :
    text.Over (isIdentChar · = true) := by
  cases h with
  | ident _ hstart hrest _ =>
    exact Text.over_cons.mpr ⟨isIdentChar_of_isIdentStart hstart, hrest⟩
  | symbol _ _ hsymbol => exact absurd (symbol?_kind hsymbol) (by decide)

theorem Escape.noReturn_encode (t : Text) : (encode t).Over (· ≠ '\r') := by
  induction h : t.length using Nat.strong_induction_on generalizing t with
  | _ n ih =>
    cases t with
    | nil => exact Text.over_nil
    | cons c t =>
      obtain ⟨hc, he⟩ | ⟨u, hm, rfl, he⟩ | ⟨hc, -, he⟩ := encode_cases c t <;> rw [he]
      · have hl : escapeLetter c ≠ '\r' := by
          simp only [isEscaped, Bool.or_eq_true, decide_eq_true_eq] at hc
          rcases hc with (((rfl | rfl) | rfl) | rfl) | rfl <;> decide
        exact Text.over_cons.mpr ⟨by decide, Text.over_cons.mpr ⟨hl,
          ih _ (by rw [← h]; exact Nat.lt_succ_self _) t rfl⟩⟩
      · have hr : c ≠ '\r' := by
          rintro rfl
          cases hm
        exact Text.over_cons.mpr ⟨hr, Text.over_cons.mpr ⟨hr, Text.over_cons.mpr ⟨by decide,
          ih _ (by rw [← h, List.length_cons, List.length_cons]; omega) u rfl⟩⟩⟩
      · have hr : c ≠ '\r' := by
          rintro rfl
          cases hc
        exact Text.over_cons.mpr ⟨hr, ih _ (by rw [← h]; exact Nat.lt_succ_self _) t rfl⟩

namespace Block

/-! ## Blocks of a text -/

theorem over_slice {text : Text} (h : text.Over P) (start stop : Nat) :
    (text.slice start stop).Over P :=
  h.subset fun _ hc => List.drop_subset _ _ (List.take_subset _ _ hc)

theorem over_rawBodyAt {text : Text} (h : text.Over P) (start stop : Int) :
    (rawBodyAt text start stop).Over P := by
  unfold rawBodyAt
  split
  · exact over_slice h _ _
  · exact Text.over_nil

theorem over_leadingCommentsAt {text : Text} (hfeed : P '\n') (h : text.Over P)
    (blockStart previousEnd : Int) : (leadingCommentsAt text blockStart previousEnd).Over P := by
  unfold leadingCommentsAt
  split
  · dsimp only
    refine Text.over_unlines hfeed fun row hrow => ?_
    have hrun := (List.takeWhile_sublist _).subset (List.mem_reverse.mp (mem_trimRows hrow))
    obtain ⟨line, hline, rfl⟩ := List.mem_map.mp hrun
    have habove : line ∈ (Text.lines
        (text.slice previousEnd.toNat blockStart.toNat)).dropLast := by
      have hrows := List.mem_reverse.mp hline
      split at hrows
      · exact List.mem_of_mem_tail hrows
      · exact hrows
    exact (Text.over_lines (over_slice h _ _) line (List.dropLast_subset _ habove)).subset
      (Text.trim_subset line)
  · exact Text.over_nil

/-- The parts of a block that are kept from its source have a property of characters. -/
structure SourceOver (P : Char → Prop) (b : Block) : Prop where
  rawBody : b.rawBody.Over P
  leadingComments : b.leadingComments.Over P

theorem sourceOver_of_reads {source : Source} {file : Text} (hfeed : P '\n')
    (htext : source.text.Over P) {c : Cursor} {previousEnd : Nat} {blocks : List Block}
    (h : ParsedFile.Reads source file true c previousEnd blocks) : ∀ b ∈ blocks, b.SourceOver P := by
  induction h with
  | done => exact List.forall_mem_nil _
  | leftOut _ _ ih => exact ih
  | block _ _ _ _ _ _ _ ih =>
    exact List.forall_mem_cons.mpr
      ⟨⟨over_rawBodyAt htext _ _, over_leadingCommentsAt hfeed htext _ _⟩, ih⟩

theorem sourceOver_of_ofText {file text : Text} {parsed : ParsedFile} {events : List ParseEvent}
    (hfeed : P '\n') (htext : text.Over P)
    (h : ParsedFile.ofText file true text = .ok (parsed, events)) :
    ∀ b ∈ parsed.blocks, b.SourceOver P := by
  obtain ⟨stream, -, hreads⟩ := ParsedFile.reads_of_ofText h
  exact sourceOver_of_reads hfeed htext hreads

/-! ## Written blocks -/

/-- A sound block without carriage returns in what is kept from its source. -/
structure Writable (b : Block) : Prop where
  sound : b.Sound
  noReturn : b.SourceOver (· ≠ '\r')

theorem writable_of_ofText {file text : Text} {parsed : ParsedFile} {events : List ParseEvent}
    (htext : '\r' ∉ text) (h : ParsedFile.ofText file true text = .ok (parsed, events)) :
    ∀ b ∈ parsed.blocks, b.Writable := by
  have hsource := sourceOver_of_ofText (P := (· ≠ '\r')) (by decide)
    (fun c hc heq => htext (heq ▸ hc)) h
  exact fun b hb => ⟨sound_of_ofText h b hb, hsource b hb⟩

theorem noReturn_header {type : Text} (htype : ∃ after, Token.Fits .ident type after)
    (labels : List Text) : (header type labels).Over (· ≠ '\r') := by
  obtain ⟨after, htype⟩ := htype
  refine Text.over_joinWith (List.forall_mem_singleton.mpr (by decide))
    (List.forall_mem_cons.mpr ⟨?_, List.forall_mem_map.mpr fun label _ => ?_⟩)
  · rintro c hc rfl
    exact absurd (Token.isIdentChar_of_fits htype '\r' hc) (by decide)
  · exact Text.over_append.mpr ⟨Text.over_cons.mpr ⟨by decide, Escape.noReturn_encode label⟩,
      List.forall_mem_singleton.mpr (by decide)⟩

theorem noReturn_bodyText {b : Block} (h : b.SourceOver (· ≠ '\r')) : b.bodyText.Over (· ≠ '\r') := by
  unfold bodyText
  split
  · exact Text.over_nil
  · exact Text.over_append.mpr ⟨h.rawBody.subset (Text.trim_subset _),
      List.forall_mem_singleton.mpr (by decide)⟩

theorem noReturn_render {b : Block} (h : b.Writable) : b.render.Over (· ≠ '\r') := by
  rw [render_of_sound h.sound]
  refine Text.over_append.mpr ⟨?_, Text.over_append.mpr ⟨Text.over_append.mpr
    ⟨noReturn_header h.sound.type _, ?_⟩, Text.over_append.mpr ⟨noReturn_bodyText h.noReturn, ?_⟩⟩⟩
  · intro c hc
    obtain ⟨row, hrow, hc⟩ := List.mem_flatMap.mp hc
    have hrows : row.Over (· ≠ '\r') := by
      unfold rowsOfComments at hrow
      split at hrow
      · cases hrow
      · exact Text.over_lines h.noReturn.leadingComments row hrow
    exact Text.over_append.mpr ⟨hrows, List.forall_mem_singleton.mpr (by decide)⟩ c hc
  · simp [Text.over_cons, Text.over_nil]
  · simp [Text.over_cons, Text.over_nil]

theorem noReturn_renderAll {blocks : List Block} (h : ∀ b ∈ blocks, b.Writable) :
    (renderAll blocks).Over (· ≠ '\r') :=
  Layout.over_format (by decide) (by decide) (by decide)
    (Text.over_joinWith (by simp [Text.over_cons, Text.over_nil])
      (List.forall_mem_map.mpr fun b hb => noReturn_render (h b hb)))

/-- The text that is written for blocks is read back from its bytes. -/
theorem readText_renderAll {blocks : List Block} (h : ∀ b ∈ blocks, b.Writable) :
    Utf8.readText (Utf8.encode (renderAll blocks)) = .ok (renderAll blocks) :=
  Utf8.readText_encode fun hmem => noReturn_renderAll h '\r' hmem rfl

end Block

end HclTidy
