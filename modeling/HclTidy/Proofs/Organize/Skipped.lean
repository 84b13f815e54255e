import HclTidy.Proofs.Block.Refused
import HclTidy.Proofs.Organize.Reading

/-!
# Files that are left out

A directory run goes on behind a file that it cannot use: it warns of the file and leaves it out. Only
a text with an escape beyond the range of code numbers ends the run.
-/

set_option autoImplicit false

namespace HclTidy

open Run

namespace Tree

section NoNul

variable {tree : Tree} {follow : Bool}

theorem walkNames_ne_embeddedNul {goOn : Place → List Text → Except PathFault Destination}
    (h : ∀ place names, goOn place names ≠ .error .embeddedNul) (place : Place) (names : List Text) :
    tree.walkNames follow goOn place names ≠ .error .embeddedNul := by
  induction names generalizing place with
  | nil => rintro ⟨⟩
  | cons name rest ih =>
    rw [walkNames]
    split
    · rintro ⟨⟩
    · split
      · rintro ⟨⟩
      · split
        · rintro ⟨⟩
        · split
          · exact ih place
          · split
            · exact ih place.tail
            · split
              · split <;> rintro ⟨⟩
              · split
                · rintro ⟨⟩
                · split
                  · rintro ⟨⟩
                  · exact h _ _
              · exact ih _

theorem walk_ne_embeddedNul (links : Nat) (place : Place) (names : List Text) :
    tree.walk follow links place names ≠ .error .embeddedNul := by
  induction links generalizing place names with
  | zero =>
    refine walkNames_ne_embeddedNul ?_ place names
    rintro _ _ ⟨⟩
  | succ links ih => exact walkNames_ne_embeddedNul ih place names

/-- A path without a NUL that cannot be read has an error of the system. -/
theorem isSystemError_of_readFile {path : Text} (hnul : '\x00' ∉ path) {error : FileError}
    (h : tree.readFile path = .error error) : error.isSystemError = true := by
  have hlocate : tree.locate true path ≠ .error .embeddedNul := by
    rw [locate, if_neg (by rwa [List.contains_iff_mem])]
    split
    · rintro ⟨⟩
    · split
      · rintro ⟨⟩
      · exact walk_ne_embeddedNul _ _ _
  have hentry : tree.entryAt true path ≠ .error .embeddedNul := by
    unfold entryAt
    split
    · next fault hfault =>
      intro heq
      cases heq
      exact hlocate hfault
    · rintro ⟨⟩
    · split <;> rintro ⟨⟩
  unfold readFile at h
  split at h
  · next fault hfault =>
    cases h
    refine decide_eq_true fun heq => hentry ?_
    rw [hfault]
    exact congrArg _ heq
  · cases h
  · cases h
    rfl
  · cases h

end NoNul

end Tree

namespace Source

/-- A path that can be written, to a file without an oversized escape if there is one. What fails in
reading it is an error of the system. -/
structure IsOrdinary (faults : Faults) (tree : Tree) (path : Text) : Prop where
  no_nul : '\x00' ∉ path
  fault : faults.reading path ≠ some .embeddedNul
  not_oversized : ∀ text, readText faults tree path = .ok text → ¬Escape.Oversized text

section Ordinary

variable {faults : Faults} {tree : Tree} {path : Text}

theorem isSystemError_of_readText {error : FileError} (h : IsOrdinary faults tree path)
    (hrefused : readText faults tree path = .error (.refused error)) : error.isSystemError = true := by
  unfold readText at hrefused
  split at hrefused
  · next other hother =>
    cases hrefused
    cases hread : tree.readFile path with
    | error error =>
      rw [hread] at hother
      cases hother
      exact Tree.isSystemError_of_readFile h.no_nul hread
    | ok bytes =>
      have hsystem := h.fault
      rw [hread] at hother
      cases hfault : faults.reading path with
      | none =>
        rw [hfault] at hother
        cases hother
      | some fault =>
        rw [hfault] at hother hsystem
        cases hother
        exact decide_eq_true fun heq => hsystem (congrArg some heq)
  · split at hrefused <;> cases hrefused

/-- Parsing a file fails with an error of the source. -/
theorem parse_error (h : IsOrdinary faults tree path) {keepSource : Bool} {failure : Failure}
    (hfailure : (parse faults path keepSource).value tree = .error failure) :
    ∃ error, failure = .source error := by
  have hresult : (parse faults path keepSource).result ⟨tree, []⟩ = (.error failure, _) :=
    Prod.ext hfailure rfl
  unfold parse at hresult
  rw [result_bind_of_ok (result_tree _)] at hresult
  dsimp only at hresult
  split at hresult
  · next error herror =>
    cases hresult
    exact ⟨_, if_pos (isSystemError_of_readText h herror)⟩
  · cases hresult
    exact ⟨_, rfl⟩
  · next text htext =>
    split at hresult
    · cases hresult
    · next refusal hrefusal =>
      cases hresult
      have hdue := ParsedFile.failsOnly_ofText path keepSource text refusal hrefusal
      cases herror : refusal.error with
      | escape error =>
        rw [herror] at hdue
        exact absurd hdue (h.not_oversized text htext)
      | _ => exact ⟨_, rfl⟩

/-- A file of a directory run is read, or left out with a warning. -/
theorem exists_process (session : Session) (h : IsOrdinary faults session.tree path) :
    ∃ parsed events, (process faults path).result session = (.ok parsed, ⟨session.tree, events⟩) ∧
      (parsed = none → (∃ error, .skippedUnsafe path error ∈ events) ∨
        ∃ error, .skippedFile path error ∈ events) := by
  unfold process
  rw [result_bind_of_ok (result_tree _)]
  dsimp only
  split
  · next error _ => exact ⟨none, _, rfl, fun _ => .inl ⟨error, List.mem_cons_self⟩⟩
  · obtain ⟨events, hparse⟩ := (isReading_parse path true).result_eq session
    cases hvalue : (parse faults path true).value session.tree with
    | ok file =>
      rw [hvalue] at hparse
      have hmap : (some <$> parse faults path true).result session =
          (.ok (some file), ⟨session.tree, events⟩) := by
        rw [map_eq_pure_bind, result_bind_of_ok hparse]
        rfl
      rw [result_bind_of_ok (result_tryCatch_of_ok hmap)]
      exact ⟨some file, _, rfl, fun hnone => by cases hnone⟩
    | error failure =>
      obtain ⟨error, rfl⟩ := parse_error h hvalue
      rw [hvalue] at hparse
      have hmap : (some <$> parse faults path true).result session =
          (.error (.source error), ⟨session.tree, events⟩) := by
        rw [map_eq_pure_bind, result_bind_of_error hparse]
      rw [result_bind_of_ok (result_tryCatch_of_error hmap)]
      exact ⟨none, _, rfl, fun _ => .inr ⟨error, List.mem_cons_self⟩⟩

/-- All files of a directory run are read or left out. -/
theorem exists_filterMapM_process {paths : List Text} (session : Session)
    (h : ∀ path ∈ paths, IsOrdinary faults session.tree path) :
    ∃ files events, (paths.filterMapM (process faults)).result session = (.ok files, ⟨session.tree, events⟩) := by
  induction paths generalizing session with
  | nil => exact ⟨[], session.events, rfl⟩
  | cons path paths ih =>
    obtain ⟨hpath, hpaths⟩ := List.forall_mem_cons.mp h
    obtain ⟨parsed, events, hprocess, -⟩ := exists_process session hpath
    obtain ⟨files, events', hrest⟩ := ih ⟨session.tree, events⟩ hpaths
    rw [List.filterMapM_cons, result_bind_of_ok hprocess]
    cases parsed with
    | none => exact ⟨files, events', hrest⟩
    | some file =>
      dsimp only
      rw [result_bind_of_ok hrest]
      exact ⟨file :: files, events', rfl⟩

end Ordinary

/-- A directory whose files can be enumerated is read whatever is in them, oversized escapes left
apart. -/
theorem exists_readInput {faults : Faults} {tree : Tree} {input : Text} {recursive : Bool} {paths : List Text}
    (henumerate : (enumerate faults input recursive).value tree = .ok paths)
    (h : ∀ path ∈ paths, IsOrdinary faults tree path) :
    ∃ files, (readInput faults input true recursive).value tree = .ok files := by
  obtain ⟨files, events, hfiles⟩ := exists_filterMapM_process ⟨tree, []⟩ h
  exact ⟨files, value_readInput henumerate
    ((isReading_filterMapM isReading_process).value_of_result hfiles)⟩

/-- A file whose label has an oversized escape. -/
def oversized : Tree :=
  ⟨[([], .directory 0o755),
    (["a.tf".toList], .file (Utf8.encode "x \"\\U80000000\" \x7b\x7d\n".toList) 0o644)], []⟩

/-- An oversized escape ends a directory run. -/
theorem process_oversized :
    ¬∀ tree path, '\x00' ∉ path → ∃ parsed, (process .none path).value tree = .ok parsed := by
  intro h
  have hfailed : ((process .none "a.tf".toList).value oversized).toOption.isSome = false := by
    decide +kernel
  obtain ⟨parsed, hparsed⟩ := h oversized "a.tf".toList (by decide)
  rw [hparsed] at hfailed
  cases hfailed

end Source

end HclTidy
