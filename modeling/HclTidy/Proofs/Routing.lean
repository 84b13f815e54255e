import HclTidy.Proofs.Config
import HclTidy.Proofs.FileName
import HclTidy.Proofs.Layout.Characters
import HclTidy.Routing

/-!
# The names of output files

Configured names are checked, and default names are made of safe components. So every output file
lies directly in its directory, but for two gaps of the check: a group may have the name of the
directory itself, and a NUL in its name.
-/

set_option autoImplicit false

namespace HclTidy

/-- A name that a file of a directory can have: the name of an entry without a NUL. -/
structure IsFileName (name : Text) : Prop extends IsName name where
  no_nul : '\x00' ∉ name

instance (name : Text) : Decidable (IsFileName name) :=
  decidable_of_iff (IsName name ∧ '\x00' ∉ name) ⟨fun ⟨h, h'⟩ => ⟨h, h'⟩, fun h => ⟨h.1, h.2⟩⟩

/-! ## Configured names -/

namespace FileName

/-- A name that breaks no rule is the name of an entry or that of the directory. -/
theorem isName_of_fault? {name : Text} (h : fault? name = none) (hne : name ≠ Path.current) :
    IsName name := by
  unfold fault? at h
  split at h
  · cases h
  next hempty =>
  split at h
  · cases h
  next hparent =>
  split at h
  · cases h
  next hvalid =>
  refine ⟨by simpa using hempty, fun hslash => ?_, hne, ?_⟩
  · exact hvalid (List.any_eq_true.mpr ⟨'/', hslash, by decide⟩)
  · rintro rfl
    exact hparent (by decide)

end FileName

namespace Config

/-- No file name of a group breaks a rule. -/
def HasValidNames (config : Config) : Prop :=
  ∀ g ∈ config.groups, FileName.fault? g.fileName = none

theorem hasValidNames_empty : empty.HasValidNames := List.forall_mem_nil _

theorem hasValidNames_of_ofDocument {document : Document} {config : Config}
    (h : ofDocument document = .ok config) : config.HasValidNames :=
  fun g hg => ((isWellFormed_of_ofDocument h).groups g hg).fileName

theorem hasValidNames_of_ofBytes {reader : Reader} {content : Bytes} {config : Config}
    (h : ofBytes reader content = .ok config) : config.HasValidNames := by
  unfold ofBytes at h
  split at h
  · cases h
  · cases h
  · exact hasValidNames_of_ofDocument (ofDocument_of_ofDecoded h)

theorem hasValidNames_of_load {reader : Reader} {tree : Tree} {path : Text} {config : Config}
    (h : load reader tree path = .ok config) : config.HasValidNames := by
  unfold load at h
  split at h
  · cases h
    exact hasValidNames_empty
  · dsimp only at h
    split at h
    · cases h
    · cases h
    · split at h
      · cases h
      · exact hasValidNames_of_ofBytes h
    · cases h

end Config

/-! ## Routes -/

namespace Block

theorem isFileName_append_extension {t : Text} (h : t.Over FileName.IsAllowed) :
    IsFileName (t ++ extension) := by
  have hextension : extension.Over FileName.IsAllowed := by
    simp [extension, Text.Over, FileName.IsAllowed]
  have hwhole := Text.over_append.mpr ⟨h, hextension⟩
  have hne {name : Text} (hshort : name.length < 3) : t ++ extension ≠ name := by
    rintro rfl
    simp [extension] at hshort
  exact {
    ne_nil := hne (by decide)
    no_slash := fun hmem => (hwhole _ hmem).2.2 List.mem_cons_self
    ne_current := hne (by decide)
    ne_parent := hne (by decide)
    no_nul := fun hmem => absurd (hwhole _ hmem).1 (by decide) }

theorem isFileName_defaultFile (b : Block) : IsFileName b.defaultFile := by
  unfold defaultFile
  split
  · next htype =>
    have htypes : ∀ type ∈ filePerLabel, type.Over FileName.IsAllowed := by
      simp [filePerLabel, Text.Over, FileName.IsAllowed]
    have hallowed := htypes _ (List.contains_iff_mem.mp htype)
    split
    · next label _ _ =>
      exact isFileName_append_extension (Text.over_append.mpr ⟨hallowed, Text.over_cons.mpr
        ⟨by decide, Text.over_cons.mpr ⟨by decide, (FileName.isSafe_sanitize label).allowed⟩⟩⟩)
    · exact isFileName_append_extension hallowed
  · split
    · next name hname =>
      have hfixed : ∀ e ∈ fixedFiles, IsFileName e.2 := by decide
      obtain ⟨before, after, hsplit, -⟩ := List.lookup_eq_some_iff.mp hname
      exact hfixed (b.type, name) (by rw [hsplit]; exact List.mem_append_right _ List.mem_cons_self)
    · exact isFileName_append_extension (FileName.isSafe_sanitize _).allowed

end Block

namespace Config

theorem exists_of_firstMatch? {config : Config} {candidates : List Text} {candidate : Text}
    {g : Group} (h : config.firstMatch? candidates = some (candidate, g)) : g ∈ config.groups := by
  induction candidates with
  | nil => cases h
  | cons first rest ih =>
    unfold firstMatch? at h
    split at h
    · next group hgroup =>
      cases h
      exact List.mem_of_find?_eq_some hgroup
    · exact ih h

/-- A block goes to its default file or to that of a group. -/
theorem fileFor_cases (config : Config) (b : Block) :
    config.fileFor b = b.defaultFile ∨ ∃ g ∈ config.groups, config.fileFor b = g.fileName := by
  unfold fileFor
  split
  · next hmatch =>
    split
    · exact .inl rfl
    · exact .inr ⟨_, exists_of_firstMatch? hmatch, rfl⟩
  · exact .inl rfl

/-- Every block of a checked configuration goes to a name that a file of the output directory can
have, or to the name of a group which is that of the directory itself or has a NUL. -/
theorem isFileName_fileFor {document : Document} {config : Config}
    (h : ofDocument document = .ok config) (b : Block) : IsFileName (config.fileFor b) ∨
      ∃ g ∈ config.groups, config.fileFor b = g.fileName ∧
        (g.fileName = Path.current ∨ IsName g.fileName ∧ '\x00' ∈ g.fileName) := by
  obtain hdefault | ⟨g, hg, hfile⟩ := config.fileFor_cases b
  · exact .inl (hdefault ▸ b.isFileName_defaultFile)
  · by_cases hcurrent : g.fileName = Path.current
    · exact .inr ⟨g, hg, hfile, .inl hcurrent⟩
    · have hname := FileName.isName_of_fault? (hasValidNames_of_ofDocument h g hg) hcurrent
      by_cases hnul : '\x00' ∈ g.fileName
      · exact .inr ⟨g, hg, hfile, .inr ⟨hname, hnul⟩⟩
      · exact .inl (hfile ▸ ⟨hname, hnul⟩)

/-- A group as it stands in a document. -/
def groupDocument (fileName pattern : Text) : Document :=
  .map [(.text "name".toList, .text fileName), (.text "filename".toList, .text fileName),
    (.text "patterns".toList, .list [.text pattern])]

/-- One group has the name of the directory itself, the other a NUL in its name. -/
def unchecked : Document :=
  .map [(.text "groups".toList, .list [groupDocument Path.current "locals".toList,
    groupDocument "a\x00".toList "terraform".toList])]

/-- The check lets both names pass, and blocks are routed to them. -/
theorem not_isFileName_fileFor : ∃ config, ofDocument unchecked = .ok config ∧
    ∀ type ∈ ["locals".toList, "terraform".toList],
      ¬IsFileName (config.fileFor ⟨type, [], .empty, [], [], []⟩) := by
  refine ⟨⟨[⟨Path.current, Path.current, ["locals".toList]⟩,
    ⟨"a\x00".toList, "a\x00".toList, ["terraform".toList]⟩], []⟩, ?_, ?_⟩
  · rfl
  · decide

/-- No block is routed to a name with a slash. -/
theorem no_slash_fileFor {config : Config} (h : config.HasValidNames) (b : Block) :
    '/' ∉ config.fileFor b := by
  obtain hdefault | ⟨g, hg, hfile⟩ := config.fileFor_cases b
  · exact hdefault ▸ b.isFileName_defaultFile.no_slash
  · rw [hfile]
    by_cases hcurrent : g.fileName = Path.current
    · rw [hcurrent]
      decide
    · exact (FileName.isName_of_fault? (h g hg) hcurrent).no_slash

end Config

end HclTidy
