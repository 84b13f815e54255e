import HclTidy.Config.Load
import HclTidy.Proofs.Expr.Alike

/-!
# Accepted configurations

A document gives a configuration exactly when it is well formed: every group is named, has a usable
file name and a pattern, every pattern is short and without control characters, and names, files and
patterns occur once. Every other document is reported with the first rule that it breaks, but for
one with a key that cannot be shown.
-/

set_option autoImplicit false

namespace HclTidy

structure IsUsablePattern (p : Text) : Prop where
  ne_nil : p ≠ []
  length_le : p.length ≤ Config.maxPatternLength
  plain : ∀ c ∈ p, c ∉ ['\x00', '\n', '\r', '\t']

structure Group.IsUsable (g : Group) : Prop where
  name : g.name ≠ []
  fileName : FileName.fault? g.fileName = none
  ne_nil : g.patterns ≠ []
  patterns : ∀ p ∈ g.patterns, IsUsablePattern p

namespace Config

structure IsWellFormed (config : Config) : Prop where
  groups : ∀ g ∈ config.groups, g.IsUsable
  excludedFiles : ∀ p ∈ config.excludedFiles, IsUsablePattern p
  names : (config.groups.map Group.name).Nodup
  files : (config.groups.map Group.fileName).Nodup
  patterns : (config.groups.flatMap Group.patterns).Nodup

/-! ## Rules for one element -/

theorem patternFault?_eq_none_iff {p : Text} : patternFault? p = none ↔ IsUsablePattern p := by
  have hplain : p.any ['\x00', '\n', '\r', '\t'].contains = false ↔
      ∀ c ∈ p, c ∉ ['\x00', '\n', '\r', '\t'] := by
    simp only [List.any_eq_false, List.contains_iff_mem]
  unfold patternFault?
  split
  · next hempty =>
    refine iff_of_false nofun fun h => h.ne_nil ?_
    exact List.isEmpty_iff.mp hempty
  · next hempty =>
    split
    · next hlong => exact iff_of_false nofun fun h => absurd h.length_le (Nat.not_le.mpr hlong)
    · next hlength =>
      split
      · next hany =>
        refine iff_of_false nofun fun h => ?_
        rw [hplain.mpr h.plain] at hany
        cases hany
      · next hany =>
        refine iff_of_true rfl ⟨?_, Nat.not_lt.mp hlength, hplain.mp (Bool.not_eq_true _ ▸ hany)⟩
        rintro rfl
        exact hempty rfl

theorem exists_numbered {α : Type} {xs : List α} {x : α} (h : x ∈ xs) :
    ∃ n, (n, x) ∈ numbered xs := by
  obtain ⟨i, hi⟩ := List.mem_iff_getElem?.mp h
  refine ⟨i + 1, List.mem_map.mpr ⟨(x, i), ?_, rfl⟩⟩
  rwa [List.mk_mem_zipIdx_iff_getElem?]

theorem snd_mem_of_mem_numbered {α : Type} {xs : List α} {e : Nat × α} (h : e ∈ numbered xs) :
    e.2 ∈ xs := by
  obtain ⟨⟨x, i⟩, hmem, rfl⟩ := List.mem_map.mp h
  exact List.mem_of_getElem? (List.mk_mem_zipIdx_iff_getElem?.mp hmem)

/-- A rule for each element, whatever its number. -/
theorem findSome?_numbered_eq_none_iff {α β : Type} {f : Nat × α → Option β} {p : α → Prop}
    (h : ∀ e, f e = none ↔ p e.2) (xs : List α) :
    (numbered xs).findSome? f = none ↔ ∀ x ∈ xs, p x := by
  rw [List.findSome?_eq_none_iff]
  constructor
  · intro hall x hx
    obtain ⟨n, hn⟩ := exists_numbered hx
    exact (h _).mp (hall _ hn)
  · intro hall e he
    exact (h e).mpr (hall _ (snd_mem_of_mem_numbered he))

theorem groupFault?_eq_none_iff (number : Nat) (g : Group) :
    groupFault? number g = none ↔ g.IsUsable := by
  unfold groupFault?
  split
  · next hname => exact iff_of_false nofun fun h => h.name (List.isEmpty_iff.mp hname)
  · next hname =>
    split
    · next hfile =>
      refine iff_of_false nofun fun h => ?_
      have hfault := h.fileName
      rw [List.isEmpty_iff.mp hfile] at hfault
      cases hfault
    · split
      · next fault hfault =>
        refine iff_of_false nofun fun h => ?_
        rw [h.fileName] at hfault
        cases hfault
      · next hfault =>
        have hne {α : Type} {l : List α} (h : ¬l.isEmpty = true) : l ≠ [] :=
          fun heq => h (by rw [heq]; rfl)
        split
        · next hpatterns => exact iff_of_false nofun fun h => h.ne_nil (List.isEmpty_iff.mp hpatterns)
        · next hpatterns =>
          rw [findSome?_numbered_eq_none_iff (p := IsUsablePattern)
            (fun e => Option.map_eq_none_iff.trans patternFault?_eq_none_iff)]
          exact ⟨fun h => ⟨hne hname, hfault, hne hpatterns, h⟩, fun h => h.patterns⟩

theorem excludedFault?_eq_none_iff (patterns : List Text) :
    excludedFault? patterns = none ↔ ∀ p ∈ patterns, IsUsablePattern p :=
  findSome?_numbered_eq_none_iff
    (fun _ => Option.map_eq_none_iff.trans patternFault?_eq_none_iff) patterns

/-! ## What must be distinct -/

/-- The texts are distinct and none of those seen before. -/
def AreNew (seen ts : List Text) : Prop := ts.Nodup ∧ ∀ t ∈ ts, t ∉ seen

theorem areNew_cons {seen ts : List Text} {t : Text} :
    AreNew seen (t :: ts) ↔ t ∉ seen ∧ AreNew (t :: seen) ts := by
  rw [AreNew, AreNew, List.nodup_cons, List.forall_mem_cons]
  simp only [List.mem_cons, not_or]
  constructor
  · rintro ⟨⟨ht, hnodup⟩, hseen, hrest⟩
    exact ⟨hseen, hnodup, fun s hs => ⟨fun heq => ht (heq ▸ hs), hrest s hs⟩⟩
  · rintro ⟨hseen, hnodup, hrest⟩
    exact ⟨⟨fun ht => (hrest t ht).1 rfl, hnodup⟩, hseen, fun s hs => (hrest s hs).2⟩

theorem areNew_nil (ts : List Text) : AreNew [] ts ↔ ts.Nodup :=
  and_iff_left fun _ _ => List.not_mem_nil

theorem duplicateName?_eq_none_iff (seen : List Text) (groups : List (Nat × Group)) :
    duplicateName? seen groups = none ↔ AreNew seen (groups.map (·.2.name)) := by
  fun_induction duplicateName? seen groups with
  | case1 seen => exact iff_of_true rfl ⟨List.nodup_nil, List.forall_mem_nil _⟩
  | case2 seen number g rest hseen =>
    refine iff_of_false nofun fun h => ?_
    exact (areNew_cons.mp h).1 (List.contains_iff_mem.mp hseen)
  | case3 seen number g rest hseen ih =>
    rw [ih, List.map_cons, areNew_cons, ← List.contains_iff_mem]
    exact (and_iff_right hseen).symm

section Lookup

variable {seen : List (Text × Text)} {t : Text} {ts : List Text}

theorem lookup_eq_none_iff : seen.lookup t = none ↔ t ∉ seen.map Prod.fst := by
  rw [List.lookup_eq_none_iff, List.mem_map, not_exists]
  refine forall_congr' fun e => ?_
  rw [not_and, bne_iff_ne, ne_comm]

theorem not_areNew_of_lookup {owner : Text} (h : seen.lookup t = some owner) :
    ¬AreNew (seen.map Prod.fst) (t :: ts) := by
  intro hnew
  rw [lookup_eq_none_iff.mpr (areNew_cons.mp hnew).1] at h
  cases h

theorem areNew_of_lookup (h : seen.lookup t = none) (owner : Text) :
    AreNew (((t, owner) :: seen).map Prod.fst) ts ↔ AreNew (seen.map Prod.fst) (t :: ts) := by
  rw [List.map_cons, areNew_cons]
  exact (and_iff_right (lookup_eq_none_iff.mp h)).symm

end Lookup

theorem duplicateFile?_eq_none_iff (seen : List (Text × Text)) (groups : List (Nat × Group)) :
    duplicateFile? seen groups = none ↔ AreNew (seen.map Prod.fst) (groups.map (·.2.fileName)) := by
  fun_induction duplicateFile? seen groups with
  | case1 seen => exact iff_of_true rfl ⟨List.nodup_nil, List.forall_mem_nil _⟩
  | case2 seen number g rest first hfirst => exact iff_of_false nofun (not_areNew_of_lookup hfirst)
  | case3 seen number g rest hfirst ih => exact ih.trans (areNew_of_lookup hfirst g.name)

theorem duplicatePattern?_eq_none_iff (seen owned : List (Text × Text)) :
    duplicatePattern? seen owned = none ↔ AreNew (seen.map Prod.fst) (owned.map Prod.fst) := by
  fun_induction duplicatePattern? seen owned with
  | case1 seen => exact iff_of_true rfl ⟨List.nodup_nil, List.forall_mem_nil _⟩
  | case2 seen p name rest first hfirst => exact iff_of_false nofun (not_areNew_of_lookup hfirst)
  | case3 seen p name rest hfirst ih => exact ih.trans (areNew_of_lookup hfirst name)

theorem map_snd_numbered {α : Type} (xs : List α) : (numbered xs).map Prod.snd = xs := by
  simp [numbered, Function.comp_def]

theorem map_fst_ownedPatterns (groups : List Group) :
    (ownedPatterns groups).map Prod.fst = groups.flatMap Group.patterns := by
  simp [ownedPatterns, List.map_flatMap, Function.comp_def]

theorem fault?_eq_none_iff (config : Config) : config.fault? = none ↔ config.IsWellFormed := by
  have hmap {β : Type} (f : Group → β) :
      (numbered config.groups).map (fun e => f e.2) = config.groups.map f := by
    conv_rhs => rw [← map_snd_numbered config.groups, List.map_map]
    rfl
  have hgroups := findSome?_numbered_eq_none_iff
    (fun e : Nat × Group => groupFault?_eq_none_iff e.1 e.2) config.groups
  have hnames := duplicateName?_eq_none_iff [] (numbered config.groups)
  have hfiles := duplicateFile?_eq_none_iff [] (numbered config.groups)
  have hpatterns := duplicatePattern?_eq_none_iff [] (ownedPatterns config.groups)
  rw [hmap Group.name, areNew_nil] at hnames
  rw [hmap Group.fileName, List.map_nil, areNew_nil] at hfiles
  rw [map_fst_ownedPatterns, List.map_nil, areNew_nil] at hpatterns
  unfold fault?
  simp only [Option.orElse_eq_orElse, Option.orElse_eq_or, Option.or_eq_none_iff]
  refine (and_congr hgroups (and_congr (excludedFault?_eq_none_iff _) (and_congr hnames
    (and_congr hfiles hpatterns)))).trans ⟨?_, fun h =>
      ⟨h.groups, h.excludedFiles, h.names, h.files, h.patterns⟩⟩
  rintro ⟨hgroups, hexcluded, hnames, hfiles, hpatterns⟩
  exact ⟨hgroups, hexcluded, hnames, hfiles, hpatterns⟩

end Config

/-! ## Documents -/

/-- A group as a map of its fields. -/
def Group.entries (g : Group) : List (Document × Document) :=
  [(.text "name".toList, .text g.name), (.text "filename".toList, .text g.fileName),
    (.text "patterns".toList, .list (g.patterns.map .text))]

def Group.document (g : Group) : Document := .map g.entries

namespace Config

/-- A configuration as a map of its fields. -/
def entries (config : Config) : List (Document × Document) :=
  [(.text "groups".toList, .list (config.groups.map Group.document)),
    (.text "exclude_files".toList, .list (config.excludedFiles.map .text))]

def document (config : Config) : Document := .map config.entries

theorem texts?_map_text (ts : List Text) : Document.texts? (ts.map .text) = some ts := by
  induction ts with
  | nil => rfl
  | cons t ts ih => rw [List.map_cons, Document.texts?, ih]; rfl

theorem groupOfDocument_document (number : Nat) (g : Group) :
    groupOfDocument number g.document = .ok g := by
  have hname : textField? (Document.field? g.entries "name".toList) = some g.name := rfl
  have hfile : textField? (Document.field? g.entries "filename".toList) = some g.fileName := rfl
  have hpatterns : textList (.patterns number g.name) (Document.field? g.entries "patterns".toList) =
      .ok g.patterns := by
    change textList _ (some (.list (g.patterns.map .text))) = _
    rw [textList, texts?_map_text]
  rw [Group.document, groupOfDocument]
  simp only [hname, hfile, hpatterns]

theorem mapM_groupOfDocument {items : List (Nat × Document)} {groups : List Group}
    (h : items.map Prod.snd = groups.map Group.document) :
    items.mapM (fun e => groupOfDocument e.1 e.2) = .ok groups := by
  induction groups generalizing items with
  | nil => rw [List.map_eq_nil_iff.mp h]; rfl
  | cons g groups ih =>
    obtain ⟨⟨number, item⟩, rest, rfl, hitem, hrest⟩ := List.map_eq_cons_iff.mp h
    obtain rfl : item = g.document := hitem
    rw [List.mapM_cons, ih hrest, groupOfDocument_document]
    rfl

theorem groupsOfDocument_map (groups : List Group) :
    groupsOfDocument (some (.list (groups.map Group.document))) = .ok groups :=
  mapM_groupOfDocument (map_snd_numbered _)

theorem strangeGroupKeys_entries (config : Config) : strangeGroupKeys config.entries = [] := by
  change (numbered (config.groups.map Group.document)).flatMap _ = []
  rw [List.flatMap_eq_nil_iff]
  rintro ⟨number, item⟩ hitem
  obtain ⟨g, -, rfl⟩ := List.mem_map.mp (snd_mem_of_mem_numbered hitem)
  rfl

/-- A well-formed configuration is what its document describes. -/
theorem ofDocument_document {config : Config} (h : config.IsWellFormed) :
    ofDocument config.document = .ok config := by
  have hfields : fieldsFault? config.entries = none := by
    rw [fieldsFault?, strangeGroupKeys_entries]
    rfl
  have hgroups : Document.field? config.entries "groups".toList =
      some (.list (config.groups.map Group.document)) := rfl
  have hexcluded : textList .excludedFiles (Document.field? config.entries "exclude_files".toList) =
      .ok config.excludedFiles := by
    change textList _ (some (.list (config.excludedFiles.map .text))) = _
    rw [textList, texts?_map_text]
  rw [document, ofDocument]
  simp only [hfields, hgroups, groupsOfDocument_map, hexcluded, bind, Except.bind,
    (fault?_eq_none_iff config).mpr h]

theorem isWellFormed_empty : empty.IsWellFormed := (fault?_eq_none_iff empty).mp rfl

theorem isWellFormed_of_ofDocument {document : Document} {config : Config}
    (h : ofDocument document = .ok config) : config.IsWellFormed := by
  unfold ofDocument at h
  split at h
  · cases h
    exact isWellFormed_empty
  · split at h
    · cases h
    · obtain ⟨groups, -, h⟩ := Reading.bind_ok h
      obtain ⟨excluded, -, h⟩ := Reading.bind_ok h
      dsimp only at h
      split at h
      · cases h
      · next hfault =>
        cases h
        exact (fault?_eq_none_iff _).mp hfault
  · cases h

/-! ## Decoded documents -/

theorem ofDocument_of_ofDecoded {document : Document} {config : Config}
    (h : ofDecoded document = .ok config) : ofDocument document = .ok config := by
  unfold ofDecoded at h
  split at h
  · cases h
  · split at h
    · next hdocument =>
      cases h
      exact hdocument
    · cases h

theorem ofDecoded_document {config : Config} (h : config.IsWellFormed) :
    ofDecoded config.document = .ok config := by
  have hkeys : strangeKeys config.document = [] := by
    rw [document, strangeKeys, strangeGroupKeys_entries]
    rfl
  rw [ofDecoded, hkeys, ofDocument_document h]
  rfl

/-- Documents describe the well-formed configurations and no others. -/
theorem isWellFormed_iff {config : Config} :
    config.IsWellFormed ↔ ∃ document, ofDecoded document = .ok config :=
  ⟨fun h => ⟨config.document, ofDecoded_document h⟩,
    fun ⟨_, h⟩ => isWellFormed_of_ofDocument (ofDocument_of_ofDecoded h)⟩

/-- A document that describes no configuration is reported with the rule that it breaks, or has a
key that cannot be shown. -/
theorem ofDecoded_error {document : Document} {error : LoadError} (h : ofDecoded document = .error error) :
    (∃ fault, ofDocument document = .error fault ∧ error = .config (.rule fault)) ∨
      (error = .breakdown .oversizedKey ∧ ∃ key ∈ strangeKeys document, key.isOversized = true) := by
  unfold ofDecoded at h
  split at h
  · next hkeys =>
    cases h
    exact .inr ⟨rfl, List.any_eq_true.mp hkeys⟩
  · split at h
    · cases h
    · next fault hfault =>
      cases h
      exact .inl ⟨fault, hfault, rfl⟩

theorem ofDecoded_oversized {document key : Document} (hkey : key ∈ strangeKeys document)
    (h : key.isOversized = true) : ofDecoded document = .error (.breakdown .oversizedKey) :=
  if_pos (List.any_eq_true.mpr ⟨key, hkey, h⟩)

/-- An unknown field is not reported when its name is too long an integer. -/
example (n : Int) (value : Document) (h : (Document.int n).isOversized = true) :
    ofDecoded (.map [(.int n, value)]) = .error (.breakdown .oversizedKey) :=
  ofDecoded_oversized List.mem_cons_self h

end Config

end HclTidy
