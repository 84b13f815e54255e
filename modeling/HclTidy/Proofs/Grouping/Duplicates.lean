import HclTidy.Block.Parser
import HclTidy.Proofs.Grouping.Partition

/-!
# Duplicate addresses

Blocks are refused exactly when two of them have one address, in whatever order they come. Two
blocks that declare the same resource or data source have one address. Two others may have one too,
since the parts of an address are joined by points, but only when a label has a point itself.
-/

set_option autoImplicit false

namespace HclTidy

namespace Block

/-- Both blocks are resources, or both are data sources, and they have the same first and the same
second label. -/
def SameDeclaration (b b' : Block) : Prop :=
  (b.type = "resource".toList ∧ b'.type = "resource".toList ∨
      b.type = "data".toList ∧ b'.type = "data".toList) ∧
    ∃ first second rest rest', b.labels = first :: second :: rest ∧
      b'.labels = first :: second :: rest'

/-- Both blocks have an address, and it is the same. -/
def SameAddress (b b' : Block) : Prop :=
  ∃ address, b.address? = some address ∧ b'.address? = some address

/-- A point stands in the first or in the second label. -/
def HasPoint (b : Block) : Prop := ∃ label ∈ b.labels.take 2, '.' ∈ label

/-- What the address of a block is made of: its first two labels, and the word `data` in front of
them when it is a data source. -/
inductive Addressed (b : Block) (first second : Text) : Text → Prop
  | resource {rest : List Text} : b.type = "resource".toList → b.labels = first :: second :: rest →
      Addressed b first second (first ++ '.' :: second)
  | data {rest : List Text} : b.type = "data".toList → b.labels = first :: second :: rest →
      Addressed b first second ("data".toList ++ '.' :: (first ++ '.' :: second))

variable {b b' : Block} {first second first' second' address : Text}

theorem Addressed.labels (h : Addressed b first second address) :
    ∃ rest, b.labels = first :: second :: rest := by
  cases h with
  | resource _ hlabels => exact ⟨_, hlabels⟩
  | data _ hlabels => exact ⟨_, hlabels⟩

theorem Addressed.hasPoint (h : Addressed b first second address)
    (hpoint : '.' ∈ first ∨ '.' ∈ second) : b.HasPoint := by
  obtain ⟨rest, hlabels⟩ := h.labels
  rw [HasPoint, hlabels]
  obtain hpoint | hpoint := hpoint
  · exact ⟨first, List.mem_cons_self, hpoint⟩
  · exact ⟨second, List.mem_cons_of_mem _ List.mem_cons_self, hpoint⟩

theorem address?_eq_some :
    b.address? = some address ↔ ∃ first second, Addressed b first second address := by
  unfold address?
  constructor
  · intro h
    split at h
    · next first second rest hlabels =>
      split at h
      · next htype =>
        cases h
        exact ⟨first, second, .resource htype hlabels⟩
      · split at h
        · next htype =>
          cases h
          exact ⟨first, second, .data htype hlabels⟩
        · cases h
    · cases h
  · rintro ⟨first, second, ⟨htype, hlabels⟩ | ⟨htype, hlabels⟩⟩
    · rw [hlabels, htype]
      rfl
    · rw [hlabels, htype]
      rfl

theorem SameDeclaration.sameAddress (h : b.SameDeclaration b') : b.SameAddress b' := by
  obtain ⟨⟨htype, htype'⟩ | ⟨htype, htype'⟩, first, second, rest, rest', hlabels, hlabels'⟩ := h
  · exact ⟨_, address?_eq_some.mpr ⟨first, second, .resource htype hlabels⟩,
      address?_eq_some.mpr ⟨first, second, .resource htype' hlabels'⟩⟩
  · exact ⟨_, address?_eq_some.mpr ⟨first, second, .data htype hlabels⟩,
      address?_eq_some.mpr ⟨first, second, .data htype' hlabels'⟩⟩

/-- A text is cut at its first point in one way. -/
theorem cut_point_inj {a a' t t' : Text} (ha : '.' ∉ a) (ha' : '.' ∉ a')
    (h : a ++ '.' :: t = a' ++ '.' :: t') : a = a' ∧ t = t' := by
  induction a generalizing a' with
  | nil =>
    cases a' with
    | nil => exact ⟨rfl, (List.cons.inj h).2⟩
    | cons c a' => exact absurd ((List.cons.inj h).1 ▸ List.mem_cons_self) ha'
  | cons c a ih =>
    cases a' with
    | nil => exact absurd ((List.cons.inj h).1 ▸ List.mem_cons_self) ha
    | cons d a' =>
      obtain ⟨rfl, htail⟩ := List.cons.inj h
      obtain ⟨rfl, rfl⟩ := ih (List.not_mem_of_not_mem_cons ha) (List.not_mem_of_not_mem_cons ha') htail
      exact ⟨rfl, rfl⟩

/-- The address of a resource is that of a data source only when one of its labels has a point. -/
theorem point_of_resource
    (h : first ++ '.' :: second = "data".toList ++ '.' :: (first' ++ '.' :: second')) :
    '.' ∈ first ∨ '.' ∈ second := by
  by_contra hplain
  obtain ⟨hfirst, hsecond⟩ := not_or.mp hplain
  obtain ⟨-, rfl⟩ := cut_point_inj hfirst (by decide) h
  exact hsecond (List.mem_append_right _ List.mem_cons_self)

/-- Without points in their labels, only blocks that declare the same have one address. -/
theorem SameAddress.sameDeclaration (h : b.SameAddress b') (hb : ¬b.HasPoint) (hb' : ¬b'.HasPoint) :
    b.SameDeclaration b' := by
  obtain ⟨address, haddress, haddress'⟩ := h
  obtain ⟨first, second, haddress⟩ := address?_eq_some.mp haddress
  obtain ⟨first', second', haddress'⟩ := address?_eq_some.mp haddress'
  have hfirst : '.' ∉ first := fun hpoint => hb (haddress.hasPoint (.inl hpoint))
  have hfirst' : '.' ∉ first' := fun hpoint => hb' (haddress'.hasPoint (.inl hpoint))
  cases haddress with
  | resource htype hlabels =>
    generalize hwhole : first ++ '.' :: second = address at haddress'
    cases haddress' with
    | resource htype' hlabels' =>
      obtain ⟨rfl, rfl⟩ := cut_point_inj hfirst hfirst' hwhole
      exact ⟨.inl ⟨htype, htype'⟩, _, _, _, _, hlabels, hlabels'⟩
    | data => exact absurd (Addressed.hasPoint (.resource htype hlabels) (point_of_resource hwhole)) hb
  | data htype hlabels =>
    generalize hwhole : "data".toList ++ '.' :: (first ++ '.' :: second) = address at haddress'
    cases haddress' with
    | resource htype' hlabels' =>
      exact absurd (Addressed.hasPoint (.resource htype' hlabels') (point_of_resource hwhole.symm)) hb'
    | data htype' hlabels' =>
      have htail := (List.cons.inj (List.append_cancel_left hwhole)).2
      obtain ⟨rfl, rfl⟩ := cut_point_inj hfirst hfirst' htail
      exact ⟨.inr ⟨htype, htype'⟩, _, _, _, _, hlabels, hlabels'⟩

end Block

namespace Grouping

theorem findDuplicate?_eq_none {seen : List (Text × Text)} {blocks : List Block} :
    findDuplicate? seen blocks = none ↔
      (blocks.filterMap Block.address?).Nodup ∧
        ∀ address ∈ blocks.filterMap Block.address?, address ∉ seen.map Prod.fst := by
  fun_induction findDuplicate? seen blocks with
  | case1 => simp
  | case2 seen b rest hnone ih => rw [ih, List.filterMap_cons_none hnone]
  | case3 seen b rest address haddress file hfile =>
    rw [List.filterMap_cons_some haddress]
    obtain ⟨before, after, rfl, -⟩ := List.lookup_eq_some_iff.mp hfile
    simp
  | case4 seen b rest address haddress hfree ih =>
    rw [ih, List.filterMap_cons_some haddress]
    have hseen : address ∉ seen.map Prod.fst := by
      intro hmem
      obtain ⟨entry, hentry, rfl⟩ := List.mem_map.mp hmem
      simpa using List.lookup_eq_none_iff.mp hfree entry hentry
    rw [List.nodup_cons, List.forall_mem_cons]
    constructor
    · rintro ⟨hdistinct, hnew⟩
      have hrest (a : Text) (ha : a ∈ rest.filterMap Block.address?) :
          a ≠ address ∧ a ∉ seen.map Prod.fst := by simpa using hnew a ha
      exact ⟨⟨fun hmem => (hrest _ hmem).1 rfl, hdistinct⟩, hseen, fun a ha => (hrest a ha).2⟩
    · rintro ⟨⟨hfirst, hdistinct⟩, -, hnew⟩
      refine ⟨hdistinct, fun a ha => List.not_mem_cons_of_ne_of_not_mem ?_ (hnew a ha)⟩
      rintro rfl
      exact hfirst ha

theorem ofBlocks_error_iff_nodup {config : Config} {blocks : List Block} :
    (∃ duplicate, ofBlocks config blocks = .error duplicate) ↔
      ¬(blocks.filterMap Block.address?).Nodup := by
  have hnone : findDuplicate? [] blocks = none ↔ (blocks.filterMap Block.address?).Nodup := by
    rw [findDuplicate?_eq_none]
    simp
  rw [← hnone, ofBlocks]
  cases findDuplicate? [] blocks with
  | none => simp
  | some duplicate => simp

theorem not_nodup_iff_sameAddress {blocks : List Block} :
    ¬(blocks.filterMap Block.address?).Nodup ↔
      ∃ b b', [b, b'].Sublist blocks ∧ b.SameAddress b' := by
  rw [List.Nodup, List.pairwise_filterMap, List.pairwise_iff_forall_sublist]
  constructor
  · intro h
    push Not at h
    obtain ⟨b, b', hpair, address, haddress, _, haddress', rfl⟩ := h
    exact ⟨b, b', hpair, address, haddress, haddress'⟩
  · rintro ⟨b, b', hpair, address, haddress, haddress'⟩ h
    exact h hpair address haddress address haddress' rfl

/-- Blocks are refused exactly when two of them declare the same resource or data source, or have
one address though they do not, which takes a point in a label. The order of the blocks, and how
they are spread over files, is of no account. -/
theorem ofBlocks_error_iff (config : Config) (sources : List ParsedFile) :
    ((∃ duplicate, ofBlocks config (sources.flatMap ParsedFile.blocks) = .error duplicate) ↔
      ∃ b b', [b, b'].Sublist (sources.flatMap ParsedFile.blocks) ∧
        (b.SameDeclaration b' ∨ b.SameAddress b' ∧ (b.HasPoint ∨ b'.HasPoint))) ∧
    ∀ (config' : Config) (sources' : List ParsedFile),
      (sources'.flatMap ParsedFile.blocks).Perm (sources.flatMap ParsedFile.blocks) →
      ((∃ duplicate, ofBlocks config' (sources'.flatMap ParsedFile.blocks) = .error duplicate) ↔
        ∃ duplicate, ofBlocks config (sources.flatMap ParsedFile.blocks) = .error duplicate) := by
  refine ⟨?_, fun config' sources' hperm => ?_⟩
  · rw [ofBlocks_error_iff_nodup, not_nodup_iff_sameAddress]
    refine exists_congr fun b => exists_congr fun b' => and_congr_right fun _ => ?_
    constructor
    · intro hsame
      by_cases hpoint : b.HasPoint ∨ b'.HasPoint
      · exact .inr ⟨hsame, hpoint⟩
      · obtain ⟨hb, hb'⟩ := not_or.mp hpoint
        exact .inl (hsame.sameDeclaration hb hb')
    · rintro (hsame | ⟨hsame, -⟩)
      · exact hsame.sameAddress
      · exact hsame
  · rw [ofBlocks_error_iff_nodup, ofBlocks_error_iff_nodup, (hperm.filterMap _).nodup_iff]

/-- Blocks of two files of which one in each has the address `a.b.c`. -/
def clashing : List ParsedFile :=
  [⟨"a.tf".toList, [bare "variable" ["x"] "a.tf", bare "resource" ["a.b", "c"] "a.tf"]⟩,
    ⟨"b.tf".toList, [bare "data" ["a", "b.c"] "b.tf", bare "resource" ["a", "b.c"] "b.tf"]⟩]

theorem ofBlocks_error_iff_reversed :
    (clashing.reverse.flatMap ParsedFile.blocks).Perm (clashing.flatMap ParsedFile.blocks) ∧
      (∃ duplicate, ofBlocks .empty (clashing.flatMap ParsedFile.blocks) = .error duplicate) ∧
      ∃ duplicate, ofBlocks .empty (clashing.reverse.flatMap ParsedFile.blocks) = .error duplicate := by
  have hperm := (List.reverse_perm clashing).flatMap_right ParsedFile.blocks
  have herror : ∃ duplicate, ofBlocks .empty (clashing.flatMap ParsedFile.blocks) = .error duplicate :=
    ⟨⟨"a.b.c".toList, "a.tf".toList, "b.tf".toList⟩, rfl⟩
  exact ⟨hperm, herror,
    ((ofBlocks_error_iff .empty clashing).2 .empty clashing.reverse hperm).mpr herror⟩

/-- Two resources with different labels and the address `a.b.c`. -/
def dotted : Text := "resource \"a.b\" \"c\" \x7b\x7d\nresource \"a\" \"b.c\" \x7b\x7d\n".toList

theorem exists_dotted : ∃ parsed events b b', ParsedFile.ofText [] true dotted = .ok (parsed, events) ∧
    parsed.blocks = [b, b'] ∧ b.type = "resource".toList ∧ b'.type = "resource".toList ∧
    b.labels = ["a.b".toList, "c".toList] ∧ b'.labels = ["a".toList, "b.c".toList] := by
  have hlabels : (ParsedFile.ofText [] true dotted).toOption.map
      (fun read => read.1.blocks.map fun b => (b.type, b.labels)) =
        some [("resource".toList, ["a.b".toList, "c".toList]),
          ("resource".toList, ["a".toList, "b.c".toList])] := by decide +kernel
  cases hread : ParsedFile.ofText [] true dotted with
  | error fault => rw [hread] at hlabels; cases hlabels
  | ok read =>
  obtain ⟨parsed, events⟩ := read
  rw [hread] at hlabels
  replace hlabels := Option.some.inj hlabels
  obtain ⟨b, rest, hblocks, hb, hrest⟩ := List.map_eq_cons_iff.mp hlabels
  obtain ⟨b', rest, rfl, hb', hrest⟩ := List.map_eq_cons_iff.mp hrest
  obtain rfl := List.map_eq_nil_iff.mp hrest
  obtain ⟨htype, hlabels⟩ := Prod.mk.inj hb
  obtain ⟨htype', hlabels'⟩ := Prod.mk.inj hb'
  exact ⟨parsed, events, b, b', rfl, hblocks, htype, htype', hlabels, hlabels'⟩

/-- Blocks that do not declare the same may be refused: an address does not tell its parts apart. -/
theorem ofBlocks_refuses_dotted :
    ¬∀ (config : Config) (sources : List ParsedFile),
      (∀ source ∈ sources, ∃ name text events,
        ParsedFile.ofText name true text = .ok (source, events)) →
      ((∃ duplicate, ofBlocks config (sources.flatMap ParsedFile.blocks) = .error duplicate) ↔
        ∃ b b', [b, b'].Sublist (sources.flatMap ParsedFile.blocks) ∧ b.SameDeclaration b') := by
  intro h
  obtain ⟨parsed, events, b, b', hread, hblocks, htype, htype', hlabels, hlabels'⟩ := exists_dotted
  have hsame : b.SameAddress b' :=
    ⟨"a.b.c".toList, by rw [Block.address?, hlabels, htype]; rfl,
      by rw [Block.address?, hlabels', htype']; rfl⟩
  have hwhole : [parsed].flatMap ParsedFile.blocks = [b, b'] := by simp [hblocks]
  specialize h .empty [parsed]
  rw [hwhole, ofBlocks_error_iff_nodup, not_nodup_iff_sameAddress] at h
  obtain ⟨c, c', hpair, -, first, second, rest, rest', hc, hc'⟩ :=
    (h (List.forall_mem_singleton.mpr ⟨[], dotted, events, hread⟩)).mp
      ⟨b, b', List.Sublist.refl _, hsame⟩
  cases hpair.eq_of_length rfl
  have hfirst := (List.cons.inj (hlabels.symm.trans hc)).1
  have hfirst' := (List.cons.inj (hlabels'.symm.trans hc')).1
  exact absurd (hfirst.trans hfirst'.symm) (by decide)

end Grouping

end HclTidy
