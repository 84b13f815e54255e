import Mathlib
import HclTidy.Routing

/-!
# The most specific match

The file of a block depends only on the groups that accept the first of its candidates that any
group accepts. Other groups may be inserted, deleted and moved, as long as they accept neither that
candidate nor an earlier one.
-/

set_option autoImplicit false

namespace HclTidy.Config

/-- How one configuration comes from another with the same excluded files: groups are deleted, others
are inserted, and those that are kept may change places. -/
structure Revision (before after : Config) where
  deleted : List Group
  inserted : List Group
  /-- The kept groups, in the order of `before`. -/
  kept : List Group
  /-- The kept groups, in the order of `after`. -/
  moved : List Group
  excludedFiles : after.excludedFiles = before.excludedFiles
  kept_sublist : kept.Sublist before.groups
  moved_sublist : moved.Sublist after.groups
  perm_before : before.groups.Perm (kept ++ deleted)
  perm_after : after.groups.Perm (moved ++ inserted)
  perm_kept : moved.Perm kept

/-- The first of a block's candidates that some group accepts, with those in front of it. -/
structure FirstAccepted (config : Config) (candidates earlier : List Text) (c : Text) : Prop where
  split : ∃ later, candidates = earlier ++ c :: later
  earlier : ∀ d ∈ earlier, ∀ g ∈ config.groups, g.accepts d = false
  accepted : ∃ g ∈ config.groups, g.accepts c = true

/-! ## Searching -/

section Search

variable {config : Config} {earlier later : List Text} {c : Text} {g : Group}

theorem groupFor?_eq_head? (config : Config) (c : Text) :
    config.groupFor? c = (config.groups.filter fun g => g.accepts c).head? :=
  List.head?_filter.symm

theorem groupFor?_eq_none : config.groupFor? c = none ↔ ∀ g ∈ config.groups, g.accepts c = false := by
  simp [groupFor?]

/-- Candidates that no group accepts are passed over. -/
theorem firstMatch?_append (h : ∀ d ∈ earlier, config.groupFor? d = none) :
    config.firstMatch? (earlier ++ later) = config.firstMatch? later := by
  induction earlier with
  | nil => rfl
  | cons d earlier ih =>
    obtain ⟨hd, hearlier⟩ := List.forall_mem_cons.mp h
    rw [List.cons_append, firstMatch?, hd]
    exact ih hearlier

theorem firstMatch?_eq_none {candidates : List Text} (h : ∀ d ∈ candidates, config.groupFor? d = none) :
    config.firstMatch? candidates = none := by
  have hpassed : config.firstMatch? (candidates ++ []) = none := firstMatch?_append h
  rwa [List.append_nil] at hpassed

theorem firstMatch?_eq_some (h : ∀ d ∈ earlier, config.groupFor? d = none)
    (hc : config.groupFor? c = some g) :
    config.firstMatch? (earlier ++ c :: later) = some (c, g) := by
  rw [firstMatch?_append h, firstMatch?, hc]

theorem fileFor_of_firstMatch?_none {b : Block} (h : config.firstMatch? b.candidates = none) :
    config.fileFor b = b.defaultFile := by
  rw [fileFor, h]

end Search

/-! ## Changing a configuration -/

/-- When no element of the rest has a property, those that have it are in the part, in its order. -/
theorem filter_eq_of_sublist {α : Type} {p : α → Bool} {whole part rest : List α}
    (hpart : part.Sublist whole) (hperm : whole.Perm (part ++ rest)) (hrest : ∀ a ∈ rest, p a = false) :
    whole.filter p = part.filter p := by
  have hnone : rest.filter p = [] := by simpa using hrest
  have hlength := (hperm.filter p).length_eq
  rw [List.filter_append, hnone, List.append_nil] at hlength
  exact ((hpart.filter p).eq_of_length hlength.symm).symm

namespace Revision

variable {before after : Config} (r : Revision before after) {c : Text}

/-- A candidate that no group of the old configuration accepts, and none that is inserted, is
accepted by no group of the new one. -/
theorem groupFor?_after_eq_none (hbefore : ∀ g ∈ before.groups, g.accepts c = false)
    (hinserted : ∀ g ∈ r.inserted, g.accepts c = false) : after.groupFor? c = none := by
  refine groupFor?_eq_none.mpr fun g hg => ?_
  obtain hmoved | hnew := List.mem_append.mp (r.perm_after.mem_iff.mp hg)
  · exact hbefore g (r.kept_sublist.subset (r.perm_kept.mem_iff.mp hmoved))
  · exact hinserted g hnew

/-- The group for a candidate stays the same when the groups that accept it are all kept, in their
order. -/
theorem groupFor?_after_eq (hdeleted : ∀ g ∈ r.deleted, g.accepts c = false)
    (hinserted : ∀ g ∈ r.inserted, g.accepts c = false)
    (horder : (r.moved.filter fun g => g.accepts c) = r.kept.filter fun g => g.accepts c) :
    after.groupFor? c = before.groupFor? c := by
  rw [groupFor?_eq_head?, groupFor?_eq_head?,
    filter_eq_of_sublist r.moved_sublist r.perm_after hinserted,
    filter_eq_of_sublist r.kept_sublist r.perm_before hdeleted, horder]

include r in
theorem fileFor_of_firstMatch? {b : Block}
    (h : after.firstMatch? b.candidates = before.firstMatch? b.candidates) :
    after.fileFor b = before.fileFor b := by
  have hexcluded (name : Text) : after.isExcluded name = before.isExcluded name := by
    rw [isExcluded, r.excludedFiles, isExcluded]
  unfold fileFor
  rw [h]
  simp only [hexcluded]

end Revision

/-- The file of a block stays the same when a configuration is changed only by groups that accept
neither the first candidate that any group accepts nor one in front of it, and the groups that
accept that candidate stay in their order. A block of which no group accepts a candidate, before and
after, goes to its default file. -/
theorem fileFor_revision {before after : Config} (r : Revision before after) (b : Block) :
    (∀ earlier c, before.FirstAccepted b.candidates earlier c →
      (∀ g ∈ r.deleted ++ r.inserted, ∀ d ∈ earlier ++ [c], g.accepts d = false) →
      (r.moved.filter fun g => g.accepts c) = (r.kept.filter fun g => g.accepts c) →
      after.fileFor b = before.fileFor b) ∧
    ((∀ d ∈ b.candidates, ∀ g ∈ before.groups, g.accepts d = false) →
      (∀ d ∈ b.candidates, ∀ g ∈ r.inserted, g.accepts d = false) →
      before.fileFor b = b.defaultFile ∧ after.fileFor b = b.defaultFile) := by
  constructor
  · rintro earlier c ⟨⟨later, hsplit⟩, hearlier, haccepted⟩ hchanged horder
    have hdeleted (d) (hd : d ∈ earlier ++ [c]) (g) (hg : g ∈ r.deleted) : g.accepts d = false :=
      hchanged g (List.mem_append_left _ hg) d hd
    have hinserted (d) (hd : d ∈ earlier ++ [c]) (g) (hg : g ∈ r.inserted) : g.accepts d = false :=
      hchanged g (List.mem_append_right _ hg) d hd
    have hlast : c ∈ earlier ++ [c] := List.mem_append_right _ List.mem_cons_self
    have hpassed : ∀ d ∈ earlier, after.groupFor? d = none := fun d hd =>
      r.groupFor?_after_eq_none (hearlier d hd) (hinserted d (List.mem_append_left _ hd))
    have hsame := r.groupFor?_after_eq (hdeleted c hlast) (hinserted c hlast) horder
    cases hgroup : before.groupFor? c with
    | none =>
      obtain ⟨g, hg, hc⟩ := haccepted
      rw [groupFor?_eq_none.mp hgroup g hg] at hc
      cases hc
    | some g =>
      refine r.fileFor_of_firstMatch? ?_
      rw [hsplit, firstMatch?_eq_some hpassed (hsame.trans hgroup),
        firstMatch?_eq_some (fun d hd => groupFor?_eq_none.mpr (hearlier d hd)) hgroup]
  · intro hbefore hinserted
    exact ⟨fileFor_of_firstMatch?_none
        (firstMatch?_eq_none fun d hd => groupFor?_eq_none.mpr (hbefore d hd)),
      fileFor_of_firstMatch?_none (firstMatch?_eq_none fun d hd =>
        r.groupFor?_after_eq_none (hbefore d hd) (hinserted d hd))⟩

/-- A group named after its file, with one pattern. -/
def single (file pattern : String) : Group := ⟨file.toList, file.toList, [pattern.toList]⟩

def broadFirst : Config :=
  ⟨[single "broad.tf" "s*", single "old.tf" "module", single "narrow.tf" "*.s3"], ["old.tf".toList]⟩

def narrowFirst : Config :=
  ⟨[single "new.tf" "s3", single "narrow.tf" "*.s3", single "broad.tf" "s*"], ["old.tf".toList]⟩

/-- One group is replaced by another, and the other two change places. -/
def rearranged : Revision broadFirst narrowFirst where
  deleted := [single "old.tf" "module"]
  inserted := [single "new.tf" "s3"]
  kept := [single "broad.tf" "s*", single "narrow.tf" "*.s3"]
  moved := [single "narrow.tf" "*.s3", single "broad.tf" "s*"]
  excludedFiles := rfl
  kept_sublist := by decide
  moved_sublist := by decide
  perm_before := by decide
  perm_after := by decide
  perm_kept := by decide

/-- A data source whose second candidate only the last group accepts, and its third others too. -/
def stored : Block := ⟨"data".toList, ["s3".toList, "a".toList], .empty, [], [], []⟩

def localValues : Block := ⟨"locals".toList, [], .empty, [], [], []⟩

/-- The data source goes to the same file before and after, and a block that no group accepts to its
default file. -/
theorem fileFor_revision_stored :
    (broadFirst.FirstAccepted stored.candidates ["data.s3.a".toList] "data.s3".toList ∧
      narrowFirst.fileFor stored = broadFirst.fileFor stored) ∧
    broadFirst.fileFor localValues = localValues.defaultFile ∧
    narrowFirst.fileFor localValues = localValues.defaultFile := by
  have hfirst : broadFirst.FirstAccepted stored.candidates ["data.s3.a".toList] "data.s3".toList := by
    refine ⟨⟨["s3".toList, "data".toList], by decide⟩, ?_,
      single "narrow.tf" "*.s3", by decide, by cbv⟩
    simp only [broadFirst, List.forall_mem_cons]
    refine ⟨⟨?_, ?_, ?_, List.forall_mem_nil _⟩, List.forall_mem_nil _⟩ <;> cbv
  have hchanged : ∀ g ∈ rearranged.deleted ++ rearranged.inserted,
      ∀ d ∈ ["data.s3.a".toList] ++ ["data.s3".toList], g.accepts d = false := by decide
  have horder : (rearranged.moved.filter fun g => g.accepts "data.s3".toList) =
      rearranged.kept.filter fun g => g.accepts "data.s3".toList := by cbv
  have hnone : ∀ d ∈ localValues.candidates, ∀ g ∈ broadFirst.groups, g.accepts d = false := by
    have hcandidates : localValues.candidates = ["locals".toList] := rfl
    simp only [hcandidates, broadFirst, List.forall_mem_cons]
    refine ⟨⟨?_, ?_, ?_, List.forall_mem_nil _⟩, List.forall_mem_nil _⟩ <;> cbv
  exact ⟨⟨hfirst, (fileFor_revision rearranged stored).1 _ _ hfirst hchanged horder⟩,
    (fileFor_revision rearranged localValues).2 hnone (by decide)⟩

end HclTidy.Config
