import HclTidy.Proofs.Path
import HclTidy.Proofs.Tree.Links

/-!
# Well-formed trees

In a closed tree every entry lies in a directory. A well-formed tree is closed, its entries have
names, and no place has two of them. Setting an entry in a directory and erasing one that is no
directory keep a tree well-formed.
-/

set_option autoImplicit false

namespace HclTidy.Tree

/-- Root and current directory are there, and every entry lies in a directory. -/
structure Closed (tree : Tree) : Prop where
  root : tree.HasDirectory []
  current : tree.HasDirectory tree.current
  parent : ∀ name place entry, tree.get? (name :: place) = some entry → tree.HasDirectory place

theorem hasDirectory_iff {tree : Tree} {place : Place} :
    tree.HasDirectory place ↔ (tree.get? place).any Entry.isDirectory = true := by
  unfold HasDirectory
  cases tree.get? place with
  | none => simp
  | some entry => cases entry <;> simp [Entry.isDirectory]

instance (tree : Tree) (place : Place) : Decidable (tree.HasDirectory place) :=
  decidable_of_iff _ hasDirectory_iff.symm

/-- The root, or a name in a directory. -/
def Lies (tree : Tree) : Place → Prop
  | [] => True
  | name :: place => IsName name ∧ tree.HasDirectory place

instance (tree : Tree) : DecidablePred tree.Lies
  | [] => inferInstanceAs (Decidable True)
  | name :: place => inferInstanceAs (Decidable (IsName name ∧ tree.HasDirectory place))

structure WellFormed (tree : Tree) : Prop where
  distinct : (tree.entries.map Prod.fst).Nodup
  root : tree.HasDirectory []
  current : tree.HasDirectory tree.current
  lies : ∀ e ∈ tree.entries, tree.Lies e.1

instance (tree : Tree) : Decidable tree.WellFormed :=
  decidable_of_iff ((tree.entries.map Prod.fst).Nodup ∧ tree.HasDirectory [] ∧
      tree.HasDirectory tree.current ∧ ∀ e ∈ tree.entries, tree.Lies e.1)
    ⟨fun ⟨hdistinct, hroot, hcurrent, hlies⟩ => ⟨hdistinct, hroot, hcurrent, hlies⟩,
      fun h => ⟨h.distinct, h.root, h.current, h.lies⟩⟩

theorem mem_of_lookup {entries : List (Place × Entry)} {place : Place} {entry : Entry}
    (h : entries.lookup place = some entry) : (place, entry) ∈ entries := by
  induction entries with
  | nil => cases h
  | cons e rest ih =>
    rw [List.lookup_cons] at h
    split at h
    · next heq =>
      cases h
      rw [eq_of_beq heq]
      exact List.mem_cons_self
    · exact List.mem_cons_of_mem _ (ih h)

theorem lookup_of_mem {entries : List (Place × Entry)} (hdistinct : (entries.map Prod.fst).Nodup)
    {place : Place} {entry : Entry} (h : (place, entry) ∈ entries) :
    entries.lookup place = some entry := by
  induction entries with
  | nil => cases h
  | cons e rest ih =>
    rw [List.map_cons, List.nodup_cons] at hdistinct
    rw [List.lookup_cons]
    split
    · next heq =>
      obtain rfl | hrest := List.mem_cons.mp h
      · rfl
      · rw [eq_of_beq heq] at hrest
        exact absurd (List.mem_map_of_mem hrest) hdistinct.1
    · next hne =>
      obtain rfl | hrest := List.mem_cons.mp h
      · rw [beq_self_eq_true] at hne
        cases hne
      · exact ih hdistinct.2 hrest

section WellFormed

variable {tree : Tree} {place : Place} {name : Text} {entry : Entry}

theorem WellFormed.closed (h : tree.WellFormed) : tree.Closed :=
  ⟨h.root, h.current, fun _ _ _ hentry => (h.lies _ (mem_of_lookup hentry)).2⟩

theorem mem_children (h : (name, entry) ∈ tree.children place) :
    (name :: place, entry) ∈ tree.entries := by
  rw [children, List.mem_mergeSort, List.mem_filterMap] at h
  obtain ⟨⟨key, other⟩, hmem, heq⟩ := h
  cases key with
  | nil => cases heq
  | cons first parent =>
    dsimp only at heq
    split at heq
    · next hparent =>
      cases heq
      rwa [← hparent]
    · cases heq

theorem WellFormed.get?_child (h : tree.WellFormed) (hchild : (name, entry) ∈ tree.children place) :
    tree.get? (name :: place) = some entry :=
  lookup_of_mem h.distinct (mem_children hchild)

theorem WellFormed.name_child (h : tree.WellFormed) (hchild : (name, entry) ∈ tree.children place) :
    IsName name :=
  (h.lies _ (mem_children hchild)).1

theorem mem_children_iff : (name, entry) ∈ tree.children place ↔
    (name :: place, entry) ∈ tree.entries := by
  refine ⟨mem_children, fun h => ?_⟩
  rw [children, List.mem_mergeSort, List.mem_filterMap]
  exact ⟨_, h, if_pos rfl⟩

theorem mem_children_of_get? (h : tree.get? (name :: place) = some entry) :
    (name, entry) ∈ tree.children place := mem_children_iff.mpr (mem_of_lookup h)

/-- The name that a place has in a directory. -/
def nameIn? (directory place : Place) : Option Text :=
  if place.tail = directory then place.head? else none

theorem nameIn?_eq_some {directory : Place} (h : name ∈ nameIn? directory place) :
    place = name :: directory := by
  unfold nameIn? at h
  split at h
  · next hparent => rw [← hparent, List.cons_head?_tail h]
  · cases h

/-- The names in a directory are distinct. -/
theorem WellFormed.nodup_children (h : tree.WellFormed) (place : Place) :
    ((tree.children place).map Prod.fst).Nodup := by
  have hnames : ((tree.children place).map Prod.fst).Perm
      ((tree.entries.map Prod.fst).filterMap (nameIn? place)) := by
    refine ((List.mergeSort_perm _ _).map Prod.fst).trans ?_
    rw [List.map_filterMap, List.filterMap_map]
    refine .of_eq (List.filterMap_congr fun e _ => ?_)
    obtain ⟨key, entry⟩ := e
    cases key with
    | nil => simp [nameIn?]
    | cons name parent =>
      by_cases hparent : parent = place <;> simp [nameIn?, hparent]
  rw [hnames.nodup_iff]
  exact h.distinct.filterMap fun _ _ _ hname hother =>
    (nameIn?_eq_some hname).trans (nameIn?_eq_some hother).symm

/-- Whatever an entry lies in is a directory. -/
theorem Closed.hasDirectory_of_suffix (h : tree.Closed) {above : Place}
    (hentry : tree.get? (name :: place) = some entry) (habove : above <:+ place) :
    tree.HasDirectory above := by
  induction place generalizing name entry with
  | nil =>
    rw [List.suffix_nil.mp habove]
    exact h.root
  | cons last place ih =>
    have hplace := h.parent _ _ _ hentry
    obtain rfl | habove := List.suffix_cons_iff.mp habove
    · exact hplace
    · obtain ⟨mode, hmode⟩ := hplace
      exact ih hmode habove

/-- An entry does not lie deeper than there are other entries: it lies in a directory of its own at
each depth. -/
theorem Closed.length_lt_of_get? (h : tree.Closed) (hentry : tree.get? place = some entry) :
    place.length < tree.entries.length := by
  have hnodup (l : Place) : l.tails.Nodup := by
    induction l with
    | nil => exact List.nodup_singleton _
    | cons name l ih =>
      rw [List.tails_cons, List.nodup_cons]
      refine ⟨fun hmem => ?_, ih⟩
      exact absurd ((List.mem_tails _ _).mp hmem).length_le (by simp)
  have hsubset : place.tails ⊆ tree.entries.map Prod.fst := by
    intro above habove
    suffices ∃ e, tree.get? above = some e by
      obtain ⟨e, he⟩ := this
      exact List.mem_map_of_mem (mem_of_lookup he)
    cases place with
    | nil =>
      rw [List.suffix_nil.mp ((List.mem_tails _ _).mp habove)]
      exact ⟨entry, hentry⟩
    | cons name place =>
      obtain rfl | habove := List.suffix_cons_iff.mp ((List.mem_tails _ _).mp habove)
      · exact ⟨entry, hentry⟩
      · obtain ⟨mode, hmode⟩ := h.hasDirectory_of_suffix hentry habove
        exact ⟨_, hmode⟩
  have hlength := (List.subperm_of_subset (hnodup place) hsubset).length_le
  rwa [List.length_tails, List.length_map] at hlength

end WellFormed

/-! ## Setting and erasing entries -/

section Entries

variable {tree tree' : Tree} {place other : Place} {entry : Entry}

theorem get?_set (tree : Tree) (place : Place) (entry : Entry) (other : Place) :
    (tree.set place entry).get? other = if other = place then some entry else tree.get? other := by
  split
  · next h => rw [h, get?_set_self]
  · next h => exact get?_set_of_ne tree entry h

theorem get?_erase (tree : Tree) (place other : Place) :
    (tree.erase place).get? other = if other = place then none else tree.get? other := by
  split
  · next h => rw [h, get?_erase_self]
  · next h => exact get?_erase_of_ne tree h

theorem hasDirectory_set (hkept : ∀ mode, tree.get? place ≠ some (.directory mode))
    (h : tree.HasDirectory other) : (tree.set place entry).HasDirectory other := by
  obtain ⟨mode, hmode⟩ := h
  refine ⟨mode, ?_⟩
  rw [get?_set, if_neg, hmode]
  rintro rfl
  exact hkept mode hmode

theorem hasDirectory_erase (hkept : ∀ mode, tree.get? place ≠ some (.directory mode))
    (h : tree.HasDirectory other) : (tree.erase place).HasDirectory other := by
  obtain ⟨mode, hmode⟩ := h
  refine ⟨mode, ?_⟩
  rw [get?_erase, if_neg, hmode]
  rintro rfl
  exact hkept mode hmode

/-- No directory goes when a place in a directory is set. -/
theorem closed_set (h : tree.Closed) {name : Text} (hplace : tree.HasDirectory place)
    (hkept : ∀ mode, tree.get? (name :: place) ≠ some (.directory mode)) :
    (tree.set (name :: place) entry).Closed := by
  have hdirectory {other : Place} (hother : tree.HasDirectory other) :
      (tree.set (name :: place) entry).HasDirectory other := hasDirectory_set hkept hother
  refine ⟨hdirectory h.root, hdirectory h.current, fun name' place' entry' hentry => hdirectory ?_⟩
  rw [get?_set] at hentry
  split at hentry
  · next heq =>
    rw [(List.cons.inj heq).2]
    exact hplace
  · exact h.parent _ _ _ hentry

theorem Lies.imp (hdirectory : ∀ place, tree.HasDirectory place → tree'.HasDirectory place)
    (h : tree.Lies place) : tree'.Lies place := by
  cases place with
  | nil => trivial
  | cons name place => exact ⟨h.1, hdirectory place h.2⟩

theorem wellFormed_erase (h : tree.WellFormed)
    (hkept : ∀ mode, tree.get? place ≠ some (.directory mode)) : (tree.erase place).WellFormed := by
  have hdirectory (other : Place) (hother : tree.HasDirectory other) :
      (tree.erase place).HasDirectory other := hasDirectory_erase hkept hother
  refine ⟨(List.filter_sublist.map Prod.fst).nodup h.distinct, hdirectory _ h.root,
    hdirectory _ h.current, fun e he => (h.lies e (List.mem_filter.mp he).1).imp hdirectory⟩

theorem wellFormed_set (h : tree.WellFormed) (hlies : tree.Lies place)
    (hkept : ∀ mode, tree.get? place ≠ some (.directory mode)) :
    (tree.set place entry).WellFormed := by
  have hdirectory (other : Place) (hother : tree.HasDirectory other) :
      (tree.set place entry).HasDirectory other := hasDirectory_set hkept hother
  refine ⟨?_, hdirectory _ h.root, hdirectory _ h.current, fun e he => ?_⟩
  · change (place :: (tree.entries.filter fun e => e.1 ≠ place).map Prod.fst).Nodup
    refine List.nodup_cons.mpr ⟨fun hmem => ?_, (List.filter_sublist.map Prod.fst).nodup h.distinct⟩
    obtain ⟨e, he, rfl⟩ := List.mem_map.mp hmem
    exact of_decide_eq_true (List.mem_filter.mp he).2 rfl
  · obtain rfl | he := List.mem_cons.mp he
    · exact hlies.imp hdirectory
    · exact (h.lies e (List.mem_filter.mp he).1).imp hdirectory

end Entries

end HclTidy.Tree
