import Mathlib
import HclTidy.Tree.Operations

/-!
# Where paths lead

What a path stands for depends on the links of a tree alone. `Tree.physical` follows every link;
`Tree.spot` is the place of the entry that a path names, a link at its end not followed. Looking a
path up leads to these places, and it still does after entries that are neither links nor
directories have come or gone.
-/

set_option autoImplicit false

namespace HclTidy

/-- The place a path leads to, whether something is there or not. -/
def Destination.place : Destination → Place
  | .found place => place
  | .missing parent name => name :: parent

namespace Tree

/-- The target of the link at a place. -/
def linkAt? (tree : Tree) (place : Place) : Option Text :=
  match tree.get? place with
  | some (.link target) => some target
  | _ => none

theorem linkAt?_of_link {tree : Tree} {place : Place} {target : Text}
    (h : tree.get? place = some (.link target)) : tree.linkAt? place = some target := by
  rw [linkAt?, h]

theorem linkAt?_of_none {tree : Tree} {place : Place} (h : tree.get? place = none) :
    tree.linkAt? place = none := by
  rw [linkAt?, h]

theorem linkAt?_of_not_link {tree : Tree} {place : Place} {entry : Entry}
    (h : tree.get? place = some entry) (he : entry.isLink = false) : tree.linkAt? place = none := by
  rw [linkAt?, h]
  cases entry with
  | link => cases he
  | _ => rfl

/-! ## The place of the entry that a path names -/

/-- The place that names lead to, where names that lead nowhere are kept and a link at the end is
not followed. -/
def spotNames (tree : Tree) (goOn : Place → List Text → Place) (place : Place) : List Text → Place
  | [] => place
  | name :: rest =>
    if name = Path.current then spotNames tree goOn place rest
    else if name = Path.parent then spotNames tree goOn place.tail rest
    else if rest.isEmpty then name :: place
    else
      match tree.linkAt? (name :: place) with
      | some target => goOn (origin place target) (steps target ++ rest)
      | none => spotNames tree goOn (name :: place) rest

def spotFrom (tree : Tree) : Nat → Place → List Text → Place
  | 0 => lexicalFrom
  | links + 1 => spotNames tree (spotFrom tree links)

/-- The place of the entry that a path names. -/
def spot (tree : Tree) (path : Text) : Place :=
  tree.spotFrom maxLinks (origin tree.current path) (steps path)

section Names

variable {tree : Tree} {links : Nat} {place : Place} {name : Text} {rest : List Text}

theorem physicalNames_cons (tree : Tree) (goOn : Place → List Text → Place) (place : Place)
    (name : Text) (rest : List Text) :
    tree.physicalNames goOn place (name :: rest) =
      if name = Path.current then tree.physicalNames goOn place rest
      else if name = Path.parent then tree.physicalNames goOn place.tail rest
      else
        match tree.linkAt? (name :: place) with
        | some target => goOn (origin place target) (steps target ++ rest)
        | none => tree.physicalNames goOn (name :: place) rest := by
  rw [physicalNames, linkAt?]
  split_ifs
  · rfl
  · rfl
  · cases tree.get? (name :: place) with
    | none => rfl
    | some entry => cases entry <;> rfl

theorem lexicalFrom_cons (place : Place) (name : Text) (rest : List Text) :
    lexicalFrom place (name :: rest) =
      lexicalFrom (if name = Path.current then place else if name = Path.parent then place.tail
        else name :: place) rest := rfl

theorem physicalFrom_zero (tree : Tree) : tree.physicalFrom 0 = lexicalFrom := rfl

theorem physicalFrom_succ (tree : Tree) (links : Nat) :
    tree.physicalFrom (links + 1) = tree.physicalNames (tree.physicalFrom links) := rfl

theorem physicalFrom_nil (tree : Tree) (links : Nat) (place : Place) :
    tree.physicalFrom links place [] = place := by
  cases links <;> rfl

theorem physicalFrom_current (tree : Tree) (links : Nat) (place : Place) (rest : List Text) :
    tree.physicalFrom links place (Path.current :: rest) = tree.physicalFrom links place rest := by
  cases links with
  | zero => exact lexicalFrom_cons _ _ _
  | succ links =>
    rw [physicalFrom_succ, physicalNames_cons, if_pos rfl]

theorem physicalFrom_parent (tree : Tree) (links : Nat) (place : Place) (rest : List Text) :
    tree.physicalFrom links place (Path.parent :: rest) = tree.physicalFrom links place.tail rest := by
  cases links with
  | zero => exact lexicalFrom_cons _ _ _
  | succ links =>
    rw [physicalFrom_succ, physicalNames_cons, if_neg (by decide), if_pos rfl]

theorem physicalFrom_onward (hname : name ≠ Path.current ∧ name ≠ Path.parent)
    (h : tree.linkAt? (name :: place) = none) :
    tree.physicalFrom links place (name :: rest) = tree.physicalFrom links (name :: place) rest := by
  cases links with
  | zero =>
    rw [physicalFrom_zero, lexicalFrom_cons, if_neg hname.1, if_neg hname.2]
  | succ links =>
    rw [physicalFrom_succ, physicalNames_cons, if_neg hname.1, if_neg hname.2, h]

theorem physicalFrom_through (hname : name ≠ Path.current ∧ name ≠ Path.parent) {target : Text}
    (h : tree.linkAt? (name :: place) = some target) :
    tree.physicalFrom (links + 1) place (name :: rest) =
      tree.physicalFrom links (origin place target) (steps target ++ rest) := by
  rw [physicalFrom_succ, physicalNames_cons, if_neg hname.1, if_neg hname.2, h]

theorem spotNames_cons (tree : Tree) (goOn : Place → List Text → Place) (place : Place)
    (name : Text) (rest : List Text) :
    tree.spotNames goOn place (name :: rest) =
      if name = Path.current then tree.spotNames goOn place rest
      else if name = Path.parent then tree.spotNames goOn place.tail rest
      else if rest.isEmpty then name :: place
      else
        match tree.linkAt? (name :: place) with
        | some target => goOn (origin place target) (steps target ++ rest)
        | none => tree.spotNames goOn (name :: place) rest := rfl

theorem spotFrom_zero (tree : Tree) : tree.spotFrom 0 = lexicalFrom := rfl

theorem spotFrom_succ (tree : Tree) (links : Nat) :
    tree.spotFrom (links + 1) = tree.spotNames (tree.spotFrom links) := rfl

theorem spotFrom_nil (tree : Tree) (links : Nat) (place : Place) :
    tree.spotFrom links place [] = place := by
  cases links <;> rfl

theorem spotFrom_current (tree : Tree) (links : Nat) (place : Place) (rest : List Text) :
    tree.spotFrom links place (Path.current :: rest) = tree.spotFrom links place rest := by
  cases links with
  | zero => exact lexicalFrom_cons _ _ _
  | succ links =>
    rw [spotFrom_succ, spotNames_cons, if_pos rfl]

theorem spotFrom_parent (tree : Tree) (links : Nat) (place : Place) (rest : List Text) :
    tree.spotFrom links place (Path.parent :: rest) = tree.spotFrom links place.tail rest := by
  cases links with
  | zero => exact lexicalFrom_cons _ _ _
  | succ links =>
    rw [spotFrom_succ, spotNames_cons, if_neg (by decide), if_pos rfl]

theorem spotFrom_last (tree : Tree) (links : Nat) (place : Place)
    (hname : name ≠ Path.current ∧ name ≠ Path.parent) :
    tree.spotFrom links place [name] = name :: place := by
  cases links with
  | zero =>
    rw [spotFrom_zero, lexicalFrom_cons, if_neg hname.1, if_neg hname.2]
    rfl
  | succ links =>
    rw [spotFrom_succ, spotNames_cons, if_neg hname.1, if_neg hname.2, if_pos List.isEmpty_nil]

theorem spotFrom_onward (hname : name ≠ Path.current ∧ name ≠ Path.parent)
    (h : tree.linkAt? (name :: place) = none) :
    tree.spotFrom links place (name :: rest) = tree.spotFrom links (name :: place) rest := by
  cases rest with
  | nil => rw [spotFrom_last tree links place hname, spotFrom_nil]
  | cons next rest =>
    cases links with
    | zero =>
      rw [spotFrom_zero, lexicalFrom_cons, if_neg hname.1, if_neg hname.2]
    | succ links =>
      rw [spotFrom_succ, spotNames_cons, if_neg hname.1, if_neg hname.2, if_neg (by simp), h]

theorem spotFrom_through (hname : name ≠ Path.current ∧ name ≠ Path.parent) (hrest : rest ≠ [])
    {target : Text} (h : tree.linkAt? (name :: place) = some target) :
    tree.spotFrom (links + 1) place (name :: rest) =
      tree.spotFrom links (origin place target) (steps target ++ rest) := by
  rw [spotFrom_succ, spotNames_cons, if_neg hname.1, if_neg hname.2, if_neg (by simpa using hrest), h]

end Names

/-! ## Places depend on the links only -/

section SameLinks

variable {tree tree' : Tree}

/-- The same links in the same places, and the same current directory. -/
structure SameLinks (tree tree' : Tree) : Prop where
  link : ∀ place, tree'.linkAt? place = tree.linkAt? place
  current : tree'.current = tree.current

theorem SameLinks.refl (tree : Tree) : SameLinks tree tree := ⟨fun _ => rfl, rfl⟩

theorem SameLinks.trans {tree'' : Tree} (h : SameLinks tree tree') (h' : SameLinks tree' tree'') :
    SameLinks tree tree'' :=
  ⟨fun place => (h'.link place).trans (h.link place), h'.current.trans h.current⟩

theorem SameLinks.physicalFrom (h : SameLinks tree tree') (links : Nat) :
    tree'.physicalFrom links = tree.physicalFrom links := by
  induction links with
  | zero => rfl
  | succ links ih =>
    funext place names
    rw [physicalFrom_succ, physicalFrom_succ, ih]
    induction names generalizing place with
    | nil => rfl
    | cons name rest ihNames =>
      rw [physicalNames_cons, physicalNames_cons, ihNames, ihNames, ihNames, h.link]

theorem SameLinks.spotFrom (h : SameLinks tree tree') (links : Nat) :
    tree'.spotFrom links = tree.spotFrom links := by
  induction links with
  | zero => rfl
  | succ links ih =>
    funext place names
    rw [spotFrom_succ, spotFrom_succ, ih]
    induction names generalizing place with
    | nil => rfl
    | cons name rest ihNames =>
      rw [spotNames_cons, spotNames_cons, ihNames, ihNames, ihNames, h.link]

theorem SameLinks.physical (h : SameLinks tree tree') (path : Text) :
    tree'.physical path = tree.physical path := by
  unfold Tree.physical
  rw [h.physicalFrom, h.current]

theorem SameLinks.spot (h : SameLinks tree tree') (path : Text) :
    tree'.spot path = tree.spot path := by
  unfold Tree.spot
  rw [h.spotFrom, h.current]

theorem SameLinks.samePlace (h : SameLinks tree tree') (a b : Text) :
    tree'.samePlace a b = tree.samePlace a b := by
  unfold Tree.samePlace
  rw [h.physical, h.physical]

end SameLinks

/-! ## Looking a path up -/

def HasDirectory (tree : Tree) (place : Place) : Prop :=
  ∃ mode, tree.get? place = some (.directory mode)

/-- The ways in which names lead from a place to a destination. -/
inductive Leads (tree : Tree) (follow : Bool) : Nat → Place → List Text → Destination → Prop
  | here {links place} : Leads tree follow links place [] (.found place)
  | current {links place rest d} : tree.HasDirectory place → Leads tree follow links place rest d →
      Leads tree follow links place (Path.current :: rest) d
  | parent {links place rest d} : tree.HasDirectory place →
      Leads tree follow links place.tail rest d →
      Leads tree follow links place (Path.parent :: rest) d
  | missing {links place name} : tree.HasDirectory place →
      name ≠ Path.current ∧ name ≠ Path.parent → tree.get? (name :: place) = none →
      Leads tree follow links place [name] (.missing place name)
  | atLink {links place name target} : tree.HasDirectory place →
      name ≠ Path.current ∧ name ≠ Path.parent → follow = false →
      tree.get? (name :: place) = some (.link target) →
      Leads tree follow links place [name] (.found (name :: place))
  | through {links place name rest target d} : tree.HasDirectory place →
      name ≠ Path.current ∧ name ≠ Path.parent → (rest ≠ [] ∨ follow = true) →
      tree.get? (name :: place) = some (.link target) →
      Leads tree follow links (origin place target) (steps target ++ rest) d →
      Leads tree follow (links + 1) place (name :: rest) d
  | onward {links place name rest entry d} : tree.HasDirectory place →
      name ≠ Path.current ∧ name ≠ Path.parent → tree.get? (name :: place) = some entry →
      entry.isLink = false → Leads tree follow links (name :: place) rest d →
      Leads tree follow links place (name :: rest) d

section Leads

variable {tree : Tree} {follow : Bool} {links : Nat} {place : Place} {names : List Text} {d : Destination}

theorem leads_of_walkNames {goOn : Place → List Text → Except PathFault Destination}
    (h : ∀ place names d, goOn place names = .ok d →
      ∃ n, links = n + 1 ∧ Leads tree follow n place names d)
    (hd : tree.walkNames follow goOn place names = .ok d) : Leads tree follow links place names d := by
  induction names generalizing place with
  | nil =>
    cases hd
    exact .here
  | cons name rest ih =>
    rw [walkNames] at hd
    split at hd
    · cases hd
    · next entry hentry =>
      split at hd
      · cases hd
      · next hdirectory =>
        have hplace : tree.HasDirectory place := by
          cases entry with
          | directory mode => exact ⟨mode, hentry⟩
          | _ => exact absurd rfl hdirectory
        split at hd
        · cases hd
        · split at hd
          · next hcurrent =>
            rw [hcurrent]
            exact .current hplace (ih hd)
          · next hcurrent =>
            split at hd
            · next hparent =>
              rw [hparent]
              exact .parent hplace (ih hd)
            · next hparent =>
              have hname := And.intro hcurrent hparent
              split at hd
              · next hnone =>
                split at hd
                · next hrest =>
                  cases hd
                  rw [List.isEmpty_iff.mp hrest]
                  exact .missing hplace hname hnone
                · cases hd
              · next target hlink =>
                split at hd
                · next hend =>
                  cases hd
                  rw [Bool.and_eq_true, List.isEmpty_iff, Bool.not_eq_true'] at hend
                  rw [hend.1]
                  exact .atLink hplace hname hend.2 hlink
                · next hend =>
                  split at hd
                  · cases hd
                  · obtain ⟨n, rfl, hleads⟩ := h _ _ _ hd
                    refine .through hplace hname ?_ hlink hleads
                    simpa [List.isEmpty_iff, imp_iff_not_or] using hend
              · next other hnot hother =>
                refine .onward hplace hname hother ?_ (ih hd)
                cases other with
                | link target => exact (hnot target rfl).elim
                | _ => rfl

theorem leads_of_walk : ∀ {links : Nat} {place : Place} {names : List Text} {d : Destination},
    tree.walk follow links place names = .ok d → Leads tree follow links place names d := by
  intro links
  induction links with
  | zero => exact fun hd => leads_of_walkNames (fun _ _ _ h => by cases h) hd
  | succ links ih => exact fun hd => leads_of_walkNames (fun _ _ _ h => ⟨links, rfl, ih h⟩) hd

theorem leads_of_locate {path : Text} (h : tree.locate follow path = .ok d) :
    Leads tree follow maxLinks (origin tree.current path) (steps path) d := by
  unfold locate at h
  split at h
  · cases h
  · split at h
    · cases h
    · split at h
      · cases h
      · exact leads_of_walk h

theorem physicalFrom_of_leads (h : Leads tree true links place names d) :
    d.place = tree.physicalFrom links place names := by
  induction h with
  | here => exact (physicalFrom_nil _ _ _).symm
  | current _ _ ih => rw [ih, physicalFrom_current]
  | parent _ _ ih => rw [ih, physicalFrom_parent]
  | missing _ hname hnone =>
    rw [physicalFrom_onward hname (linkAt?_of_none hnone), physicalFrom_nil]
    rfl
  | atLink _ _ hfollow => cases hfollow
  | through _ hname _ hlink _ ih => rw [ih, physicalFrom_through hname (linkAt?_of_link hlink)]
  | onward _ hname hentry hnot _ ih =>
    rw [ih, physicalFrom_onward hname (linkAt?_of_not_link hentry hnot)]

/-- Looking a path up with all links followed leads to its physical place. -/
theorem physical_of_locate {path : Text} (h : tree.locate true path = .ok d) :
    d.place = tree.physical path := physicalFrom_of_leads (leads_of_locate h)

/-- Where the entries of a tree lead on, another tree has the same links. -/
def LinksOnward (tree tree' : Tree) : Prop :=
  ∀ place entry, tree'.get? place = some entry →
    entry.isDirectory = true ∨ entry.isLink = true → tree.linkAt? place = tree'.linkAt? place

theorem hasDirectory_of_leads {name : Text} {rest : List Text}
    (h : Leads tree follow links place (name :: rest) d) : tree.HasDirectory place := by
  cases h <;> assumption

theorem spotFrom_of_leads {tree' : Tree} (hlinks : LinksOnward tree tree')
    (h : Leads tree' false links place names d) : d.place = tree.spotFrom links place names := by
  induction h with
  | here => exact (spotFrom_nil _ _ _).symm
  | current _ _ ih => rw [ih, spotFrom_current]
  | parent _ _ ih => rw [ih, spotFrom_parent]
  | missing _ hname => exact (spotFrom_last _ _ _ hname).symm
  | atLink _ hname => exact (spotFrom_last _ _ _ hname).symm
  | through _ hname hrest hlink _ ih =>
    have hlinkAt := (hlinks _ _ hlink (.inr rfl)).trans (linkAt?_of_link hlink)
    rw [ih, spotFrom_through hname (hrest.resolve_right Bool.false_ne_true) hlinkAt]
  | @onward links place name rest entry d _ hname hentry hnot hleads ih =>
    cases rest with
    | nil => rw [ih, spotFrom_nil, spotFrom_last _ _ _ hname]
    | cons next rest =>
      -- Names lead on from here, so a directory is here on one side and no link on either.
      obtain ⟨mode, hmode⟩ := hasDirectory_of_leads hleads
      have hlinkAt := (hlinks _ _ hmode (.inl rfl)).trans (linkAt?_of_not_link hmode rfl)
      rw [ih, spotFrom_onward hname hlinkAt]

/-- Looking a path up without following a link at its end leads to the place of the entry that it
names. -/
theorem spot_of_locate {tree' : Tree} (hlinks : LinksOnward tree tree')
    (hcurrent : tree'.current = tree.current) {path : Text} (h : tree'.locate false path = .ok d) :
    d.place = tree.spot path := by
  have hspot := spotFrom_of_leads hlinks (leads_of_locate h)
  rwa [hcurrent] at hspot

/-- Where no link is, a path stands for the place of the entry that it names. -/
theorem physicalFrom_eq_spotFrom (h : tree.linkAt? (tree.spotFrom links place names) = none) :
    tree.physicalFrom links place names = tree.spotFrom links place names := by
  induction links generalizing place names with
  | zero => rfl
  | succ links ih =>
    induction names generalizing place with
    | nil => rfl
    | cons name rest ihNames =>
      by_cases hcurrent : name = Path.current
      · rw [hcurrent, spotFrom_current] at h ⊢
        rw [physicalFrom_current, ihNames h]
      · by_cases hparent : name = Path.parent
        · rw [hparent, spotFrom_parent] at h ⊢
          rw [physicalFrom_parent, ihNames h]
        · have hname := And.intro hcurrent hparent
          by_cases hrest : rest = []
          · rw [hrest, spotFrom_last _ _ _ hname] at h ⊢
            rw [physicalFrom_onward hname h, physicalFrom_nil]
          · cases hlink : tree.linkAt? (name :: place) with
            | none =>
              rw [spotFrom_onward hname hlink] at h ⊢
              rw [physicalFrom_onward hname hlink, ihNames h]
            | some target =>
              rw [spotFrom_through hname hrest hlink] at h ⊢
              rw [physicalFrom_through hname hlink, ih h]

theorem physical_eq_spot {path : Text} (h : tree.linkAt? (tree.spot path) = none) :
    tree.physical path = tree.spot path := physicalFrom_eq_spotFrom h

end Leads

end Tree

end HclTidy
