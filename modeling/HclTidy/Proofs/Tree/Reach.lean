import HclTidy.Proofs.Tree.Paths

/-!
# Looking paths up again

A path that leads to a directory leads there in every tree that has the same links and keeps the
directories. A name in that directory is then found where the tree has an entry for it.
-/

set_option autoImplicit false

namespace HclTidy.Tree

variable {tree tree' : Tree}

/-- The second tree has the links of the first one, and its directories are directories still. -/
structure KeepsDirectories (tree tree' : Tree) : Prop where
  links : SameLinks tree tree'
  kept : ∀ place, tree.HasDirectory place → tree'.HasDirectory place

theorem KeepsDirectories.refl (tree : Tree) : KeepsDirectories tree tree := ⟨.refl tree, fun _ => id⟩

theorem get?_of_linkAt? {place : Place} {target : Text} (h : tree.linkAt? place = some target) :
    tree.get? place = some (.link target) := by
  unfold linkAt? at h
  split at h
  · cases h
    assumption
  · cases h

/-! ## Walking on from a directory -/

section Walk

variable {follow : Bool} {goOn : Place → List Text → Except PathFault Destination} {place : Place}
  {name : Text} {rest : List Text} {d : Destination}

/-- Names are followed from a directory, and a name is not too long. -/
theorem walkNames_cons_ok (h : tree.walkNames follow goOn place (name :: rest) = .ok d) :
    tree.HasDirectory place ∧ Utf8.size name ≤ maxNameBytes := by
  rw [walkNames] at h
  split at h
  · cases h
  · next entry hentry =>
    split at h
    · cases h
    · next hdirectory =>
      split at h
      · cases h
      · next hsize =>
        refine ⟨?_, Nat.le_of_not_lt hsize⟩
        cases entry with
        | directory mode => exact ⟨mode, hentry⟩
        | _ => exact absurd rfl hdirectory

theorem walkNames_of_directory (hplace : tree.HasDirectory place)
    (hsize : Utf8.size name ≤ maxNameBytes) :
    tree.walkNames follow goOn place (name :: rest) =
      if name = Path.current then tree.walkNames follow goOn place rest
      else if name = Path.parent then tree.walkNames follow goOn place.tail rest
      else
        match tree.get? (name :: place) with
        | none => if rest.isEmpty then .ok (.missing place name) else .error .notFound
        | some (.link target) =>
          if rest.isEmpty && !follow then .ok (.found (name :: place))
          else if target.isEmpty then .error .notFound
          else goOn (origin place target) (steps target ++ rest)
        | some _ => tree.walkNames follow goOn (name :: place) rest := by
  obtain ⟨mode, hmode⟩ := hplace
  have hdirectory : ¬(!(Entry.directory mode).isDirectory) = true := Bool.false_ne_true
  rw [walkNames, hmode]
  exact (if_neg hdirectory).trans (if_neg (Nat.not_lt.mpr hsize))

/-- Where names lead on from one entry to a place with a directory, the entry is a directory. -/
theorem hasDirectory_of_walkNames {reached : Place} (hreached : tree.HasDirectory reached)
    (h : tree.walkNames follow goOn place rest = .ok (.found reached)) : tree.HasDirectory place := by
  cases rest with
  | nil =>
    cases h
    exact hreached
  | cons name rest => exact (walkNames_cons_ok h).1

theorem walkNames_currents {reached : Place} {dots : List Text} (hdots : ∀ n ∈ dots, n = Path.current)
    (h : tree.walkNames follow goOn place dots = .ok (.found reached)) : reached = place := by
  induction dots with
  | nil =>
    cases h
    rfl
  | cons dot dots ih =>
    rw [List.forall_mem_cons] at hdots
    obtain ⟨hplace, hsize⟩ := walkNames_cons_ok h
    rw [walkNames_of_directory hplace hsize, if_pos hdots.1] at h
    exact ih hdots.2 h

end Walk

section Onward

variable {reached : Place} {dots : List Text} {links : Nat} {place : Place} {rest : List Text}

theorem walkNames_onward (links : Nat) {goOn : Place → List Text → Except PathFault Destination}
    (goOn' : Bool → Place → List Text → Except PathFault Destination)
    (hkeeps : KeepsDirectories tree tree') (hreached : tree.HasDirectory reached)
    (hdots : ∀ n ∈ dots, n = Path.current)
    (hself : ∀ follow, tree'.walkNames follow (goOn' follow) = tree'.walk follow links)
    (hgoOn : ∀ place names, goOn place (names ++ dots) = .ok (.found reached) →
      ∃ left, ∀ follow more, more ≠ [] ∨ follow = true →
        goOn' follow place (names ++ more) = tree'.walk follow left reached more)
    (h : tree.walkNames true goOn place (rest ++ dots) = .ok (.found reached)) :
    ∃ left, ∀ follow more, more ≠ [] ∨ follow = true →
      tree'.walkNames follow (goOn' follow) place (rest ++ more) =
        tree'.walk follow left reached more := by
  induction rest generalizing place with
  | nil =>
    rw [walkNames_currents hdots h]
    exact ⟨links, fun follow more _ => by rw [List.nil_append, hself]⟩
  | cons name rest ih =>
    rw [List.cons_append] at h
    obtain ⟨hplace, hsize⟩ := walkNames_cons_ok h
    rw [walkNames_of_directory hplace hsize] at h
    simp only [List.cons_append, walkNames_of_directory (hkeeps.kept _ hplace) hsize]
    by_cases hcurrent : name = Path.current
    · simp only [if_pos hcurrent] at h ⊢
      exact ih h
    · by_cases hparent : name = Path.parent
      · simp only [if_neg hcurrent, if_pos hparent] at h ⊢
        exact ih h
      · simp only [if_neg hcurrent, if_neg hparent] at h ⊢
        cases hentry : tree.get? (name :: place) with
        | none =>
          rw [hentry] at h
          dsimp only at h
          split at h <;> cases h
        | some entry =>
          rw [hentry] at h
          cases hlink : tree.linkAt? (name :: place) with
          | some target =>
            rw [get?_of_linkAt? hlink] at hentry
            cases hentry
            dsimp only at h
            rw [Bool.not_true, Bool.and_false, if_neg Bool.false_ne_true] at h
            split at h
            · cases h
            · next htarget =>
              rw [← List.append_assoc] at h
              obtain ⟨left, hleft⟩ := hgoOn _ _ h
              refine ⟨left, fun follow more hmore => ?_⟩
              have hend : ((rest ++ more).isEmpty && !follow) = false := by
                obtain hmore | rfl := hmore
                · simp [hmore]
                · simp
              rw [get?_of_linkAt? ((hkeeps.links.link _).trans hlink)]
              dsimp only
              rw [hend, if_neg Bool.false_ne_true, if_neg htarget, ← List.append_assoc]
              exact hleft follow more hmore
          | none =>
            have hwalk : tree.walkNames true goOn (name :: place) (rest ++ dots) =
                .ok (.found reached) := by
              cases entry with
              | link target =>
                rw [linkAt?_of_link hentry] at hlink
                cases hlink
              | _ => exact h
            obtain ⟨mode, hmode⟩ := hkeeps.kept _ (hasDirectory_of_walkNames hreached hwalk)
            rw [hmode]
            exact ih hwalk

/-- Names that lead to a directory lead there in a tree that keeps it, and on from there. -/
theorem walk_onward (hkeeps : KeepsDirectories tree tree') (hreached : tree.HasDirectory reached)
    (hdots : ∀ n ∈ dots, n = Path.current)
    (h : tree.walk true links place (rest ++ dots) = .ok (.found reached)) :
    ∃ left, ∀ follow more, more ≠ [] ∨ follow = true →
      tree'.walk follow links place (rest ++ more) = tree'.walk follow left reached more := by
  induction links generalizing place rest with
  | zero =>
    exact walkNames_onward 0 (fun _ _ _ => .error .tooManyLinks) hkeeps hreached hdots (fun _ => rfl)
      (fun _ _ hfails => by cases hfails) h
  | succ links ih =>
    exact walkNames_onward (links + 1) (fun follow => tree'.walk follow links) hkeeps hreached hdots
      (fun _ => rfl) (fun _ _ hwalk => ih hwalk) h

end Onward

section Front

variable {follow : Bool} {d : Destination} {links : Nat} {place : Place} {name : Text}
  {rest more : List Text}

theorem walkNames_front {goOn goOn' : Place → List Text → Except PathFault Destination}
    (hgoOn : ∀ place names, goOn place (names ++ name :: more) = .ok d →
      Utf8.size name ≤ maxNameBytes ∧
        ∃ reached, goOn' place names = .ok (.found reached) ∧ tree.HasDirectory reached)
    (h : tree.walkNames follow goOn place (rest ++ name :: more) = .ok d) :
    Utf8.size name ≤ maxNameBytes ∧
      ∃ reached, tree.walkNames true goOn' place rest = .ok (.found reached) ∧
        tree.HasDirectory reached := by
  induction rest generalizing place with
  | nil =>
    obtain ⟨hplace, hsize⟩ := walkNames_cons_ok h
    exact ⟨hsize, place, rfl, hplace⟩
  | cons next rest ih =>
    rw [List.cons_append] at h
    obtain ⟨hplace, hsize⟩ := walkNames_cons_ok h
    have hend : (rest ++ name :: more).isEmpty = false := by simp
    rw [walkNames_of_directory hplace hsize] at h ⊢
    by_cases hcurrent : next = Path.current
    · simp only [if_pos hcurrent] at h ⊢
      exact ih h
    · by_cases hparent : next = Path.parent
      · simp only [if_neg hcurrent, if_pos hparent] at h ⊢
        exact ih h
      · simp only [if_neg hcurrent, if_neg hparent] at h ⊢
        cases hentry : tree.get? (next :: place) with
        | none =>
          rw [hentry] at h
          dsimp only at h
          rw [hend, if_neg Bool.false_ne_true] at h
          cases h
        | some entry =>
          rw [hentry] at h
          cases entry with
          | link target =>
            dsimp only at h ⊢
            rw [hend, Bool.false_and, if_neg Bool.false_ne_true] at h
            rw [Bool.not_true, Bool.and_false, if_neg Bool.false_ne_true]
            split at h
            · cases h
            · next htarget =>
              rw [if_neg htarget]
              rw [← List.append_assoc] at h
              exact hgoOn _ _ h
          | _ => exact ih h

/-- The names in front of another one lead to a directory. -/
theorem walk_front (h : tree.walk follow links place (rest ++ name :: more) = .ok d) :
    Utf8.size name ≤ maxNameBytes ∧
      ∃ reached, tree.walk true links place rest = .ok (.found reached) ∧
        tree.HasDirectory reached := by
  induction links generalizing place rest with
  | zero => exact walkNames_front (fun _ _ hfails => by cases hfails) h
  | succ links ih => exact walkNames_front (fun _ _ hwalk => ih hwalk) h

end Front

/-! ## Paths -/

section Paths

variable {follow : Bool} {path directory head name : Text} {place : Place} {d : Destination}

theorem locate_eq_ok_iff : tree.locate follow path = .ok d ↔
    '\x00' ∉ path ∧ path ≠ [] ∧ Utf8.size path ≤ maxPathBytes ∧
      tree.walk follow maxLinks (origin tree.current path) (steps path) = .ok d := by
  unfold locate
  split_ifs with hnul hempty hsize
  · simp [List.contains_iff_mem.mp hnul]
  · simp [List.isEmpty_iff.mp hempty]
  · simp [Nat.not_le.mpr hsize]
  · simp only [List.contains_iff_mem, List.isEmpty_iff] at hnul hempty
    simp [hnul, hempty, Nat.le_of_not_lt hsize]

theorem exists_dots (path : Text) :
    ∃ dots, (∀ n ∈ dots, n = Path.current) ∧ steps path = names path ++ dots := by
  refine ⟨_, fun n hn => ?_, rfl⟩
  split at hn
  · exact List.mem_singleton.mp hn
  · cases hn

theorem walk_currents {links : Nat} {dots : List Text} (hplace : tree.HasDirectory place)
    (hdots : ∀ n ∈ dots, n = Path.current) :
    tree.walk follow links place dots = .ok (.found place) := by
  have hwalk (goOn : Place → List Text → Except PathFault Destination) :
      tree.walkNames follow goOn place dots = .ok (.found place) := by
    induction dots with
    | nil => rfl
    | cons dot dots ih =>
      rw [List.forall_mem_cons] at hdots
      rw [walkNames_of_directory hplace (hdots.1 ▸ by decide), if_pos hdots.1]
      exact ih hdots.2
  cases links with
  | zero => exact hwalk _
  | succ links => exact hwalk _

theorem isDirectory_iff : tree.isDirectory path = true ↔
    ∃ place, tree.locate true path = .ok (.found place) ∧ tree.HasDirectory place := by
  unfold isDirectory holds
  constructor
  · intro h
    split at h
    · next place entry hentry =>
      obtain ⟨hlocate, hget⟩ := locate_of_entryAt hentry
      refine ⟨place, hlocate, ?_⟩
      cases entry with
      | directory mode => exact ⟨mode, hget⟩
      | _ => cases h
    · cases h
  · rintro ⟨place, hlocate, mode, hmode⟩
    have hentry : tree.entryAt true path = .ok (place, .directory mode) := by
      rw [entryAt, hlocate]
      dsimp only
      rw [hmode]
    rw [hentry]
    rfl

/-- A path that leads to a directory. -/
theorem locate_of_isDirectory (h : tree.isDirectory path = true) :
    tree.locate true path = .ok (.found (tree.physical path)) ∧
      tree.HasDirectory (tree.physical path) := by
  obtain ⟨place, hlocate, hplace⟩ := isDirectory_iff.mp h
  rw [← physical_of_locate hlocate]
  exact ⟨hlocate, hplace⟩

theorem ne_nil_of_isDirectory (h : tree.isDirectory path = true) : path ≠ [] :=
  (locate_eq_ok_iff.mp (locate_of_isDirectory h).1).2.1

theorem exists?_of_isDirectory (h : tree.isDirectory path = true) : tree.exists? path = true := by
  unfold isDirectory exists? holds at *
  split at h
  · rfl
  · cases h

theorem KeepsDirectories.isDirectory (h : KeepsDirectories tree tree')
    (hdirectory : tree.isDirectory path = true) : tree'.isDirectory path = true := by
  obtain ⟨place, hlocate, hplace⟩ := isDirectory_iff.mp hdirectory
  obtain ⟨hnul, hne, hsize, hwalk⟩ := locate_eq_ok_iff.mp hlocate
  obtain ⟨dots, hdots, hsteps⟩ := exists_dots path
  rw [hsteps] at hwalk
  obtain ⟨left, hleft⟩ := walk_onward h hplace hdots hwalk
  refine isDirectory_iff.mpr ⟨place, locate_eq_ok_iff.mpr ⟨hnul, hne, hsize, ?_⟩, h.kept _ hplace⟩
  rw [h.links.current, hsteps, hleft true dots (.inr rfl)]
  exact walk_currents (h.kept _ hplace) hdots

/-- The front part of a path that can be looked up leads to a directory when its names do. -/
theorem isDirectory_of_walk {reached : Place}
    (hhead : head <+: path) (hne : head ≠ []) (hlocate : tree.locate follow path = .ok d)
    (hwalk : tree.walk true maxLinks (origin tree.current path) (names head) = .ok (.found reached))
    (hreached : tree.HasDirectory reached) : tree.isDirectory head = true := by
  obtain ⟨rest, rfl⟩ := hhead
  obtain ⟨hnul, -, hsize, -⟩ := locate_eq_ok_iff.mp hlocate
  have horigin : origin tree.current (head ++ rest) = origin tree.current head := by
    rw [origin, origin, Path.isAbsolute, Path.isAbsolute, List.head?_append_of_ne_nil _ hne]
  obtain ⟨dots, hdots, hsteps⟩ := exists_dots head
  refine isDirectory_iff.mpr ⟨reached, locate_eq_ok_iff.mpr ⟨fun hmem => ?_, hne, ?_, ?_⟩, hreached⟩
  · exact hnul (List.mem_append_left _ hmem)
  · refine le_trans ?_ hsize
    simp [Utf8.size, Utf8.encode]
  · rw [horigin, ← List.append_nil (names head)] at hwalk
    obtain ⟨left, hleft⟩ := walk_onward (.refl tree) hreached (List.forall_mem_nil _) hwalk
    rw [hsteps, hleft true dots (.inr rfl)]
    exact walk_currents hreached hdots

/-! ## A name in a directory -/

/-- The path made of a directory and a name is one that can be looked up. -/
structure CanJoin (directory name : Text) : Prop where
  isName : IsName name
  noNul : '\x00' ∉ name
  nameSize : Utf8.size name ≤ maxNameBytes
  pathSize : Utf8.size (Path.join directory name) ≤ maxPathBytes

theorem join_eq (directory : Text) (h : IsName name) :
    ∃ slash, (∀ c ∈ slash, c = '/') ∧ Path.join directory name = directory ++ slash ++ name := by
  unfold Path.join
  rw [if_neg (by rw [Path.isAbsolute_of_no_slash h.no_slash]; exact Bool.false_ne_true)]
  split
  · exact ⟨[], List.forall_mem_nil _, by rw [List.append_nil]⟩
  · exact ⟨['/'], fun c hc => List.mem_singleton.mp hc, by simp⟩

theorem steps_join (directory : Text) (h : IsName name) :
    steps (Path.join directory name) = names directory ++ [name] :=
  (names_join directory h).2.trans (names_join directory h).1

/-- When the path made of a directory and a name leads anywhere, the directory is there. -/
theorem canJoin_of_locate (hname : IsName name) (hne : directory ≠ [])
    (h : tree.locate follow (Path.join directory name) = .ok d) :
    CanJoin directory name ∧ tree.isDirectory directory = true := by
  obtain ⟨hnul, -, hsize, hwalk⟩ := locate_eq_ok_iff.mp h
  obtain ⟨slash, -, hjoin⟩ := join_eq directory hname
  rw [steps_join directory hname] at hwalk
  obtain ⟨hnameSize, place, hfront, hplace⟩ := walk_front hwalk
  refine ⟨⟨hname, fun hmem => hnul ?_, hnameSize, hsize⟩, isDirectory_of_walk ?_ hne h hfront hplace⟩
  · rw [hjoin]
    exact List.mem_append_right _ hmem
  · rw [hjoin, List.append_assoc]
    exact List.prefix_append _ _

/-- A name in a directory leads to its entry where the tree has one that is no link. -/
theorem locate_join (hkeeps : KeepsDirectories tree tree')
    (hdirectory : tree.isDirectory directory = true) (hname : IsName name) {entry : Entry}
    (hentry : tree'.get? (name :: tree.physical directory) = some entry)
    (hlink : entry.isLink = false) :
    tree'.locate follow (Path.join directory name) =
      if '\x00' ∈ name then .error .embeddedNul
      else if Utf8.size (Path.join directory name) > maxPathBytes then .error .nameTooLong
      else if Utf8.size name > maxNameBytes then .error .nameTooLong
      else .ok (.found (name :: tree.physical directory)) := by
  obtain ⟨hlocate, hplace⟩ := locate_of_isDirectory hdirectory
  obtain ⟨hnul, hne, -, hwalk⟩ := locate_eq_ok_iff.mp hlocate
  obtain ⟨slash, hslash, hspelled⟩ := join_eq directory hname
  obtain ⟨dots, hdots, hsteps⟩ := exists_dots directory
  rw [hsteps] at hwalk
  obtain ⟨left, hleft⟩ := walk_onward hkeeps hplace hdots hwalk
  have hfound : tree'.walk follow left (tree.physical directory) [name] =
      if Utf8.size name > maxNameBytes then .error .nameTooLong
      else .ok (.found (name :: tree.physical directory)) := by
    have hnames (goOn : Place → List Text → Except PathFault Destination) :
        tree'.walkNames follow goOn (tree.physical directory) [name] =
          if Utf8.size name > maxNameBytes then .error .nameTooLong
          else .ok (.found (name :: tree.physical directory)) := by
      obtain ⟨mode, hmode⟩ := hkeeps.kept _ hplace
      have hopen : ¬(!(Entry.directory mode).isDirectory) = true := Bool.false_ne_true
      rw [walkNames, hmode]
      dsimp only
      rw [if_neg hopen, if_neg hname.ne_current, if_neg hname.ne_parent, hentry]
      cases entry with
      | link target => cases hlink
      | _ => rfl
    cases left with
    | zero => exact hnames _
    | succ left => exact hnames _
  have hnulMem : '\x00' ∈ Path.join directory name ↔ '\x00' ∈ name := by
    rw [hspelled, List.mem_append, List.mem_append]
    have hnone : '\x00' ∉ slash := fun hmem => absurd (hslash _ hmem) (by decide)
    simp [hnul, hnone]
  have hnonempty : (Path.join directory name).isEmpty = false := by
    rw [hspelled]
    simpa using fun _ _ => hname.ne_nil
  unfold locate
  rw [steps_join directory hname, origin_join _ _ hname, hkeeps.links.current,
    hleft follow [name] (.inl (List.cons_ne_nil _ _)), hfound, hnonempty]
  simp only [List.contains_iff_mem, hnulMem, Bool.false_eq_true, if_false]

theorem entryAt_join (hkeeps : KeepsDirectories tree tree')
    (hdirectory : tree.isDirectory directory = true) (hjoin : CanJoin directory name) {entry : Entry}
    (hentry : tree'.get? (name :: tree.physical directory) = some entry)
    (hlink : entry.isLink = false) :
    tree'.entryAt follow (Path.join directory name) =
      .ok (name :: tree.physical directory, entry) := by
  rw [entryAt, locate_join hkeeps hdirectory hjoin.isName hentry hlink, if_neg hjoin.noNul,
    if_neg (Nat.not_lt.mpr hjoin.pathSize), if_neg (Nat.not_lt.mpr hjoin.nameSize)]
  dsimp only
  rw [hentry]

/-- What is read through a name in a directory is the same in both trees when they have the same
entry there. -/
theorem entryAt_join_eq (hkeeps : KeepsDirectories tree tree')
    (hdirectory : tree.isDirectory directory = true) (hname : IsName name) {entry : Entry}
    (hentry : tree.get? (name :: tree.physical directory) = some entry)
    (hlink : entry.isLink = false)
    (hsame : tree'.get? (name :: tree.physical directory) = some entry) :
    tree'.entryAt follow (Path.join directory name) =
      tree.entryAt follow (Path.join directory name) := by
  rw [entryAt, entryAt, locate_join hkeeps hdirectory hname hsame hlink,
    locate_join (.refl tree) hdirectory hname hentry hlink]
  split
  · rfl
  · rfl
  · next place hplace =>
    split_ifs at hplace
    cases hplace
    rw [hentry, hsame]

end Paths

end HclTidy.Tree
