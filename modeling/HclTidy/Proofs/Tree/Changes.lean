import HclTidy.Proofs.Tree.WellFormed

/-!
# What operations change

Writing, removing and moving a file change the tree at the places that their paths lead to and
nowhere else; creating directories only adds them. The operations keep a tree closed and well-formed.
-/

set_option autoImplicit false

namespace HclTidy.Tree

section Destination

variable {tree : Tree} {follow : Bool} {links : Nat} {place : Place} {names : List Text}

theorem hasDirectory_tail (h : tree.Closed) (hplace : tree.HasDirectory place) :
    tree.HasDirectory place.tail := by
  obtain ⟨mode, hmode⟩ := hplace
  cases place with
  | nil => exact ⟨mode, hmode⟩
  | cons name place => exact h.parent _ _ _ hmode

theorem hasDirectory_origin (h : tree.Closed) (hplace : tree.HasDirectory place) (path : Text) :
    tree.HasDirectory (origin place path) := by
  unfold origin
  split
  · exact h.root
  · exact hplace

/-- Names that lead to a free name lead to one in a directory. -/
theorem free_of_leads {d : Destination} (hd : Leads tree follow links place names d) {name : Text}
    {parent : Place} (hmissing : d = .missing parent name) :
    tree.HasDirectory parent ∧ tree.get? (name :: parent) = none := by
  induction hd with
  | here => cases hmissing
  | current _ _ ih => exact ih hmissing
  | parent _ _ ih => exact ih hmissing
  | missing hdirectory _ hnone =>
    cases hmissing
    exact ⟨hdirectory, hnone⟩
  | atLink => cases hmissing
  | through _ _ _ _ _ ih => exact ih hmissing
  | onward _ _ _ _ _ ih => exact ih hmissing

/-- Names that lead from an entry to a place lead to an entry. -/
theorem isSome_of_leads (h : tree.Closed) {d : Destination}
    (hd : Leads tree follow links place names d) (hplace : (tree.get? place).isSome) {reached : Place}
    (hfound : d = .found reached) : (tree.get? reached).isSome := by
  induction hd with
  | here =>
    cases hfound
    exact hplace
  | current _ _ ih => exact ih hplace hfound
  | parent hdirectory _ ih =>
    obtain ⟨mode, hmode⟩ := hasDirectory_tail h hdirectory
    exact ih (by rw [hmode]; rfl) hfound
  | missing => cases hfound
  | atLink _ _ _ hlink =>
    cases hfound
    rw [hlink]
    rfl
  | @through links place name rest target d hdirectory _ _ _ _ ih =>
    obtain ⟨mode, hmode⟩ := hasDirectory_origin h hdirectory target
    exact ih (by rw [hmode]; rfl) hfound
  | onward _ _ hentry _ _ ih => exact ih (by rw [hentry]; rfl) hfound

theorem isSome_of_found (h : tree.Closed) {path : Text}
    (hd : tree.locate follow path = .ok (.found place)) : (tree.get? place).isSome := by
  obtain ⟨mode, hmode⟩ := hasDirectory_origin h h.current path
  exact isSome_of_leads h (leads_of_locate hd) (by rw [hmode]; rfl) rfl

theorem free_of_missing {path name : Text}
    (hd : tree.locate follow path = .ok (.missing place name)) :
    tree.HasDirectory place ∧ tree.get? (name :: place) = none :=
  free_of_leads (leads_of_locate hd) rfl

theorem isPiece_of_mem_steps {path name : Text} (h : name ∈ steps path) : name ≠ [] ∧ '/' ∉ name := by
  obtain h | h := List.mem_append.mp h
  · obtain ⟨hmem, hne⟩ := List.mem_filter.mp h
    exact ⟨by simpa using hne, Text.not_mem_of_mem_splitOn _ _ name hmem⟩
  · split at h
    · rw [List.mem_singleton.mp h]
      decide
    · cases h

theorem isName_of_leads {d : Destination} (hd : Leads tree follow links place names d)
    (hnames : ∀ name ∈ names, name ≠ [] ∧ '/' ∉ name) {name : Text} {parent : Place}
    (hmissing : d = .missing parent name) : IsName name := by
  induction hd with
  | here => cases hmissing
  | current _ _ ih => exact ih (List.forall_mem_cons.mp hnames).2 hmissing
  | parent _ _ ih => exact ih (List.forall_mem_cons.mp hnames).2 hmissing
  | missing _ hspecial =>
    cases hmissing
    obtain ⟨hne, hslash⟩ := hnames name List.mem_cons_self
    exact ⟨hne, hslash, hspecial.1, hspecial.2⟩
  | atLink => cases hmissing
  | through _ _ _ _ _ ih =>
    refine ih (fun next hnext => ?_) hmissing
    obtain hnext | hnext := List.mem_append.mp hnext
    · exact isPiece_of_mem_steps hnext
    · exact hnames next (List.mem_cons_of_mem _ hnext)
  | onward _ _ _ _ _ ih => exact ih (List.forall_mem_cons.mp hnames).2 hmissing

/-- A path leads to the root or to a name in a directory. -/
theorem lies_of_locate (h : tree.WellFormed) {path : Text} {d : Destination}
    (hd : tree.locate follow path = .ok d) : tree.Lies d.place := by
  cases d with
  | found place =>
    obtain ⟨entry, hentry⟩ := Option.isSome_iff_exists.mp (isSome_of_found h.closed hd)
    exact h.lies _ (mem_of_lookup hentry)
  | missing parent name =>
    exact ⟨isName_of_leads (leads_of_locate hd) (fun _ => isPiece_of_mem_steps) rfl,
      (free_of_missing hd).1⟩

end Destination

/-! ## Reading and writing -/

/-- A file in the place of a file or of nothing leaves the links as they are. -/
theorem sameLinks_set {tree : Tree} {place : Place} {entry : Entry} (hold : tree.linkAt? place = none)
    (hnew : entry.isLink = false) : SameLinks tree (tree.set place entry) := by
  refine ⟨fun other => ?_, rfl⟩
  by_cases hother : other = place
  · rw [hother, hold]
    exact linkAt?_of_not_link (get?_set_self tree place entry) hnew
  · rw [linkAt?, linkAt?, get?_set_of_ne tree entry hother]

theorem locate_of_entryAt {tree : Tree} {follow : Bool} {path : Text} {place : Place} {entry : Entry}
    (h : tree.entryAt follow path = .ok (place, entry)) :
    tree.locate follow path = .ok (.found place) ∧ tree.get? place = some entry := by
  unfold entryAt at h
  split at h
  · cases h
  · cases h
  · next hlocate =>
    split at h
    · next hget =>
      cases h
      exact ⟨hlocate, hget⟩
    · cases h

/-- What can be read is a file, or something that is neither file nor directory and reads as empty,
at the physical place of the path. -/
theorem readFile_ok {tree : Tree} {path : Text} {bytes : Bytes} (h : tree.readFile path = .ok bytes) :
    ∃ entry, tree.entryAt true path = .ok (tree.physical path, entry) ∧
      tree.get? (tree.physical path) = some entry ∧
      ((∃ mode, entry = .file bytes mode) ∨
        (bytes = [] ∧ entry.isFile = false ∧ entry.isDirectory = false)) := by
  have hplace {place : Place} {entry : Entry} (hentry : tree.entryAt true path = .ok (place, entry)) :
      tree.entryAt true path = .ok (tree.physical path, entry) ∧
        tree.get? (tree.physical path) = some entry := by
    obtain ⟨hlocate, hget⟩ := locate_of_entryAt hentry
    have hphysical := physical_of_locate hlocate
    change place = _ at hphysical
    rw [← hphysical]
    exact ⟨hentry, hget⟩
  unfold readFile at h
  split at h
  · cases h
  · next place content mode hentry =>
    cases h
    exact ⟨_, (hplace hentry).1, (hplace hentry).2, .inl ⟨mode, rfl⟩⟩
  · cases h
  · next place entry hfile hdirectory hentry =>
    cases h
    refine ⟨entry, (hplace hentry).1, (hplace hentry).2, .inr ⟨rfl, ?_⟩⟩
    cases entry with
    | file content mode => exact (hfile _ _ rfl).elim
    | directory mode => exact (hdirectory _ rfl).elim
    | _ => exact ⟨rfl, rfl⟩

/-- What writing a file to a path does: the file is at the physical place of the path afterwards,
unless a device is there. -/
theorem writeFile_ok {tree tree' : Tree} (h : tree.Closed) {path : Text} {mode : Nat} {content : Bytes}
    (hwrite : tree.writeFile path mode content = .ok tree') :
    (∃ kept, tree' = tree.set (tree.physical path) (.file content kept) ∧
      ((∃ old, tree.get? (tree.physical path) = some (.file old kept)) ∨
        ∃ name parent, tree.physical path = name :: parent ∧ tree.HasDirectory parent ∧
          tree.get? (tree.physical path) = none)) ∨
    (tree' = tree ∧ ∃ entry, tree.get? (tree.physical path) = some entry ∧ entry.isFile = false ∧
      entry.isDirectory = false) := by
  unfold writeFile at hwrite
  split at hwrite
  · cases hwrite
  · next parent name hlocate =>
    cases hwrite
    have hplace := physical_of_locate hlocate
    obtain ⟨hparent, hnone⟩ := free_of_missing hlocate
    change name :: parent = _ at hplace
    rw [hplace] at hnone ⊢
    exact .inl ⟨mode, rfl, .inr ⟨name, parent, hplace.symm, hparent, hnone⟩⟩
  · next place hlocate =>
    have hplace := physical_of_locate hlocate
    change place = _ at hplace
    rw [← hplace]
    split at hwrite
    · next old kept hfile =>
      cases hwrite
      exact .inl ⟨kept, rfl, .inl ⟨old, hfile⟩⟩
    · cases hwrite
    · next hfile hdirectory =>
      cases hwrite
      refine .inr ⟨rfl, ?_⟩
      obtain ⟨entry, hentry⟩ := Option.isSome_iff_exists.mp (isSome_of_found h hlocate)
      refine ⟨entry, hentry, ?_, ?_⟩
      · cases entry with
        | file old kept => exact (hfile _ _ hentry).elim
        | _ => rfl
      · cases entry with
        | directory mode => exact (hdirectory _ hentry).elim
        | _ => rfl

section Write

variable {tree tree' : Tree} {path : Text} {mode : Nat} {content : Bytes}

/-- Writing a file changes nothing but the place its path leads to. -/
theorem get?_writeFile (h : tree.Closed) (hwrite : tree.writeFile path mode content = .ok tree')
    {place : Place} (hplace : place ≠ tree.physical path) : tree'.get? place = tree.get? place := by
  obtain ⟨kept, rfl, -⟩ | ⟨rfl, -⟩ := writeFile_ok h hwrite
  · exact get?_set_of_ne tree _ hplace
  · rfl

theorem sameLinks_writeFile (h : tree.Closed) (hwrite : tree.writeFile path mode content = .ok tree') :
    SameLinks tree tree' := by
  obtain ⟨kept, rfl, hold⟩ | ⟨rfl, -⟩ := writeFile_ok h hwrite
  · refine sameLinks_set ?_ rfl
    obtain ⟨old, hfile⟩ | ⟨name, parent, -, -, hnone⟩ := hold
    · exact linkAt?_of_not_link hfile rfl
    · exact linkAt?_of_none hnone
  · exact .refl _

theorem closed_writeFile (h : tree.Closed) (hwrite : tree.writeFile path mode content = .ok tree') :
    tree'.Closed := by
  obtain ⟨kept, rfl, hold⟩ | ⟨rfl, -⟩ := writeFile_ok h hwrite
  · obtain ⟨old, hfile⟩ | ⟨name, parent, hplace, hparent, hnone⟩ := hold
    · cases hplace : tree.physical path with
      | nil =>
        obtain ⟨mode, hmode⟩ := h.root
        rw [hplace, hmode] at hfile
        cases hfile
      | cons name parent =>
        rw [hplace] at hfile
        refine closed_set h (h.parent _ _ _ hfile) fun mode hmode => ?_
        rw [hfile] at hmode
        cases hmode
    · rw [hplace] at hnone ⊢
      refine closed_set h hparent fun mode hmode => ?_
      rw [hnone] at hmode
      cases hmode
  · exact h

theorem wellFormed_writeFile (h : tree.WellFormed)
    (hwrite : tree.writeFile path mode content = .ok tree') : tree'.WellFormed := by
  unfold writeFile at hwrite
  split at hwrite
  · cases hwrite
  · next parent name hlocate =>
    cases hwrite
    refine wellFormed_set h (lies_of_locate h hlocate) fun mode hmode => ?_
    rw [(free_of_missing hlocate).2] at hmode
    cases hmode
  · next place hlocate =>
    split at hwrite
    · next old kept hfile =>
      cases hwrite
      refine wellFormed_set h (lies_of_locate h hlocate) fun mode hmode => ?_
      rw [hfile] at hmode
      cases hmode
    · cases hwrite
    · cases hwrite
      exact h

end Write

/-! ## Faults -/

section Faults

variable {faults : Faults} {tree tree' : Tree} {path : Text} {mode : Nat} {content : Bytes}

theorem ok_of_guard {α : Type} {fault : Option PathFault} {target : Option Text} {a b : α}
    (h : Faults.guard fault path target a = .ok b) : a = b := by
  cases fault with
  | none => exact Except.ok.inj h
  | some fault => cases h

/-- An operation that is guarded by a fault only fails more often. -/
theorem ok_of_bind_guard {α : Type} {operation : Except FileError α} {fault : Option PathFault}
    {target : Option Text} {a : α}
    (h : (operation >>= Faults.guard fault path target) = .ok a) : operation = .ok a := by
  cases operation with
  | error e => cases h
  | ok b => exact congrArg Except.ok (ok_of_guard h)

/-- Overwriting a file writes all bytes or a front of them to it, or does nothing. -/
theorem overwrite_cases {fault : Option WriteFault}
    (h : tree.overwrite faults path mode content = (tree', fault)) :
    (tree' = tree ∧ ∃ error, fault = some (.refused error)) ∨
      (∃ size cause, fault = some (.brokenOff cause) ∧
        tree.writeFile path mode (content.take size) = .ok tree') ∨
      fault = none ∧ tree.writeFile path mode content = .ok tree' := by
  unfold overwrite at h
  dsimp only at h
  split at h
  · cases h
    exact .inl ⟨rfl, _, rfl⟩
  · next after hwritten =>
    have hwritten := ok_of_bind_guard hwritten
    cases h
    cases hwriting : faults.writing path with
    | none =>
      rw [hwriting] at hwritten
      exact .inr (.inr ⟨rfl, hwritten⟩)
    | some broken =>
      rw [hwriting] at hwritten
      exact .inr (.inl ⟨broken.1, broken.2, rfl, hwritten⟩)

/-- On a host where nothing fails, a file that can be written is overwritten. -/
theorem overwrite_none (h : tree.writeFile path mode content = .ok tree') :
    tree.overwrite .none path mode content = (tree', none) := by
  simp only [overwrite, Faults.none, Option.elim, h]
  rfl

end Faults

/-! ## Removing and moving -/

theorem removeFile_ok {faults : Faults} {tree tree' : Tree} {path : Text}
    (h : tree.removeFile faults path = .ok tree') :
    ∃ place entry, tree.locate false path = .ok (.found place) ∧ tree.get? place = some entry ∧
      entry.isDirectory = false ∧ tree' = tree.erase place := by
  unfold removeFile at h
  split at h
  · cases h
  · cases h
  · next place entry hnot hentry =>
    obtain rfl := ok_of_guard h
    obtain ⟨hlocate, hget⟩ := locate_of_entryAt hentry
    refine ⟨place, entry, hlocate, hget, ?_, rfl⟩
    cases entry with
    | directory mode => exact (hnot _ rfl).elim
    | _ => rfl

theorem move_ok {tree tree' : Tree} {old : Place} {entry : Entry} {d : Destination}
    (h : tree.move old entry d = .ok tree') :
    tree' = tree ∧ d.place = old ∨ tree' = (tree.erase old).set d.place entry ∧
      ∀ mode, d = .found d.place → tree.get? d.place ≠ some (.directory mode) := by
  unfold move at h
  split at h
  · next parent name =>
    cases h
    exact .inr ⟨rfl, fun mode hfound => by cases hfound⟩
  · next new =>
    split at h
    · next hsame =>
      cases h
      exact .inl ⟨rfl, hsame⟩
    · split at h
      · cases h
      · next hnot =>
        cases h
        exact .inr ⟨rfl, fun mode _ hmode => hnot mode hmode⟩

/-- What moving an entry does: it is where the target leads to afterwards, and no directory was
there. Moving it to its own place changes nothing. -/
theorem rename_ok {faults : Faults} {tree tree' : Tree} {source target : Text}
    (h : tree.rename faults source target = .ok tree') :
    ∃ old entry d, tree.locate false source = .ok (.found old) ∧ tree.get? old = some entry ∧
      tree.locate false target = .ok d ∧
      (tree' = tree ∧ d.place = old ∨ tree' = (tree.erase old).set d.place entry ∧
        ∀ mode, tree.get? d.place ≠ some (.directory mode)) := by
  unfold rename at h
  replace h := ok_of_bind_guard h
  cases hsource : tree.locate false source with
  | error fault =>
    rw [hsource] at h
    cases h
  | ok start =>
    cases htarget : tree.locate false target with
    | error fault =>
      rw [hsource, htarget] at h
      cases h
    | ok d =>
      rw [hsource, htarget] at h
      cases start with
      | missing => cases h
      | found old =>
        cases hold : tree.get? old with
        | none =>
          simp only [bind, Except.bind, hold] at h
          cases h
        | some entry =>
          simp only [bind, Except.bind, hold] at h
          cases hmove : tree.move old entry d with
          | error fault =>
            rw [hmove] at h
            cases h
          | ok moved =>
            rw [hmove] at h
            cases h
            refine ⟨old, entry, d, rfl, hold, rfl, (move_ok hmove).imp_right ?_⟩
            rintro ⟨hmoved, hnot⟩
            refine ⟨hmoved, fun mode => ?_⟩
            cases d with
            | found new => exact hnot mode rfl
            | missing parent name =>
              rw [show (Destination.missing parent name).place = name :: parent from rfl,
                (free_of_missing htarget).2]
              exact (Option.some_ne_none _).symm

theorem wellFormed_removeFile {faults : Faults} {tree tree' : Tree} {path : Text}
    (h : tree.WellFormed) (hremove : tree.removeFile faults path = .ok tree') :
    tree'.WellFormed := by
  obtain ⟨place, entry, -, hentry, hnot, rfl⟩ := removeFile_ok hremove
  refine wellFormed_erase h fun mode hmode => ?_
  rw [hentry] at hmode
  cases hmode
  cases hnot

/-- Moving what is no directory keeps a tree well-formed. -/
theorem wellFormed_rename {faults : Faults} {tree tree' : Tree} {source target : Text}
    (h : tree.WellFormed) (hmove : tree.rename faults source target = .ok tree')
    (hsource : ∀ place, tree.locate false source = .ok (.found place) → ¬tree.HasDirectory place) :
    tree'.WellFormed := by
  obtain ⟨old, entry, d, hlocate, -, htarget, ⟨rfl, -⟩ | ⟨rfl, hnot⟩⟩ := rename_ok hmove
  · exact h
  · have hold (mode : Nat) : tree.get? old ≠ some (.directory mode) := fun hmode =>
      hsource old hlocate ⟨mode, hmode⟩
    refine wellFormed_set (wellFormed_erase h hold)
      ((lies_of_locate h htarget).imp fun _ => hasDirectory_erase hold) fun mode hmode => ?_
    rw [get?_erase] at hmode
    split at hmode
    · cases hmode
    · exact hnot mode hmode

/-! ## Creating directories -/

/-- The second tree has all entries of the first one, and directories where nothing was. -/
structure GainsDirectories (tree tree' : Tree) : Prop where
  current : tree'.current = tree.current
  kept : ∀ place entry, tree.get? place = some entry → tree'.get? place = some entry
  gained : ∀ place, tree.get? place = none → tree'.get? place = none ∨ tree'.HasDirectory place
  closed : tree.Closed → tree'.Closed
  wellFormed : tree.WellFormed → tree'.WellFormed

namespace GainsDirectories

variable {tree tree' tree'' : Tree}

theorem refl (tree : Tree) : GainsDirectories tree tree :=
  ⟨rfl, fun _ _ => id, fun _ => .inl, id, id⟩

theorem trans (h : GainsDirectories tree tree') (h' : GainsDirectories tree' tree'') :
    GainsDirectories tree tree'' where
  current := h'.current.trans h.current
  kept place entry hentry := h'.kept _ _ (h.kept _ _ hentry)
  gained place hnone := by
    obtain hnone' | ⟨mode, hmode⟩ := h.gained place hnone
    · exact h'.gained place hnone'
    · exact .inr ⟨mode, h'.kept _ _ hmode⟩
  closed hclosed := h'.closed (h.closed hclosed)
  wellFormed hwell := h'.wellFormed (h.wellFormed hwell)

theorem sameLinks (h : GainsDirectories tree tree') : SameLinks tree tree' := by
  refine ⟨fun place => ?_, h.current⟩
  cases hplace : tree.get? place with
  | some entry => rw [linkAt?, linkAt?, hplace, h.kept _ _ hplace]
  | none =>
    rw [linkAt?_of_none hplace]
    obtain hnone | ⟨mode, hmode⟩ := h.gained place hplace
    · exact linkAt?_of_none hnone
    · exact linkAt?_of_not_link hmode rfl

end GainsDirectories

theorem makeDirectory_ok {faults : Faults} {tree tree' : Tree} {path : Text} {mode : Nat}
    (h : tree.makeDirectory faults path mode = .ok tree') : GainsDirectories tree tree' := by
  unfold makeDirectory at h
  split at h
  · cases h
  · cases h
  · next parent name hlocate =>
    obtain rfl := ok_of_guard h
    obtain ⟨hparent, hnone⟩ := free_of_missing hlocate
    have hkept (mode : Nat) : tree.get? (name :: parent) ≠ some (.directory mode) := by
      rw [hnone]
      exact (Option.some_ne_none _).symm
    refine ⟨rfl, fun place entry hentry => ?_, fun place hplace => ?_, fun hclosed =>
      closed_set hclosed hparent hkept, fun hwell =>
        wellFormed_set hwell (lies_of_locate hwell hlocate) hkept⟩
    · rw [get?_set_of_ne, hentry]
      rintro rfl
      rw [hnone] at hentry
      cases hentry
    · rw [get?_set]
      split
      · next heq => exact .inr ⟨mode, by rw [heq, get?_set_self]⟩
      · exact .inl hplace

/-- Whether it succeeds or not, creating directories only adds directories. -/
theorem makeDirectories_gains (faults : Faults) (tree : Tree) (path : Text) (mode : Nat) :
    GainsDirectories tree (tree.makeDirectories faults path mode).1 := by
  induction hlength : path.length using Nat.strong_induction_on generalizing path mode with
  | _ length ih =>
    unfold makeDirectories
    extract_lets head last isMissing above
    have habove : GainsDirectories tree above.1 := by
      unfold above
      split
      · next hshorter =>
        split
        · have hmade := ih _ (hlength ▸ hshorter) (splitLast path).1 defaultDirectoryMode rfl
          split
          · next heq =>
            rw [heq] at hmade
            split <;> exact hmade
          · next heq =>
            rw [heq] at hmade
            exact hmade
        · exact .refl tree
      · exact .refl tree
    clear_value above
    obtain ⟨tree', error⟩ := above
    cases error with
    | some e => exact habove
    | none =>
      dsimp only
      split
      · exact habove
      · split
        · next hmade => exact habove.trans (makeDirectory_ok hmade)
        · split <;> exact habove

end HclTidy.Tree
