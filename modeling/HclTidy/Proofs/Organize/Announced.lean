import HclTidy.Proofs.Organize.Reading

/-!
# What a run announces

A dry run announces the files that would be written. Reading the sources announces none.
-/

set_option autoImplicit false

namespace HclTidy

open Run

/-! ## Announcements -/

/-- The path of the file that an event announces. -/
def Event.announced? : Event → Option Text
  | .wouldCreate path _ _ _ => some path
  | _ => none

/-- The paths of the files that have been announced, in their order. -/
def Session.announced (session : Session) : List Text :=
  (session.events.filterMap Event.announced?).reverse

theorem Session.announced_emit (session : Session) (event : Event) :
    ({ session with events := event :: session.events } : Session).announced =
      session.announced ++ event.announced?.toList := by
  unfold announced
  cases h : event.announced? with
  | none => rw [List.filterMap_cons_none h, Option.toList_none, List.append_nil]
  | some path => rw [List.filterMap_cons_some h, List.reverse_cons, Option.toList_some]

/-- A stage that announces no file. -/
abbrev Run.IsSilent {α : Type} (stage : Run α) : Prop :=
  IsConfined Session.announced (fun _ => True) stage

section Emit

variable {allowed : Failure → Prop}

theorem Run.isConfined_emit_of_none {event : Event} (h : event.announced? = none) :
    IsConfined Session.announced allowed (emit event) :=
  isConfined_emit fun session => by
    rw [Session.announced_emit, h, Option.toList_none, List.append_nil]

theorem Run.isConfined_emitDetails_announced (notices : List Notice) :
    IsConfined Session.announced allowed (emitDetails notices) := by
  refine isConfined_emitDetails fun session => ?_
  have hnone : (notices.map Event.detail).reverse.filterMap Event.announced? = [] := by
    rw [List.filterMap_eq_nil_iff]
    intro event hevent
    obtain ⟨notice, -, rfl⟩ := List.mem_map.mp (List.mem_reverse.mp hevent)
    rfl
  rw [Session.announced, List.filterMap_append, hnone, List.nil_append]
  rfl

end Emit

/-! ## Reading announces nothing -/

namespace Source

variable {faults : Faults}

theorem isSilent_parse (path : Text) (keepSource : Bool) : IsSilent (parse faults path keepSource) := by
  unfold parse
  refine isConfined_tree.bind fun tree => ?_
  split
  · exact isConfined_throw trivial
  · exact isConfined_throw trivial
  · split
    · exact (isConfined_emitDetails_announced _).bind fun _ => isConfined_pure _
    · exact (isConfined_emitDetails_announced _).bind fun _ => isConfined_throw trivial

theorem isSilent_unlessLink (path : Text) (isLink : Bool) :
    IsSilent (if isLink then do
        Run.emit (.skippedLink path)
        pure none
      else pure (some path) : Run (Option Text)) :=
  isConfined_ite ((isConfined_emit_of_none rfl).bind fun _ => isConfined_pure _) (isConfined_pure _)

theorem isSilent_listDirectory (directory : Text) : IsSilent (listDirectory faults directory) := by
  unfold listDirectory
  refine isConfined_tree.bind fun tree =>
    (isConfined_require (fun _ => trivial) _).bind fun children => ?_
  refine isConfined_filterMapM fun (name, entry) => ?_
  cases entry with
  | link target => exact (isConfined_emit_of_none rfl).bind fun _ => isConfined_pure _
  | _ => exact isConfined_pure _

theorem isSilent_walkDirectory (skipped : Text) (depth : Nat) (directory : Text) :
    IsSilent (walkDirectory faults skipped depth directory) := by
  induction depth generalizing directory with
  | zero => exact isConfined_pure _
  | succ depth ih =>
    unfold walkDirectory
    refine isConfined_tree.bind fun tree =>
      (isConfined_require (fun _ => trivial) _).bind fun children => ?_
    exact (isConfined_filterMapM fun child =>
        isConfined_ite (isConfined_pure _) (isSilent_unlessLink _ _)).bind fun inner =>
      (isConfined_filterMapM fun child => isSilent_unlessLink _ _).bind fun own =>
        (isConfined_mapM ih).bind fun below => isConfined_pure _

theorem isSilent_process (path : Text) : IsSilent (process faults path) := by
  unfold process
  refine isConfined_tree.bind fun tree => ?_
  split
  · exact (isConfined_emit_of_none rfl).bind fun _ => isConfined_pure _
  · refine (((isSilent_parse path true).map some).tryCatch fun failure => ?_).bind fun parsed => ?_
    · cases failure with
      | source error => exact (isConfined_emit_of_none rfl).bind fun _ => isConfined_pure _
      | _ => exact isConfined_throw trivial
    · cases parsed with
      | some file => exact (isConfined_emit_of_none rfl).bind fun _ => isConfined_pure _
      | none => exact isConfined_pure _

theorem isSilent_readInput (input : Text) (isDirectory recursive : Bool) :
    IsSilent (readInput faults input isDirectory recursive) := by
  cases isDirectory with
  | false =>
    exact (isConfined_emit_of_none rfl).bind fun _ => (isSilent_parse _ _).bind fun file =>
      (isConfined_emit_of_none rfl).bind fun _ => isConfined_pure _
  | true =>
    rw [readInput_directory]
    refine (isConfined_emit_of_none rfl).bind fun _ => ?_
    have henumerate : IsSilent (enumerate faults input recursive) :=
      isConfined_ite (isConfined_tree.bind fun tree => isSilent_walkDirectory _ _ _)
        (isSilent_listDirectory _)
    exact henumerate.bind fun paths => (isConfined_filterMapM isSilent_process).bind fun files =>
      (isConfined_emit_of_none rfl).bind fun _ => isConfined_pure _

end Source

end HclTidy
