import Mathlib
import HclTidy.Organize.Run

/-!
# Stages of a run

A stage takes a session to a value or a failure and a session. Stages that only read leave the tree
as it is, and what they give depends on the tree alone; everything that is made of them does so, too.
-/

set_option autoImplicit false

namespace HclTidy.Run

variable {α β : Type}

/-- What a stage gives on a session, and the session that it leaves. -/
def result (stage : Run α) (session : Session) : Except Failure α × Session := stage.run.run session

/-- What a stage gives on a tree. -/
def value (stage : Run α) (tree : Tree) : Except Failure α := (stage.result ⟨tree, []⟩).1

section Result

variable {stage : Run α} {next : α → Run β} {session session' : Session}

theorem result_emit (event : Event) (session : Session) :
    (emit event).result session = (.ok (), { session with events := event :: session.events }) := rfl

theorem result_emitDetails (notices : List Notice) (session : Session) :
    (emitDetails notices).result session =
      (.ok (), { session with
        events := (notices.map Event.detail).reverse ++ session.events }) := rfl

theorem result_tree (session : Session) : tree.result session = (.ok session.tree, session) := rfl

theorem value_tree_bind (next : Tree → Run β) (t : Tree) :
    (tree >>= next).value t = (next t).value t := rfl

theorem result_setTree (tree : Tree) (session : Session) :
    (setTree tree).result session = (.ok (), { session with tree := tree }) := rfl

theorem result_bind_of_ok {a : α} (h : stage.result session = (.ok a, session')) :
    (stage >>= next).result session = (next a).result session' := by
  change ExceptT.bindCont next (stage.result session).1 (stage.result session).2 = _
  rw [h]
  rfl

theorem result_bind_of_error {failure : Failure}
    (h : stage.result session = (.error failure, session')) :
    (stage >>= next).result session = (.error failure, session') := by
  change ExceptT.bindCont next (stage.result session).1 (stage.result session).2 = _
  rw [h]
  rfl

theorem result_tryCatch_of_ok {handle : Failure → Run α} {a : α}
    (h : stage.result session = (.ok a, session')) :
    (tryCatch stage handle).result session = (.ok a, session') := by
  unfold result at h ⊢
  simp only [tryCatch, tryCatchThe, MonadExceptOf.tryCatch, ExceptT.tryCatch, ExceptT.run_mk,
    StateT.run_bind]
  erw [h]
  rfl

theorem result_tryCatch_of_error {handle : Failure → Run α} {failure : Failure}
    (h : stage.result session = (.error failure, session')) :
    (tryCatch stage handle).result session = (handle failure).result session' := by
  unfold result at h ⊢
  simp only [tryCatch, tryCatchThe, MonadExceptOf.tryCatch, ExceptT.tryCatch, ExceptT.run_mk,
    StateT.run_bind]
  erw [h]
  rfl

/-- A sequence of stages fails in the first one, or goes on with its value. -/
theorem result_bind_cases {r : Except Failure β} (h : (stage >>= next).result session = (r, session')) :
    (∃ failure, stage.result session = (.error failure, session') ∧ r = .error failure) ∨
      ∃ a between, stage.result session = (.ok a, between) ∧
        (next a).result between = (r, session') := by
  cases hstage : stage.result session with
  | mk outcome between =>
    cases outcome with
    | error failure =>
      rw [result_bind_of_error hstage] at h
      cases h
      exact .inl ⟨failure, rfl, rfl⟩
    | ok a =>
      rw [result_bind_of_ok hstage] at h
      exact .inr ⟨a, between, rfl, h⟩

theorem result_bind_ok {b : β} (h : (stage >>= next).result session = (.ok b, session')) :
    ∃ a between, stage.result session = (.ok a, between) ∧
      (next a).result between = (.ok b, session') := by
  obtain ⟨_, -, hfailure⟩ | hnext := result_bind_cases h
  · cases hfailure
  · exact hnext

end Result

/-! ## Reading stages -/

/-- A stage that leaves the tree as it is and gives the same on every session with that tree. -/
structure IsReading (stage : Run α) : Prop where
  tree : ∀ session, (stage.result session).2.tree = session.tree
  value : ∀ session, (stage.result session).1 = stage.value session.tree

section Value

variable {stage : Run α} {a : α}

theorem IsReading.result_eq (h : IsReading stage) (session : Session) :
    ∃ events, stage.result session = (stage.value session.tree, ⟨session.tree, events⟩) :=
  ⟨(stage.result session).2.events, Prod.ext (h.value session) (by rw [← h.tree session])⟩

theorem IsReading.value_of_result (h : IsReading stage) {session session' : Session}
    (hresult : stage.result session = (.ok a, session')) : stage.value session.tree = .ok a := by
  rw [← h.value, hresult]

theorem result_of_value {t : Tree} (h : stage.value t = .ok a) :
    ∃ session', stage.result ⟨t, []⟩ = (.ok a, session') :=
  ⟨_, Prod.ext h rfl⟩

end Value

theorem isReading_pure (a : α) : IsReading (pure a : Run α) := ⟨fun _ => rfl, fun _ => rfl⟩

theorem isReading_throw (failure : Failure) : IsReading (throw failure : Run α) :=
  ⟨fun _ => rfl, fun _ => rfl⟩

theorem isReading_emit (event : Event) : IsReading (emit event) := ⟨fun _ => rfl, fun _ => rfl⟩

theorem isReading_emitDetails (notices : List Notice) : IsReading (emitDetails notices) :=
  ⟨fun _ => rfl, fun _ => rfl⟩

theorem isReading_tree : IsReading tree := ⟨fun _ => rfl, fun _ => rfl⟩

theorem isReading_require (wrap : FileError → Failure) (x : Except FileError α) :
    IsReading (require wrap x) := by
  cases x with
  | ok a => exact isReading_pure a
  | error e => exact isReading_throw _

section Combined

variable {stage : Run α} {next : α → Run β}

theorem IsReading.result_bind (h : IsReading stage) (hnext : ∀ a, IsReading (next a))
    (session : Session) :
    ((stage >>= next).result session).2.tree = session.tree ∧
      ((stage >>= next).result session).1 =
        (stage.value session.tree).bind fun a => (next a).value session.tree := by
  obtain ⟨events, hresult⟩ := h.result_eq session
  cases hvalue : stage.value session.tree with
  | error failure =>
    rw [hvalue] at hresult
    rw [result_bind_of_error hresult]
    exact ⟨rfl, rfl⟩
  | ok a =>
    rw [hvalue] at hresult
    rw [result_bind_of_ok hresult]
    exact ⟨(hnext a).tree _, (hnext a).value _⟩

theorem IsReading.bind (h : IsReading stage) (hnext : ∀ a, IsReading (next a)) :
    IsReading (stage >>= next) :=
  ⟨fun session => (h.result_bind hnext session).1, fun session =>
    (h.result_bind hnext session).2.trans (h.result_bind hnext ⟨session.tree, []⟩).2.symm⟩

theorem IsReading.value_bind (h : IsReading stage) (hnext : ∀ a, IsReading (next a)) (t : Tree) :
    (stage >>= next).value t = (stage.value t).bind fun a => (next a).value t :=
  (h.result_bind hnext ⟨t, []⟩).2

theorem IsReading.map (h : IsReading stage) (f : α → β) : IsReading (f <$> stage) := by
  rw [map_eq_pure_bind]
  exact h.bind fun _ => isReading_pure _

theorem IsReading.result_tryCatch {handle : Failure → Run α} (h : IsReading stage)
    (hhandle : ∀ failure, IsReading (handle failure)) (session : Session) :
    ((tryCatch stage handle).result session).2.tree = session.tree ∧
      ((tryCatch stage handle).result session).1 =
        (stage.value session.tree).tryCatch fun failure => (handle failure).value session.tree := by
  obtain ⟨events, hresult⟩ := h.result_eq session
  cases hvalue : stage.value session.tree with
  | error failure =>
    rw [hvalue] at hresult
    rw [result_tryCatch_of_error hresult]
    exact ⟨(hhandle failure).tree _, (hhandle failure).value _⟩
  | ok a =>
    rw [hvalue] at hresult
    rw [result_tryCatch_of_ok hresult]
    exact ⟨rfl, rfl⟩

theorem IsReading.tryCatch {handle : Failure → Run α} (h : IsReading stage)
    (hhandle : ∀ failure, IsReading (handle failure)) : IsReading (tryCatch stage handle) :=
  ⟨fun session => (h.result_tryCatch hhandle session).1, fun session =>
    (h.result_tryCatch hhandle session).2.trans (h.result_tryCatch hhandle ⟨session.tree, []⟩).2.symm⟩

end Combined

/-! ## What reading stages give -/

section Given

variable {stage : Run α} {next : α → Run β} {session session' : Session}

/-- A sequence that begins with reading goes on with the value on the same tree. -/
theorem IsReading.bind_ok {b : β} (h : IsReading stage)
    (hb : (stage >>= next).result session = (.ok b, session')) :
    ∃ a events, stage.result session = (.ok a, ⟨session.tree, events⟩) ∧
      (next a).result ⟨session.tree, events⟩ = (.ok b, session') := by
  obtain ⟨a, between, hstage, hnext⟩ := result_bind_ok hb
  have htree : between.tree = session.tree := by rw [← h.tree session, hstage]
  refine ⟨a, between.events, ?_, ?_⟩ <;> rw [← htree]
  · exact hstage
  · exact hnext

/-- A sequence that begins with reading fails there, or goes on with the value on the same tree. -/
theorem IsReading.bind_cases {r : Except Failure β} (h : IsReading stage)
    (hb : (stage >>= next).result session = (r, session')) :
    (session'.tree = session.tree ∧ ∃ failure, r = .error failure) ∨
      ∃ a events, stage.value session.tree = .ok a ∧
        (next a).result ⟨session.tree, events⟩ = (r, session') := by
  obtain ⟨failure, hstage, rfl⟩ | ⟨a, between, hstage, hnext⟩ := result_bind_cases hb
  · exact .inl ⟨by rw [← h.tree session, hstage], failure, rfl⟩
  · have htree : between.tree = session.tree := by rw [← h.tree session, hstage]
    exact .inr ⟨a, between.events, h.value_of_result hstage, by rw [← htree]; exact hnext⟩

end Given

/-- A stage gives a value on a tree, unless it fails, for which there is a reason. -/
def Gives (reason : Prop) (stage : Run α) (t : Tree) (a : α) : Prop :=
  stage.value t = .ok a ∨ reason ∧ ∃ failure, stage.value t = .error failure

section Gives

variable {reason : Prop} {stage : Run α} {next : α → Run β} {t : Tree} {a : α} {b : β}

theorem Gives.bind (ha : Gives reason stage t a) (h : IsReading stage)
    (hnext : ∀ a, IsReading (next a)) (hb : Gives reason (next a) t b) :
    Gives reason (stage >>= next) t b := by
  rw [Gives, h.value_bind hnext]
  obtain ha | ⟨hreason, failure, ha⟩ := ha
  · rw [ha]
    exact hb
  · rw [ha]
    exact .inr ⟨hreason, failure, rfl⟩

theorem Gives.of_ok (ha : Gives reason stage t a) {found : α} (h : stage.value t = .ok found) :
    found = a := by
  obtain ha | ⟨-, failure, ha⟩ := ha
  · exact Except.ok.inj (h.symm.trans ha)
  · cases h.symm.trans ha

theorem Gives.value_eq (ha : Gives reason stage t a) (h : ¬reason) : stage.value t = .ok a :=
  ha.resolve_right fun hfailed => h hfailed.1

end Gives

/-! ## Reading over a list -/

section Lists

variable {γ : Type} {l : List γ} {session session' : Session}

theorem isReading_filterMapM {f : γ → Run (Option β)} (h : ∀ a, IsReading (f a)) :
    IsReading (l.filterMapM f) := by
  induction l with
  | nil =>
    rw [List.filterMapM_nil]
    exact isReading_pure _
  | cons a l ih =>
    rw [List.filterMapM_cons]
    refine (h a).bind fun found => ?_
    cases found with
    | none => exact ih
    | some b => exact ih.bind fun _ => isReading_pure _

theorem value_filterMapM {f : γ → Run (Option β)} (h : ∀ a, IsReading (f a)) {t : Tree}
    {g : γ → Option β} (hg : ∀ a ∈ l, (f a).value t = .ok (g a)) :
    (l.filterMapM f).value t = .ok (l.filterMap g) := by
  induction l with
  | nil =>
    rw [List.filterMapM_nil]
    rfl
  | cons a l ih =>
    rw [List.forall_mem_cons] at hg
    rw [List.filterMapM_cons]
    refine ((h a).value_bind (fun found => ?_) t).trans ?_
    · cases found with
      | none => exact isReading_filterMapM h
      | some b => exact (isReading_filterMapM h).bind fun _ => isReading_pure _
    · rw [hg.1]
      cases hfound : g a with
      | none =>
        rw [List.filterMap_cons_none hfound]
        exact ih hg.2
      | some b =>
        rw [List.filterMap_cons_some hfound]
        refine ((isReading_filterMapM h).value_bind (fun _ => isReading_pure _) t).trans ?_
        rw [ih hg.2]
        rfl

/-- When something has been found in a list, each of its elements has given a value. -/
theorem filterMapM_value_ok {f : γ → Run (Option β)} (h : ∀ a, IsReading (f a)) {t : Tree}
    {found : List β} (hfound : (l.filterMapM f).value t = .ok found) :
    ∃ g : γ → Option β, (∀ a ∈ l, (f a).value t = .ok (g a)) ∧ found = l.filterMap g := by
  have hgiven : ∀ a ∈ l, ∃ o, (f a).value t = .ok o := by
    obtain ⟨session', hresult⟩ := result_of_value hfound
    generalize hsession : (⟨t, []⟩ : Session) = session at hresult
    have ht : session.tree = t := by rw [← hsession]
    clear hsession hfound
    induction l generalizing found session session' with
    | nil => exact List.forall_mem_nil _
    | cons a l ih =>
      rw [List.filterMapM_cons] at hresult
      obtain ⟨first, events, hfirst, hrest⟩ := (h a).bind_ok hresult
      refine List.forall_mem_cons.mpr ⟨⟨first, ht ▸ (h a).value_of_result hfirst⟩, ?_⟩
      cases first with
      | none => exact ih _ _ hrest ht
      | some b =>
        obtain ⟨later, _, hlater, -⟩ := result_bind_ok hrest
        exact ih _ _ hlater ht
  have hg : ∀ a ∈ l, (f a).value t = .ok ((f a).value t).toOption.join := by
    intro a ha
    obtain ⟨o, ho⟩ := hgiven a ha
    rw [ho]
    rfl
  refine ⟨fun a => ((f a).value t).toOption.join, hg, ?_⟩
  rw [value_filterMapM h hg] at hfound
  exact (Except.ok.inj hfound).symm

theorem isReading_mapM {f : γ → Run β} (h : ∀ a, IsReading (f a)) : IsReading (l.mapM f) := by
  induction l with
  | nil =>
    rw [List.mapM_nil]
    exact isReading_pure _
  | cons a l ih =>
    rw [List.mapM_cons]
    exact (h a).bind fun _ => ih.bind fun _ => isReading_pure _

theorem gives_mapM {reason : Prop} {f : γ → Run β} (h : ∀ a, IsReading (f a)) {t : Tree} {g : γ → β}
    (hg : ∀ a ∈ l, Gives reason (f a) t (g a)) : Gives reason (l.mapM f) t (l.map g) := by
  induction l with
  | nil =>
    rw [List.mapM_nil]
    exact .inl rfl
  | cons a l ih =>
    rw [List.forall_mem_cons] at hg
    rw [List.mapM_cons]
    exact hg.1.bind (h a) (fun _ => (isReading_mapM h).bind fun _ => isReading_pure _)
      ((ih hg.2).bind (isReading_mapM h) (fun _ => isReading_pure _) (.inl rfl))

theorem isReading_filterAuxM {f : γ → Run Bool} (h : ∀ a, IsReading (f a)) (kept : List γ) :
    IsReading (l.filterAuxM f kept) := by
  induction l generalizing kept with
  | nil => exact isReading_pure _
  | cons a l ih => exact (h a).bind fun b => ih _

theorem isReading_filterM {f : γ → Run Bool} (h : ∀ a, IsReading (f a)) : IsReading (l.filterM f) :=
  (isReading_filterAuxM h []).bind fun _ => isReading_pure _

theorem filterAuxM_ok {f : γ → Run Bool} (h : ∀ a, IsReading (f a)) {kept found : List γ}
    (hfound : (l.filterAuxM f kept).result session = (.ok found, session')) {keep : γ → Bool}
    (hkeep : ∀ a b, (f a).value session.tree = .ok b → keep a = b) :
    found = (l.filter keep).reverse ++ kept := by
  induction l generalizing kept session with
  | nil =>
    cases hfound
    rfl
  | cons a l ih =>
    obtain ⟨b, events, hb, hrest⟩ := (h a).bind_ok hfound
    rw [ih hrest hkeep, List.filter_cons, hkeep a b ((h a).value_of_result hb)]
    cases b with
    | false => rfl
    | true => exact (List.append_cons _ _ _).trans (congrArg (· ++ kept) List.reverse_cons.symm)

/-- Filtering keeps the elements for which the stage gives `true`. -/
theorem filterM_ok {f : γ → Run Bool} (h : ∀ a, IsReading (f a)) {found : List γ}
    (hfound : (l.filterM f).result session = (.ok found, session')) {keep : γ → Bool}
    (hkeep : ∀ a b, (f a).value session.tree = .ok b → keep a = b) : found = l.filter keep := by
  obtain ⟨kept, _, hkept, hpure⟩ := result_bind_ok hfound
  cases hpure
  rw [filterAuxM_ok h hkept hkeep, List.append_nil, List.reverse_reverse]

theorem value_filterAuxM {f : γ → Run Bool} (h : ∀ a, IsReading (f a)) {t : Tree} {keep : γ → Bool}
    (hkeep : ∀ a ∈ l, (f a).value t = .ok (keep a)) (kept : List γ) :
    (l.filterAuxM f kept).value t = .ok ((l.filter keep).reverse ++ kept) := by
  induction l generalizing kept with
  | nil => rfl
  | cons a l ih =>
    rw [List.forall_mem_cons] at hkeep
    rw [List.filterAuxM, (h a).value_bind fun _ => isReading_filterAuxM h _, hkeep.1]
    refine (ih hkeep.2 _).trans ?_
    rw [List.filter_cons]
    cases keep a with
    | false => rfl
    | true => exact congrArg Except.ok ((List.append_cons _ _ _).trans
        (congrArg (· ++ kept) List.reverse_cons.symm))

theorem value_filterM {f : γ → Run Bool} (h : ∀ a, IsReading (f a)) {t : Tree} {keep : γ → Bool}
    (hkeep : ∀ a ∈ l, (f a).value t = .ok (keep a)) : (l.filterM f).value t = .ok (l.filter keep) := by
  rw [List.filterM, (isReading_filterAuxM h _).value_bind fun _ => isReading_pure _,
    value_filterAuxM h hkeep]
  refine congrArg Except.ok ?_
  rw [List.append_nil, List.reverse_reverse]

theorem filterAuxM_isOk {f g : γ → Run Bool} (hf : ∀ a, IsReading (f a)) (hg : ∀ a, IsReading (g a))
    {t t' : Tree} (hfg : ∀ a b, (f a).value t = .ok b → ∃ b', (g a).value t' = .ok b')
    {kept kept' found : List γ} (h : (l.filterAuxM f kept).value t = .ok found) :
    ∃ found', (l.filterAuxM g kept').value t' = .ok found' := by
  induction l generalizing kept kept' with
  | nil => exact ⟨_, rfl⟩
  | cons a l ih =>
    rw [List.filterAuxM, (hf a).value_bind fun _ => isReading_filterAuxM hf _] at h
    rw [List.filterAuxM, (hg a).value_bind fun _ => isReading_filterAuxM hg _]
    cases hb : (f a).value t with
    | error failure =>
      rw [hb] at h
      cases h
    | ok b =>
      rw [hb] at h
      obtain ⟨b', hb'⟩ := hfg a b hb
      rw [hb']
      exact ih h

/-- Filtering succeeds where another one does whose stages succeed on the same elements. -/
theorem filterM_isOk {f g : γ → Run Bool} (hf : ∀ a, IsReading (f a)) (hg : ∀ a, IsReading (g a))
    {t t' : Tree} (hfg : ∀ a b, (f a).value t = .ok b → ∃ b', (g a).value t' = .ok b')
    {found : List γ} (h : (l.filterM f).value t = .ok found) :
    ∃ found', (l.filterM g).value t' = .ok found' := by
  unfold List.filterM at h ⊢
  rw [(isReading_filterAuxM hf _).value_bind fun _ => isReading_pure _] at h
  rw [(isReading_filterAuxM hg _).value_bind fun _ => isReading_pure _]
  cases hkept : (l.filterAuxM f []).value t with
  | error failure =>
    rw [hkept] at h
    cases h
  | ok kept =>
    obtain ⟨kept', hkept'⟩ := filterAuxM_isOk hf hg hfg hkept
    rw [hkept']
    exact ⟨_, rfl⟩

theorem isReading_forM {f : γ → Run PUnit} (h : ∀ a, IsReading (f a)) : IsReading (l.forM f) := by
  induction l with
  | nil => exact isReading_pure _
  | cons a l ih => exact (h a).bind fun _ => ih

end Lists

/-! ## Confined stages -/

/-- A stage keeps what is viewed of a session, and fails only as it is allowed to. -/
def IsConfined {γ : Type} (view : Session → γ) (allowed : Failure → Prop) (stage : Run α) : Prop :=
  ∀ ⦃session session' r⦄, stage.result session = (r, session') →
    view session' = view session ∧ ∀ failure, r = .error failure → allowed failure

section Confined

variable {γ : Type} {view : Session → γ} {allowed : Failure → Prop} {stage : Run α}
  {next : α → Run β}

theorem isConfined_of_ok (h : ∀ session, ∃ a session',
    stage.result session = (.ok a, session') ∧ view session' = view session) :
    IsConfined view allowed stage := by
  intro session session' r hr
  obtain ⟨a, after, hresult, hview⟩ := h session
  rw [hresult] at hr
  cases hr
  exact ⟨hview, fun _ herror => by cases herror⟩

theorem isConfined_pure (a : α) : IsConfined view allowed (pure a : Run α) :=
  isConfined_of_ok fun session => ⟨a, session, rfl, rfl⟩

theorem isConfined_throw {failure : Failure} (h : allowed failure) :
    IsConfined view allowed (throw failure : Run α) := by
  intro session session' r hr
  cases hr
  refine ⟨rfl, fun other hother => ?_⟩
  cases hother
  exact h

theorem isConfined_tree : IsConfined view allowed tree :=
  isConfined_of_ok fun session => ⟨_, _, result_tree session, rfl⟩

theorem isConfined_setTree (h : ∀ session (t : Tree), view { session with tree := t } = view session)
    (t : Tree) : IsConfined view allowed (setTree t) :=
  isConfined_of_ok fun session => ⟨_, _, result_setTree t session, h session t⟩

theorem isConfined_emit {event : Event}
    (h : ∀ session, view { session with events := event :: session.events } = view session) :
    IsConfined view allowed (emit event) :=
  isConfined_of_ok fun session => ⟨_, _, result_emit event session, h session⟩

theorem isConfined_emitDetails {notices : List Notice}
    (h : ∀ session, view { session with
      events := (notices.map Event.detail).reverse ++ session.events } = view session) :
    IsConfined view allowed (emitDetails notices) :=
  isConfined_of_ok fun session => ⟨_, _, result_emitDetails notices session, h session⟩

theorem isConfined_require {wrap : FileError → Failure} (h : ∀ error, allowed (.ofFile wrap error))
    (x : Except FileError α) : IsConfined view allowed (require wrap x) := by
  cases x with
  | ok a => exact isConfined_pure a
  | error error => exact isConfined_throw (h error)

theorem IsConfined.bind (h : IsConfined view allowed stage)
    (hnext : ∀ a, IsConfined view allowed (next a)) : IsConfined view allowed (stage >>= next) := by
  intro session session' r hr
  obtain ⟨failure, hstage, rfl⟩ | ⟨a, between, hstage, hrest⟩ := result_bind_cases hr
  · obtain ⟨hkept, hfails⟩ := h hstage
    refine ⟨hkept, fun other hother => ?_⟩
    cases hother
    exact hfails failure rfl
  · obtain ⟨hkept, hfails⟩ := hnext a hrest
    exact ⟨hkept.trans (h hstage).1, hfails⟩

theorem IsConfined.map (h : IsConfined view allowed stage) (f : α → β) :
    IsConfined view allowed (f <$> stage) := by
  rw [map_eq_pure_bind]
  exact h.bind fun _ => isConfined_pure _

/-- A stage whose failures are handled fails only as the handler does. -/
theorem IsConfined.tryCatch {caught : Failure → Prop} {handle : Failure → Run α}
    (h : IsConfined view caught stage) (hhandle : ∀ failure, IsConfined view allowed (handle failure)) :
    IsConfined view allowed (MonadExcept.tryCatch stage handle) := by
  intro session session' r hr
  cases hstage : stage.result session with
  | mk outcome between =>
    cases outcome with
    | ok a =>
      rw [result_tryCatch_of_ok hstage] at hr
      cases hr
      exact ⟨(h hstage).1, fun _ herror => by cases herror⟩
    | error failure =>
      rw [result_tryCatch_of_error hstage] at hr
      obtain ⟨hkept, hfails⟩ := hhandle failure hr
      exact ⟨hkept.trans (h hstage).1, hfails⟩

theorem isConfined_ite {condition : Prop} [Decidable condition] {stage' : Run α}
    (h : IsConfined view allowed stage) (h' : IsConfined view allowed stage') :
    IsConfined view allowed (if condition then stage else stage') := by
  split
  · exact h
  · exact h'

variable {δ : Type} {l : List δ}

theorem isConfined_filterMapM {f : δ → Run (Option β)} (h : ∀ a, IsConfined view allowed (f a)) :
    IsConfined view allowed (l.filterMapM f) := by
  induction l with
  | nil =>
    rw [List.filterMapM_nil]
    exact isConfined_pure _
  | cons a l ih =>
    rw [List.filterMapM_cons]
    refine (h a).bind fun found => ?_
    cases found with
    | none => exact ih
    | some b => exact ih.bind fun _ => isConfined_pure _

theorem isConfined_mapM {f : δ → Run β} (h : ∀ a, IsConfined view allowed (f a)) :
    IsConfined view allowed (l.mapM f) := by
  induction l with
  | nil =>
    rw [List.mapM_nil]
    exact isConfined_pure _
  | cons a l ih =>
    rw [List.mapM_cons]
    exact (h a).bind fun _ => ih.bind fun _ => isConfined_pure _

theorem isConfined_filterAuxM {f : δ → Run Bool} (h : ∀ a, IsConfined view allowed (f a))
    (kept : List δ) : IsConfined view allowed (l.filterAuxM f kept) := by
  induction l generalizing kept with
  | nil => exact isConfined_pure _
  | cons a l ih => exact (h a).bind fun _ => ih _

theorem isConfined_filterM {f : δ → Run Bool} (h : ∀ a, IsConfined view allowed (f a)) :
    IsConfined view allowed (l.filterM f) :=
  (isConfined_filterAuxM h []).bind fun _ => isConfined_pure _

theorem isConfined_forM {f : δ → Run PUnit} (h : ∀ a, IsConfined view allowed (f a)) :
    IsConfined view allowed (l.forM f) := by
  induction l with
  | nil => exact isConfined_pure _
  | cons a l ih => exact (h a).bind fun _ => ih

end Confined

/-! ## Fronts of a list -/

/-- The front of a list up to an element whose key no other one has. -/
theorem takeWhile_key {α β : Type} [DecidableEq β] (key : α → β) {done rest : List α} {a : α}
    (h : ((done ++ a :: rest).map key).Nodup) :
    (done ++ a :: rest).takeWhile (fun b => key b ≠ key a) = done := by
  rw [List.takeWhile_append_of_pos fun b hb => ?_, List.takeWhile_cons_of_neg (by simp),
    List.append_nil]
  rw [List.map_append, List.nodup_append] at h
  exact decide_eq_true (h.2.2 _ (List.mem_map_of_mem hb) _ (List.mem_map_of_mem List.mem_cons_self))

/-! ## Changing the tree step by step -/

/-- A tree is changed for each element of a list, in order. -/
inductive Steps {γ : Type} (step : γ → Tree → Tree → Prop) : List γ → Tree → Tree → Prop
  | nil {t} : Steps step [] t t
  | cons {a l t t' t''} : step a t t' → Steps step l t' t'' → Steps step (a :: l) t t''

section Steps

variable {γ : Type} {step step' : γ → Tree → Tree → Prop} {l l' : List γ} {t t' t'' : Tree}

theorem Steps.imp (h : Steps step l t t') (himp : ∀ a t t', step a t t' → step' a t t') :
    Steps step' l t t' := by
  induction h with
  | nil => exact .nil
  | cons hfirst _ ih => exact .cons (himp _ _ _ hfirst) ih

theorem Steps.append (h : Steps step l t t') (h' : Steps step l' t' t'') :
    Steps step (l ++ l') t t'' := by
  induction h with
  | nil => exact h'
  | cons hfirst _ ih => exact .cons hfirst (ih h')

end Steps

/-- A loop whose stages change the tree by a step or fail has made steps for a front of its list, and
for the whole list unless the stage of the next element has failed. -/
theorem forM_cases {γ : Type} {step : γ → Tree → Tree → Prop} {fails : γ → Failure → Prop}
    {f : γ → Run PUnit}
    (hf : ∀ a session r session', (f a).result session = (r, session') →
      (session'.tree = session.tree ∧ ∃ failure, r = .error failure ∧ fails a failure) ∨
        (step a session.tree session'.tree ∧ r = .ok ⟨⟩))
    {l : List γ} {session session' : Session} {r : Except Failure PUnit}
    (h : (l.forM f).result session = (r, session')) :
    ∃ done rest, l = done ++ rest ∧ Steps step done session.tree session'.tree ∧
      (r = .ok ⟨⟩ ∧ rest = [] ∨
        ∃ a rest' failure, rest = a :: rest' ∧ r = .error failure ∧ fails a failure) := by
  induction l generalizing session with
  | nil =>
    cases h
    exact ⟨[], [], rfl, .nil, .inl ⟨rfl, rfl⟩⟩
  | cons a l ih =>
    obtain ⟨failure, ha, rfl⟩ | ⟨⟨⟩, between, ha, hrest⟩ := result_bind_cases h
    · obtain ⟨htree, _, hfailure, hfails⟩ | ⟨-, hok⟩ := hf _ _ _ _ ha
      · cases hfailure
        refine ⟨[], a :: l, rfl, ?_, .inr ⟨a, l, failure, rfl, rfl, hfails⟩⟩
        rw [htree]
        exact .nil
      · cases hok
    · obtain ⟨-, failure, hfailure, -⟩ | ⟨hstep, -⟩ := hf _ _ _ _ ha
      · cases hfailure
      · obtain ⟨done, rest, hl, hdone, hends⟩ := ih hrest
        exact ⟨a :: done, rest, congrArg _ hl, .cons hstep hdone, hends⟩

end HclTidy.Run
