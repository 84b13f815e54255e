import Mathlib
import HclTidy.Layout.Align

/-!
# Runs

What `mapRuns` does to two lists at once. A property of every element that holds whatever the run
around it gives a relation between a list and its image; two lists with related elements have the
same runs, so that related changes of the runs give related images.
-/

set_option autoImplicit false

namespace HclTidy.Layout

/-! ## Related lists -/

section Related

variable {α β : Type} {R S : α → β → Prop}

theorem forall₂_append_left {xs ys : List α} {zs : List β}
    (h : List.Forall₂ R (xs ++ ys) zs) :
    ∃ us vs, zs = us ++ vs ∧ List.Forall₂ R xs us ∧ List.Forall₂ R ys vs := by
  induction xs generalizing zs with
  | nil => exact ⟨[], zs, rfl, .nil, h⟩
  | cons x xs ih =>
    cases h with
    | cons hx hrest =>
      obtain ⟨us, vs, rfl, hus, hvs⟩ := ih hrest
      exact ⟨_ :: us, vs, rfl, .cons hx hus, hvs⟩

theorem forall₂_of_append {xs ys : List α} {us vs : List β}
    (hlength : us.length = xs.length) (h : List.Forall₂ R (xs ++ ys) (us ++ vs)) :
    List.Forall₂ R xs us ∧ List.Forall₂ R ys vs := by
  have htake := List.forall₂_take_append _ us vs h
  have hdrop := List.forall₂_drop_append _ us vs h
  rw [hlength, List.take_left] at htake
  rw [hlength, List.drop_left] at hdrop
  exact ⟨htake, hdrop⟩

theorem exists_of_forall₂ {xs : List α} {ys : List β} (h : List.Forall₂ R xs ys) :
    ∀ x ∈ xs, ∃ y ∈ ys, R x y := by
  induction h with
  | nil => exact List.forall_mem_nil _
  | cons hfirst _ ih =>
    refine List.forall_mem_cons.mpr ⟨⟨_, List.mem_cons_self, hfirst⟩, fun x hx => ?_⟩
    obtain ⟨y, hy, hxy⟩ := ih x hx
    exact ⟨y, List.mem_cons_of_mem _ hy, hxy⟩

theorem forall₂_head? {xs : List α} {ys : List β} (h : List.Forall₂ R xs ys) :
    Option.Rel R xs.head? ys.head? := by
  cases h with
  | nil => exact .none
  | cons hx _ => exact .some hx

theorem forall₂_getLast? {xs : List α} {ys : List β} (h : List.Forall₂ R xs ys) :
    Option.Rel R xs.getLast? ys.getLast? := by
  rw [List.getLast?_eq_head?_reverse, List.getLast?_eq_head?_reverse]
  exact forall₂_head? (List.rel_reverse h)

theorem forall₂_and {xs : List α} {ys : List β} (h : List.Forall₂ R xs ys) (h' : List.Forall₂ S xs ys) :
    List.Forall₂ (fun x y => R x y ∧ S x y) xs ys := by
  induction h with
  | nil => exact .nil
  | cons hx _ ih =>
    cases h' with
    | cons hx' hrest => exact .cons ⟨hx, hx'⟩ (ih hrest)

theorem map_eq_map_iff {γ : Type} {f : α → γ} {g : β → γ} {xs : List α} {ys : List β} :
    xs.map f = ys.map g ↔ List.Forall₂ (fun x y => f x = g y) xs ys := by
  rw [← List.forall₂_eq_eq_eq, List.forall₂_map_left_iff, List.forall₂_map_right_iff]

end Related

section Single

variable {α β : Type} {view : α → Option β} {change : List (α × β) → List α} {T : α → α → Prop}

theorem view_of_mem_takeRun (xs : List α) : ∀ p ∈ takeRun view xs, view p.1 = some p.2 := by
  induction xs with
  | nil => exact List.forall_mem_nil _
  | cons x xs ih =>
    rw [takeRun]
    split
    · exact List.forall_mem_nil _
    · next y hy =>
      intro p hp
      obtain rfl | hp := List.mem_cons.mp hp
      · exact hy
      · exact ih p hp

theorem takeRun_fst (xs : List α) :
    (takeRun view xs).map Prod.fst = xs.take (takeRun view xs).length := by
  induction xs with
  | nil => rfl
  | cons x xs ih =>
    rw [takeRun]
    split
    · rfl
    · rw [List.map_cons, List.length_cons, List.take_succ_cons, ih]

/-- Every element is related to what becomes of it. -/
theorem forall₂_mapRuns (hnone : ∀ x, view x = none → T x x)
    (hchange : ∀ run : List (α × β), (∀ p ∈ run, view p.1 = some p.2) →
      List.Forall₂ T (run.map Prod.fst) (change run)) (xs : List α) :
    List.Forall₂ T xs (mapRuns view change xs) := by
  fun_induction mapRuns view change xs with
  | case1 => exact .nil
  | case2 x rest hx ih => exact .cons (hnone x hx) ih
  | case3 x rest y hx run ih =>
    have hrun : ∀ p ∈ (x, y) :: run, view p.1 = some p.2 := by
      intro p hp
      obtain rfl | hp := List.mem_cons.mp hp
      · exact hx
      · exact view_of_mem_takeRun rest p hp
    have hfst : x :: rest = ((x, y) :: run).map Prod.fst ++ rest.drop run.length := by
      rw [List.map_cons, List.cons_append, takeRun_fst, List.take_append_drop]
    rw [hfst]
    exact List.rel_append (hchange _ hrun) ih

/-! ## Cutting a list between runs -/

theorem takeRun_append {xs ys : List α} (h : ∀ y ∈ ys.head?, view y = none) :
    takeRun view (xs ++ ys) = takeRun view xs := by
  induction xs with
  | nil =>
    cases ys with
    | nil => rfl
    | cons y ys =>
      have hy := h y rfl
      rw [List.nil_append, takeRun, takeRun, hy]
  | cons x xs ih => rw [List.cons_append, takeRun, takeRun, ih]

/-- A run ends in front of an element on which the view is undefined. -/
theorem mapRuns_append (xs : List α) {ys : List α} (h : ∀ y ∈ ys.head?, view y = none) :
    mapRuns view change (xs ++ ys) = mapRuns view change xs ++ mapRuns view change ys := by
  fun_induction mapRuns view change xs with
  | case1 => rfl
  | case2 x rest hx ih =>
    rw [List.cons_append, mapRuns, hx, List.cons_append]
    exact congrArg (x :: ·) ih
  | case3 x rest y hx run ih =>
    have hlength := takeRun_length_le view rest
    rw [List.cons_append, mapRuns, hx]
    change change ((x, y) :: takeRun view (rest ++ ys)) ++ _ = _
    rw [takeRun_append h, List.drop_append_of_le_length hlength, ih, List.append_assoc]

theorem mapRuns_append_of_getLast? {xs : List α} (ys : List α) (h : ∀ x ∈ xs.getLast?, view x = none) :
    mapRuns view change (xs ++ ys) = mapRuns view change xs ++ mapRuns view change ys := by
  obtain rfl | ⟨front, x, rfl⟩ := List.eq_nil_or_concat' xs
  · rw [mapRuns, List.nil_append, List.nil_append]
  · have hx := h x List.getLast?_concat
    have hcons (zs : List α) : mapRuns view change (x :: zs) = x :: mapRuns view change zs := by
      rw [mapRuns, hx]
    have hhead (zs : List α) : ∀ y ∈ (x :: zs).head?, view y = none := by
      rintro y ⟨⟩
      exact hx
    rw [List.append_assoc, List.singleton_append, mapRuns_append _ (hhead ys),
      mapRuns_append _ (hhead []), hcons, hcons, List.append_assoc, mapRuns]
    rfl

theorem mapRuns_eq_self {xs : List α} (h : ∀ x ∈ xs, view x = none) : mapRuns view change xs = xs := by
  induction xs with
  | nil => rw [mapRuns]
  | cons x xs ih =>
    obtain ⟨hx, hxs⟩ := List.forall_mem_cons.mp h
    rw [mapRuns, hx]
    exact congrArg (x :: ·) (ih hxs)

/-- A stretch of elements on which a property holds, as long as it can be. -/
def IsRun (p : α → Bool) (xs run : List α) : Prop :=
  ∃ above below, xs = above ++ (run ++ below) ∧ (∀ x ∈ above.getLast?, p x = false) ∧
    (∀ x ∈ run, p x = true) ∧ ∀ x ∈ below.head?, p x = false

theorem forall₂_takeRun_self {xs : List α} (h : ∀ x ∈ xs, (view x).isSome = true) :
    List.Forall₂ (fun x p => p.1 = x ∧ view x = some p.2) xs (takeRun view xs) := by
  induction xs with
  | nil => exact .nil
  | cons x xs ih =>
    obtain ⟨hx, hxs⟩ := List.forall_mem_cons.mp h
    obtain ⟨y, hy⟩ := Option.isSome_iff_exists.mp hx
    rw [takeRun, hy]
    exact .cons ⟨rfl, hy⟩ (ih hxs)

theorem mapRuns_run {run : List α} (h : ∀ x ∈ run, (view x).isSome = true) (hne : run ≠ []) :
    mapRuns view change run = change (takeRun view run) := by
  obtain ⟨x, rest, rfl⟩ := List.exists_cons_of_ne_nil hne
  obtain ⟨hx, hrest⟩ := List.forall_mem_cons.mp h
  obtain ⟨y, hy⟩ := Option.isSome_iff_exists.mp hx
  have hlength := (forall₂_takeRun_self hrest).length_eq
  rw [mapRuns, takeRun, hy]
  dsimp only
  rw [← hlength, List.drop_length, mapRuns, List.append_nil]

section Cut

variable {γ : Type} {R S : γ → α → Prop} {p : γ → Bool} {xs run : List γ} {ys : List α}

/-- A run on one of two related lists is a run on the other, which is changed at once. -/
theorem IsRun.forall₂_change (h : IsRun p xs run) (hne : run ≠ []) (hR : List.Forall₂ R xs ys)
    (hview : ∀ x y, R x y → (view y).isSome = p x)
    (hlength : ∀ zs, (mapRuns view change zs).length = zs.length)
    (hS : List.Forall₂ S xs (mapRuns view change ys)) :
    ∃ run', List.Forall₂ R run run' ∧ (∀ y ∈ run', (view y).isSome = true) ∧
      List.Forall₂ S run (change (takeRun view run')) := by
  obtain ⟨above, below, rfl, habove, hrun, hbelow⟩ := h
  obtain ⟨above', rest, rfl, hA, hrest⟩ := forall₂_append_left hR
  obtain ⟨run', below', rfl, hC, hB⟩ := forall₂_append_left hrest
  have hnone {x : Option γ} {y : Option α} (hrel : Option.Rel R x y) (hx : ∀ z ∈ x, p z = false) :
      ∀ z ∈ y, view z = none := by
    cases hrel with
    | none => rintro _ ⟨⟩
    | some hz =>
      rintro _ ⟨⟩
      rw [← Option.isNone_iff_eq_none, ← Option.not_isSome, hview _ _ hz, hx _ rfl]
      rfl
  have hsome : ∀ y ∈ run', (view y).isSome = true := by
    intro y hy
    obtain ⟨x, hx, hxy⟩ := exists_of_forall₂ hC.flip y hy
    rw [hview _ _ hxy, hrun x hx]
  have hne' : run' ≠ [] := by
    rintro rfl
    exact hne (List.forall₂_nil_right_iff.mp hC)
  have hwhole : mapRuns view change (above' ++ (run' ++ below')) =
      mapRuns view change above' ++ (change (takeRun view run') ++ mapRuns view change below') := by
    rw [mapRuns_append_of_getLast? _ (hnone (forall₂_getLast? hA) habove),
      mapRuns_append _ (hnone (forall₂_head? hB) hbelow), mapRuns_run hsome hne']
  -- each stretch keeps its length, so the images can be cut in the same places
  rw [hwhole] at hS
  have hbehind := (forall₂_of_append ((hlength above').trans hA.length_eq.symm) hS).2
  refine ⟨run', hC, hsome, (forall₂_of_append ?_ hbehind).1⟩
  have hlen := hlength run'
  rw [mapRuns_run hsome hne'] at hlen
  rw [hlen, hC.length_eq]

end Cut

end Single

section Double

variable {α β α' β' : Type} {view : α → Option β} {change : List (α × β) → List α}
  {view' : α' → Option β'} {change' : List (α' × β') → List α'} {R S : α → α' → Prop}
  {Q : α × β → α' × β' → Prop}

/-- Related elements are both outside of runs, or both inside with related views. -/
def ViewsAgree (view : α → Option β) (view' : α' → Option β') (R S : α → α' → Prop)
    (Q : α × β → α' × β' → Prop) : Prop :=
  ∀ x x', R x x' → (view x = none ∧ view' x' = none ∧ S x x') ∨
    ∃ y y', view x = some y ∧ view' x' = some y' ∧ Q (x, y) (x', y')

theorem forall₂_takeRun (hview : ViewsAgree view view' R S Q) {xs : List α} {xs' : List α'}
    (h : List.Forall₂ R xs xs') : List.Forall₂ Q (takeRun view xs) (takeRun view' xs') := by
  induction h with
  | nil => exact .nil
  | cons hx _ ih =>
    rw [takeRun, takeRun]
    obtain ⟨hy, hy', -⟩ | ⟨y, y', hy, hy', hq⟩ := hview _ _ hx
    · rw [hy, hy']
      exact .nil
    · rw [hy, hy']
      exact .cons hq ih

/-- Lists with related elements have related images. -/
theorem forall₂_mapRuns_mapRuns (hview : ViewsAgree view view' R S Q)
    (hchange : ∀ run run', List.Forall₂ Q run run' → List.Forall₂ S (change run) (change' run'))
    {xs : List α} {xs' : List α'} (h : List.Forall₂ R xs xs') :
    List.Forall₂ S (mapRuns view change xs) (mapRuns view' change' xs') := by
  induction hlen : xs.length using Nat.strongRecOn generalizing xs xs' with
  | ind n ih =>
    subst hlen
    cases h with
    | nil =>
      rw [mapRuns, mapRuns]
      exact .nil
    | cons hx hrest =>
      rename_i x x' rest rest'
      rw [mapRuns, mapRuns]
      obtain ⟨hy, hy', hs⟩ | ⟨y, y', hy, hy', hq⟩ := hview _ _ hx
      · rw [hy, hy']
        exact .cons hs (ih rest.length (Nat.lt_succ_self _) hrest rfl)
      · rw [hy, hy']
        have hrun := forall₂_takeRun hview hrest
        have hdrop := List.forall₂_drop (takeRun view rest).length hrest
        refine List.rel_append (hchange _ _ (.cons hq hrun)) ?_
        rw [← hrun.length_eq]
        refine ih _ ?_ hdrop rfl
        rw [List.length_drop, List.length_cons]
        omega

end Double

theorem maxOf_eq {α β : Type} {f : α → Nat} {g : β → Nat} {xs : List α} {ys : List β}
    (h : List.Forall₂ (fun x y => f x = g y) xs ys) : maxOf f xs = maxOf g ys := by
  rw [maxOf, maxOf, map_eq_map_iff.mpr h]

theorem le_maxOf {α : Type} (measure : α → Nat) {xs : List α} {x : α} (h : x ∈ xs) :
    measure x ≤ maxOf measure xs := by
  have hfold (ns : List Nat) (start : Nat) : start ≤ ns.foldl max start ∧ ∀ n ∈ ns, n ≤ ns.foldl max start := by
    induction ns generalizing start with
    | nil => exact ⟨Nat.le_refl _, List.forall_mem_nil _⟩
    | cons n ns ih =>
      obtain ⟨hstart, hmem⟩ := ih (max start n)
      refine ⟨Nat.le_trans (Nat.le_max_left ..) hstart, List.forall_mem_cons.mpr ⟨?_, hmem⟩⟩
      exact Nat.le_trans (Nat.le_max_right ..) hstart
  exact (hfold _ 0).2 _ (List.mem_map_of_mem h)

end HclTidy.Layout
