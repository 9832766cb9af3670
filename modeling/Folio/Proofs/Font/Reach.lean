import Folio.Font.Catalog

/-!
# What a depth-first walk reaches

The walk through a catalog marks resources when it enters them, so that it ends where forms lead
back to each other. What it lists is nevertheless everything that a chain of forms leads to
(`mem_reachable_iff`): a mark never keeps anything out, because whatever bears it has been listed
and its forms with it (`within_erase`). It takes no more steps than forms are listed in the catalog,
and one (`reachable_eq_walkFor`).

`Listed` says that content may name resources: those of the page, or of a form that is listed in
resources that it may name. A font of such resources is always among `reachableFonts`, also of those
that stand for none because the catalog ends before them.
-/

namespace Folio.Catalog

variable {α : Type} {catalog : Catalog α}

/-- A chain of forms leads there from one of the `seeds` without leaving the `domain`. -/
inductive Within (catalog : Catalog α) (domain seeds : List Nat) : Nat → Prop
  | seed {i : Nat} (hdomain : i ∈ domain) (hseed : i ∈ seeds) : Within catalog domain seeds i
  | child {parent i : Nat} (h : Within catalog domain seeds parent) (hdomain : i ∈ domain)
    (hchild : i ∈ catalog.children parent) : Within catalog domain seeds i

variable {domain seeds : List Nat} {index i : Nat}

theorem not_within_nil : ¬ Within catalog domain [] i := by
  intro h
  induction h with
  | seed _ hseed => exact absurd hseed List.not_mem_nil
  | child _ _ _ ih => exact ih

/-- A seed outside of the domain leads nowhere. -/
theorem within_cons_of_not_mem (hindex : index ∉ domain) :
    Within catalog domain (index :: seeds) i ↔ Within catalog domain seeds i := by
  constructor
  · intro h
    induction h with
    | seed hdomain hseed =>
      rcases List.mem_cons.mp hseed with rfl | hseed
      · exact absurd hdomain hindex
      · exact .seed hdomain hseed
    | child _ hdomain hchild ih => exact .child ih hdomain hchild
  · intro h
    induction h with
    | seed hdomain hseed => exact .seed hdomain (List.mem_cons_of_mem _ hseed)
    | child _ hdomain hchild ih => exact .child ih hdomain hchild

/-- Once a seed is marked, its forms are seeds in its place, and all else is still led to. -/
theorem within_erase (hindex : index ∈ domain) (hne : i ≠ index) :
    Within catalog (domain.erase index) (catalog.children index ++ seeds) i
      ↔ Within catalog domain (index :: seeds) i := by
  constructor
  · intro h
    clear hne
    induction h with
    | seed hdomain hseed =>
      have hdomain := List.mem_of_mem_erase hdomain
      rcases List.mem_append.mp hseed with hchild | hseed
      · exact .child (.seed hindex List.mem_cons_self) hdomain hchild
      · exact .seed hdomain (List.mem_cons_of_mem _ hseed)
    | child _ hdomain hchild ih => exact .child ih (List.mem_of_mem_erase hdomain) hchild
  · intro h
    induction h with
    | seed hdomain hseed =>
      have hseed := (List.mem_cons.mp hseed).resolve_left hne
      exact .seed ((List.mem_erase_of_ne hne).mpr hdomain) (List.mem_append_right _ hseed)
    | @child parent i _ hdomain hchild ih =>
      have hdomain := (List.mem_erase_of_ne hne).mpr hdomain
      -- A chain that comes back to the marked seed may as well begin at its forms.
      by_cases hparent : parent = index
      · subst hparent
        exact .seed hdomain (List.mem_append_left _ hchild)
      · exact .child (ih hparent) hdomain hchild

/-- The walk lists exactly what a chain of forms leads to among what is still unvisited. -/
theorem mem_walk_iff (pending unvisited : List Nat) :
    i ∈ catalog.walk pending unvisited ↔ Within catalog unvisited pending i := by
  fun_induction catalog.walk pending unvisited with
  | case1 unvisited => exact iff_of_false List.not_mem_nil not_within_nil
  | case2 unvisited index rest hindex ih =>
    rw [List.mem_cons, ih]
    by_cases hi : i = index
    · subst hi
      exact iff_of_true (.inl rfl) (.seed hindex List.mem_cons_self)
    · rw [within_erase hindex hi, or_iff_right hi]
  | case3 unvisited index rest hindex ih => rw [ih, within_cons_of_not_mem hindex]

/-- What can be reached is what a chain of forms leads to within the catalog. -/
theorem mem_reachable_iff :
    i ∈ catalog.reachable index ↔ Within catalog (List.range catalog.resources.size) [index] i :=
  mem_walk_iff _ _

/-! ## How long the walk takes -/

/-- The walk as far as it gets in so many steps. -/
def walkFor (catalog : Catalog α) : Nat → List Nat → List Nat → List Nat
  | _, [], _ => []
  | 0, _ :: _, _ => []
  | steps + 1, index :: rest, unvisited =>
    if index ∈ unvisited then
      index :: catalog.walkFor steps (catalog.children index ++ rest) (unvisited.erase index)
    else catalog.walkFor steps rest unvisited

/-- Every step takes one index from those pending, and the children of resources become pending once
at most: what is pending and the children of the unvisited bound the steps. -/
theorem walkFor_eq_walk (pending unvisited : List Nat) :
    ∀ steps, pending.length + (unvisited.flatMap catalog.children).length ≤ steps →
      catalog.walkFor steps pending unvisited = catalog.walk pending unvisited := by
  fun_induction catalog.walk pending unvisited with
  | case1 unvisited => intro steps _; cases steps <;> rfl
  | case2 unvisited index rest hindex ih =>
    intro steps hsteps
    have hsum : (unvisited.flatMap catalog.children).length
        = (catalog.children index).length
          + ((unvisited.erase index).flatMap catalog.children).length := by
      rw [((List.perm_cons_erase hindex).flatMap_right _).length_eq, List.flatMap_cons,
        List.length_append]
    obtain _ | steps := steps
    · rw [List.length_cons] at hsteps
      omega
    · rw [List.length_cons] at hsteps
      rw [walkFor, if_pos hindex, ih steps (by rw [List.length_append]; omega)]
  | case3 unvisited index rest hindex ih =>
    intro steps hsteps
    rw [List.length_cons] at hsteps
    obtain _ | steps := steps
    · omega
    · rw [walkFor, if_neg hindex, ih steps (by omega)]

/-- One step for the start and one for each form that is listed are enough. -/
theorem reachable_eq_walkFor (catalog : Catalog α) (index : Nat) :
    let unvisited := List.range catalog.resources.size
    catalog.reachable index
      = catalog.walkFor (1 + (unvisited.flatMap catalog.children).length) [index] unvisited :=
  (walkFor_eq_walk [index] _ _ (Nat.le_refl (1 + _))).symm

/-! ## What content may name -/

/-- Content may name the resources: they are the page's, or those of a form that is listed in
resources that it may name. -/
inductive Listed (catalog : Catalog α) (index : Nat) : Resources α → Prop
  | page : Listed catalog index (catalog.resourcesAt index)
  | form {resources : Resources α} {name : Text} {object : ExternalObject} {i : Nat}
    (h : Listed catalog index resources) (hlisted : (name, object) ∈ resources.objects)
    (hown : catalog.ofObject object = some i) : Listed catalog index (catalog.resourcesAt i)

theorem resourcesAt_of_size_le (h : catalog.resources.size ≤ i) :
    catalog.resourcesAt i = .empty := by
  rw [resourcesAt, Array.getD_eq_getD_getElem?, Array.getElem?_eq_none h]
  rfl

/-- Resources that content may name can be reached, or stand for none. -/
theorem Listed.reached {resources : Resources α} (h : Listed catalog index resources) :
    resources = .empty ∨ ∃ i ∈ catalog.reachable index, resources = catalog.resourcesAt i := by
  induction h with
  | page =>
    by_cases hsize : index < catalog.resources.size
    · exact .inr ⟨index, mem_reachable_iff.mpr
        (.seed (List.mem_range.mpr hsize) (List.mem_singleton_self _)), rfl⟩
    · exact .inl (resourcesAt_of_size_le (Nat.le_of_not_lt hsize))
  | @form resources name object i _ hlisted hown ih =>
    by_cases hsize : i < catalog.resources.size
    · rcases ih with rfl | ⟨parent, hparent, rfl⟩
      · exact absurd hlisted List.not_mem_nil
      · have hchild : i ∈ catalog.children parent := List.mem_filterMap.mpr ⟨_, hlisted, hown⟩
        exact .inr ⟨i, mem_reachable_iff.mpr
          (.child (mem_reachable_iff.mp hparent) (List.mem_range.mpr hsize) hchild), rfl⟩
    · exact .inl (resourcesAt_of_size_le (Nat.le_of_not_lt hsize))

theorem mem_of_lookup {κ β : Type} [BEq κ] [LawfulBEq κ] {l : List (κ × β)} {k : κ} {b : β}
    (h : l.lookup k = some b) : (k, b) ∈ l := by
  obtain ⟨before, after, rfl, -⟩ := List.lookup_eq_some_iff.mp h
  exact List.mem_append_right _ List.mem_cons_self

/-- Every font that content may select by name can be reached. -/
theorem Listed.mem_reachableFonts {resources : Resources α} (h : Listed catalog index resources)
    {name : Text} {font : Font α} (hfont : resources.font? name = some font) :
    font ∈ catalog.reachableFonts index := by
  have hmem := mem_of_lookup hfont
  rcases h.reached with rfl | ⟨i, hi, rfl⟩
  · exact absurd hmem List.not_mem_nil
  · exact List.mem_flatMap.mpr ⟨i, hi, List.mem_map.mpr ⟨_, hmem, rfl⟩⟩

end Folio.Catalog
