import Folio.Proofs.Font.Reach
import Folio.Proofs.Font.Table

/-!
# Gathering fonts

A font table takes the fonts of a page by a recursion over resources: those that are entered for the
first time are marked, their fonts are added, and then the forms listed there are followed one after
the other, each with all that lies below it. `Gathers` is that recursion with the table and the
marks in its hands. Forms may lead back to where they are listed, so marked resources are passed
over although the recursion is still busy with them.

It comes to one end all the same, which is that of the walk with a list of what is pending
(`gathers_iff`): what the walk lists is what is entered, in that order. Nothing that can be reached
is lost where the recursion turns back (`Catalog.mem_reachableFonts_iff`), and the table has taken
each font that it did not know where the font first came up (`gained_addAll`).
-/

namespace Folio

variable {α : Type}

namespace Catalog

variable {catalog : Catalog α}

/-- The fonts listed in resources. -/
def fontsAt (catalog : Catalog α) (index : Nat) : List (Font α) :=
  (catalog.resourcesAt index).fonts.map (·.2)

/-! ## Walks one after the other -/

theorem walk_of_mem {index : Nat} {unvisited : List Nat} (h : index ∈ unvisited)
    (pending : List Nat) : catalog.walk (index :: pending) unvisited
      = index :: catalog.walk (catalog.children index ++ pending) (unvisited.erase index) := by
  rw [walk, dif_pos h]

theorem walk_of_not_mem {index : Nat} {unvisited : List Nat} (h : index ∉ unvisited)
    (pending : List Nat) :
    catalog.walk (index :: pending) unvisited = catalog.walk pending unvisited := by
  rw [walk, dif_neg h]

/-- What comes later is walked through with what is then still unvisited. -/
theorem walk_append (pending later unvisited : List Nat) :
    catalog.walk (pending ++ later) unvisited = catalog.walk pending unvisited
      ++ catalog.walk later (unvisited.diff (catalog.walk pending unvisited)) := by
  fun_induction catalog.walk pending unvisited with
  | case1 unvisited => rfl
  | case2 unvisited index rest hindex ih =>
    rw [List.cons_append, walk_of_mem hindex, ← List.append_assoc, ih, List.diff_cons]
    rfl
  | case3 unvisited index rest hindex ih => rw [List.cons_append, walk_of_not_mem hindex, ih]

theorem Within.mem_domain {domain seeds : List Nat} {i : Nat}
    (h : Within catalog domain seeds i) : i ∈ domain := by
  cases h with
  | seed hdomain _ => exact hdomain
  | child _ hdomain _ => exact hdomain

theorem nodup_walk (pending unvisited : List Nat) (h : unvisited.Nodup) :
    (catalog.walk pending unvisited).Nodup := by
  fun_induction catalog.walk pending unvisited with
  | case1 unvisited => exact List.nodup_nil
  | case2 unvisited index rest hindex ih =>
    refine (ih (h.erase index)).cons fun hmem => ?_
    exact h.not_mem_erase ((mem_walk_iff _ _).mp hmem).mem_domain
  | case3 unvisited index rest hindex ih => exact ih h

/-! ## What is listed -/

theorem listed_of_mem_reachable {index i : Nat} (h : i ∈ catalog.reachable index) :
    Listed catalog index (catalog.resourcesAt i) := by
  have hwithin := mem_reachable_iff.mp h
  clear h
  induction hwithin with
  | seed _ hseed =>
    rw [List.mem_singleton.mp hseed]
    exact .page
  | child _ _ hchild ih =>
    obtain ⟨⟨name, object⟩, hlisted, hown⟩ := List.mem_filterMap.mp hchild
    exact .form ih hlisted hown

/-- The fonts that can be reached are those listed in resources that content may name. -/
theorem mem_reachableFonts_iff {index : Nat} {font : Font α} :
    font ∈ catalog.reachableFonts index
      ↔ ∃ resources name, Listed catalog index resources ∧ (name, font) ∈ resources.fonts := by
  constructor
  · intro h
    obtain ⟨i, hi, hfont⟩ := List.mem_flatMap.mp h
    obtain ⟨⟨name, _⟩, hlisted, rfl⟩ := List.mem_map.mp hfont
    exact ⟨_, name, listed_of_mem_reachable hi, hlisted⟩
  · rintro ⟨resources, name, h, hlisted⟩
    rcases h.reached with rfl | ⟨i, hi, rfl⟩
    · exact absurd hlisted List.not_mem_nil
    · exact List.mem_flatMap.mpr ⟨i, hi, List.mem_map.mpr ⟨_, hlisted, rfl⟩⟩

end Catalog

namespace FontTable

/-! ## What a table gains -/

theorem Knows.of_key_eq {table : FontTable α} {f g : Font α} (h : table.Knows f)
    (hkey : f.key = g.key) : table.Knows g := by
  rcases h with hcontains | hrejected
  · obtain ⟨e, he, hf⟩ := contains_iff.mp hcontains
    exact .inl (contains_iff.mpr ⟨e, he, hf.trans hkey⟩)
  · exact .inr (hkey ▸ hrejected)

/-- Adding a font makes that font known and no other. -/
theorem knows_add (table : FontTable α) (f : Font α) {g : Font α} :
    (table.add f).1.Knows g ↔ table.Knows g ∨ f.key = g.key := by
  rcases table.add_cases f with ⟨hknown, hadd⟩ | ⟨-, -, hadd⟩ | ⟨-, -, hadd⟩ <;> rw [hadd]
  · exact ⟨.inl, fun h => h.elim id hknown.of_key_eq⟩
  · show (table.contains g = true ∨ g.key ∈ table.rejected ++ [f.key]) ↔ _
    rw [List.mem_append, List.mem_singleton, ← or_assoc, eq_comm (a := g.key)]
    rfl
  · simp only [Knows, contains_iff, List.mem_append, List.mem_singleton, or_and_right, exists_or,
      exists_eq_left]
    exact or_right_comm

theorem knows_addAll {g : Font α} (fonts : List (Font α)) : ∀ table : FontTable α,
    (table.addAll fonts).1.Knows g ↔ table.Knows g ∨ ∃ f ∈ fonts, f.key = g.key := by
  induction fonts with
  | nil => simp [addAll]
  | cons f rest ih =>
    intro table
    rw [addAll_cons, ih, knows_add, or_assoc, List.exists_mem_cons_iff]

/-- Fonts that are known change nothing and are not reported again. -/
theorem addAll_of_knows (fonts : List (Font α)) {table : FontTable α}
    (h : ∀ f ∈ fonts, table.Knows f) : table.addAll fonts = (table, []) := by
  induction fonts with
  | nil => rfl
  | cons f rest ih =>
    have hadd : table.add f = (table, []) := by
      rcases table.add_cases f with ⟨-, hadd⟩ | ⟨hunknown, -⟩ | ⟨hunknown, -⟩
      · exact hadd
      · exact absurd (h f List.mem_cons_self) hunknown
      · exact absurd (h f List.mem_cons_self) hunknown
    rw [addAll_cons, hadd, ih fun g hg => h g (List.mem_cons_of_mem _ hg)]
    rfl

/-- The fonts that the table does not know, each where it first comes up. -/
def arrivals (table : FontTable α) : List (Font α) → List (Font α)
  | [] => []
  | f :: rest =>
    if table.Knows f then table.arrivals rest
    else f :: (table.arrivals rest).filter (·.key != f.key)

/-- For a table that knows one font more, the others arrive as before. -/
theorem arrivals_of_knows {later table : FontTable α} {f : Font α}
    (h : ∀ g, later.Knows g ↔ table.Knows g ∨ f.key = g.key) (fonts : List (Font α)) :
    later.arrivals fonts = (table.arrivals fonts).filter (·.key != f.key) := by
  induction fonts with
  | nil => rfl
  | cons g rest ih =>
    rw [arrivals, arrivals]
    by_cases hknown : table.Knows g
    · rw [if_pos hknown, if_pos ((h g).mpr (.inl hknown)), ih]
    · rw [if_neg hknown]
      by_cases hkey : f.key = g.key
      · rw [if_pos ((h g).mpr (.inr hkey)), ih]
        simp [hkey, List.filter_filter]
      · have hlater : ¬ later.Knows g := fun hg => ((h g).mp hg).elim hknown hkey
        rw [if_neg hlater, ih, List.filter_cons_of_pos (by simpa using Ne.symm hkey),
          List.filter_comm]

/-- Whether no page can refer to the font. -/
def isRefused (font : Font α) : Bool := decide (font.kind = .unsupported)

/-- The table has entered and rejected the fonts that are new to it, in the order in which they
arrive, and has reported those rejected. All that it had stands in front. -/
structure Gained (table : FontTable α) (fonts : List (Font α)) (later : FontTable α) (log : Log) :
    Prop where
  fallback : later.fallback = table.fallback
  entries : ∃ added, later.entries = table.entries ++ added
    ∧ added.map (·.1) = (table.arrivals fonts).filter fun f => !isRefused f
  rejected : later.rejected
    = table.rejected ++ ((table.arrivals fonts).filter isRefused).map (·.key)
  log : log = rejections ((table.arrivals fonts).filter isRefused)

theorem gained_addAll (fonts : List (Font α)) : ∀ table : FontTable α,
    Gained table fonts (table.addAll fonts).1 (table.addAll fonts).2 := by
  induction fonts with
  | nil =>
    intro table
    exact ⟨rfl, ⟨[], (List.append_nil _).symm, rfl⟩, (List.append_nil _).symm, rfl⟩
  | cons f rest ih =>
    intro table
    have harrivals := arrivals_of_knows (fun _ => knows_add table f) rest
    obtain ⟨hfallback, ⟨added, hentries, hadded⟩, hrejected, hlog⟩ := ih (table.add f).1
    rw [addAll_cons]
    rcases table.add_cases f with ⟨hknown, hadd⟩ | ⟨hunknown, hkind, hadd⟩
      | ⟨hunknown, hkind, hadd⟩
    · have hfirst : table.arrivals (f :: rest) = table.arrivals rest := by
        rw [arrivals, if_pos hknown]
      rw [hadd] at hfallback hentries hadded hrejected hlog ⊢
      rw [← hfirst] at hadded hrejected hlog
      exact ⟨hfallback, ⟨added, hentries, hadded⟩, hrejected, hlog⟩
    · have hfirst : table.arrivals (f :: rest) = f :: (table.add f).1.arrivals rest := by
        rw [arrivals, if_neg hunknown, harrivals]
      have hrefused : isRefused f = true := decide_eq_true hkind
      rw [hadd] at hfallback hentries hadded hrejected hlog hfirst ⊢
      refine ⟨hfallback, ⟨added, hentries, ?_⟩, ?_, ?_⟩
      · rw [hadded, hfirst, List.filter_cons_of_neg (by simp [hrefused])]
      · rw [hrejected, hfirst, List.filter_cons_of_pos hrefused, List.map_cons, List.append_assoc]
        rfl
      · rw [hlog, hfirst, List.filter_cons_of_pos hrefused]
        rfl
    · have hfirst : table.arrivals (f :: rest) = f :: (table.add f).1.arrivals rest := by
        rw [arrivals, if_neg hunknown, harrivals]
      have hrefused : isRefused f = false := decide_eq_false hkind
      rw [hadd] at hfallback hentries hadded hrejected hlog hfirst ⊢
      refine ⟨hfallback, ⟨(f, entryFor table.labels f) :: added, ?_, ?_⟩, ?_, ?_⟩
      · rw [hentries, List.append_assoc]
        rfl
      · rw [hfirst, List.filter_cons_of_pos (by simp [hrefused]), List.map_cons, hadded]
      · rw [hrejected, hfirst, List.filter_cons_of_neg (by simp [hrefused])]
      · rw [hlog, hfirst, List.filter_cons_of_neg (by simp [hrefused])]
        rfl

/-! ## The recursion -/

/-- A table on its way through a catalog: what has been entered, in order, and what was reported. -/
structure Round (α : Type) where
  table : FontTable α
  visited : List Nat := []
  log : Log := []

namespace Round

/-- Resources are marked and their fonts added. -/
def enter (catalog : Catalog α) (r : Round α) (index : Nat) : Round α where
  table := (r.table.addAll (catalog.fontsAt index)).1
  visited := r.visited ++ [index]
  log := r.log ++ (r.table.addAll (catalog.fontsAt index)).2

/-- Resources entered one after the other. -/
def enterAll (catalog : Catalog α) (r : Round α) (order : List Nat) : Round α :=
  order.foldl (enter catalog) r

/-- What the catalog has and has not been entered yet. -/
def unvisited (catalog : Catalog α) (r : Round α) : List Nat :=
  (List.range catalog.resources.size).filter fun i => decide (i ∉ r.visited)

variable {catalog : Catalog α}

theorem enterAll_cons (r : Round α) (index : Nat) (order : List Nat) :
    r.enterAll catalog (index :: order) = (r.enter catalog index).enterAll catalog order := rfl

theorem enterAll_append (r : Round α) (first second : List Nat) :
    r.enterAll catalog (first ++ second)
      = (r.enterAll catalog first).enterAll catalog second := List.foldl_append

theorem enterAll_eq (order : List Nat) : ∀ r : Round α,
    r.enterAll catalog order =
      { table := (r.table.addAll (order.flatMap catalog.fontsAt)).1
        visited := r.visited ++ order
        log := r.log ++ (r.table.addAll (order.flatMap catalog.fontsAt)).2 } := by
  induction order with
  | nil =>
    intro r
    show r = ⟨r.table, r.visited ++ [], r.log ++ []⟩
    rw [List.append_nil, List.append_nil]
  | cons index order ih =>
    intro r
    rw [enterAll_cons, ih, List.flatMap_cons, addAll_append]
    simp only [enter, List.append_assoc, List.singleton_append]

theorem mem_unvisited {r : Round α} {i : Nat} :
    i ∈ r.unvisited catalog ↔ i < catalog.resources.size ∧ i ∉ r.visited := by
  rw [unvisited, List.mem_filter, List.mem_range, decide_eq_true_iff]

theorem unvisited_enter (r : Round α) (index : Nat) :
    (r.enter catalog index).unvisited catalog = (r.unvisited catalog).erase index := by
  rw [unvisited, unvisited, (List.nodup_range.filter _).erase_eq_filter, List.filter_filter]
  refine List.filter_congr fun i _ => ?_
  by_cases hi : i = index
  · simp [enter, hi]
  · simp [enter, hi]

theorem unvisited_enterAll (order : List Nat) : ∀ r : Round α,
    (r.enterAll catalog order).unvisited catalog = (r.unvisited catalog).diff order := by
  induction order with
  | nil => intro r; rfl
  | cons index order ih =>
    intro r
    rw [enterAll_cons, ih, unvisited_enter, List.diff_cons]

end Round

/-- The recursion over resources that are pending. Those entered before are passed over, and so are
those that the catalog has nothing for. -/
inductive Gathers (catalog : Catalog α) : Round α → List Nat → Round α → Prop
  | done {r : Round α} : Gathers catalog r [] r
  | again {r r' : Round α} {index : Nat} {pending : List Nat}
    (hpassed : catalog.resources.size ≤ index ∨ index ∈ r.visited)
    (hrest : Gathers catalog r pending r') : Gathers catalog r (index :: pending) r'
  | enter {r r₁ r₂ : Round α} {index : Nat} {pending : List Nat}
    (hsize : index < catalog.resources.size) (hnew : index ∉ r.visited)
    (hforms : Gathers catalog (r.enter catalog index) (catalog.children index) r₁)
    (hrest : Gathers catalog r₁ pending r₂) : Gathers catalog r (index :: pending) r₂

variable {catalog : Catalog α}

/-- However the recursion ends, it has entered what the walk lists. -/
theorem Gathers.eq_enterAll {r r' : Round α} {pending : List Nat}
    (h : Gathers catalog r pending r') :
    r' = r.enterAll catalog (catalog.walk pending (r.unvisited catalog)) := by
  induction h with
  | done =>
    rw [Catalog.walk]
    rfl
  | @again r r' index pending hpassed _ ih =>
    have hindex : index ∉ r.unvisited catalog := by
      rw [Round.mem_unvisited, not_and_or, not_lt, not_not]
      exact hpassed
    rw [Catalog.walk_of_not_mem hindex, ih]
  | @enter r r₁ r₂ index pending hsize hnew _ _ ihforms ihrest =>
    have hindex : index ∈ r.unvisited catalog := Round.mem_unvisited.mpr ⟨hsize, hnew⟩
    rw [Catalog.walk_of_mem hindex, Catalog.walk_append, Round.enterAll_cons,
      Round.enterAll_append, ← Round.unvisited_enter, ← Round.unvisited_enterAll, ← ihforms]
    exact ihrest

theorem Gathers.split {first second : List Nat} : ∀ {r r' : Round α},
    Gathers catalog r (first ++ second) r' →
      ∃ r₁, Gathers catalog r first r₁ ∧ Gathers catalog r₁ second r' := by
  induction first with
  | nil => exact fun h => ⟨_, .done, h⟩
  | cons index first ih =>
    intro r r' h
    cases h with
    | again hpassed hrest =>
      obtain ⟨r₁, hfirst, hsecond⟩ := ih hrest
      exact ⟨r₁, .again hpassed hfirst, hsecond⟩
    | enter hsize hnew hforms hrest =>
      obtain ⟨r₁, hfirst, hsecond⟩ := ih hrest
      exact ⟨r₁, .enter hsize hnew hforms hfirst, hsecond⟩

/-- The recursion ends, since every turn it takes is one of the walk. -/
theorem exists_gathers (pending unvisited : List Nat) : ∀ r : Round α,
    r.unvisited catalog = unvisited → ∃ r', Gathers catalog r pending r' := by
  fun_induction catalog.walk pending unvisited with
  | case1 unvisited => exact fun r _ => ⟨r, .done⟩
  | case2 unvisited index rest hindex ih =>
    rintro r rfl
    obtain ⟨hsize, hnew⟩ := Round.mem_unvisited.mp hindex
    obtain ⟨r', h⟩ := ih (r.enter catalog index) (r.unvisited_enter index)
    obtain ⟨r₁, hforms, hrest⟩ := h.split
    exact ⟨r', .enter hsize hnew hforms hrest⟩
  | case3 unvisited index rest hindex ih =>
    rintro r rfl
    rw [Round.mem_unvisited, not_and_or, not_lt, not_not] at hindex
    obtain ⟨r', hrest⟩ := ih r rfl
    exact ⟨r', .again hindex hrest⟩

theorem gathers_iff {r r' : Round α} {pending : List Nat} :
    Gathers catalog r pending r'
      ↔ r' = r.enterAll catalog (catalog.walk pending (r.unvisited catalog)) := by
  refine ⟨Gathers.eq_enterAll, ?_⟩
  rintro rfl
  obtain ⟨r', h⟩ := exists_gathers pending _ r rfl
  rwa [← h.eq_enterAll]

/-! ## The fonts of a page -/

theorem fonts_update (catalog : Catalog α) (start : Option Nat) :
    (Request.update (start.map fun index => (catalog, index))).fonts
      = (catalog.walk start.toList (List.range catalog.resources.size)).flatMap
          catalog.fontsAt := by
  cases start with
  | none =>
    rw [Option.toList_none, Catalog.walk]
    rfl
  | some index => rfl

theorem unvisited_start (catalog : Catalog α) (table : FontTable α) :
    (⟨table, [], []⟩ : Round α).unvisited catalog = List.range catalog.resources.size :=
  List.filter_eq_self.mpr fun _ _ => rfl

/-- From whatever resources it starts and whatever the table holds, the recursion through forms comes
to exactly one end, which is that of the update. Known is then what was known before or is listed in
resources that forms lead to. No resources are entered twice; behind what the table had stand the
fonts that are new to it, in the order in which they first come up in the resources entered; and the
same update once more changes nothing and reports nothing. -/
theorem update_gathers (table : FontTable α) (catalog : Catalog α) (start : Option Nat) :
    let request : Request α := .update (start.map fun index => (catalog, index))
    ∃ round : Round α,
      (∀ r, Gathers catalog ⟨table, [], []⟩ start.toList r ↔ r = round)
      ∧ table.perform request = (round.table, round.log)
      ∧ (∀ font : Font α, round.table.Knows font ↔ table.Knows font
          ∨ ∃ index ∈ start, ∃ resources name listed, catalog.Listed index resources
            ∧ (name, listed) ∈ resources.fonts ∧ listed.key = font.key)
      ∧ round.visited.Nodup
      ∧ Gained table (round.visited.flatMap catalog.fontsAt) round.table round.log
      ∧ round.table.perform request = (round.table, []) := by
  intro request
  let order := catalog.walk start.toList (List.range catalog.resources.size)
  have hfonts : request.fonts = order.flatMap catalog.fontsAt := fonts_update catalog start
  have hlisted : ∀ font : Font α, (∃ f ∈ request.fonts, f.key = font.key)
      ↔ ∃ index ∈ start, ∃ resources name listed, catalog.Listed index resources
        ∧ (name, listed) ∈ resources.fonts ∧ listed.key = font.key := by
    intro font
    cases start with
    | none => simp [request, Request.fonts]
    | some index =>
      have hmem : ∀ f, f ∈ request.fonts ↔ _ := fun f => Catalog.mem_reachableFonts_iff
      simp only [hmem, Option.mem_some_iff, exists_eq_left']
      constructor
      · rintro ⟨f, ⟨resources, name, h, hname⟩, hkey⟩
        exact ⟨resources, name, f, h, hname, hkey⟩
      · rintro ⟨resources, name, f, h, hname, hkey⟩
        exact ⟨f, ⟨resources, name, h, hname⟩, hkey⟩
  refine ⟨(⟨table, [], []⟩ : Round α).enterAll catalog order, fun r => ?_, ?_⟩
  · rw [gathers_iff, unvisited_start]
  · rw [Round.enterAll_eq, ← hfonts]
    simp only [List.nil_append, ← hfonts]
    refine ⟨perform_eq_addAll table request, fun font => ?_, ?_, gained_addAll _ _, ?_⟩
    · rw [knows_addAll, hlisted]
    · exact Catalog.nodup_walk _ _ List.nodup_range
    · rw [perform_eq_addAll]
      exact addAll_of_knows _ fun f hf => (knows_addAll _ _).mpr (.inr ⟨f, hf, rfl⟩)

end FontTable

end Folio
