import Folio.Proofs.Font.Label

/-!
# The font table over a document

What is asked of a font table, in any order and of any fonts, leaves it in order (`inv_addAll`): no
two entries share a font or a label, no font is both entered and rejected, and each rejected font
was reported once. What it has answered it never takes back (`extends_addAll`), since entries and
rejections are only ever added to. `labels_unique_and_stable` says this of a new table.

A `FontLedger` is a table with the labels that it has given out kept apart from its entries, each of
them found by trying one form after the other. Nothing tells it from the table alone, as these
labels are always those of the entries (`FontLedger.addAll_of`).
-/

namespace Folio.FontTable

variable {α : Type}

/-! ## Looking up -/

theorem contains_iff {table : FontTable α} {font : Font α} :
    table.contains font = true ↔ ∃ e ∈ table.entries, e.1.key = font.key := by
  rw [contains, get?, Option.isSome_map, List.find?_isSome]
  simp only [beq_iff_eq]

theorem mem_of_get? {table : FontTable α} {font : Font α} {entry : FontEntry}
    (h : table.get? font = some entry) : ∃ f, (f, entry) ∈ table.entries ∧ f.key = font.key := by
  obtain ⟨e, he, rfl⟩ := Option.map_eq_some_iff.mp h
  exact ⟨e.1, List.mem_of_find?_eq_some he, by simpa using List.find?_some he⟩

theorem contains_of_get? {table : FontTable α} {font : Font α} {entry : FontEntry}
    (h : table.get? font = some entry) : table.contains font = true := by
  rw [contains, h]
  rfl

/-! ## One font -/

/-- The entry that a font is given when labels are taken. -/
def entryFor (taken : List Text) (font : Font α) : FontEntry where
  family := freeLabel taken font.label
  bold := font.isBold
  italic := font.isItalic
  kind := font.kind

/-- The font has been entered or rejected. -/
def Knows (table : FontTable α) (font : Font α) : Prop :=
  table.contains font = true ∨ font.key ∈ table.rejected

theorem knows_iff {table : FontTable α} {font : Font α} :
    (table.contains font || table.rejected.contains font.key) = true ↔ table.Knows font := by
  rw [Bool.or_eq_true, List.contains_iff_mem]
  rfl

instance (table : FontTable α) (font : Font α) : Decidable (table.Knows font) :=
  decidable_of_iff _ knows_iff

/-- Adding a font that the table knows does nothing; one that it does not know is rejected with a
warning or entered, as its kind says. -/
theorem add_cases (table : FontTable α) (font : Font α) :
    (table.Knows font ∧ table.add font = (table, []))
      ∨ (¬ table.Knows font ∧ font.kind = .unsupported
        ∧ table.add font = ({ table with rejected := table.rejected ++ [font.key] },
          Log.warning (rejection font)))
      ∨ (¬ table.Knows font ∧ font.kind ≠ .unsupported
        ∧ table.add font = ({ table with
            entries := table.entries ++ [(font, entryFor table.labels font)] }, [])) := by
  unfold add
  split
  next h => exact .inl ⟨knows_iff.mp h, rfl⟩
  next h =>
    have hunknown : ¬ table.Knows font := fun h' => h (knows_iff.mpr h')
    split
    next hkind => exact .inr (.inl ⟨hunknown, hkind, rfl⟩)
    next hkind => exact .inr (.inr ⟨hunknown, hkind, rfl⟩)

/-! ## What never changes -/

/-- The later table has all that the table has, where the table has it. -/
structure Extends (later table : FontTable α) : Prop where
  fallback : later.fallback = table.fallback
  entries : table.entries <+: later.entries
  rejected : table.rejected <+: later.rejected

theorem Extends.refl (table : FontTable α) : table.Extends table :=
  ⟨rfl, List.prefix_rfl, List.prefix_rfl⟩

theorem Extends.trans {t₁ t₂ t₃ : FontTable α} (h : t₃.Extends t₂) (h' : t₂.Extends t₁) :
    t₃.Extends t₁ :=
  ⟨h.fallback.trans h'.fallback, h'.entries.trans h.entries, h'.rejected.trans h.rejected⟩

/-- The entry of a font stays as it is. -/
theorem Extends.get? {later table : FontTable α} (h : later.Extends table) {font : Font α}
    {entry : FontEntry} (hget : table.get? font = some entry) : later.get? font = some entry := by
  obtain ⟨more, hmore⟩ := h.entries
  obtain ⟨e, he, rfl⟩ := Option.map_eq_some_iff.mp hget
  rw [FontTable.get?, ← hmore, List.find?_append, he]
  rfl

theorem Extends.unsupportedCount_le {later table : FontTable α} (h : later.Extends table) :
    table.unsupportedCount ≤ later.unsupportedCount := h.rejected.length_le

theorem Extends.knows {later table : FontTable α} (h : later.Extends table) {font : Font α}
    (hknows : table.Knows font) : later.Knows font := by
  rcases hknows with hcontains | hrejected
  · obtain ⟨entry, hentry⟩ := Option.isSome_iff_exists.mp hcontains
    exact .inl (contains_of_get? (h.get? hentry))
  · exact .inr (h.rejected.subset hrejected)

theorem extends_add (table : FontTable α) (font : Font α) : (table.add font).1.Extends table := by
  rcases table.add_cases font with ⟨-, hadd⟩ | ⟨-, -, hadd⟩ | ⟨-, -, hadd⟩ <;> rw [hadd]
  · exact .refl table
  · exact ⟨rfl, List.prefix_rfl, List.prefix_append _ _⟩
  · exact ⟨rfl, List.prefix_append _ _, List.prefix_rfl⟩

theorem extends_addAll (fonts : List (Font α)) :
    ∀ table : FontTable α, (table.addAll fonts).1.Extends table := by
  induction fonts with
  | nil => exact Extends.refl
  | cons font rest ih => exact fun table => (ih _).trans (table.extends_add font)

/-! ## What is never given twice -/

/-- The reports of rejected fonts, one for each. -/
def rejections (fonts : List (Font α)) : Log :=
  fonts.flatMap fun font => Log.warning (rejection font)

/-- The table has come from being asked for the fonts, and the log tells what was rejected. -/
structure Inv (asked : List (Font α)) (table : FontTable α) (log : Log) : Prop where
  /-- No two entries are of one font. -/
  keys : (table.entries.map (·.1.key)).Nodup
  labels : table.labels.Nodup
  isLabel : ∀ label ∈ table.labels, label.IsLabel
  /-- No font is both entered and rejected. -/
  apart : ∀ e ∈ table.entries, e.1.key ∉ table.rejected
  rejected : table.rejected.Nodup
  log : ∃ fonts, (∀ font ∈ fonts, font ∈ asked ∧ font.kind = .unsupported)
    ∧ table.rejected = fonts.map (·.key) ∧ log = rejections fonts
  knows : ∀ font ∈ asked, table.Knows font
  entries : ∀ e ∈ table.entries, e.1 ∈ asked ∧ e.1.kind ≠ .unsupported

theorem inv_start (fallback : Text) : Inv [] ({ fallback := fallback } : FontTable α) [] where
  keys := List.nodup_nil
  labels := List.nodup_nil
  isLabel := fun _ h => absurd h List.not_mem_nil
  apart := fun _ h => absurd h List.not_mem_nil
  rejected := List.nodup_nil
  log := ⟨[], fun _ h => absurd h List.not_mem_nil, rfl, rfl⟩
  knows := fun _ h => absurd h List.not_mem_nil
  entries := fun _ h => absurd h List.not_mem_nil

variable {asked : List (Font α)} {table : FontTable α} {log : Log}

theorem nodup_concat {β : Type} {l : List β} {b : β} (hl : l.Nodup) (hb : b ∉ l) :
    (l ++ [b]).Nodup := List.nodup_append_comm.mp (hl.cons hb)

/-- Being asked for a font that it knows adds nothing to what the table has come from. -/
theorem Inv.ask (h : Inv asked table log) {font : Font α} (hknown : table.Knows font) :
    Inv (asked ++ [font]) table log := by
  obtain ⟨fonts, hfonts, hrejected, hlog⟩ := h.log
  exact
    { keys := h.keys
      labels := h.labels
      isLabel := h.isLabel
      apart := h.apart
      rejected := h.rejected
      log := ⟨fonts, fun f hf => ⟨List.mem_append_left _ (hfonts f hf).1, (hfonts f hf).2⟩,
        hrejected, hlog⟩
      knows := List.forall_mem_append.mpr ⟨h.knows, List.forall_mem_singleton.mpr hknown⟩
      entries := fun e he => ⟨List.mem_append_left _ (h.entries e he).1, (h.entries e he).2⟩ }

/-- A font that is not known is new to the entries and to what has been rejected. -/
theorem new_of_not_knows {font : Font α} (h : ¬ table.Knows font) :
    (∀ e ∈ table.entries, e.1.key ≠ font.key) ∧ font.key ∉ table.rejected :=
  ⟨fun e he hkey => h (.inl (contains_iff.mpr ⟨e, he, hkey⟩)), fun hmem => h (.inr hmem)⟩

theorem Inv.reject (h : Inv asked table log) {font : Font α} (hunknown : ¬ table.Knows font)
    (hkind : font.kind = .unsupported) :
    Inv (asked ++ [font]) { table with rejected := table.rejected ++ [font.key] }
      (log ++ Log.warning (rejection font)) := by
  obtain ⟨hentries, hrejected⟩ := new_of_not_knows hunknown
  obtain ⟨fonts, hfonts, hkeys, hlog⟩ := h.log
  have hself : font ∈ asked ++ [font] := List.mem_append_right _ (List.mem_singleton_self _)
  exact
    { keys := h.keys
      labels := h.labels
      isLabel := h.isLabel
      apart := fun e he hmem => (List.mem_append.mp hmem).elim (h.apart e he) fun hmem =>
        hentries e he (List.mem_singleton.mp hmem)
      rejected := nodup_concat h.rejected hrejected
      log := by
        refine ⟨fonts ++ [font], List.forall_mem_append.mpr ⟨?_, ?_⟩, ?_, ?_⟩
        · exact fun f hf => ⟨List.mem_append_left _ (hfonts f hf).1, (hfonts f hf).2⟩
        · exact List.forall_mem_singleton.mpr ⟨hself, hkind⟩
        · rw [hkeys, List.map_append]
          rfl
        · rw [hlog, rejections, rejections, List.flatMap_append]
          rfl
      knows := by
        have hextends : ({ table with rejected := table.rejected ++ [font.key] } :
            FontTable α).Extends table := ⟨rfl, List.prefix_rfl, List.prefix_append _ _⟩
        refine List.forall_mem_append.mpr ⟨fun f hf => hextends.knows (h.knows f hf), ?_⟩
        exact List.forall_mem_singleton.mpr
          (.inr (List.mem_append_right _ (List.mem_singleton_self _)))
      entries := fun e he => ⟨List.mem_append_left _ (h.entries e he).1, (h.entries e he).2⟩ }

/-- The label of the new entry is free, since `freeLabel` names none that is taken. -/
theorem Inv.enter (h : Inv asked table log) {font : Font α} (hunknown : ¬ table.Knows font)
    (hkind : font.kind ≠ .unsupported) :
    Inv (asked ++ [font])
      { table with entries := table.entries ++ [(font, entryFor table.labels font)] } log := by
  obtain ⟨hentries, hrejected⟩ := new_of_not_knows hunknown
  obtain ⟨fonts, hfonts, hkeys, hlog⟩ := h.log
  have hself : font ∈ asked ++ [font] := List.mem_append_right _ (List.mem_singleton_self _)
  have hlabels : ({ table with
      entries := table.entries ++ [(font, entryFor table.labels font)] } : FontTable α).labels
        = table.labels ++ [freeLabel table.labels font.label] := by
    rw [FontTable.labels, List.map_append]
    rfl
  exact
    { keys := by
        rw [List.map_append]
        refine nodup_concat h.keys fun hmem => ?_
        obtain ⟨e, he, hkey⟩ := List.mem_map.mp hmem
        exact hentries e he hkey
      labels := by
        rw [hlabels]
        exact nodup_concat h.labels (freeLabel_not_mem _ _)
      isLabel := by
        rw [hlabels]
        exact List.forall_mem_append.mpr
          ⟨h.isLabel, List.forall_mem_singleton.mpr (isLabel_freeLabel font.isLabel_label _)⟩
      apart := List.forall_mem_append.mpr ⟨h.apart, List.forall_mem_singleton.mpr hrejected⟩
      rejected := h.rejected
      log := ⟨fonts, fun f hf => ⟨List.mem_append_left _ (hfonts f hf).1, (hfonts f hf).2⟩, hkeys,
        hlog⟩
      knows := by
        have hextends : ({ table with
            entries := table.entries ++ [(font, entryFor table.labels font)] } :
              FontTable α).Extends table := ⟨rfl, List.prefix_append _ _, List.prefix_rfl⟩
        refine List.forall_mem_append.mpr ⟨fun f hf => hextends.knows (h.knows f hf), ?_⟩
        exact List.forall_mem_singleton.mpr (.inl (contains_iff.mpr
          ⟨_, List.mem_append_right _ (List.mem_singleton_self _), rfl⟩))
      entries := List.forall_mem_append.mpr
        ⟨fun e he => ⟨List.mem_append_left _ (h.entries e he).1, (h.entries e he).2⟩,
          List.forall_mem_singleton.mpr ⟨hself, hkind⟩⟩ }

theorem inv_add (h : Inv asked table log) (font : Font α) :
    Inv (asked ++ [font]) (table.add font).1 (log ++ (table.add font).2) := by
  rcases table.add_cases font with ⟨hknown, hadd⟩ | ⟨hunknown, hkind, hadd⟩
    | ⟨hunknown, hkind, hadd⟩ <;> rw [hadd]
  · rw [List.append_nil]
    exact h.ask hknown
  · exact h.reject hunknown hkind
  · rw [List.append_nil]
    exact h.enter hunknown hkind

theorem inv_addAll (fonts : List (Font α)) : ∀ {asked : List (Font α)} {table : FontTable α}
    {log : Log}, Inv asked table log →
      Inv (asked ++ fonts) (table.addAll fonts).1 (log ++ (table.addAll fonts).2) := by
  induction fonts with
  | nil => intro asked table log h; rwa [List.append_nil, addAll, List.append_nil]
  | cons font rest ih =>
    intro asked table log h
    have hrest := ih (inv_add h font)
    rw [List.append_assoc, List.append_assoc] at hrest
    exact hrest

/-- Two fonts with one label are one font. -/
theorem Inv.key_eq (h : Inv asked table log) {f g : Font α} {e e' : FontEntry}
    (hf : table.get? f = some e) (hg : table.get? g = some e') (hfamily : e.family = e'.family) :
    f.key = g.key := by
  obtain ⟨f', hf', hkey⟩ := mem_of_get? hf
  obtain ⟨g', hg', hkey'⟩ := mem_of_get? hg
  have hsame := List.inj_on_of_nodup_map h.labels hf' hg' hfamily
  have hfont : f' = g' := congrArg Prod.fst hsame
  rw [← hkey, hfont, hkey']

theorem Inv.isLabel_of_get? (h : Inv asked table log) {font : Font α} {entry : FontEntry}
    (hget : table.get? font = some entry) : entry.family.IsLabel := by
  obtain ⟨f, hmem, -⟩ := mem_of_get? hget
  exact h.isLabel _ (List.mem_map_of_mem hmem)

theorem Inv.not_rejected (h : Inv asked table log) {font : Font α}
    (hcontains : table.contains font = true) : font.key ∉ table.rejected := by
  obtain ⟨e, he, hkey⟩ := contains_iff.mp hcontains
  rw [← hkey]
  exact h.apart e he

/-! ## Requests -/

/-- What is asked of a font table: to enter a font, or all fonts that can be reached from the
resources of a page, if it has any. -/
inductive Request (α : Type)
  | add (font : Font α)
  | update (found : Option (Catalog α × Nat))

/-- The fonts that a request names, in order. -/
def Request.fonts : Request α → List (Font α)
  | .add font => [font]
  | .update none => []
  | .update (some (catalog, index)) => catalog.reachableFonts index

def perform (table : FontTable α) : Request α → FontTable α × Log
  | .add font => table.add font
  | .update none => (table, [])
  | .update (some (catalog, index)) => table.update catalog index

def performAll (table : FontTable α) : List (Request α) → FontTable α × Log
  | [] => (table, [])
  | request :: rest =>
    let (table, log) := table.perform request
    let (table, more) := table.performAll rest
    (table, log ++ more)

theorem addAll_cons (table : FontTable α) (font : Font α) (rest : List (Font α)) :
    table.addAll (font :: rest) = (((table.add font).1.addAll rest).1,
      (table.add font).2 ++ ((table.add font).1.addAll rest).2) := rfl

theorem performAll_cons (table : FontTable α) (request : Request α) (rest : List (Request α)) :
    table.performAll (request :: rest) = (((table.perform request).1.performAll rest).1,
      (table.perform request).2 ++ ((table.perform request).1.performAll rest).2) := rfl

theorem addAll_append (fonts more : List (Font α)) : ∀ table : FontTable α,
    table.addAll (fonts ++ more)
      = (((table.addAll fonts).1.addAll more).1,
        (table.addAll fonts).2 ++ ((table.addAll fonts).1.addAll more).2) := by
  induction fonts with
  | nil => intro table; rfl
  | cons font rest ih =>
    intro table
    rw [List.cons_append, addAll_cons, ih, addAll_cons, List.append_assoc]

theorem perform_eq_addAll (table : FontTable α) (request : Request α) :
    table.perform request = table.addAll request.fonts := by
  rcases request with font | _ | ⟨catalog, index⟩
  · rw [Request.fonts, addAll_cons, addAll, List.append_nil]
    rfl
  · rfl
  · rfl

/-- It does not matter in how many requests fonts are named. -/
theorem performAll_eq_addAll (requests : List (Request α)) : ∀ table : FontTable α,
    table.performAll requests = table.addAll (requests.flatMap Request.fonts) := by
  induction requests with
  | nil => intro table; rfl
  | cons request rest ih =>
    intro table
    rw [performAll_cons, ih, perform_eq_addAll, List.flatMap_cons, addAll_append]

end Folio.FontTable

namespace Folio

/-- A font table that keeps the labels it has given out apart from its entries. -/
structure FontLedger (α : Type) where
  table : FontTable α
  reserved : List Text := []

namespace FontLedger

variable {α : Type}

/-- Enters a font unless it is known, with a label that is found by trying forms one by one. -/
def add (ledger : FontLedger α) (font : Font α) : FontLedger α × Log :=
  if ledger.table.contains font then (ledger, [])
  else if ledger.table.rejected.contains font.key then (ledger, [])
  else if font.kind = .unsupported then
    ({ ledger with table := { ledger.table with rejected := ledger.table.rejected ++ [font.key] } },
      Log.warning (FontTable.rejection font))
  else
    let family := FontTable.probe ledger.reserved font.label 1
    let entry : FontEntry :=
      { family := family, bold := font.isBold, italic := font.isItalic, kind := font.kind }
    ({ table := { ledger.table with entries := ledger.table.entries ++ [(font, entry)] }
       reserved := ledger.reserved ++ [family] }, [])

def addAll (ledger : FontLedger α) : List (Font α) → FontLedger α × Log
  | [] => (ledger, [])
  | font :: rest =>
    let (ledger, log) := ledger.add font
    let (ledger, more) := ledger.addAll rest
    (ledger, log ++ more)

/-- The ledger that has reserved the labels of the table's entries and no other. -/
def of (table : FontTable α) : FontLedger α := ⟨table, table.labels⟩

theorem add_of (table : FontTable α) (font : Font α) :
    (of table).add font = (of (table.add font).1, (table.add font).2) := by
  have htable : (of table).table = table := rfl
  have hprobe : FontTable.probe (of table).reserved font.label 1
      = FontTable.freeLabel table.labels font.label := FontTable.probe_eq _ _
  simp only [add, FontTable.add, htable, hprobe]
  by_cases hentered : table.contains font = true
  · simp only [hentered, Bool.true_or, if_true]
  · by_cases hrejected : table.rejected.contains font.key = true
    · simp only [hentered, hrejected, Bool.or_true, if_true, if_false, Bool.false_eq_true]
    · simp only [hentered, hrejected, Bool.or_false, if_false, Bool.false_eq_true]
      split
      · rfl
      · simp only [of, FontTable.labels, List.map_append]
        rfl

theorem addAll_of (fonts : List (Font α)) : ∀ table : FontTable α,
    (of table).addAll fonts = (of (table.addAll fonts).1, (table.addAll fonts).2) := by
  induction fonts with
  | nil => intro table; rfl
  | cons font rest ih =>
    intro table
    simp only [addAll, add_of, ih, FontTable.addAll_cons]

/-- Whatever is asked of a new font table, in whatever order and of whatever fonts, every loop for a
label ends and the labels reserved are those of the entries. Each font asked for has been entered or
rejected, and none is both; no two share a label, each rejected one has been reported once, and
further requests change no entry and never reject fewer. -/
theorem labels_unique_and_stable (fallback : Text) (requests : List (FontTable.Request α)) :
    ∃ (table : FontTable α) (log : Log),
      (⟨{ fallback := fallback }, []⟩ : FontLedger α).addAll
          (requests.flatMap FontTable.Request.fonts) = (⟨table, table.labels⟩, log)
      ∧ ({ fallback := fallback } : FontTable α).performAll requests = (table, log)
      ∧ (∀ f ∈ requests.flatMap FontTable.Request.fonts,
          table.contains f = true ∨ f.key ∈ table.rejected)
      ∧ (∀ f, table.contains f = true → f.key ∉ table.rejected)
      ∧ (∀ f g e e', table.get? f = some e → table.get? g = some e' → e.family = e'.family →
          f.key = g.key)
      ∧ (∀ f e, table.get? f = some e → e.family.IsLabel)
      ∧ (∃ fonts : List (Font α), (∀ f ∈ fonts, f.kind = .unsupported)
          ∧ table.rejected = fonts.map (·.key) ∧ table.rejected.Nodup
          ∧ log = FontTable.rejections fonts)
      ∧ ∀ more, (∀ f e, table.get? f = some e → (table.performAll more).1.get? f = some e)
          ∧ table.unsupportedCount ≤ (table.performAll more).1.unsupportedCount := by
  let start : FontTable α := { fallback := fallback }
  have hinv := FontTable.inv_addAll (requests.flatMap FontTable.Request.fonts)
    (FontTable.inv_start (α := α) fallback)
  obtain ⟨fonts, hfonts, hrejected, hlog⟩ := hinv.log
  refine ⟨_, _, addAll_of _ start, FontTable.performAll_eq_addAll requests start, hinv.knows,
    fun f => hinv.not_rejected, fun f g e e' hf hg => hinv.key_eq hf hg,
    fun f e => hinv.isLabel_of_get?,
    ⟨fonts, fun f hf => (hfonts f hf).2, hrejected, hinv.rejected, hlog⟩, fun more => ?_⟩
  rw [FontTable.performAll_eq_addAll more]
  have hextends := FontTable.extends_addAll (more.flatMap FontTable.Request.fonts)
    (start.addAll (requests.flatMap FontTable.Request.fonts)).1
  exact ⟨fun f e => hextends.get?, hextends.unsupportedCount_le⟩

/-- The form that another font goes by already is passed over. -/
example :
    let names := [(1, "AAAAAA+Arial"), (2, "/Arial_2"), (3, "BBBBBB+Arial"), (4, "+")]
    let fonts : List (Font ℚ) := names.map fun name =>
      { key := name.1, name := [], baseFont := some (Text.lit name.2)
        subtype := some (Text.lit "TrueType"), descendantSubtype := none, fontFile := none
        ascent := 0, descent := 0, capHeight := 0, box := none, flags := 0 }
    (({ fallback := [] } : FontTable ℚ).addAll fonts).1.labels
      = [Text.lit "Arial", Text.lit "Arial_2", Text.lit "Arial_3", Text.lit "font"] := by
  decide +kernel

end FontLedger

end Folio
