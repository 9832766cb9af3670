import Folio.Conversion
import Folio.Proofs.Font.Table
import Folio.Proofs.Layout.Counting
import Folio.Proofs.Paragraph.Conservation
import Folio.Proofs.Pdf.Recording

/-!
# Every paragraph has its own label

While a document is laid out, every glyph has a font that the font table knows: the page has listed
it before, and so it has been entered, or rejected as unsupported. A paragraph takes its family from
its last glyph, so with a supported font it carries the label of that font's own entry and never the
fallback (`paragraphs_labelled`).

The table is at every moment that of the fonts listed so far, and the segmenter holds back a run
whose look was the font's at the time (`Labelled`). Entries never change and are never taken back, so
this stays true until the paragraph is written, on whatever page that is.
-/

namespace Folio

variable {α : Type}

/-! ## What a font is shown with -/

namespace FontTable

/-- A text in that font has that family: the label of the font's own entry, or the fallback if it is
rejected. -/
inductive Shows (table : FontTable α) (font : Font α) : Text → Prop
  | entered {entry : FontEntry} (hkind : font.kind ≠ .unsupported)
    (h : (font, entry) ∈ table.entries) (hlabel : entry.family.IsLabel) :
    Shows table font entry.family
  | rejected (hkind : font.kind = .unsupported) (h : font.key ∈ table.rejected) :
    Shows table font table.fallback

theorem Shows.of_extends {table later : FontTable α} {font : Font α} {family : Text}
    (h : table.Shows font family) (hlater : later.Extends table) : later.Shows font family := by
  cases h with
  | entered hkind hentry hlabel => exact .entered hkind (hlater.entries.subset hentry) hlabel
  | rejected hkind hrejected =>
    rw [← hlater.fallback]
    exact .rejected hkind (hlater.rejected.subset hrejected)

/-- The font has been entered or rejected, as its kind says. -/
theorem Shows.known {table : FontTable α} {font : Font α} {family : Text}
    (h : table.Shows font family) :
    (font.kind ≠ .unsupported ∧ ∃ entry, (font, entry) ∈ table.entries)
      ∨ (font.kind = .unsupported ∧ font.key ∈ table.rejected) := by
  cases h with
  | entered hkind hentry _ => exact .inl ⟨hkind, _, hentry⟩
  | rejected hkind hrejected => exact .inr ⟨hkind, hrejected⟩

/-- A supported font is shown with its own label. -/
theorem Shows.own {table : FontTable α} {font : Font α} {family : Text}
    (h : table.Shows font family) (hkind : font.kind ≠ .unsupported) :
    ∃ entry, (font, entry) ∈ table.entries ∧ family = entry.family ∧ family ≠ [] := by
  cases h with
  | entered _ hentry hlabel => exact ⟨_, hentry, rfl, hlabel.1⟩
  | rejected hunsupported _ => exact absurd hunsupported hkind

/-- Of fonts that are told apart by their keys, each is shown with its own label or rejected. -/
theorem Inv.shows_face {asked : List (Font α)} {table : FontTable α} {log : Log}
    (h : Inv asked table log) (hapart : KeysApart asked) {font : Font α} (hfont : font ∈ asked) :
    table.Shows font (table.face (some font)).family := by
  show table.Shows font ((table.get? font).map (·.family) |>.getD table.fallback)
  cases hget : table.get? font with
  | some entry =>
    obtain ⟨f, hentry, hkey⟩ := mem_of_get? hget
    obtain ⟨hasked, hkind⟩ := h.entries _ hentry
    have hsame : f = font := hapart f hasked font hfont hkey
    subst hsame
    exact .entered hkind hentry (h.isLabel_of_get? hget)
  | none =>
    have hunentered : table.contains font ≠ true := by
      rw [contains, hget]
      exact Bool.false_ne_true
    have hrejected := (h.knows font hfont).resolve_left hunentered
    obtain ⟨fonts, hfonts, hkeys, -⟩ := h.log
    rw [hkeys] at hrejected
    obtain ⟨f, hf, hkey⟩ := List.mem_map.mp hrejected
    obtain ⟨hasked, hkind⟩ := hfonts f hf
    have hsame : f = font := hapart f hasked font hfont hkey
    subst hsame
    exact .rejected hkind (hkeys ▸ hrejected)

end FontTable

variable [Scalar α]

namespace Segmenter

/-- The paragraph is that of the glyphs held back, whose last one has a font that is shown with its
family. -/
def Finishes (fonts : FontTable α) (s : Segmenter α) (p : Paragraph α) : Prop :=
  ∃ r face font, s.Holds r face ∧ p = r.paragraph s.options face ∧ r.last.font = some font
    ∧ fonts.Shows font p.family

/-- Nothing is held back, or glyphs whose look is that of the last one's font. -/
def Labelled (fonts : FontTable α) (s : Segmenter α) : Prop :=
  s.Fresh ∨ ∃ r face font, s.Holds r face ∧ r.last.font = some font ∧ fonts.Shows font face.family

variable {fonts : FontTable α} {s : Segmenter α}

theorem Labelled.of_extends {later : FontTable α} (h : s.Labelled fonts)
    (hlater : later.Extends fonts) : s.Labelled later := by
  rcases h with h | ⟨r, face, font, hholds, hfont, hshows⟩
  · exact .inl h
  · exact .inr ⟨r, face, font, hholds, hfont, hshows.of_extends hlater⟩

/-- The invariant reads three fields of the segmenter only. -/
theorem Labelled.of_eq {s' : Segmenter α} (h : s.Labelled fonts) (hoptions : s'.options = s.options)
    (hbuffer : s'.buffer = s.buffer) (hprevious : s'.previous = s.previous) :
    s'.Labelled fonts := by
  rcases h with h | ⟨r, face, font, hholds, hrest⟩
  · exact .inl ⟨hprevious.trans h.previous, hbuffer.trans h.buffer⟩
  · exact .inr ⟨r, face, font, hholds.of_eq hoptions hbuffer hprevious, hrest⟩

/-- What is handed out when a run ends is its paragraph. -/
theorem finishes_of_paragraph? {r : Run α} {face : Face} {font : Font α} (h : s.Holds r face)
    (hfont : r.last.font = some font) (hshows : fonts.Shows font face.family) {p : Paragraph α}
    (hp : r.paragraph? s.options face = some p) : s.Finishes fonts p := by
  unfold Run.paragraph? at hp
  split at hp
  · cases hp
  · cases hp
    exact ⟨r, face, font, h, rfl, hfont, hshows⟩

theorem Labelled.finishes_endPage (h : s.Labelled fonts) {p : Paragraph α}
    (hp : s.endPage.2 = some p) : s.Finishes fonts p := by
  have hflush : s.endPage.2 = s.flush.2 := rfl
  rw [hflush] at hp
  rcases h with h | ⟨r, face, font, hholds, hfont, hshows⟩
  · rw [flush_of_fresh h] at hp
    cases hp
  · rw [(flush_of_holds hholds).1] at hp
    exact finishes_of_paragraph? hholds hfont hshows hp

/-- A glyph whose font is known joins those held back or takes their place, and they make a
paragraph. -/
theorem Labelled.feed (h : s.Labelled fonts) {glyph : Glyph α} {font : Font α}
    (hfont : glyph.font = some font) (hshows : fonts.Shows font (fonts.face (some font)).family)
    {s' : Segmenter α} {out : Option (Paragraph α)} (hfeed : s.feed fonts glyph = .ok (s', out)) :
    s'.Labelled fonts ∧ ∀ p, out = some p → s.Finishes fonts p := by
  rw [← hfont] at hshows
  rcases h with h | ⟨r, face, previous, hholds, hprevious, hlast⟩
  · obtain ⟨s₁, hfirst, -, hholds⟩ := feed_of_fresh h fonts glyph
    rw [hfirst] at hfeed
    cases hfeed
    exact ⟨.inr ⟨_, _, font, hholds, hfont, hshows⟩, fun p hp => by cases hp⟩
  · obtain ⟨-, ⟨hout, hnext⟩ | ⟨hout, hnext⟩⟩ := feed_of_holds hholds hfeed
    · refine ⟨.inr ⟨_, _, font, hnext, ?_, hshows⟩, fun p hp => by rw [hout] at hp; cases hp⟩
      rw [Run.last_snoc, hfont]
    · exact ⟨.inr ⟨_, _, font, hnext, hfont, hshows⟩,
        fun p hp => finishes_of_paragraph? hholds hprevious hlast (hout.symm.trans hp)⟩

end Segmenter

namespace Layout

/-! ## Events as requests -/

/-- What an event asks of a layout. -/
def Request.ofEvent : Event α → Request α
  | .documentBegin title => .documentBegin title
  | .pageBegin number crop rotation => .call (.pageBegin number (some crop) (.whole rotation))
  | .resources catalog index => .call (.resources (some (catalog, index)))
  | .glyph glyph => .call (.glyph glyph)
  | .operator op => .call (.operator op)
  | .pageEnd => .call .pageEnd
  | .documentEnd => .documentEnd

theorem perform_ofEvent (e : Event α) : (Request.ofEvent e).perform = receive e := by
  cases e <;> rfl

/-! ## The invariant -/

/-- The font table is that of the fonts listed, and what is held back is shown by it. -/
structure Labelled (fallback : Text) (listed : List (Font α)) (l : Layout α) : Prop where
  fonts : l.fonts = (({ fallback := fallback } : FontTable α).addAll listed).1
  segmenter : l.segmenter.Labelled l.fonts

variable {fallback : Text} {listed : List (Font α)}

theorem labelled_start (options : Options α) (output : Output) (files : FileTree) :
    (start options output files).Labelled options.fallbackFamily [] :=
  ⟨rfl, .inl ⟨rfl, rfl⟩⟩

theorem Labelled.of_eq {l l' : Layout α} (h : l.Labelled fallback listed)
    (hfonts : l'.fonts = l.fonts) (hsegmenter : l'.segmenter = l.segmenter) :
    l'.Labelled fallback listed := by
  refine ⟨hfonts.trans h.fonts, ?_⟩
  rw [hfonts, hsegmenter]
  exact h.segmenter

theorem Labelled.inv {l : Layout α} (h : l.Labelled fallback listed) :
    ∃ log, FontTable.Inv listed l.fonts log := by
  rw [h.fonts]
  exact ⟨_, FontTable.inv_addAll listed (FontTable.inv_start fallback)⟩

theorem Labelled.survivesOperators :
    SurvivesOperators (Labelled (α := α) fallback listed) where
  of_drawn _ _ h d := h.of_eq d.fonts d.segmenter
  rule := by
    intro s width l h
    rw [run_emit_rule]
    exact h.of_eq rfl rfl
  picture := by
    intro p l h
    rw [run_emit_picture]
    exact h.of_eq rfl rfl

/-- A paragraph that is refused only counts as a failure of the segmenter. -/
theorem Labelled.keeps_takeParagraph (out : Option (Paragraph α)) :
    (takeParagraph out).Keeps (Labelled (α := α) fallback listed) := by
  intro l h
  rw [run_takeParagraph]
  cases out with
  | none => exact h
  | some p =>
    refine ⟨h.fonts, ?_⟩
    show (if l.emitter.output.accepts (l.paragraphHtml p) then l.segmenter
      else l.segmenter.noteFailure).Labelled l.fonts
    split
    · exact h.segmenter
    · exact h.segmenter.of_eq rfl rfl rfl

theorem Labelled.keeps_endPage :
    (endPage : Act (Layout α) Unit).Keeps (Labelled fallback listed) := by
  intro l h
  cases hpage : l.page with
  | none =>
    rw [run_endPage_of_none hpage]
    exact h
  | some page =>
    rw [run_endPage_of_page hpage, run_finishPage]
    -- The segmenter starts afresh, whatever becomes of its last paragraph.
    have hidle : ({ l with segmenter := l.segmenter.endPage.1 } : Layout α).Labelled fallback
        listed := ⟨h.fonts, .inl ⟨rfl, rfl⟩⟩
    have htaken := Labelled.keeps_takeParagraph l.segmenter.endPage.2 _ hidle
    split
    · exact htaken.of_eq rfl rfl
    · exact htaken.of_eq rfl rfl

theorem Labelled.keeps_beginPage (number : Int) (crop : Option (CropBox α)) (rotation : Angle α) :
    (beginPage number crop rotation).Keeps (Labelled fallback listed) := by
  refine keeps_beginPage_of (fun log => Labelled.survivesOperators.report log)
    Labelled.keeps_endPage number crop rotation fun page l h _ => ?_
  have honto : (onto page l).Labelled fallback listed :=
    ⟨h.fonts, .inl (Segmenter.fresh_beginPage l.segmenter page.width)⟩
  rw [run_emit_pageStart_eq]
  exact honto.of_eq rfl rfl

theorem Labelled.keeps_endDocument :
    (endDocument : Act (Layout α) Unit).Keeps (Labelled fallback listed) := by
  have hemit : (emit Emitter.documentEnd).Keeps (Labelled (α := α) fallback listed) :=
    fun l h => h.of_eq rfl rfl
  exact .bind Labelled.keeps_endPage fun _ => .bind hemit fun _ =>
    .bind (.modify fun l h => h.of_eq rfl rfl) fun _ =>
      .modify fun l h => ⟨h.fonts, h.segmenter.of_eq rfl rfl rfl⟩

/-- The font of a glyph that may follow is known, and shown with its own label or rejected. -/
theorem Labelled.shows {l : Layout α} {events : List (Event α)} {glyph : Glyph α}
    (h : l.Labelled fallback (listedFonts events)) (hfollows : Follows events (.glyph glyph)) :
    ∃ font, glyph.font = some font ∧ PageLists events font
      ∧ l.fonts.Shows font (l.fonts.face (some font)).family := by
  obtain ⟨font, hfont, hlists⟩ := hfollows.glyph glyph rfl
  obtain ⟨log, hinv⟩ := h.inv
  exact ⟨font, hfont, hlists, hinv.shows_face hfollows.keysApart_before hlists.mem_listedFonts⟩

theorem Labelled.addGlyph {l : Layout α} (h : l.Labelled fallback listed) {glyph : Glyph α}
    {font : Font α} (hfont : glyph.font = some font)
    (hshows : l.fonts.Shows font (l.fonts.face (some font)).family) :
    ((Layout.addGlyph glyph).run l).2.Labelled fallback listed := by
  cases hpage : l.page with
  | none =>
    rw [run_addGlyph_of_none hpage]
    exact h
  | some page =>
    rw [run_addGlyph_of_page hpage]
    cases hfeed : l.segmenter.feed l.fonts glyph with
    | error e => exact h
    | ok answer =>
      obtain ⟨hnext, -⟩ := h.segmenter.feed hfont hshows hfeed
      exact Labelled.keeps_takeParagraph _ _ ⟨h.fonts, hnext⟩

/-- The fonts of a page are added to those listed before. -/
theorem Labelled.addFonts {l : Layout α} (h : l.Labelled fallback listed) (catalog : Catalog α)
    (index : Nat) :
    ((Layout.addFonts (some (catalog, index))).run l).2.Labelled fallback
      (listed ++ catalog.reachableFonts index) := by
  have hextends := FontTable.extends_addAll (catalog.reachableFonts index) l.fonts
  have hfonts : (l.fonts.addAll (catalog.reachableFonts index)).1
      = (({ fallback := fallback } : FontTable α).addAll
          (listed ++ catalog.reachableFonts index)).1 := by
    rw [FontTable.addAll_append, h.fonts]
  exact ⟨hfonts, h.segmenter.of_extends hextends⟩

/-- Every event that may follow keeps the invariant. -/
theorem Labelled.receive {events : List (Event α)} {e : Event α} (hfollows : Follows events e)
    {l : Layout α} (h : l.Labelled fallback (listedFonts events)) :
    ((Layout.receive e).run l).2.Labelled fallback (listedFonts (events ++ [e])) := by
  -- Only the resources of a page list anything new.
  have hsilent : e.fonts = [] → listedFonts (events ++ [e]) = listedFonts events := by
    intro hfonts
    rw [listedFonts_concat, hfonts, List.append_nil]
  cases e with
  | resources catalog index =>
    rw [listedFonts_concat]
    exact h.addFonts catalog index
  | glyph glyph =>
    obtain ⟨font, hfont, -, hshows⟩ := h.shows hfollows
    rw [hsilent rfl]
    exact h.addGlyph hfont hshows
  | documentBegin title =>
    rw [hsilent rfl, Layout.receive, beginDocument, run_emit_documentStart]
    exact h.of_eq rfl rfl
  | pageBegin number crop rotation =>
    rw [hsilent rfl]
    exact Labelled.keeps_beginPage number (some crop) (.whole rotation) l h
  | operator op =>
    rw [hsilent rfl]
    exact Labelled.survivesOperators.addOperator op l h
  | pageEnd =>
    rw [hsilent rfl]
    exact Labelled.keeps_endPage l h
  | documentEnd =>
    rw [hsilent rfl]
    exact Labelled.keeps_endDocument l h

/-- Whatever event a paragraph is handed out on, it is that of the glyphs held back. -/
theorem Labelled.finishes_handed {events : List (Event α)} {e : Event α}
    (hfollows : Follows events e) {l : Layout α} (h : l.Labelled fallback (listedFonts events))
    {p : Paragraph α} (hp : l.handed (.ofEvent e) = some p) : l.segmenter.Finishes l.fonts p := by
  cases e with
  | glyph glyph =>
    obtain ⟨font, hfont, -, hshows⟩ := h.shows hfollows
    rw [Request.ofEvent, handed] at hp
    cases hfeed : l.segmenter.feed l.fonts glyph with
    | error fault =>
      rw [hfeed] at hp
      cases hp
    | ok answer =>
      rw [hfeed] at hp
      exact (h.segmenter.feed hfont hshows hfeed).2 p hp
  | pageBegin | pageEnd | documentEnd => exact h.segmenter.finishes_endPage hp
  | documentBegin | resources | operator => cases hp

end Layout

/-! ## Documents -/

namespace Press

/-- However far a document has been heard, its layout is labelled. -/
theorem labelled_of_heard {options : Options α} {output : Output} {files : FileTree}
    {record : Record α (Press α)} {p : Press α}
    (h : listener.Heard { layout := .start options output files } record p) :
    p.layout.Labelled options.fallbackFamily (listedFonts (record.map (·.2))) := by
  induction h with
  | start => exact Layout.labelled_start options output files
  | receive _ hfollows ih =>
    rw [List.map_append]
    exact ih.receive hfollows
  | report _ _ ih => exact ih.of_eq rfl rfl
  | progress _ _ _ ih => exact ih

/-- A document is laid out with a record of its events, which changes nothing else. At each of them
the font table is that of the fonts which pages have listed so far. Every glyph has a font that the
page at hand has listed and that has been entered, or rejected as unsupported. Every paragraph that
is handed out is that of the glyphs held back, the last one of which has a font; if this is a
supported one, the paragraph carries the label of that font's own entry, which is never empty. -/
theorem paragraphs_labelled (document : Pdf.Document α) (selection : Option (List Int))
    (options : Options α) (output : Output) (files : FileTree) :
    ∃ (answer : Except Fault Unit) (last : Press α) (record : Record α (Press α)),
      run document selection options output files = (answer, last)
        ∧ (document.run listener.recording selection).run
            ({ layout := .start options output files }, []) = (answer, last, record)
        ∧ ∀ before p e after, record = before ++ (p, e) :: after →
          p.layout.fonts = (({ fallback := options.fallbackFamily } : FontTable α).addAll
              (listedFonts (before.map (·.2)))).1
          ∧ (∀ glyph, e = .glyph glyph → ∃ font, glyph.font = some font
            ∧ PageLists (before.map (·.2)) font
            ∧ ((font.kind ≠ .unsupported ∧ ∃ entry, (font, entry) ∈ p.layout.fonts.entries)
              ∨ (font.kind = .unsupported ∧ font.key ∈ p.layout.fonts.rejected)))
          ∧ ∀ paragraph, p.layout.handed (.ofEvent e) = some paragraph →
            ∃ r face font, p.layout.segmenter.Holds r face
              ∧ paragraph = Run.paragraph p.layout.segmenter.options face r
              ∧ r.last.font = some font
              ∧ (font.kind ≠ .unsupported → ∃ entry, (font, entry) ∈ p.layout.fonts.entries
                ∧ paragraph.family = entry.family ∧ paragraph.family ≠ []) := by
  obtain ⟨answer, last, record, hrun, hrecording, hheard⟩ :=
    document.run_recording listener selection { layout := .start options output files }
  refine ⟨answer, last, record, hrun, hrecording, fun before p e after hrecord => ?_⟩
  obtain ⟨hbefore, hfollows⟩ := hheard.of_append hrecord
  have hlabelled := labelled_of_heard hbefore
  refine ⟨hlabelled.fonts, fun glyph hglyph => ?_, fun paragraph hhanded => ?_⟩
  · subst hglyph
    obtain ⟨font, hfont, hlists, hshows⟩ := hlabelled.shows hfollows
    exact ⟨font, hfont, hlists, hshows.known⟩
  · obtain ⟨r, face, font, hholds, hparagraph, hfont, hshows⟩ :=
      hlabelled.finishes_handed hfollows hhanded
    exact ⟨r, face, font, hholds, hparagraph, hfont, hshows.own⟩

end Press

end Folio
