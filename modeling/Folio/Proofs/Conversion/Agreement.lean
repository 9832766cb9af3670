import Folio.Proofs.Conversion.Stages
import Folio.Proofs.Layout.Lossy
import Folio.Proofs.Pdf.Abreast
import Folio.Proofs.Pdf.Balance
import Folio.Proofs.Scalar.Rational

/-!
# Conversions and renderings

A document is converted to a file or rendered to a text. Memory takes every text, and a file only
those that UTF-8 can write. With pictures in the page, the two nevertheless come to the same text
and the same counters, but for paragraphs with surrogates: the conversion drops each of them and
counts a failure instead (`convert_agrees_render`).

The two presses go through the document side by side. Whatever they hear of a page keeps them alike
(`Press.tracksPages_thinned`), and so they are when it has ended (`Press.thinned_of_run`). If not
even the unit of lengths can be written, the file takes no page, and only a selection of no pages
comes to an end.
-/

namespace Folio

open Text (lit)

variable {α : Type} [Scalar α]

namespace Press

/-- The first press lays out in memory, and the second one has come to the same point of the
document with an output that cannot take every text. -/
structure Thinned (options : Options α) (p q : Press α) : Prop where
  layout : Layout.Thinned options p.layout q.layout
  left : p.layout.Coherent
  right : q.layout.Coherent

variable {options : Options α} {p p' q q' : Press α}

theorem keeps_receive (e : Event α) : (Layout.receive e).Keeps Layout.Coherent :=
  Layout.perform_ofEvent e ▸ Layout.Coherent.keeps_perform (.ofEvent e)

theorem layout_of_receive {e : Event α} {answer : Except Fault Unit}
    (h : (listener.receive e).run p = (answer, p')) :
    (Layout.receive e).run p.layout = (answer, p'.layout) := by
  cases h
  rfl

theorem tracksPages_thinned (hunit : options.unit.isEncodable = true)
    (hinline : options.emission = .inline) : listener.TracksPages (Thinned options) := by
  have hreceive : ∀ e : Event α, (Layout.receive e).Tracks (Layout.Thinned options) →
      (listener.receive e).Tracks (Thinned options) := fun e he =>
    (he.and_keeps (keeps_receive e)).onPart (fun _ _ h => ⟨h.layout, h.left, h.right⟩)
      fun _ _ _ _ _ h => ⟨h.1, h.2.1, h.2.2⟩
  exact
    { pageBegin := fun number crop rotation =>
        hreceive _ (Layout.Thinned.tracks_beginPage hunit number crop _)
      pageEnd := hreceive _ Layout.Thinned.tracks_endPage
      resources := fun _ _ => hreceive _ (Layout.Thinned.tracks_addFonts _)
      glyph := fun g => hreceive _ (Layout.Thinned.tracks_addGlyph g)
      operator := fun _ hop => hreceive _ (Layout.Thinned.tracks_addOperator hunit hinline hop)
      progress := fun _ _ => .modify fun _ _ h => ⟨h.layout, h.left, h.right⟩
      report := fun _ _ _ h => ⟨{ h.layout with },
        h.left.of_eq rfl rfl rfl rfl rfl rfl h.left.placerLog rfl,
        h.right.of_eq rfl rfl rfl rfl rfl rfl h.right.placerLog rfl⟩ }

/-- No page begins with the document. -/
theorem page_of_documentBegin {title : Option Text}
    (h : (listener.receive (.documentBegin title)).run p = (.ok (), p')) :
    p'.layout.page = p.layout.page := by
  have hrun : (Layout.beginDocument title).run p.layout = (.ok (), p'.layout) :=
    layout_of_receive h
  rw [Layout.beginDocument, Layout.run_emit_documentStart] at hrun
  rw [← (Prod.mk.inj hrun).2]
  rfl

theorem thinned_start (options : Options α) (place : FilePath) (files files' : FileTree) :
    Thinned options { layout := .start options .memory files }
      { layout := .start options (.toFile place) files' } :=
  ⟨Layout.thinned_start options place files files', Layout.coherent_start _ _ _,
    Layout.coherent_start _ _ _⟩

namespace Thinned

theorem documentBegin (h : Thinned options p q) {title : Option Text}
    (hp : (listener.receive (.documentBegin title)).run p = (.ok (), p'))
    (hq : (listener.receive (.documentBegin title)).run q = (.ok (), q')) :
    Thinned options p' q' := by
  have hleft := keeps_receive (.documentBegin title) p.layout h.left
  have hright := keeps_receive (.documentBegin title) q.layout h.right
  have hbegun := h.layout.beginDocument (layout_of_receive hq)
  rw [layout_of_receive hp] at hleft
  rw [layout_of_receive hq] at hright
  rw [show Layout.beginDocument title = Layout.receive (.documentBegin title) from rfl,
    layout_of_receive hp] at hbegun
  exact ⟨hbegun, hleft, hright⟩

/-- The counters are those of the whole document when it has ended. -/
theorem documentEnd (h : Thinned options p q)
    (hp : (listener.receive .documentEnd).run p = (.ok (), p'))
    (hq : (listener.receive .documentEnd).run q = (.ok (), q')) :
    Layout.Thinned options p'.layout q'.layout
      ∧ q'.layout.tally.Lacks p'.layout.emitter.output.lost p'.layout.tally := by
  have hp' : Layout.endDocument.run p.layout = (.ok (), p'.layout) := layout_of_receive hp
  have hq' : Layout.endDocument.run q.layout = (.ok (), q'.layout) := layout_of_receive hq
  obtain ⟨-, hended⟩ := h.layout.endDocument h.left h.right
  rw [hp', hq'] at hended
  have htotal := hended.total
  rw [Layout.total_of_endDocument hp', Layout.total_of_endDocument hq'] at htotal
  exact ⟨hended, htotal⟩

end Thinned

/-- Two presses that both get through a document have come to its end alike. -/
theorem thinned_of_run (hinline : options.emission = .inline) {document : Pdf.Document α}
    {selection : Option (List Int)} {place : FilePath} {files files' : FileTree}
    (hp : run document selection options .memory files = (.ok (), p))
    (hq : run document selection options (.toFile place) files' = (.ok (), q)) :
    Layout.Thinned options p.layout q.layout
      ∧ q.layout.tally.Lacks p.layout.emitter.output.lost p.layout.tally := by
  obtain ⟨numbers, begun, paged, hnumbers, hbegin, hpages, hend⟩ := Pdf.Document.run_eq_ok hp
  obtain ⟨numbers', begun', paged', hnumbers', hbegin', hpages', hend'⟩ :=
    Pdf.Document.run_eq_ok hq
  cases hnumbers.symm.trans hnumbers'
  have hbegun := (thinned_start options place files files').documentBegin hbegin hbegin'
  have hpaged : Thinned options paged.listener paged'.listener := by
    cases hunit : options.unit.isEncodable with
    | true =>
      have habreast := Pdf.Document.Session.tracks_pages (tracksPages_thinned hunit hinline)
        document numbers.length numbers 0 { listener := begun } { listener := begun' }
        ⟨rfl, Pdf.ResourceModel.areStreamed_start, hbegun⟩
      rw [hpages, hpages'] at habreast
      exact habreast.2.listener
    | false =>
      -- The file does not take the start of any page.
      cases numbers with
      | nil =>
        cases hpages
        cases hpages'
        exact hbegun
      | cons number rest =>
        have hshown : (document.page? number).isSome :=
          Pdf.Document.isSome_page?_of_mem_pageNumbers hnumbers _ List.mem_cons_self
        have hnone : begun'.layout.page = none := page_of_documentBegin hbegin'
        obtain ⟨crop, rotation, hpage⟩ := Pdf.Document.Session.begun_of_pages hshown hpages'
        exact absurd hpage (hbegun.layout.beginPage_refused hunit hnone number crop _)
  exact hpaged.documentEnd hend hend'

end Press

namespace Conversion

variable {reader : Pdf.Reader α} {request : Request α} {output : Option FilePath}

/-- A rendering with the counts that it does not show. -/
def rendered (reader : Pdf.Reader α) (request : Request α) : Act Workspace (Text × Tally) := do
  let input ← resolved request.input
  let options ← Act.ofExcept (settle request.options none)
  let document ← openInput reader input request.password
  tryCatch (press document request.pages options .memory) fun f => throw (failure input f)

theorem render_eq (reader : Pdf.Reader α) (request : Request α) :
    render reader request = Prod.fst <$> rendered reader request := by
  simp only [render, rendered, map_eq_pure_bind, bind_assoc]

/-- Pictures in the page need no directory. -/
theorem settle_of_inline {options settled : Options α} (hinline : options.emission = .inline)
    {output : Option FilePath} (h : settle options output = .ok settled) : settled = options := by
  have hfiles : options.emission.wantsFiles = .ok false := by rw [hinline]; rfl
  simp only [settle, hfiles, bind, Except.bind, Bool.false_and, Bool.false_eq_true, if_false] at h
  split at h
  · cases h
  · exact (Except.ok.inj h).symm

/-- A rendering has opened the document and laid it out in memory. -/
theorem of_rendered {w w' : Workspace} {text : Text} {tally : Tally}
    (h : (rendered reader request).run w = (.ok (text, tally), w')) :
    ∃ input options document p, (resolved request.input).run w = (.ok input, w)
      ∧ settle request.options none = .ok options
      ∧ Pdf.Document.open? reader w.files input input.text request.password = .ok document
      ∧ Press.run document request.pages options .memory w.files = (.ok (), p)
      ∧ text = p.text ∧ tally = p.layout.tally := by
  rw [rendered] at h
  obtain ⟨input, w₁, hinput, h⟩ := Act.run_bind_eq_ok h
  obtain ⟨options, hsettle, h⟩ := Act.run_ofExcept_bind_eq_ok h
  obtain ⟨document, w₂, hopen, h⟩ := Act.run_bind_eq_ok h
  have hsame := of_resolved hinput
  rw [hsame] at hinput hopen
  obtain ⟨hopen, hstays⟩ := of_openInput hopen
  rw [hstays, Act.run_tryCatch, press, Act.run_bind_ok (Act.run_get w)] at h
  refine ⟨input, options, document, ?_⟩
  rcases hrun : Press.run document request.pages options .memory w.files with ⟨e | _, p⟩
  · rw [hrun] at h
    cases h
  · rw [hrun] at h
    cases h
    exact ⟨p, hinput, hsettle, hopen, rfl, rfl, rfl⟩

theorem run_rendered {w : Workspace} {input : FilePath} {options : Options α}
    {document : Pdf.Document α} {p : Press α}
    (hinput : (resolved request.input).run w = (.ok input, w))
    (hsettle : settle request.options none = .ok options)
    (hopen : Pdf.Document.open? reader w.files input input.text request.password = .ok document)
    (hrun : Press.run document request.pages options .memory w.files = (.ok (), p)) :
    ((rendered reader request).run w).1 = .ok (p.text, p.layout.tally) := by
  have hopened : (openInput reader input request.password).run w = (.ok document, w) := by
    rw [openInput, Act.run_bind_ok (Act.run_get w), Act.run_ofExcept, hopen]
  rw [rendered, Act.run_bind_ok hinput, hsettle, Act.run_bind_ok (Act.run_ofExcept _ w),
    Act.run_bind_ok hopened, Act.run_tryCatch, press, Act.run_bind_ok (Act.run_get w), hrun]
  rfl

theorem exists_rendered {w w' : Workspace} {text : Text}
    (h : (render reader request).run w = (.ok text, w')) :
    ∃ tally, (rendered reader request).run w = (.ok (text, tally), w') := by
  rw [render_eq, Act.run_map] at h
  rcases hrun : (rendered reader request).run w with ⟨e | ⟨text', tally⟩, w''⟩
  · rw [hrun] at h
    cases h
  · rw [hrun] at h
    cases h
    exact ⟨tally, rfl⟩

/-- A conversion has been prepared and has laid the document out into its output. -/
theorem of_convert {w w' : Workspace} {result : Result}
    (h : (convert reader request output).run w = (.ok result, w')) :
    ∃ b made q, (prepare reader request output).run w = (.ok b, made)
      ∧ b.pressed request.pages made = (.ok (), q)
      ∧ result = ⟨b.input, b.output, b.document.pageCount, q.layout.tally⟩
      ∧ w'.files = q.layout.closed.placer.files := by
  rw [run_convert] at h
  rcases hprepare : (prepare reader request output).run w with ⟨e | b, made⟩
  · rw [hprepare] at h
    cases h
  · rw [hprepare] at h
    have hproceed : proceed request b made = (.ok result, w') := h
    rcases hpressed : b.pressed request.pages made with ⟨e | _, q⟩
    · rw [proceed, hpressed] at hproceed
      cases hproceed
    · rw [proceed, hpressed] at hproceed
      cases hproceed
      exact ⟨b, made, q, rfl, hpressed, rfl, rfl⟩

/-- A conversion and a rendering of a document that both succeed agree but for the paragraphs that
UTF-8 cannot write. The file of the conversion reads as the rendered pieces without surrogates. Each
piece that it lacks is a paragraph, and the conversion counts it as a failure instead. So the file
reads as the rendered text, and so are the counters the same, exactly if the text has no
surrogates. -/
theorem convert_agrees_render {w w' w'' : Workspace} {result : Result} {text : Text}
    (hinline : request.options.emission = .inline)
    (hconvert : (convert reader request output).run w = (.ok result, w'))
    (hrender : (render reader request).run w = (.ok text, w'')) :
    ∃ pieces bytes tally, (rendered reader request).run w = (.ok (text, tally), w'')
      ∧ text = Text.join pieces
      ∧ (∀ t ∈ pieces, t.isEncodable = false → ∃ p : Paragraph α,
        t = Html.paragraph request.options.unit request.options.fallbackFamily p)
      ∧ w'.files.readFile result.output = .ok bytes
      ∧ Text.ofUtf8? bytes = some (Text.join (pieces.filter Text.isEncodable))
      ∧ result.tally.Lacks (pieces.countP fun t => !t.isEncodable) tally
      ∧ (Text.ofUtf8? bytes = some text ↔ text.isEncodable = true)
      ∧ (result.tally = tally ↔ text.isEncodable = true) := by
  obtain ⟨b, made, q, hprepare, hpressed, rfl, hfiles⟩ := of_convert hconvert
  obtain ⟨tally, hrendered⟩ := exists_rendered hrender
  obtain ⟨input, options, document, p, hinput, hsettle, hopen, hrun, rfl, rfl⟩ :=
    of_rendered hrendered
  obtain ⟨hinput', hopen'⟩ := opened_of_prepare hprepare
  obtain ⟨hsettle', hwritable⟩ := of_prepare hprepare
  have hgrows : w.files.Grows made.files := by
    have hkept : w.files.Grows ((prepare reader request output).run w).2.files :=
      grows_prepare w.files w (.refl _)
    rw [hprepare] at hkept
    exact hkept
  -- Both have found the same document and have the options of the request.
  obtain rfl : input = b.input := by
    cases hinput.symm.trans hinput'
    rfl
  obtain rfl : document = b.document :=
    Except.ok.inj ((open?_of_grows hgrows hopen).symm.trans hopen')
  have hoptions := settle_of_inline hinline hsettle'
  rw [settle_of_inline hinline hsettle] at hrun
  rw [Prepared.pressed] at hpressed
  have hapart : ¬ Placer.MayWrite b.options b.place := by
    rintro ⟨hemission, -⟩
    rw [hoptions, hinline] at hemission
    cases hemission
  obtain ⟨-, bytes, hbytes, hread⟩ :=
    Press.file_of_run hapart hwritable b.document request.pages
  rw [hpressed] at hbytes hread
  rw [hoptions] at hpressed
  obtain ⟨hthinned, hlacks⟩ := Press.thinned_of_run hinline hrun hpressed
  let pieces := p.layout.emitter.output.pieces.reverse
  have hdecoded : Text.ofUtf8? bytes = some (Text.join (pieces.filter Text.isEncodable)) := by
    rw [Text.ofUtf8?_of_utf8? hbytes, Press.text, Output.text, hthinned.pieces, List.filter_reverse]
  have hlost : q.layout.tally.Lacks (pieces.countP fun t => !t.isEncodable) p.layout.tally := by
    rw [List.countP_reverse]
    exact hlacks
  have hall : p.text.isEncodable = true ↔ ∀ t ∈ pieces, t.isEncodable = true :=
    Text.isEncodable_join_iff
  refine
    ⟨pieces, bytes, p.layout.tally, hrendered, rfl, ?_, hfiles ▸ hread, hdecoded, hlost, ?_, ?_⟩
  · exact fun t ht => hthinned.paragraphs t (List.mem_reverse.mp ht)
  · refine ⟨Text.isEncodable_of_ofUtf8?, fun hencodable => ?_⟩
    rw [hdecoded, List.filter_eq_self.mpr (hall.mp hencodable)]
    rfl
  · rw [hlost.eq_iff, hall, List.countP_eq_zero]
    simp

/-! Half of a pair -/

/-- A page that shows one code. -/
def lonePage : Pdf.Page ℚ where
  crop := ⟨.whole 0, .whole 0, .whole 100, .whole 100⟩
  rotation := .whole 0
  resources := .node 0
  content := some (.ok [
    ⟨lit "Tf", [.ofText (lit "/F1"), .whole 10]⟩,
    ⟨lit "Tj", [.bytes [0x73]]⟩])

/-- The font of the page has a surrogate for the code. -/
def loneSource : Pdf.Source ℚ where
  graph := {
    nodes := #[
      { entries := [(lit "/Font", .node 1)] },
      { entries := [(lit "/F1", .node 2)] },
      { entries := [
          (lit "/BaseFont", .ofText (lit "/Helvetica")), (lit "/Subtype", .ofText (lit "/Type1"))]
        codes := some { texts := [(lit "s", .bytes [0xD8, 0])] } }]
    objects := [] }
  pages := .ok [lonePage]

def loneRequest : Request ℚ where
  input := ⟨[], [lit "a.pdf"]⟩
  options := .standard

/-- A directory with the document. -/
def loneDesk : Workspace where
  files := { files := [(⟨[], [lit "a.pdf"]⟩, [])] }

/-- What a conversion has found out before it empties its output. -/
def lonePrepared : Prepared ℚ where
  input := ⟨[], [lit "a.pdf"]⟩
  output := ⟨[], [lit "a.html"]⟩
  options := .standard
  document := ⟨loneSource.graph, [lonePage], lit "a.pdf"⟩
  place := ⟨[], [lit "a.html"]⟩

theorem prepare_loneDesk :
    (prepare (fun _ => .ok loneSource) loneRequest none).run loneDesk
      = (.ok lonePrepared, loneDesk) := by with_unfolding_all rfl

/-- How many failures a run without a fault has counted. -/
def failures? (output : Output) (files : FileTree) : Option Nat :=
  let pressed := Press.run lonePrepared.document none .standard output files
  pressed.1.toOption.map fun _ => pressed.2.layout.tally.failures

/-- Memory takes the paragraph, and the file does not. -/
theorem failures?_lone : failures? .memory loneDesk.files = some 0
    ∧ failures? (.toFile lonePrepared.place) (loneDesk.files.put lonePrepared.place [])
      = some 1 := by
  have hnumbers : lonePrepared.document.pageNumbers none = .ok [1] := rfl
  have hpage : lonePrepared.document.page? 1 = some lonePage := rfl
  have hok : ∀ f : List Nat → Act (Pdf.Document.Session ℚ (Press ℚ)) Unit,
      (Act.ofExcept (.ok [1]) >>= f) = f [1] := fun f => pure_bind _ _
  simp only [failures?]
  rw [Press.run, Press.run, Pdf.Document.run, Pdf.Document.Session.run, hnumbers, hok]
  simp only [Pdf.Document.Session.pages, Pdf.Document.Session.page, hpage]
  simp only [lonePage, Pdf.Document.Session.pageBody]
  -- What recurses through forms is written out in steps, and the style sheet in its characters.
  simp only [Pdf.Document.Session.walkContent, Pdf.Walker.walk_eq_foldr,
    Pdf.Document.Session.send, Press.listener, Layout.receive, Layout.addFonts, FontTable.update,
    Catalog.reachableFonts, Catalog.reachable_eq_walkFor, Layout.beginDocument,
    Emitter.documentStart, Html.documentStart, Html.styleSheet, Text.lit_append]
  simp only [Text.lit, String.reduceToList]
  decide +kernel

theorem run_of_failures? {output : Output} {files : FileTree} {n : Nat}
    (h : failures? output files = some n) :
    ∃ p, Press.run lonePrepared.document none .standard output files = (.ok (), p)
      ∧ p.layout.tally.failures = n := by
  rw [failures?] at h
  rcases hrun : Press.run lonePrepared.document none .standard output files with ⟨e | _, p⟩
  · rw [hrun] at h
    cases h
  · rw [hrun] at h
    exact ⟨p, rfl, Option.some.inj h⟩

/-- The text of the page is rendered and does not reach the file. -/
theorem convert_agrees_render_lone : ∃ result w' text w'' bytes,
    (convert (fun _ => .ok loneSource) loneRequest none).run loneDesk = (.ok result, w')
      ∧ (render (fun _ => .ok loneSource) loneRequest).run loneDesk = (.ok text, w'')
      ∧ result.tally.failures = 1
      ∧ w'.files.readFile result.output = .ok bytes
      ∧ Text.ofUtf8? bytes ≠ some text := by
  obtain ⟨hmemory, hfile⟩ := failures?_lone
  obtain ⟨p, hp, hnone⟩ := run_of_failures? hmemory
  obtain ⟨q, hq, hone⟩ := run_of_failures? hfile
  have hpressed : lonePrepared.pressed loneRequest.pages loneDesk = (.ok (), q) := hq
  have hconvert : (convert (fun _ => .ok loneSource) loneRequest none).run loneDesk
      = proceed loneRequest lonePrepared loneDesk := by
    rw [run_convert, prepare_loneDesk]
  rw [proceed, hpressed] at hconvert
  have hinput := (opened_of_prepare prepare_loneDesk).1
  have hrendered : ((rendered (fun _ => .ok loneSource) loneRequest).run loneDesk).1
      = .ok (p.text, p.layout.tally) :=
    run_rendered hinput (by with_unfolding_all rfl) (opened_of_prepare prepare_loneDesk).2 hp
  have hrender : ((render (fun _ => .ok loneSource) loneRequest).run loneDesk).1 = .ok p.text := by
    rw [render_eq, Act.run_map, hrendered]
    rfl
  obtain ⟨pieces, bytes, tally, hcounts, -, -, hread, -, -, htext, htally⟩ :=
    convert_agrees_render rfl hconvert (Prod.ext hrender rfl)
  rw [hcounts] at hrendered
  refine ⟨_, _, _, _, bytes, hconvert, Prod.ext hrender rfl, hone, hread, fun hsame => ?_⟩
  have hequal := htally.mpr (htext.mp hsame)
  cases hrendered
  have hcontra : q.layout.tally.failures = p.layout.tally.failures :=
    congrArg Tally.failures hequal
  omega

end Conversion

end Folio
