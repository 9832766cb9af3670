import Folio.Proofs.Paragraph.Seam

/-!
# Passing over faults

A glyph that is a fault leaves the segmenter as it was, and whoever feeds a page may go on with the
next one (`Delivery.feedOver`). The glyphs that are no fault are those `accepted`, and the page goes
as if they alone had been fed (`page_accepted`). So it has runs of its own, whose paragraphs are the
ones that it offers (`offered_pageOver`), and at every moment of it the segmenter holds the latest
of them back (`settles_begun`).
-/

namespace Folio

namespace Segmenter

variable {α : Type} [Scalar α] {s s' : Segmenter α} {fonts : FontTable α} {glyph : Glyph α}
  {out : Option (Paragraph α)}

/-- The glyphs that are no fault when every glyph that is one is passed over. -/
def accepted (fonts : FontTable α) : Segmenter α → List (Glyph α) → List (Glyph α)
  | _, [] => []
  | s, glyph :: rest =>
    match s.feed fonts glyph with
    | .ok (s', _) => glyph :: accepted fonts s' rest
    | .error _ => accepted fonts s rest

/-- The runs that the glyphs of a page are cut into, faults apart. -/
def runs (fonts : FontTable α) (s : Segmenter α) (glyphs : List (Glyph α)) : List (Run α) :=
  match s.seams fonts (accepted fonts s glyphs) with
  | .ok entries => Run.ofSeams entries
  | .error _ => []

theorem accepted_cons_of_ok (h : s.feed fonts glyph = .ok (s', out)) (glyphs : List (Glyph α)) :
    accepted fonts s (glyph :: glyphs) = glyph :: accepted fonts s' glyphs := by
  rw [accepted, h]

theorem accepted_cons_of_error {e : Fault} (h : s.feed fonts glyph = .error e)
    (glyphs : List (Glyph α)) : accepted fonts s (glyph :: glyphs) = accepted fonts s glyphs := by
  rw [accepted, h]

/-- Nothing is fed that is not on the page. -/
theorem mem_of_mem_accepted {glyphs : List (Glyph α)} (h : glyph ∈ accepted fonts s glyphs) :
    glyph ∈ glyphs := by
  induction glyphs generalizing s with
  | nil => cases h
  | cons first rest ih =>
    cases hfeed : s.feed fonts first with
    | error e =>
      rw [accepted_cons_of_error hfeed] at h
      exact List.mem_cons_of_mem _ (ih h)
    | ok answer =>
      rw [accepted_cons_of_ok hfeed] at h
      rcases List.mem_cons.mp h with rfl | h
      · exact List.mem_cons_self
      · exact List.mem_cons_of_mem _ (ih h)

theorem accepted_withFailures (n : Nat) (glyphs : List (Glyph α)) :
    accepted fonts (s.withFailures n) glyphs = accepted fonts s glyphs := by
  induction glyphs generalizing s with
  | nil => rfl
  | cons glyph glyphs ih =>
    have hfeed := feed_withFailures n s fonts glyph
    cases hs : s.feed fonts glyph with
    | error e =>
      rw [hs] at hfeed
      rw [accepted_cons_of_error hfeed, accepted_cons_of_error hs, ih]
    | ok answer =>
      rw [hs] at hfeed
      rw [accepted_cons_of_ok hfeed, accepted_cons_of_ok hs, ih]

end Segmenter

namespace Delivery

variable {α τ : Type} [Scalar α] (take : Paragraph α → Act τ Unit) (fonts : FontTable α)
  (width : Option α) (glyphs : List (Glyph α)) (d : Delivery α τ)

/-- Feeds a glyph; one that is a fault is passed over. -/
def feedOver (glyph : Glyph α) : Delivery α τ :=
  match d.feed take fonts glyph with
  | .ok d' => d'
  | .error _ => d

/-- A page that has begun and been fed glyphs, faults apart. -/
def begun : Delivery α τ :=
  glyphs.foldl (feedOver take fonts) { d with segmenter := d.segmenter.beginPage width }

/-- Begins a page, feeds glyphs, passing over faults, and ends the page. -/
def pageOver : Delivery α τ :=
  let d := d.begun take fonts width glyphs
  let (segmenter, out) := d.segmenter.endPage
  { d with segmenter := segmenter }.offer take out

theorem accepted_offer (out : Option (Paragraph α)) :
    (d.offer take out).segmenter.accepted fonts glyphs = d.segmenter.accepted fonts glyphs := by
  rcases segmenter_offer take d out with hs | hs <;> rw [hs]
  exact Segmenter.accepted_withFailures _ _

/-- Passing over faults is feeding the other glyphs. -/
theorem foldlM_accepted :
    (d.segmenter.accepted fonts glyphs).foldlM (feed take fonts) d
      = .ok (glyphs.foldl (feedOver take fonts) d) := by
  induction glyphs generalizing d with
  | nil => rfl
  | cons glyph glyphs ih =>
    rw [List.foldl_cons]
    cases hfeed : d.segmenter.feed fonts glyph with
    | error e =>
      have hover : d.feedOver take fonts glyph = d := by
        rw [feedOver, feed, hfeed]
        rfl
      rw [Segmenter.accepted_cons_of_error hfeed, hover, ih]
    | ok answer =>
      have hfed : d.feed take fonts glyph
          = .ok ({ d with segmenter := answer.1 }.offer take answer.2) := by
        rw [feed, hfeed]
        rfl
      have hover : d.feedOver take fonts glyph
          = { d with segmenter := answer.1 }.offer take answer.2 := by
        rw [feedOver, hfed]
      rw [Segmenter.accepted_cons_of_ok hfeed, List.foldlM_cons, hfed, hover, ← ih, accepted_offer]
      rfl

/-- A page goes as if the glyphs that are no fault had been fed alone. -/
theorem page_accepted :
    d.page take fonts width ((d.segmenter.beginPage width).accepted fonts glyphs)
      = .ok (d.pageOver take fonts width glyphs) := by
  have hfeed := foldlM_accepted take fonts glyphs
    { d with segmenter := d.segmenter.beginPage width }
  rw [page, hfeed]
  rfl

theorem seams_accepted :
    ∃ entries, (d.segmenter.beginPage width).seams fonts
        ((d.segmenter.beginPage width).accepted fonts glyphs) = .ok entries
      ∧ (d.segmenter.beginPage width).runs fonts glyphs = Run.ofSeams entries
      ∧ (d.pageOver take fonts width glyphs).offered
        = d.offered ++ paragraphs d.segmenter.options fonts (Run.ofSeams entries) := by
  obtain ⟨entries, hseams, hoffered⟩ := seams_of_page (page_accepted take fonts width glyphs d)
  refine ⟨entries, hseams, ?_, hoffered⟩
  rw [Segmenter.runs, hseams]

/-- A page offers the paragraphs of its runs. -/
theorem offered_pageOver :
    (d.pageOver take fonts width glyphs).offered = d.offered
      ++ paragraphs d.segmenter.options fonts
        ((d.segmenter.beginPage width).runs fonts glyphs) := by
  obtain ⟨entries, -, hruns, hoffered⟩ := seams_accepted take fonts width glyphs d
  rw [hoffered, hruns]

/-- The runs of a page are the glyphs that are no fault. -/
theorem flatMap_runs :
    ((d.segmenter.beginPage width).runs fonts glyphs).flatMap Run.glyphs
      = (d.segmenter.beginPage width).accepted fonts glyphs := by
  obtain ⟨entries, hseams, hruns, -⟩ :=
    seams_accepted (fun _ => pure ()) fonts width glyphs (⟨d.segmenter, (), []⟩ : Delivery α Unit)
  rw [hruns, Run.flatMap_ofSeams, Segmenter.map_snd_of_seams hseams]

/-- The first glyph of a page is no fault. -/
theorem feed_beginPage (glyph : Glyph α) : (d.segmenter.beginPage width).feed fonts glyph
    = .ok ((d.started fonts width glyph).segmenter, none) := by
  have hfresh := Segmenter.fresh_beginPage d.segmenter width
  rw [Segmenter.feed, Segmenter.advance_of_fresh hfresh]
  rfl

theorem begun_cons (glyph : Glyph α) : d.begun take fonts width (glyph :: glyphs)
    = glyphs.foldl (feedOver take fonts) (d.started fonts width glyph) := by
  have hfirst : feedOver take fonts { d with segmenter := d.segmenter.beginPage width } glyph
      = d.started fonts width glyph := by
    rw [feedOver, feed, feed_beginPage]
    rfl
  rw [begun, List.foldl_cons, hfirst]

/-- The runs of a page go on from its first glyph. -/
theorem runs_cons (glyph : Glyph α) {entries : List (Seam × Glyph α)}
    (h : (d.started fonts width glyph).segmenter.seams fonts
      ((d.started fonts width glyph).segmenter.accepted fonts glyphs) = .ok entries) :
    (d.segmenter.beginPage width).runs fonts (glyph :: glyphs)
      = (⟨glyph, []⟩ : Run α).along entries := by
  have hadvance : (d.segmenter.beginPage width).advance glyph
      = .ok ((d.segmenter.beginPage width).firstRoom glyph, none) :=
    Segmenter.advance_of_fresh (Segmenter.fresh_beginPage d.segmenter width)
  rw [Segmenter.runs, Segmenter.accepted_cons_of_ok (feed_beginPage fonts width d glyph),
    Segmenter.seams_cons hadvance]
  simp only [started] at h
  simp only [started, h]
  rfl

/-- At every moment of a page after its first glyph, all runs that the glyphs so far are cut into
have been handed out but for the last one, which the segmenter holds back. -/
theorem settles_begun (glyph : Glyph α) :
    ∃ before r, (d.segmenter.beginPage width).runs fonts (glyph :: glyphs) = before ++ [r]
      ∧ Settles take fonts d (d.begun take fonts width (glyph :: glyphs)) before
      ∧ (d.begun take fonts width (glyph :: glyphs)).segmenter.Holds r
        (fonts.face r.last.font) := by
  obtain ⟨hstart, hholds⟩ := settles_started take fonts width glyph d
  have hfold := foldlM_accepted take fonts glyphs (d.started fonts width glyph)
  have hcourse := settles_along ((d.started fonts width glyph).segmenter.accepted fonts glyphs)
    hstart hholds
  rw [begun_cons]
  cases hseams : (d.started fonts width glyph).segmenter.seams fonts
      ((d.started fonts width glyph).segmenter.accepted fonts glyphs) with
  | error e =>
    rw [hseams, hfold] at hcourse
    cases hcourse
  | ok entries =>
    rw [hseams] at hcourse
    obtain ⟨d', before, r, hd', halong, hsettles, hr⟩ := hcourse
    rw [hfold] at hd'
    cases hd'
    exact ⟨before, r, (runs_cons fonts width glyphs d glyph hseams).trans halong, hsettles, hr⟩

end Delivery

end Folio
