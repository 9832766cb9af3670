import Folio.Proofs.Paragraph.Seam
import Mathlib.Data.List.Forall2

/-!
# Without merging

A segmenter that merges no lines ends a paragraph at every change of line and at every wide gap, and
fills all other gaps with blanks. Where these are can be told from the glyphs alone (`lineSeams`).

One that merges lines differs in that it may go on at a change of line. Whatever it keeps besides
has no part in what it does within a line: it puts the same blanks in, and a glyph is a fault to the
one if it is to the other. So its runs are runs of the first, several of them put together
(`page_unmerged`).
-/

namespace Folio

/-- Ends of paragraphs apart, the two seams are the same, and the first ends one only where the
second does. -/
def Seam.Coarser (a b : Seam) : Prop := a = b ∨ b = .parting

namespace Run

variable {α : Type}

/-- Where fewer paragraphs end, the runs are put together of those between more ends. -/
theorem exists_groups_along {coarse fine : List (Seam × Glyph α)}
    (h : List.Forall₂ (fun a b => a.1.Coarser b.1 ∧ a.2 = b.2) coarse fine) {front : List (Run α)}
    {r₁ r₂ : Run α} (hr : r₁.glyphs = front.flatMap glyphs ++ r₂.glyphs) :
    ∃ first rest, r₂.along fine = first ++ List.flatten rest
      ∧ (r₁.along coarse).map glyphs
        = (front ++ first).flatMap glyphs :: rest.map fun group => group.flatMap glyphs := by
  induction h generalizing front r₁ r₂ with
  | nil =>
    refine ⟨[r₂], [], rfl, ?_⟩
    simp [along, hr]
  | @cons a b coarse fine hseam _ ih =>
    obtain ⟨s₁, glyph⟩ := a
    obtain ⟨s₂, glyph₂⟩ := b
    obtain ⟨hcoarser, rfl⟩ := hseam
    cases s₁ with
    | parting =>
      obtain rfl : s₂ = .parting := hcoarser.elim Eq.symm id
      -- Both end here, and nothing is put in front of what follows.
      have hnext : (⟨glyph, []⟩ : Run α).glyphs
          = [].flatMap glyphs ++ (⟨glyph, []⟩ : Run α).glyphs := rfl
      obtain ⟨first, rest, hfine, hcoarse⟩ := ih hnext
      refine ⟨[r₂], first :: rest, ?_, ?_⟩
      · rw [along, hfine]
        rfl
      · rw [along, List.map_cons, hcoarse, hr]
        simp
    | filling text =>
      cases s₂ with
      | parting =>
        -- Only the finer cut ends here, and its run stands in front of what follows.
        have hnext : (r₁.snoc glyph).glyphs
            = (front ++ [r₂]).flatMap glyphs ++ (⟨glyph, []⟩ : Run α).glyphs := by
          rw [glyphs_snoc, hr]
          simp [glyphs]
        obtain ⟨first, rest, hfine, hcoarse⟩ := ih hnext
        refine ⟨r₂ :: first, rest, ?_, ?_⟩
        · rw [along, hfine]
          rfl
        · rw [along, hcoarse]
          simp
      | filling text₂ =>
        have hnext : (r₁.snoc glyph).glyphs = front.flatMap glyphs ++ (r₂.snoc glyph).glyphs := by
          rw [glyphs_snoc, hr, List.append_assoc]
          rfl
        exact ih hnext

theorem exists_groups_ofSeams {coarse fine : List (Seam × Glyph α)}
    (h : List.Forall₂ (fun a b => a.1.Coarser b.1 ∧ a.2 = b.2) coarse fine) :
    ∃ groups : List (List (Run α)), groups.flatten = ofSeams fine
      ∧ (ofSeams coarse).map glyphs = groups.map fun group => group.flatMap glyphs := by
  cases h with
  | nil => exact ⟨[], rfl, rfl⟩
  | @cons a b coarse fine hseam hrest =>
    obtain ⟨s₁, glyph⟩ := a
    obtain ⟨s₂, glyph₂⟩ := b
    obtain ⟨-, rfl⟩ := hseam
    have hfirst : (⟨glyph, []⟩ : Run α).glyphs
        = [].flatMap glyphs ++ (⟨glyph, []⟩ : Run α).glyphs := rfl
    obtain ⟨first, rest, hfine, hcoarse⟩ := exists_groups_along hrest hfirst
    exact ⟨first :: rest, hfine.symm, hcoarse⟩

variable [Scalar α]

/-- What stands between two glyphs if no lines are merged. -/
def lineSeam (options : Options α) (previous glyph : Glyph α) : Seam :=
  if startsLine previous glyph || isWide options previous glyph then .parting
  else .filling (Text.replicate (blanksBetween previous glyph) options.placeholder)

/-- The seams before the glyphs that follow a glyph. -/
def lineSeamsAfter (options : Options α) : Glyph α → List (Glyph α) → List (Seam × Glyph α)
  | _, [] => []
  | previous, glyph :: rest =>
    (lineSeam options previous glyph, glyph) :: lineSeamsAfter options glyph rest

/-- The seams of a page on which no lines are merged. -/
def lineSeams (options : Options α) : List (Glyph α) → List (Seam × Glyph α)
  | [] => []
  | glyph :: rest => (.parting, glyph) :: lineSeamsAfter options glyph rest

theorem lineSeam_of_startsLine (options : Options α) {previous glyph : Glyph α}
    (h : startsLine previous glyph = true) : lineSeam options previous glyph = .parting := by
  rw [lineSeam, h]
  rfl

theorem lineSeam_of_isWide {options : Options α} {previous glyph : Glyph α}
    (h : isWide options previous glyph = true) : lineSeam options previous glyph = .parting := by
  rw [lineSeam, h, Bool.or_true]
  rfl

/-- Whether lines are merged is not looked at. -/
theorem lineSeams_unmerged (options : Options α) (glyphs : List (Glyph α)) :
    lineSeams { options with mergesLines := false } glyphs = lineSeams options glyphs := by
  cases glyphs with
  | nil => rfl
  | cons first rest =>
    refine congrArg (List.cons _) ?_
    induction rest generalizing first with
    | nil => rfl
    | cons glyph rest ih => exact congrArg (List.cons _) (ih glyph)

end Run

namespace Segmenter

variable {α : Type} [Scalar α] {s t room : Segmenter α} {previous glyph : Glyph α}
  {r : Run α} {face : Face} {fonts : FontTable α}

/-! ## One glyph -/

/-- On one line it does not matter whether lines are merged; from line to line the paragraph may go
on only if they are. -/
theorem seam_of_advance (h : s.Holds r face) {out : Option (Paragraph α)}
    (hadvance : s.advance glyph = .ok (room, out)) :
    s.seam room = Run.lineSeam s.options r.last glyph
      ∨ (s.options.mergesLines = true ∧ Run.lineSeam s.options r.last glyph = .parting) := by
  rcases joins_or_parts h.previous hadvance with ⟨hjoins, -⟩ | hparts
  · rw [seam_of_joins h hjoins]
    cases hjoins with
    | fill hline hjudge hblanks =>
      obtain ⟨gap, hgap, hnear⟩ := exists_gap_of_judge hjudge
      have hwide : Run.isWide s.options r.last glyph = false := by
        rw [Run.isWide, hgap]
        exact decide_eq_false hnear
      refine .inl ?_
      rw [Run.lineSeam, hline, hwide]
      rfl
    | merge hline hcontinues =>
      exact .inr ⟨hcontinues.merges, Run.lineSeam_of_startsLine s.options hline⟩
  · rw [seam_of_parts h hparts]
    refine .inl ?_
    rcases hparts.startsLine_or_isWide with hline | hwide
    · exact (Run.lineSeam_of_startsLine s.options hline).symm
    · exact (Run.lineSeam_of_isWide hwide).symm

omit [Scalar α] in
theorem map_appendBlanks (b b' : ParagraphBuffer α) (room : Nat) (count : Int)
    (placeholder : Text) :
    (b.appendBlanks room count placeholder).map (fun _ => ())
      = (b'.appendBlanks room count placeholder).map fun _ => () := by
  unfold ParagraphBuffer.appendBlanks
  split
  · rfl
  · cases ParagraphBuffer.blanks room count.toNat placeholder <;> rfl

/-- Whether a glyph is a fault depends on the glyph before it and on the options for gaps. -/
theorem map_advance (hprevious : t.previous = s.previous)
    (hoptions : t.options = { s.options with mergesLines := false }) (glyph : Glyph α) :
    (t.advance glyph).map (fun _ => ()) = (s.advance glyph).map fun _ => () := by
  unfold advance
  rw [hprevious]
  cases s.previous with
  | none => rfl
  | some previous =>
    simp only
    split
    · rfl
    · unfold sameLine
      rw [hoptions]
      cases judge s.options.wordGapTolerance (gap? previous glyph) with
      | error e => rfl
      | ok gap =>
        cases gap with
        | split => rfl
        | blanks count =>
          have hblanks := map_appendBlanks t.buffer s.buffer s.options.machine.room count
            s.options.placeholder
          simp only [bind, Except.bind]
          cases ht : t.buffer.appendBlanks s.options.machine.room count s.options.placeholder <;>
            cases hs : s.buffer.appendBlanks s.options.machine.room count s.options.placeholder <;>
            rw [ht, hs] at hblanks <;> cases hblanks <;> rfl

/-! ## A page -/

section

variable {glyphs : List (Glyph α)} {entries : List (Seam × Glyph α)}

/-- Merging lines makes no glyph a fault that is none without it, nor the other way. -/
theorem map_seams (hprevious : t.previous = s.previous)
    (hoptions : t.options = { s.options with mergesLines := false }) (fonts : FontTable α)
    (glyphs : List (Glyph α)) :
    (t.seams fonts glyphs).map (fun _ => ()) = (s.seams fonts glyphs).map fun _ => () := by
  induction glyphs generalizing s t with
  | nil => rfl
  | cons glyph glyphs ih =>
    have hadvance := map_advance hprevious hoptions glyph
    cases hs : s.advance glyph with
    | error e =>
      cases ht : t.advance glyph with
      | error e' =>
        rw [hs, ht] at hadvance
        rw [seams_cons_of_error hs, seams_cons_of_error ht]
        exact hadvance
      | ok answer =>
        rw [hs, ht] at hadvance
        cases hadvance
    | ok answer =>
      cases ht : t.advance glyph with
      | error e =>
        rw [hs, ht] at hadvance
        cases hadvance
      | ok answer' =>
        have hkept : (answer'.1.append fonts glyph).options
            = { (answer.1.append fonts glyph).options with mergesLines := false } := by
          show answer'.1.options = { answer.1.options with mergesLines := false }
          rw [options_of_advance hs, options_of_advance ht, hoptions]
        have hrest := ih (s := answer.1.append fonts glyph) (t := answer'.1.append fonts glyph)
          rfl hkept
        rw [seams_cons hs, seams_cons ht]
        cases hmore : (answer.1.append fonts glyph).seams fonts glyphs <;>
          cases hmore' : (answer'.1.append fonts glyph).seams fonts glyphs <;>
          rw [hmore, hmore'] at hrest <;> cases hrest <;> rfl

/-- Along a page the seams are those without merging, or some of the ends are left out if lines are
merged. -/
theorem forall₂_seams (h : s.Holds r face) (hseams : s.seams fonts glyphs = .ok entries) :
    List.Forall₂ (fun a b =>
        (a.1 = b.1 ∨ s.options.mergesLines = true ∧ b.1 = .parting) ∧ a.2 = b.2)
      entries (Run.lineSeamsAfter s.options r.last glyphs) := by
  induction glyphs generalizing s r face entries with
  | nil =>
    cases hseams
    exact .nil
  | cons glyph glyphs ih =>
    obtain ⟨room, out, more, hadvance, hmore, rfl⟩ := seams_cons_eq_ok hseams
    have hfeed : s.feed fonts glyph = .ok (room.append fonts glyph, out) := by
      rw [feed, hadvance]
      rfl
    obtain ⟨hoptions, hholds⟩ := feed_of_holds h hfeed
    have hrest : List.Forall₂ (fun a b =>
          (a.1 = b.1 ∨ s.options.mergesLines = true ∧ b.1 = .parting) ∧ a.2 = b.2)
        more (Run.lineSeamsAfter s.options glyph glyphs) := by
      rw [← hoptions]
      rcases hholds with ⟨-, hholds⟩ | ⟨-, hholds⟩
      · have hlonger := ih hholds hmore
        rw [Run.last_snoc] at hlonger
        exact hlonger
      · exact ih hholds hmore
    exact .cons ⟨seam_of_advance h hadvance, rfl⟩ hrest

theorem forall₂_seams_of_fresh (h : s.Fresh) (hseams : s.seams fonts glyphs = .ok entries) :
    List.Forall₂ (fun a b =>
        (a.1 = b.1 ∨ s.options.mergesLines = true ∧ b.1 = .parting) ∧ a.2 = b.2)
      entries (Run.lineSeams s.options glyphs) := by
  cases glyphs with
  | nil =>
    cases hseams
    exact .nil
  | cons glyph glyphs =>
    obtain ⟨room, out, more, hadvance, hmore, rfl⟩ := seams_cons_eq_ok hseams
    rw [advance_of_fresh h] at hadvance
    cases hadvance
    have hempty : (s.firstRoom glyph).buffer = .empty := h.buffer
    exact .cons ⟨.inl (seam_of_empty hempty), rfl⟩
      (forall₂_seams (append_of_empty hempty fonts glyph) hmore)

/-- Without merging, the seams are told by the glyphs. -/
theorem seams_eq_lineSeams (h : s.Fresh) (hoff : s.options.mergesLines = false)
    (hseams : s.seams fonts glyphs = .ok entries) : entries = Run.lineSeams s.options glyphs := by
  refine List.forall₂_eq_eq_eq ▸ (forall₂_seams_of_fresh h hseams).imp fun a b hab => ?_
  rcases hab with ⟨hseam | ⟨hmerges, -⟩, hglyph⟩
  · exact Prod.ext hseam hglyph
  · rw [hoff] at hmerges
    cases hmerges

end

end Segmenter

namespace Delivery

variable {α τ₁ τ₂ : Type} [Scalar α]

/-- Two segmenters that differ in whether lines are merged are given the same page. Either a glyph
is a fault to both, or to neither. Without merging, paragraphs end exactly at the changes of line
and at the wide gaps, and with merging at some of these only; before a glyph at which neither ends
one, both put the same blanks in. So the runs with merging are those without, put together. -/
theorem page_unmerged {d₁ : Delivery α τ₁} {d₂ : Delivery α τ₂}
    (h : d₂.segmenter.options = { d₁.segmenter.options with mergesLines := false })
    (take₁ : Paragraph α → Act τ₁ Unit) (take₂ : Paragraph α → Act τ₂ Unit) (fonts : FontTable α)
    (width : Option α) (glyphs : List (Glyph α)) :
    (∃ e, d₁.page take₁ fonts width glyphs = .error e
      ∧ d₂.page take₂ fonts width glyphs = .error e)
    ∨ ∃ d₁' d₂' entries, d₁.page take₁ fonts width glyphs = .ok d₁'
      ∧ d₂.page take₂ fonts width glyphs = .ok d₂'
      ∧ (d₁.segmenter.beginPage width).seams fonts glyphs = .ok entries
      ∧ (d₂.segmenter.beginPage width).seams fonts glyphs
        = .ok (Run.lineSeams d₂.segmenter.options glyphs)
      ∧ d₁'.offered = d₁.offered
        ++ paragraphs d₁.segmenter.options fonts (Run.ofSeams entries)
      ∧ d₂'.offered = d₂.offered ++ paragraphs d₂.segmenter.options fonts
        (Run.ofSeams (Run.lineSeams d₂.segmenter.options glyphs))
      ∧ List.Forall₂ (fun a b => a.1.Coarser b.1 ∧ a.2 = b.2) entries
        (Run.lineSeams d₂.segmenter.options glyphs)
      ∧ ∃ groups : List (List (Run α)),
        groups.flatten = Run.ofSeams (Run.lineSeams d₂.segmenter.options glyphs)
        ∧ (Run.ofSeams entries).map Run.glyphs
          = groups.map fun group => group.flatMap Run.glyphs := by
  have hfresh₁ := Segmenter.fresh_beginPage d₁.segmenter width
  have hfresh₂ := Segmenter.fresh_beginPage d₂.segmenter width
  have hoptions : (d₂.segmenter.beginPage width).options
      = { (d₁.segmenter.beginPage width).options with mergesLines := false } := h
  have hoff : (d₂.segmenter.beginPage width).options.mergesLines = false := by rw [hoptions]
  have hprevious : (d₂.segmenter.beginPage width).previous
      = (d₁.segmenter.beginPage width).previous := rfl
  have hfaults := Segmenter.map_seams hprevious hoptions fonts glyphs
  have hpage₁ := page_of_seams d₁ take₁ fonts width glyphs
  have hpage₂ := page_of_seams d₂ take₂ fonts width glyphs
  cases hs₁ : (d₁.segmenter.beginPage width).seams fonts glyphs with
  | error e₁ =>
    cases hs₂ : (d₂.segmenter.beginPage width).seams fonts glyphs with
    | ok entries₂ =>
      rw [hs₁, hs₂] at hfaults
      cases hfaults
    | error e₂ =>
      rw [hs₁, hs₂] at hfaults
      rw [hs₁] at hpage₁
      rw [hs₂] at hpage₂
      exact .inl ⟨e₁, hpage₁, by rw [hpage₂, Except.error.inj hfaults]⟩
  | ok entries =>
    cases hs₂ : (d₂.segmenter.beginPage width).seams fonts glyphs with
    | error e₂ =>
      rw [hs₁, hs₂] at hfaults
      cases hfaults
    | ok entries₂ =>
      have hunmerged := Segmenter.seams_eq_lineSeams hfresh₂ hoff hs₂
      have hcoarser : List.Forall₂ (fun a b => a.1.Coarser b.1 ∧ a.2 = b.2) entries
          (Run.lineSeams d₂.segmenter.options glyphs) := by
        have hforall := Segmenter.forall₂_seams_of_fresh hfresh₁ hs₁
        rw [h, Run.lineSeams_unmerged]
        exact hforall.imp fun a b hab => ⟨hab.1.imp id And.right, hab.2⟩
      rw [hs₁] at hpage₁
      rw [hs₂] at hpage₂
      obtain ⟨d₁', hd₁, hoffered₁⟩ := hpage₁
      obtain ⟨d₂', hd₂, hoffered₂⟩ := hpage₂
      rw [hunmerged] at hoffered₂
      exact .inr ⟨d₁', d₂', entries, hd₁, hd₂, rfl, congrArg _ hunmerged, hoffered₁, hoffered₂,
        hcoarser, Run.exists_groups_ofSeams hcoarser⟩

/-- Two lines and a glyph far off on the second. -/
def twoLines : List (Glyph ℚ) :=
  [("A", 20, 0), ("B", 30, 0), ("C", 10, 12), ("D", 20, 12), ("E", 60, 12)].map fun g =>
    ⟨Text.lit g.1, g.2.1, g.2.2, 10, 10, none, 10, 10, 10⟩

/-- With merging the two lines are one paragraph, without it they are two, and the glyph far off is
one of its own either way. -/
theorem page_unmerged_twoLines :
    (Segmenter.new { (.standard : Options ℚ) with mergesLines := false }).options
        = { (Segmenter.new (.standard : Options ℚ)).options with mergesLines := false }
      ∧ ∃ entries, ((Segmenter.new (.standard : Options ℚ)).beginPage none).seams ⟨[], [], []⟩
          twoLines = .ok entries
        ∧ ((Run.ofSeams entries).map fun r => r.glyphs.length) = [4, 1]
        ∧ ((Run.ofSeams (Run.lineSeams { (.standard : Options ℚ) with mergesLines := false }
            twoLines)).map fun r => r.glyphs.length) = [2, 2, 1]
        ∧ ∃ groups : List (List (Run ℚ)), groups.flatten
            = Run.ofSeams (Run.lineSeams { (.standard : Options ℚ) with mergesLines := false }
              twoLines)
          ∧ (Run.ofSeams entries).map Run.glyphs
            = groups.map fun group => group.flatMap Run.glyphs := by
  refine ⟨rfl, ?_⟩
  have hseams : (((Segmenter.new (.standard : Options ℚ)).beginPage none).seams ⟨[], [], []⟩
      twoLines).toOption.map (fun entries => (Run.ofSeams entries).map fun r => r.glyphs.length)
        = some [4, 1] := by
    decide +kernel
  have hpage : ((⟨.new .standard, (), []⟩ : Delivery ℚ Unit).page (fun _ => pure ()) ⟨[], [], []⟩
      none twoLines).isOk = true := by
    decide +kernel
  have hoptions : (⟨.new { (.standard : Options ℚ) with mergesLines := false }, (), []⟩ :
        Delivery ℚ Unit).segmenter.options
      = { (⟨.new .standard, (), []⟩ : Delivery ℚ Unit).segmenter.options with
        mergesLines := false } := rfl
  rcases page_unmerged hoptions (fun _ => pure ()) (fun _ => pure ()) ⟨[], [], []⟩ none
    twoLines with ⟨e, herror, -⟩ | ⟨d₁', d₂', entries, -, -, hentries, -, -, -, -, groups, hfine, hcoarse⟩
  · rw [herror] at hpage
    cases hpage
  · change ((Segmenter.new (.standard : Options ℚ)).beginPage none).seams ⟨[], [], []⟩ twoLines
      = .ok entries at hentries
    rw [hentries] at hseams
    exact ⟨entries, hentries, Option.some.inj hseams, by decide +kernel, groups, hfine, hcoarse⟩

end Delivery

end Folio
