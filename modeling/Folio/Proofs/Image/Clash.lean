import Folio.Proofs.Image.Filing

/-!
# Placers that share a directory

Placers that are given no word for the names of their files use that of the machine they are on, and
each counts for itself. Their names are the same exactly when their numbers and the endings are,
which one placer never lets happen to itself (`Turns.ne_of_name?`), but nothing keeps it from
happening to two.

With any number of such placers writing to one directory in turns, a file holds the picture that was
last returned under its name (`Turns.held_of_last`). A box that one placer returned shows its own
picture for as long as no other placer returns one with the same number and the same ending; then it
shows that one (`Turns.shared_directory`).
-/

namespace Folio.Placer

open Text (HasNoSlash)

variable {α ι : Type} [DecidableEq ι]

/-! ## Turns -/

/-- Placers at work on one tree of files, with one place for their reports. Each has its own number. -/
structure Shared (ι : Type) where
  index : ι → Nat
  files : FileTree
  log : Log

namespace Shared

/-- One of the placers. -/
def placer (s : Shared ι) (who : ι) : Placer := ⟨s.index who, s.files, s.log⟩

/-- What a call of one of them leaves. -/
def after (s : Shared ι) (who : ι) (q : Placer) : Shared ι :=
  ⟨Function.update s.index who q.index, q.files, q.log⟩

end Shared

/-- The calls that the placers have taken so far, the oldest first, and what has become of them. -/
inductive Turns [Scalar α] (options : ι → Options α) (first : Shared ι) :
    List (ι × Filed α) → Shared ι → Prop
  | start : Turns options first [] first
  | turn {record s} (who : ι) (d : Drawing α) (h : Turns options first record s) :
      Turns options first (record ++ [(who, .of (options who) d (s.placer who))])
        (s.after who (call (options who) d (s.placer who)).2)

variable {options : ι → Options α} {first last : Shared ι} {record earlier later : List (ι × Filed α)}
  {who : ι} {f : Filed α}

/-! ## Names -/

/-- The calls that one placer took. -/
def callsOf (who : ι) (record : List (ι × Filed α)) : List (Filed α) :=
  (record.filter (·.1 = who)).map Prod.snd

theorem mem_callsOf {g : Filed α} : g ∈ callsOf who record ↔ (who, g) ∈ record := by
  simp [callsOf]

theorem callsOf_append (who : ι) (record more : List (ι × Filed α)) :
    callsOf who (record ++ more) = callsOf who record ++ callsOf who more := by
  rw [callsOf, List.filter_append, List.map_append, callsOf, callsOf]

theorem callsOf_singleton_self (who : ι) (f : Filed α) : callsOf who [(who, f)] = [f] := by
  simp [callsOf]

theorem callsOf_singleton_of_ne {who who' : ι} (h : who' ≠ who) (f : Filed α) :
    callsOf who [(who', f)] = [] := by
  simp [callsOf, h]

theorem Turns.ordered [Scalar α] (hfiles : ∀ who, (options who).emission = .files)
    (h : Turns options first record last) (who : ι) :
    Ordered (callsOf who record) (last.index who) := by
  induction h with
  | start => exact ⟨.nil, fun _ h => absurd h List.not_mem_nil, fun _ h => absurd h List.not_mem_nil⟩
  | @turn record s who' d h ih =>
    rw [callsOf_append]
    by_cases hwho : who' = who
    · subst hwho
      rw [callsOf_singleton_self]
      have hindex : (s.after who' (call (options who') d (s.placer who')).2).index who'
          = (Filed.of (options who') d (s.placer who')).next := Function.update_self ..
      rw [hindex]
      exact ih.append rfl (Filed.number_le_next (hfiles who') d _)
    · rw [callsOf_singleton_of_ne hwho, List.append_nil]
      have hindex : (s.after who' (call (options who') d (s.placer who')).2).index who
          = s.index who := Function.update_of_ne (Ne.symm hwho) _ _
      rw [hindex]
      exact ih

/-- What is called alike was drawn by different placers. -/
theorem Turns.ne_of_name? [Scalar α] (hfiles : ∀ who, (options who).emission = .files)
    (h : Turns options first (earlier ++ (who, f) :: later) last) {name : Text}
    (hf : f.name? (options who) = some name) {who' : ι} {g : Filed α}
    (hmem : (who', g) ∈ earlier ∨ (who', g) ∈ later) (hg : g.name? (options who') = some name) :
    who' ≠ who := by
  rintro rfl
  obtain ⟨hused, image, -, rfl⟩ := Filed.exists_of_name? hf
  obtain ⟨hused', image', -, hname⟩ := Filed.exists_of_name? hg
  have hsame := ((fileName_eq_iff rfl).mp hname).1
  have hordered := h.ordered hfiles who'
  rw [callsOf_append, ← List.singleton_append, callsOf_append, callsOf_singleton_self,
    List.singleton_append] at hordered
  obtain ⟨-, hascends, hbefore⟩ := List.pairwise_append.mp hordered.ascends
  have hf' := hordered.number_le f (by simp)
  rcases hmem with hmem | hmem
  · have hle := hbefore g (mem_callsOf.mpr hmem) f List.mem_cons_self
    have hg' := hordered.number_le g (by simp [mem_callsOf, hmem])
    omega
  · have hle := List.rel_of_pairwise_cons hascends (mem_callsOf.mpr hmem)
    omega

/-- With one word for all, another call gives the name of a box exactly if it is another placer's and
has the same number and ending. -/
theorem Turns.name?_eq_iff [Scalar α] (hfiles : ∀ who, (options who).emission = .files) {word : Text}
    (hword : ∀ who, (options who).context = word)
    (h : Turns options first (earlier ++ (who, f) :: later) last) {image image' : EncodedImage}
    (hf : f.name? (options who) = some (fileName (options who) f.number image))
    {who' : ι} {g : Filed α} (hmem : (who', g) ∈ earlier ∨ (who', g) ∈ later)
    (himage' : (ImageEncoding.encode g.drawing.raster).1 = .ok image') (hused : g.next ≠ g.number) :
    g.name? (options who') = some (fileName (options who) f.number image)
      ↔ who' ≠ who ∧ g.number = f.number ∧ image'.fileEnding = image.fileEnding := by
  have hname : g.name? (options who') = some (fileName (options who') g.number image') := by
    rw [Filed.name?, if_neg hused, himage']
    rfl
  have hsame : (options who').context = (options who).context := (hword who').trans (hword who).symm
  rw [hname, Option.some.injEq, fileName_eq_iff hsame]
  constructor
  · rintro ⟨hnumber, hending⟩
    refine ⟨h.ne_of_name? hfiles hf hmem ?_, hnumber, hending⟩
    rw [hname, (fileName_eq_iff hsame).mpr ⟨hnumber, hending⟩]
  · rintro ⟨-, hnumber, hending⟩
    exact ⟨hnumber, hending⟩

/-! ## Files -/

/-- The call returned a box under the name. -/
def Under (options : ι → Options α) (name : Text) (e : ι × Filed α) : Prop :=
  e.2.IsBox ∧ e.2.name? (options e.1) = some name

variable [Scalar α] {dir : Option FilePath}

/-- A box that nobody has returned another one under the name of has its own picture in its file. -/
theorem Turns.isFiled (hfiles : ∀ who, (options who).emission = .files)
    (hcontext : ∀ who, HasNoSlash (options who).context) (hdir : ∀ who, (options who).imageDir = dir)
    (h : Turns options first record last)
    (hformats : ∀ e ∈ record, ∀ format ∈ e.2.drawing.raster.format?, HasNoSlash format)
    (hrecord : record = earlier ++ (who, f) :: later) {box : Picture α}
    (hbox : f.answer = .ok (some box)) :
    ∃ place image, IsNamed (options who) f box place image
      ∧ ((∀ e ∈ later, ¬Under options (fileName (options who) f.number image) e) →
        IsFiled (options who) f box place image last.files) := by
  induction h generalizing later with
  | start => simp at hrecord
  | @turn record s who' d h ih =>
    rcases List.eq_nil_or_concat later with rfl | ⟨more, e, rfl⟩
    · -- The box is that of the last call.
      obtain ⟨rfl, hlast⟩ := List.append_inj' hrecord rfl
      cases hlast
      obtain ⟨place, image, hfiled⟩ := isFiled_call (hfiles who) hbox
      exact ⟨place, image, hfiled.toIsNamed, fun _ => hfiled⟩
    · rw [List.concat_eq_append, ← List.cons_append, ← List.append_assoc] at hrecord
      obtain ⟨rfl, hlast⟩ := List.append_inj' hrecord rfl
      cases hlast
      obtain ⟨place, image, hnamed, hfiled⟩ :=
        ih (fun g hg => hformats g (List.mem_append_left _ hg)) rfl
      refine ⟨place, image, hnamed, fun hfree => ?_⟩
      have hbefore := hfiled fun g hg => hfree g (by simp [hg])
      have hstep := hnamed.isStep (hcontext who) (hformats (who, f) (by simp))
      have hsame : (options who').imageDir = (options who).imageDir :=
        (hdir who').trans (hdir who).symm
      exact IsFiled.after_call (p := s.placer who') hbefore hstep (hfiles who') (hcontext who') hsame
        (hformats _ (List.mem_append_right _ (List.mem_singleton_self _)))
        fun hbox' hname =>
          hfree (who', .of (options who') d (s.placer who')) (by simp) ⟨hbox', hname⟩

/-- A file holds the picture of the last box that was returned under its name. -/
theorem Turns.held_of_last (hfiles : ∀ who, (options who).emission = .files)
    (hcontext : ∀ who, HasNoSlash (options who).context) (hdir : ∀ who, (options who).imageDir = dir)
    (h : Turns options first record last)
    (hformats : ∀ e ∈ record, ∀ format ∈ e.2.drawing.raster.format?, HasNoSlash format)
    (hrecord : record = earlier ++ (who, f) :: later) {place : FilePath} (hplace : dir = some place)
    {name : Text} (hunder : Under options name (who, f))
    (hfree : ∀ e ∈ later, ¬Under options name e) {image : EncodedImage}
    (himage : (ImageEncoding.encode f.drawing.raster).1 = .ok image) :
    last.files.readFile (place.join name) = .ok image.data := by
  obtain ⟨⟨box, hbox⟩, hname⟩ := hunder
  obtain ⟨place', image', hnamed, hfiled⟩ := h.isFiled hfiles hcontext hdir hformats hrecord hbox
  cases hnamed.directory.symm.trans ((hdir who).trans hplace)
  cases hnamed.encoded.symm.trans himage
  cases hnamed.named.symm.trans hname
  exact (hfiled hfree).held

/-- Without words of their own, placers on one machine that share a directory give the same name for
the same number and ending; a placer gives no name twice. The file of a box holds its own picture if
nobody returns another box under the name, and otherwise the picture of the last one. -/
theorem Turns.shared_directory (hfiles : ∀ who, (options who).emission = .files)
    (hcontext : ∀ who, (options who).contextId = none) {machine : Machine}
    (hmachine : ∀ who, (options who).machine = machine)
    (hdir : ∀ who, (options who).imageDir = dir)
    (h : Turns options first (earlier ++ (who, f) :: later) last)
    (hformats : ∀ e ∈ earlier ++ (who, f) :: later, ∀ format ∈ e.2.drawing.raster.format?,
      HasNoSlash format)
    {box : Picture α} (hbox : f.answer = .ok (some box)) :
    ∃ place image name, dir = some place ∧ f.name? (options who) = some name
      ∧ (ImageEncoding.encode f.drawing.raster).1 = .ok image
      ∧ box.source = address (options who) name
      ∧ (∀ who' g, (who', g) ∈ earlier ∨ (who', g) ∈ later → ∀ image',
        (ImageEncoding.encode g.drawing.raster).1 = .ok image' → g.next ≠ g.number →
          (g.name? (options who') = some name
            ↔ who' ≠ who ∧ g.number = f.number ∧ image'.fileEnding = image.fileEnding))
      ∧ ((∀ e ∈ later, ¬Under options name e) →
        last.files.readFile (place.join name) = .ok image.data)
      ∧ ∀ between e rest image', later = between ++ e :: rest → Under options name e →
        (ImageEncoding.encode e.2.drawing.raster).1 = .ok image' →
        (∀ e' ∈ rest, ¬Under options name e') →
          last.files.readFile (place.join name) = .ok image'.data := by
  have hword : ∀ who, (options who).context = machine.word := by
    intro who
    rw [Options.context, hcontext, hmachine]
  have hnoSlash : ∀ who, HasNoSlash (options who).context := by
    intro who
    rw [hword]
    exact machine.noSlash
  obtain ⟨place, image, hnamed, -⟩ := h.isFiled hfiles hnoSlash hdir hformats rfl hbox
  have hplace : dir = some place := (hdir who).symm.trans hnamed.directory
  refine ⟨place, image, fileName (options who) f.number image, hplace, hnamed.named, hnamed.encoded,
    hnamed.source, ?_, ?_, ?_⟩
  · intro who' g hmem image' himage' hused
    exact h.name?_eq_iff hfiles hword hnamed.named hmem himage' hused
  · intro hfree
    exact h.held_of_last hfiles hnoSlash hdir hformats rfl hplace ⟨⟨box, hbox⟩, hnamed.named⟩ hfree
      hnamed.encoded
  · rintro between ⟨who', g⟩ rest image' rfl hunder himage' hfree
    have hrecord : earlier ++ (who, f) :: (between ++ (who', g) :: rest)
        = (earlier ++ (who, f) :: between) ++ (who', g) :: rest := by simp
    exact h.held_of_last hfiles hnoSlash hdir hformats hrecord hplace hunder hfree himage'

/-! Two placers that draw one picture each -/

/-- Both write to one directory, and neither has a word of its own. -/
def bothShelves : Bool → Options ℚ := fun _ => { shelf with contextId := none }

/-- The file of the first box holds the picture of the second one. -/
theorem shared_directory_bothShelves : ∃ record last,
    Turns bothShelves ⟨fun _ => 0, {}, []⟩ record last
      ∧ record.map (fun e => e.2.name? (bothShelves e.1))
        = [some (Text.lit "ctx-0.png"), some (Text.lit "ctx-0.png")]
      ∧ (ImageEncoding.encode (stamp [1]).raster).1.toOption.map (·.data) = some [1]
      ∧ last.files.readFile ⟨[], [Text.lit "shelf", Text.lit "ctx-0.png"]⟩ = .ok [2] := by
  let s : Shared Bool := ⟨fun _ => 0, {}, []⟩
  let t : Shared Bool := s.after false (call (bothShelves false) (stamp [1]) (s.placer false)).2
  let f : Filed ℚ := .of (bothShelves false) (stamp [1]) (s.placer false)
  let g : Filed ℚ := .of (bothShelves true) (stamp [2]) (t.placer true)
  have hturns : Turns bothShelves s ([] ++ (false, f) :: [(true, g)])
      (t.after true (call (bothShelves true) (stamp [2]) (t.placer true)).2) :=
    .turn true (stamp [2]) (.turn false (stamp [1]) .start)
  refine ⟨_, _, hturns, by decide +kernel, by decide +kernel, ?_⟩
  have hformats : ∀ e ∈ [(false, f), (true, g)], ∀ format ∈ e.2.drawing.raster.format?,
      HasNoSlash format := by decide +kernel
  have hfiles : ∀ who, (bothShelves who).emission = .files := fun _ => rfl
  have hcontext : ∀ who, (bothShelves who).contextId = none := fun _ => rfl
  have hdir : ∀ who, (bothShelves who).imageDir = some ⟨[], [Text.lit "shelf"]⟩ := fun _ => rfl
  have hbox : f.IsBox := by decide +kernel
  obtain ⟨box, hbox⟩ := hbox
  obtain ⟨place, image, name, hplace, hname, -, -, -, -, hlast⟩ :=
    hturns.shared_directory hfiles hcontext (fun _ => rfl) hdir hformats hbox
  have hname' : f.name? (bothShelves false) = some (Text.lit "ctx-0.png") := by decide +kernel
  have hdata : (ImageEncoding.encode g.drawing.raster).1.toOption.map (·.data) = some [2] := by
    decide +kernel
  rw [hname] at hname'
  cases hplace
  cases hname'
  have hunder : Under bothShelves (Text.lit "ctx-0.png") (true, g) :=
    ⟨by decide +kernel, by decide +kernel⟩
  cases himage : (ImageEncoding.encode g.drawing.raster).1 with
  | error e =>
    rw [himage] at hdata
    cases hdata
  | ok image' =>
    rw [himage] at hdata
    have hread := hlast [] (true, g) [] image' rfl hunder himage fun _ h => absurd h List.not_mem_nil
    have hbytes : image'.data = [2] := Option.some.inj hdata
    rw [hbytes] at hread
    have hpath : FilePath.join ⟨[], [Text.lit "shelf"]⟩ (Text.lit "ctx-0.png")
        = ⟨[], [Text.lit "shelf", Text.lit "ctx-0.png"]⟩ := by decide +kernel
    exact hpath ▸ hread

end Folio.Placer
