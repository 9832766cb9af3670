import Folio.Proofs.Layout.Counting
import Folio.Proofs.Path.Leftover

/-!
# What a painted path still has to do with the next one

A stroke draws what has been constructed since the path was last painted, but from where the pen and
the start of the subpath were left: the rules are those of a new path that has been taken there first
(`strokes_since`). Nothing of what was painted before shows if the construction begins a subpath of its
own. If it does not, the first line goes out from the old path, or a closing goes back to it.

A call on a page does to the path what its steps do (`Call.draws`), and painting takes the segments and
nothing else (`Call.leaves`). The two are followed through the calls on a page (`at_calls`).
-/

namespace Folio.Layout

open Folio.Path (Draw drawn fresh startsAnew)
open Text (lit)

/-- Whether the operator ends the path, by painting it or by dropping it. -/
def PathVerb.paints : PathVerb → Bool
  | stroke | closeAndStroke | discard => true
  | move | line | curve _ | rectangle | close => false

/-- Whether the operator draws the path. -/
def PathVerb.strokes : PathVerb → Bool
  | stroke | closeAndStroke => true
  | move | line | curve _ | rectangle | close | discard => false

variable {α : Type} [Scalar α]

/-! ## Path operators as steps -/

/-- The steps by which a path operator constructs; with too few operands there are none. -/
def verbDraws (page : Page.Frame α) (op : Operator α) (verb : PathVerb) :
    Except Fault (List (Draw α)) :=
  let t := device page op
  match verb with
  | .move => (numbers? op 2).map fun
    | some [x, y] => [.move (t.apply x y)]
    | _ => []
  | .line => (numbers? op 2).map fun
    | some [x, y] => [.line (t.apply x y)]
    | _ => []
  | .curve n => (numbers? op n).map fun values =>
    match values.map (List.drop (n - 2)) with
    | some [x, y] => [.curve (t.apply x y)]
    | _ => []
  | .rectangle => (numbers? op 4).map fun
    | some [x, y, width, height] => Path.rectangleDraws t x y width height
    | _ => []
  | .close | .closeAndStroke => .ok [.close]
  | .stroke | .discard => .ok []

/-- What a path operator then makes of the path that it has constructed. -/
def paint (op : Operator α) (verb : PathVerb) (path : Path α) : List (Rule α) × Path α :=
  match verb with
  | .stroke | .closeAndStroke => path.stroke (op.ctm.scaleLength op.lineWidth)
  | .discard => ([], path.discard)
  | .move | .line | .curve _ | .rectangle | .close => ([], path)

/-- A path operator constructs, and then it may paint. -/
theorem trace_eq (page : Page.Frame α) (op : Operator α) (verb : PathVerb) (path : Path α) :
    trace page op verb path = (verbDraws page op verb).map fun ds => paint op verb (drawn ds path) := by
  cases verb with
  | move | line =>
    rw [trace, verbDraws]
    rcases numbers? op 2 with e | _ | values
    · rfl
    · rfl
    · rcases values with _ | ⟨x, _ | ⟨y, _ | ⟨z, rest⟩⟩⟩ <;> rfl
  | curve n =>
    rw [trace, verbDraws]
    rcases numbers? op n with e | _ | values
    · rfl
    · rfl
    · simp only [Except.map, Option.map]
      rcases values.drop (n - 2) with _ | ⟨x, _ | ⟨y, _ | ⟨z, rest⟩⟩⟩ <;> rfl
  | rectangle =>
    rw [trace, verbDraws]
    rcases numbers? op 4 with e | _ | values
    · rfl
    · rfl
    · rcases values with _ | ⟨x, _ | ⟨y, _ | ⟨width, _ | ⟨height, _ | ⟨z, rest⟩⟩⟩⟩⟩ <;> rfl
  | close | stroke | closeAndStroke | discard => rfl

/-- What ends a path needs no operands. -/
theorem verbDraws_of_paints (page : Page.Frame α) (op : Operator α) {verb : PathVerb}
    (h : verb.paints = true) : ∃ ds, verbDraws page op verb = .ok ds := by
  cases verb with
  | stroke | closeAndStroke | discard => exact ⟨_, rfl⟩
  | move | line | curve | rectangle | close => cases h

/-! ## Calls on a page -/

namespace Call

section

omit [Scalar α]

/-- Whether the call neither begins nor ends a page. -/
def staysOnPage : Call α → Bool
  | pageBegin .. | pageEnd => false
  | resources _ | glyph _ | operator _ | picture .. => true

/-- The path operator that the call is. -/
def verb? : Call α → Option PathVerb
  | operator op => PathVerb.ofName? op.name
  | pageBegin .. | pageEnd | resources _ | glyph _ | picture .. => none

/-- Whether the call ends the path. -/
def paints (c : Call α) : Bool := c.verb?.any PathVerb.paints

end

/-- The steps by which a call on the page constructs. -/
def draws (page : Page.Frame α) : Call α → List (Draw α)
  | operator op =>
    match (PathVerb.ofName? op.name).map (verbDraws page op) with
    | some (.ok ds) => ds
    | some (.error _) | none => []
  | pageBegin .. | pageEnd | resources _ | glyph _ | picture .. => []

/-- The path that a call on the page leaves. -/
def leaves (page : Page.Frame α) (path : Path α) (c : Call α) : Path α :=
  if c.paints then (drawn (c.draws page) path).discard else drawn (c.draws page) path

end Call

/-- The layout is on that page and has come to that path. -/
structure At (page : Page.Frame α) (path : Path α) (l : Layout α) : Prop where
  page : l.page = some page
  path : l.path = path

section

variable {page : Page.Frame α} {path : Path α} {l : Layout α}

theorem At.takeParagraph (h : At page path l) (out : Option (Paragraph α)) :
    At page path ((takeParagraph out).run l).2 := by
  rw [run_takeParagraph]
  cases out with
  | none => exact h
  | some p => exact ⟨h.page, h.path⟩

theorem At.takeRules (h : At page path l) (rules : List (Rule α)) :
    At page path ((takeRules rules).run l).2 := by
  rw [run_takeRules]
  show At page path (rules.foldl tookRule l)
  induction rules generalizing l with
  | nil => exact h
  | cons r rules ih => exact ih ⟨h.page, h.path⟩

/-- Pictures have nothing to do with the path. -/
theorem keeps_at : PictureParts fun {_} x => (x : Act (Layout α) _).Keeps (At page path) where
  toComposes := Act.Keeps.composes _
  page _ hg := .bind .get hg
  report _ := .modify fun _ h => ⟨h.page, h.path⟩
  place raster page' user l h := by
    rw [run_place_eq]
    exact ⟨h.page, h.path⟩
  emit p l h := by
    rw [run_emit_picture]
    exact ⟨h.page, h.path⟩
  drawn := .modify fun _ h => ⟨h.page, h.path⟩
  skipped := .modify fun _ h => ⟨h.page, h.path⟩
  failed := .modify fun _ h => ⟨h.page, h.path⟩

theorem At.drawPath (h : At page path l) {op : Operator α} {verb : PathVerb}
    (hverb : PathVerb.ofName? op.name = some verb) :
    At page (Call.leaves page path (.operator op)) ((Layout.drawPath page op verb).run l).2 := by
  have hpaints : (Call.operator op).paints = verb.paints := by
    rw [Call.paints, Call.verb?, hverb]
    rfl
  rw [run_drawPath, trace_eq, h.path, Call.leaves, hpaints, Call.draws, hverb, Option.map_some]
  cases hdraws : verbDraws page op verb with
  | error e =>
    have hverb : verb.paints = false := by
      refine Bool.eq_false_iff.mpr fun htrue => ?_
      obtain ⟨ds, hds⟩ := verbDraws_of_paints page op htrue
      cases hdraws.symm.trans hds
    rw [hverb]
    exact h
  | ok ds =>
    have hpainted : At page (if verb.paints then (drawn ds path).discard else drawn ds path)
        { l with path := (paint op verb (drawn ds path)).2 } :=
      ⟨h.page, by cases verb <;> rfl⟩
    exact hpainted.takeRules _

/-- A call on the page leaves the path that its steps construct, without its segments if they have
been painted. -/
theorem At.perform (h : At page path l) {c : Call α} (hc : c.staysOnPage = true) :
    At page (c.leaves page path) (c.perform.run l).2 := by
  cases c with
  | pageBegin | pageEnd => cases hc
  | resources found =>
    cases found with
    | none => exact ⟨h.page, h.path⟩
    | some found => exact ⟨h.page, h.path⟩
  | glyph g =>
    show At page path _
    rw [Call.perform, run_addGlyph_of_page h.page]
    cases l.segmenter.feed l.fonts g with
    | error e => exact h
    | ok answer =>
      have hfed : At page path { l with segmenter := answer.1 } := ⟨h.page, h.path⟩
      exact hfed.takeParagraph answer.2
  | picture raster user => exact keeps_at.addPicture raster user l h
  | operator op =>
    rw [Call.perform, addOperator, Act.run_bind_ok (Act.run_get l), h.page]
    cases hverb : PathVerb.ofName? op.name with
    | some verb => exact h.drawPath hverb
    | none =>
      have hleaves : Call.leaves page path (.operator op) = path := by
        rw [Call.leaves, Call.paints, Call.verb?, Call.draws, hverb]
        rfl
      rw [hleaves]
      simp only
      split
      · exact keeps_at.drawObject op l h
      · exact h

theorem at_calls (h : At page path l) {cs : List (Call α)} (hcs : ∀ c ∈ cs, c.staysOnPage = true) :
    At page (cs.foldl (Call.leaves page) path) (calls cs l) := by
  induction cs generalizing path l with
  | nil => exact h
  | cons c cs ih =>
    exact ih (h.perform (hcs c List.mem_cons_self)) fun c hc => hcs c (List.mem_cons_of_mem _ hc)

/-- A page begins with a new path. -/
theorem at_beginPage {l₀ : Layout α} {number : Int} {crop : Option (CropBox α)} {rotation : Angle α}
    (hbegin : (beginPage number crop rotation).run l₀ = (.ok (), l)) (hpage : l.page = some page) :
    At page (fresh l.path.minStroke page.transform) l := by
  rw [run_beginPage] at hbegin
  rcases hended : (endForgottenPage number).run l₀ with ⟨e | _, l'⟩ <;> rw [hended] at hbegin
  · cases hbegin
  · simp only [run_beginPage_of_none (page_of_run_endForgottenPage hended)] at hbegin
    cases hrotation : rotation.rotation with
    | error e =>
      rw [hrotation] at hbegin
      cases hbegin
    | ok turn =>
      simp only [hrotation, run_emit_pageStart_eq, Prod.mk.injEq] at hbegin
      obtain ⟨-, rfl⟩ := hbegin
      obtain rfl := Option.some.inj hpage
      exact ⟨rfl, rfl⟩

end

/-! ## Steps since the path was painted -/

section

variable {page : Page.Frame α}

/-- Calls that do not paint construct one after the other. -/
theorem foldl_leaves_of_unpainted {cs : List (Call α)} (hcs : ∀ c ∈ cs, c.paints = false)
    (path : Path α) : cs.foldl (Call.leaves page) path = drawn (cs.flatMap (Call.draws page)) path := by
  induction cs generalizing path with
  | nil => rfl
  | cons c cs ih =>
    have hleaves : c.leaves page path = drawn (c.draws page) path := by
      rw [Call.leaves, hcs c List.mem_cons_self, if_neg Bool.false_ne_true]
    rw [List.foldl_cons, List.flatMap_cons, Path.drawn_append, hleaves,
      ih fun c hc => hcs c (List.mem_cons_of_mem _ hc)]

/-- Whatever calls make of a path, its pen and its start fit together, and its least stroke and its map
are as before. -/
theorem foldl_leaves (page : Page.Frame α) {path : Path α} (h : path.Anchored) (cs : List (Call α)) :
    let left := cs.foldl (Call.leaves page) path
    left.Anchored ∧ left.minStroke = path.minStroke ∧ left.transform = path.transform := by
  induction cs generalizing path with
  | nil => exact ⟨h, rfl, rfl⟩
  | cons c cs ih =>
    have hdrawn := Path.anchored_drawn h (c.draws page)
    have hminStroke := Path.minStroke_drawn (c.draws page) path
    have hmap := Path.transform_drawn (c.draws page) path
    have hleaves : (c.leaves page path).Anchored ∧ (c.leaves page path).minStroke = path.minStroke
        ∧ (c.leaves page path).transform = path.transform := by
      unfold Call.leaves
      split
      · exact ⟨⟨hdrawn.isSome, hdrawn.resting, hdrawn.still⟩, hminStroke, hmap⟩
      · exact ⟨hdrawn, hminStroke, hmap⟩
    obtain ⟨hanchored, hminStroke', hmap'⟩ := ih hleaves.1
    exact ⟨hanchored, hminStroke'.trans hleaves.2.1, hmap'.trans hleaves.2.2⟩

/-- Nothing is held after a path has been painted. -/
theorem segments_foldl_leaves (page : Page.Frame α) {path : Path α} (h : path.segments = [])
    {cs : List (Call α)} (hcs : ∀ c ∈ cs.getLast?, c.paints = true) :
    (cs.foldl (Call.leaves page) path).segments = [] := by
  rcases List.eq_nil_or_concat cs with rfl | ⟨first, c, rfl⟩
  · exact h
  · rw [List.concat_eq_append] at hcs ⊢
    have hpaints : c.paints = true := hcs c List.getLast?_concat
    rw [List.foldl_concat, Call.leaves, if_pos hpaints]
    rfl

/-- What a stroke draws if the layout has come to that path. -/
theorem struck_of_strokes {path : Path α} {l : Layout α} (h : At page path l) {op : Operator α}
    {verb : PathVerb} (hverb : PathVerb.ofName? op.name = some verb) (hstrokes : verb.strokes = true) :
    struck l (.call (.operator op)) = (drawn (Call.draws page (.operator op)) path).segments.map
      (·.rule (Scalar.greater (op.ctm.scaleLength op.lineWidth) path.minStroke)) := by
  rw [struck, h.page, hverb]
  simp only [trace_eq, h.path, Call.draws, hverb, Option.map_some]
  cases verb with
  | stroke => rfl
  | closeAndStroke =>
    show (path.close.segments.map (·.rule (Scalar.greater (op.ctm.scaleLength op.lineWidth)
      path.close.minStroke))) = _
    rw [Path.minStroke_close]
    rfl
  | move | line | curve | rectangle | close | discard => cases hstrokes

/-- After calls that do not paint, a stroke draws what they construct. -/
theorem struck_calls {path : Path α} {l : Layout α} (h : At page path l) {since : List (Call α)}
    (hsince : ∀ c ∈ since, c.staysOnPage = true ∧ c.paints = false) {op : Operator α}
    {verb : PathVerb} (hverb : PathVerb.ofName? op.name = some verb) (hstrokes : verb.strokes = true) :
    struck (calls since l) (.call (.operator op))
      = (drawn ((since ++ [Call.operator op]).flatMap (Call.draws page)) path).segments.map
        (·.rule (Scalar.greater (op.ctm.scaleLength op.lineWidth) path.minStroke)) := by
  have hcalls := at_calls h fun c hc => (hsince c hc).1
  rw [foldl_leaves_of_unpainted fun c hc => (hsince c hc).2] at hcalls
  rw [struck_of_strokes hcalls hverb hstrokes, Path.minStroke_drawn, List.flatMap_append,
    List.flatMap_singleton, Path.drawn_append]

end

/-- On a page, after a path has been painted or with none before, a stroke draws what has been
constructed since, on a new path that has been taken to where the pen was left. It is the same as
without what came before if what has been constructed since begins a subpath of its own. If it does
not, and the pen was left away from the start of a subpath, a segment is drawn that comes from that pen
or goes back to that start. -/
theorem strokes_since {l₀ l : Layout α} {number : Int} {crop : Option (CropBox α)}
    {rotation : Angle α} (hbegin : (beginPage number crop rotation).run l₀ = (.ok (), l))
    {page : Page.Frame α} (hpage : l.page = some page) {before since : List (Call α)}
    (hbefore : ∀ c ∈ before, c.staysOnPage = true)
    (hpainted : ∀ c ∈ before.getLast?, c.paints = true)
    (hsince : ∀ c ∈ since, c.staysOnPage = true ∧ c.paints = false)
    {op : Operator α} {verb : PathVerb} (hverb : PathVerb.ofName? op.name = some verb)
    (hstrokes : verb.strokes = true) :
    let left := (calls before l).path
    let ds := (since ++ [Call.operator op]).flatMap (Call.draws page)
    let segments := (drawn (left.leftover ++ ds) (fresh l.path.minStroke page.transform)).segments
    let rules := struck (calls (before ++ since) l) (.call (.operator op))
    rules = segments.map
        (·.rule (Scalar.greater (op.ctm.scaleLength op.lineWidth) l.path.minStroke))
      ∧ (startsAnew false ds = true → rules = struck (calls since l) (.call (.operator op)))
      ∧ (startsAnew false ds = false → ∀ last first, left.Strayed last first →
          (∀ d ∈ ds, ∀ p ∈ d.target, (p == first) = false) →
          ∃ s ∈ segments, s.start = last ∨ s.stop = first) := by
  intro left ds segments rules
  have hbegun := at_beginPage hbegin hpage
  have hleft := at_calls hbegun hbefore
  obtain ⟨hanchored, hminStroke, hmap⟩ :=
    foldl_leaves page (Path.anchored_fresh l.path.minStroke page.transform) before
  have hnew : (fresh l.path.minStroke page.transform).segments = [] := rfl
  have hempty : left.segments = [] := by
    show (calls before l).path.segments = []
    rw [hleft.path]
    exact segments_foldl_leaves page hnew hpainted
  rw [← hleft.path] at hanchored hminStroke hmap
  have hfresh : fresh l.path.minStroke page.transform = fresh left.minStroke left.transform := by
    rw [hminStroke, hmap]
    rfl
  -- Nothing is held, so that what comes before can be replaced by the way to the pen.
  have hsegments : segments = (drawn ds left).segments := by
    show (drawn (left.leftover ++ ds) _).segments = _
    rw [Path.drawn_append, hfresh, Path.drawn_leftover hanchored hempty]
  have hrules : rules = (drawn ds left).segments.map
      (·.rule (Scalar.greater (op.ctm.scaleLength op.lineWidth) l.path.minStroke)) := by
    have hstruck := struck_calls hleft hsince hverb hstrokes
    rw [← hleft.path, hminStroke] at hstruck
    show struck (calls (before ++ since) l) _ = _
    rw [calls, List.foldl_append]
    exact hstruck
  refine ⟨by rw [hsegments, hrules], fun hds => ?_, fun hds last first hstrayed hapart => ?_⟩
  · have halone := struck_calls hbegun hsince hverb hstrokes
    rw [hrules, halone, Path.segments_drawn_anew hds hempty, ← hfresh]
    rfl
  · rw [hsegments]
    exact hstrayed.exists_mem_drawn hds hapart

/-- A path operator with whole operands in the user space of the page. -/
def plotting (name : String) (operands : List Int) : Operator ℚ where
  name := lit name
  operands := operands.map .whole
  graph := { nodes := #[], objects := [] }
  ctm := .identity
  lineWidth := 1
  resources := none

/-- A page that has begun. -/
def sheet : Layout ℚ :=
  ((beginPage 1 (some ⟨0, 0, 200, 200⟩) (.whole 0)).run (start .standard .memory {})).2

/-- Two sides of a triangle, which is filled. -/
def filled : List (Call ℚ) := [.operator (plotting "m" [10, 10]), .operator (plotting "l" [60, 10]),
  .operator (plotting "l" [60, 60]), .operator (plotting "f" [])]

/-- The filled triangle gets its third side if nothing but a closing is stroked then, although nothing
would be drawn without the triangle. It does not show in a rectangle that is stroked. -/
theorem strokes_since_filled :
    let closing : Request ℚ := .call (.operator (plotting "s" []))
    let stroking : Request ℚ := .call (.operator (plotting "S" []))
    let rectangle : List (Call ℚ) := [.operator (plotting "re" [20, 20, 30, 30])]
    struck (calls [] sheet) closing = [] ∧ (struck (calls (filled ++ []) sheet) closing).length = 1
      ∧ (∃ (s : Segment ℚ) (width : ℚ), (s.start = ⟨60, 140⟩ ∨ s.stop = ⟨10, 190⟩)
        ∧ s.rule width ∈ struck (calls (filled ++ []) sheet) closing)
      ∧ struck (calls (filled ++ rectangle) sheet) stroking = struck (calls rectangle sheet) stroking := by
  intro closing stroking rectangle
  have hbegin : (beginPage 1 (some ⟨0, 0, 200, 200⟩) (.whole 0)).run (start .standard .memory {})
      = (.ok (), sheet) := rfl
  have hpage : sheet.page = some (Page.frame 1 (some ⟨0, 0, 200, 200⟩) .none) := rfl
  have hstrayed : (calls filled sheet).path.Strayed ⟨60, 140⟩ ⟨10, 190⟩ :=
    ⟨by decide +kernel, by decide +kernel, by decide +kernel, by decide +kernel⟩
  have hclosing : PathVerb.ofName? (plotting "s" []).name = some .closeAndStroke := by decide
  have hstroking : PathVerb.ofName? (plotting "S" []).name = some .stroke := by decide
  have hstays : ∀ c ∈ filled, c.staysOnPage = true := by decide
  have hpainted : ∀ c ∈ filled.getLast?, c.paints = true := by decide
  have hnone : ∀ c ∈ ([] : List (Call ℚ)), c.staysOnPage = true ∧ c.paints = false := by decide
  have hrectangle : ∀ c ∈ rectangle, c.staysOnPage = true ∧ c.paints = false := by decide
  obtain ⟨hrules, -, hleft⟩ :=
    strokes_since hbegin hpage hstays hpainted hnone hclosing rfl
  obtain ⟨-, hanew, -⟩ :=
    strokes_since hbegin hpage hstays hpainted hrectangle hstroking rfl
  have hsteps : ([] ++ [Call.operator (plotting "s" [])]).flatMap
      (Call.draws (Page.frame 1 (some ⟨0, 0, 200, 200⟩) .none)) = [Draw.close] := rfl
  rw [hsteps] at hrules hleft
  obtain ⟨s, hs, hends⟩ := hleft rfl _ _ hstrayed fun d hd p hp => by
    rw [List.mem_singleton.mp hd] at hp
    cases hp
  have hmem := List.mem_map_of_mem (f := (Segment.rule · (Scalar.greater
    ((plotting "s" []).ctm.scaleLength (plotting "s" []).lineWidth) sheet.path.minStroke))) hs
  rw [← hrules] at hmem
  refine ⟨rfl, ?_, ⟨s, _, hends, hmem⟩, hanew (by decide +kernel)⟩
  rw [hrules, List.length_map]
  decide +kernel

end Folio.Layout
