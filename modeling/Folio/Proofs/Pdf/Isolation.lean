import Folio.Proofs.Pdf.Walk
import Folio.Proofs.Scalar.Rational

/-!
# What a form leaves behind

A form gives the graphics state and the text matrices back as it found them, whatever its content
is and however its walk ends. It does not give the stack of saved states back: what its content
saves and restores is done to the stack of the page. So a form leaves the stack alone from every
state exactly if its saves and restores, those of the forms within it included, are balanced
(`form_isolation`).

`moves` lists the saves and restores of a content as they are met, through all forms that are
entered. They are known without walking, because which forms are entered depends on nothing that a
walk changes. `Restacks` says what a list of them does to a stack, and `restacks_walk` that a walk
does just that, as far as it gets.
-/

namespace Folio.Pdf

/-- A change of the stack of saved states. -/
inductive Move
  | save
  | restore
  deriving DecidableEq, Repr

namespace Move

/-- Whether the moves bring `depth` further saves back, and never more than that. -/
def closes : Nat → List Move → Bool
  | depth, [] => depth = 0
  | depth, save :: rest => closes (depth + 1) rest
  | 0, restore :: _ => false
  | depth + 1, restore :: rest => closes depth rest

/-- Every save is restored and nothing else is. -/
def Balanced (moves : List Move) : Prop := closes 0 moves = true

instance (moves : List Move) : Decidable (Balanced moves) := inferInstanceAs (Decidable (_ = true))

/-- How many states are saved after the moves; with none saved, a restore does nothing. -/
def height : Nat → List Move → Nat
  | saved, [] => saved
  | saved, save :: rest => height (saved + 1) rest
  | saved, restore :: rest => height (saved - 1) rest

theorem closes_iff (ms : List Move) :
    ∀ depth, closes depth ms = true ↔ ∀ saved, height (saved + depth) ms = saved := by
  induction ms with
  | nil =>
    intro depth
    constructor
    · intro h saved
      rw [closes, decide_eq_true_iff] at h
      rw [h]
      rfl
    · intro h
      have hzero := h 0
      rw [Nat.zero_add] at hzero
      exact decide_eq_true hzero
  | cons m ms ih =>
    intro depth
    cases m with
    | save => exact ih (depth + 1)
    | restore =>
      cases depth with
      | succ depth => exact ih depth
      | zero =>
        -- With nothing saved and with one state saved the restore ends at the same height.
        constructor
        · intro h
          cases h
        · intro h
          have hnone : height 0 ms = 0 := h 0
          have hone : height 0 ms = 1 := h 1
          omega

/-- Balanced moves are those that end at the height at which they begin, whatever it is. -/
theorem balanced_iff (ms : List Move) : Balanced ms ↔ ∀ saved, height saved ms = saved :=
  closes_iff ms 0

/-- The moves take one stack to the other; a save puts some state on top. -/
inductive Restacks {γ : Type} : List Move → List γ → List γ → Prop
  | nil (s : List γ) : Restacks [] s s
  | save {ms : List Move} {s t : List γ} (g : γ) (h : Restacks ms (g :: s) t) :
    Restacks (save :: ms) s t
  | restore {ms : List Move} {s t : List γ} (h : Restacks ms s.tail t) :
    Restacks (restore :: ms) s t

namespace Restacks

variable {γ : Type} {ms ns : List Move} {s t u : List γ}

theorem append (h : Restacks ms s t) (h' : Restacks ns t u) : Restacks (ms ++ ns) s u := by
  induction h with
  | nil => exact h'
  | save g _ ih => exact .save g (ih h')
  | restore _ ih => exact .restore (ih h')

theorem length_eq (h : Restacks ms s t) : t.length = height s.length ms := by
  induction h with
  | nil => rfl
  | save g _ ih => exact ih
  | restore _ ih => rw [ih, List.length_tail]; rfl

/-- Moves that close what has been saved end at the stack below that. -/
theorem eq_of_closes (h : Restacks ms s t) :
    ∀ pushed base : List γ, s = pushed ++ base → closes pushed.length ms = true → t = base := by
  induction h with
  | nil s =>
    intro pushed base hs hcloses
    rw [closes, decide_eq_true_iff, List.length_eq_zero_iff] at hcloses
    rw [hs, hcloses]
    rfl
  | save g _ ih =>
    intro pushed base hs hcloses
    exact ih (g :: pushed) base (by rw [hs]; rfl) hcloses
  | restore _ ih =>
    intro pushed base hs hcloses
    cases pushed with
    | nil => cases hcloses
    | cons g pushed => exact ih pushed base (by rw [hs]; rfl) hcloses

/-- Balanced moves end at the stack at which they begin. -/
theorem eq_of_balanced (h : Restacks ms s t) (hms : Balanced ms) : t = s :=
  h.eq_of_closes [] s rfl hms

end Restacks

end Move

namespace Walker

open Act (GoesOn goesOn_ok)

variable {α σ : Type} [Scalar α]

def moveOf : Verb → List Move
  | .save => [.save]
  | .restore => [.restore]
  | _ => []

/-- The saves and restores of a content, those of the forms that are entered included. -/
def moves (c : WalkContext α σ) (idle : List Nat) (resources : Resources α) :
    List (Instruction α) → List Move
  | [] => []
  | i :: rest =>
    (match _h : turn c idle resources i with
      | .operator verb => moveOf verb
      | .enter index _ own content => moves c (idle.erase index) own content
      | _ => [])
    ++ moves c idle resources rest
termination_by instructions => (idle.length, instructions.length)
decreasing_by
  · have := List.length_erase_of_mem (mem_of_turn_enter _h)
    have := List.length_pos_of_mem (mem_of_turn_enter _h)
    exact Prod.Lex.left _ _ (by omega)
  · exact Prod.Lex.right _ (by simp)

/-- The saves and restores that an instruction comes to. -/
def movesAt (c : WalkContext α σ) (idle : List Nat) (resources : Resources α)
    (i : Instruction α) : List Move :=
  match turn c idle resources i with
  | .operator verb => moveOf verb
  | .enter index _ own content => moves c (idle.erase index) own content
  | _ => []

theorem moves_cons (c : WalkContext α σ) (idle : List Nat) (resources : Resources α)
    (i : Instruction α) (rest : List (Instruction α)) :
    moves c idle resources (i :: rest) = movesAt c idle resources i ++ moves c idle resources rest := by
  rw [moves, movesAt]
  cases turn c idle resources i <;> rfl

def HasStack (stack : List (Graphics α)) (w : Walker α σ) : Prop := w.stack = stack

/-- An operator does to the stack what its move says, whether it succeeds or fails. -/
theorem restacks_perform (c : WalkContext α σ) (resources : Resources α) (i : Instruction α)
    (verb : Verb) (w : Walker α σ) :
    Move.Restacks (moveOf verb) w.stack ((perform c resources i verb).run w).2.stack := by
  have hkept : (perform c resources i verb).Keeps (HasStack w.stack) → moveOf verb = [] →
      Move.Restacks (moveOf verb) w.stack ((perform c resources i verb).run w).2.stack := by
    intro hkeeps hmove
    rw [hmove, hkeeps w rfl]
    exact .nil _
  cases verb with
  | save => exact .save _ (.nil _)
  | restore =>
    obtain ⟨graphics, stack, textMatrix, lineMatrix, listener⟩ := w
    cases stack <;> exact .restore (.nil _)
  | _ =>
    have hsurvives : SurvivesDrawing c (HasStack w.stack) :=
      ⟨fun _ _ _ _ h => h, fun _ _ h => h, fun _ _ _ h => h⟩
    refine hkept (keeps_perform hsurvives trivial i ?_) rfl
    rintro (h | h) <;> cases h

/-! ## Walks -/

/-- What a walk does to the stack are the moves of its content, as far as it gets. -/
theorem restacks_walk (c : WalkContext α σ) (idle : List Nat) (resources : Resources α)
    (is : List (Instruction α)) : ∀ w : Walker α σ,
    ∃ done, done <+: moves c idle resources is
      ∧ Move.Restacks done w.stack ((walk c idle resources is).run w).2.stack
      ∧ (((walk c idle resources is).run w).1 = .ok () → done = moves c idle resources is) := by
  induction idle, resources, is using walk_induction (c := c) with
  | nil idle resources =>
    intro w
    rw [walk_nil]
    exact ⟨[], List.nil_prefix, .nil _, fun _ => by rw [moves]⟩
  | cons idle resources i rest ihenter ihrest =>
    intro w
    -- What the instruction itself does; only a fault that ends the walk keeps it from its end.
    have hfirst : ∃ done, done <+: movesAt c idle resources i
        ∧ Move.Restacks done w.stack ((carryOut c idle resources i).run w).2.stack
        ∧ (GoesOn ((carryOut c idle resources i).run w).1 →
          done = movesAt c idle resources i) := by
      unfold carryOut movesAt
      cases hturn : turn c idle resources i with
      | ignored => exact ⟨[], List.nil_prefix, .nil _, fun _ => rfl⟩
      | operator verb =>
        exact ⟨moveOf verb, List.prefix_rfl, restacks_perform c resources i verb w, fun _ => rfl⟩
      | enter index form own content =>
        obtain ⟨done, hprefix, hrestacks, hdone⟩ :=
          ihenter index form own content hturn (w.inside form)
        simp only [run_withinForm]
        exact ⟨done, hprefix, hrestacks, fun hgoes => hdone (goesOn_walk_iff.mp hgoes)⟩
      | unreadable form words =>
        rw [run_withinForm]
        exact ⟨[], List.nil_prefix, .nil _, fun _ => rfl⟩
      | recursive form => exact ⟨[], List.nil_prefix, .nil _, fun _ => rfl⟩
    obtain ⟨done, hprefix, hrestacks, hdone⟩ := hfirst
    rw [moves_cons]
    by_cases hgoes : GoesOn ((carryOut c idle resources i).run w).1
    · rw [run_walk_cons_of_goesOn hgoes]
      obtain ⟨more, hprefix', hrestacks', hdone'⟩ :=
        ihrest ((carryOut c idle resources i).run w).2
      rw [hdone hgoes] at hrestacks
      exact ⟨_, (List.prefix_append_right_inj _).mpr hprefix', hrestacks.append hrestacks',
        fun hok => by rw [hdone' hok]⟩
    · rw [run_walk_cons_of_not_goesOn hgoes]
      refine ⟨done, hprefix.trans (List.prefix_append _ _), hrestacks, fun hok => ?_⟩
      rw [hok] at hgoes
      exact absurd (goesOn_ok _) hgoes

/-- Behind an instruction that draws a form, state and matrices are those from before it. -/
theorem graphics_of_form {c : WalkContext α σ} {idle : List Nat} {resources : Resources α}
    {i : Instruction α} {index : Nat} (hform : form? c resources i = some index)
    (w : Walker α σ) : ((walk c idle resources [i]).run w).2.graphics = w.graphics
      ∧ ((walk c idle resources [i]).run w).2.textMatrix = w.textMatrix
      ∧ ((walk c idle resources [i]).run w).2.lineMatrix = w.lineMatrix := by
  have hcarried : ((walk c idle resources [i]).run w).2
      = ((carryOut c idle resources i).run w).2 := by
    by_cases hgoes : GoesOn ((carryOut c idle resources i).run w).1
    · rw [run_walk_cons_of_goesOn hgoes, walk_nil]
      rfl
    · rw [run_walk_cons_of_not_goesOn hgoes]
  rw [hcarried, carryOut]
  cases hturn : turn c idle resources i with
  | ignored => exact ⟨rfl, rfl, rfl⟩
  | operator verb => exact absurd hturn (turn_of_form? hform verb)
  | enter index form own content =>
    simp only [run_withinForm]
    exact ⟨rfl, rfl, rfl⟩
  | unreadable form words =>
    simp only [run_withinForm]
    exact ⟨rfl, rfl, rfl⟩
  | recursive form => exact ⟨rfl, rfl, rfl⟩

/-- A state that is saved around a content with balanced moves is restored by the restore. -/
theorem graphics_of_balanced {c : WalkContext α σ} {idle : List Nat} {resources : Resources α}
    {content : List (Instruction α)} (h : Move.Balanced (moves c idle resources content))
    (before after : List (Object α)) (w : Walker α σ)
    (hok : ((walk c idle resources
      (⟨Text.lit "q", before⟩ :: content ++ [⟨Text.lit "Q", after⟩])).run w).1 = .ok ()) :
    ((walk c idle resources
      (⟨Text.lit "q", before⟩ :: content ++ [⟨Text.lit "Q", after⟩])).run w).2.graphics
        = w.graphics := by
  have hq : Verb.ofName? (Text.lit "q") = some .save := by decide
  have hQ : Verb.ofName? (Text.lit "Q") = some .restore := by decide
  have hsave : carryOut c idle resources ⟨Text.lit "q", before⟩
      = perform c resources ⟨Text.lit "q", before⟩ .save := by
    rw [carryOut, turn_of_operator hq (by decide)]
  have hrestore : carryOut c idle resources ⟨Text.lit "Q", after⟩
      = perform c resources ⟨Text.lit "Q", after⟩ .restore := by
    rw [carryOut, turn_of_operator hQ (by decide)]
  have hsaved : (skipMalformed (perform c resources ⟨Text.lit "q", before⟩ .save)).run w
      = (.ok (), { w with stack := w.graphics :: w.stack }) := rfl
  -- The state is on top of the stack when the content begins, and so it is when it ends.
  rw [List.cons_append, walk_cons, hsave, Act.run_bind_ok hsaved, walk_append] at hok ⊢
  obtain ⟨done, -, hrestacks, hdone⟩ := restacks_walk c idle resources content
    { w with stack := w.graphics :: w.stack }
  rcases hrun : (walk c idle resources content).run { w with stack := w.graphics :: w.stack }
    with ⟨e | _, w'⟩
  · rw [Act.run_bind_error hrun] at hok
    cases hok
  · rw [Act.run_bind_ok hrun, walk_cons, hrestore, walk_nil]
    rw [hrun] at hrestacks hdone
    have hstack : w'.stack = w.graphics :: w.stack :=
      hrestacks.eq_of_balanced (hdone rfl ▸ h)
    obtain ⟨graphics, stack, textMatrix, lineMatrix, listener⟩ := w'
    cases hstack
    rfl

/-- Whatever a form's content is and however its walk ends, the state and the matrices are those
from before it; which forms are idle is no part of what a walker changes. The stack is that from
before it if the moves that were made are balanced. Where the form is walked to its end whatever is
saved, it leaves every stack alone exactly if its moves are balanced; and a state saved around a
content with balanced moves is restored. -/
theorem form_isolation (c : WalkContext α σ) (idle : List Nat) (resources : Resources α)
    {i : Instruction α} {index : Nat} (hform : form? c resources i = some index) :
    (∀ w : Walker α σ, ((walk c idle resources [i]).run w).2.graphics = w.graphics
      ∧ ((walk c idle resources [i]).run w).2.textMatrix = w.textMatrix
      ∧ ((walk c idle resources [i]).run w).2.lineMatrix = w.lineMatrix)
    ∧ (∀ w : Walker α σ, ∃ done, done <+: moves c idle resources [i]
      ∧ (((walk c idle resources [i]).run w).1 = .ok () → done = moves c idle resources [i])
      ∧ (Move.Balanced done → ((walk c idle resources [i]).run w).2.stack = w.stack))
    ∧ (∀ w : Walker α σ,
      (∀ stack, ((walk c idle resources [i]).run { w with stack := stack }).1 = .ok ()) →
      ((∀ stack, ((walk c idle resources [i]).run { w with stack := stack }).2.stack = stack)
        ↔ Move.Balanced (moves c idle resources [i])))
    ∧ (∀ content, Move.Balanced (moves c idle resources content) →
      ∀ (before after : List (Object α)) (w : Walker α σ),
      ((walk c idle resources
        (⟨Text.lit "q", before⟩ :: content ++ [⟨Text.lit "Q", after⟩])).run w).1 = .ok () →
      ((walk c idle resources
        (⟨Text.lit "q", before⟩ :: content ++ [⟨Text.lit "Q", after⟩])).run w).2.graphics
          = w.graphics) := by
  refine ⟨graphics_of_form hform, fun w => ?_, fun w hok => ?_, fun content h before after w =>
    graphics_of_balanced h before after w⟩
  · obtain ⟨done, hprefix, hrestacks, hdone⟩ := restacks_walk c idle resources [i] w
    exact ⟨done, hprefix, hdone, hrestacks.eq_of_balanced⟩
  · -- Stacks of every height are tried, which is what tells balanced moves from others.
    have hrestacks : ∀ stack, Move.Restacks (moves c idle resources [i]) stack
        ((walk c idle resources [i]).run { w with stack := stack }).2.stack := by
      intro stack
      obtain ⟨done, -, hrestacks, hdone⟩ :=
        restacks_walk c idle resources [i] { w with stack := stack }
      rw [← hdone (hok stack)]
      exact hrestacks
    constructor
    · intro hkept
      rw [Move.balanced_iff]
      intro saved
      have hlength := (hrestacks (List.replicate saved w.graphics)).length_eq
      rw [hkept, List.length_replicate] at hlength
      exact hlength.symm
    · intro hbalanced stack
      exact (hrestacks stack).eq_of_balanced hbalanced

/-- A page with one form, whose content is a restore without a save. -/
def loneRestore : WalkContext ℚ Unit where
  graph :=
    { nodes := #[{ entries := [], isStream := true, content := .ok [⟨Text.lit "Q", []⟩] }]
      objects := [] }
  model := { catalog := ⟨#[], #[⟨Text.lit "Fm", .identity, none, some 0⟩]⟩ }
  page := .identity
  listener := ⟨fun _ => pure (), fun _ _ => pure (), fun _ s => s⟩

def loneResources : Resources ℚ := ⟨[], [(Text.lit "/Fm", .form 0)]⟩

def drawLone : Instruction ℚ := ⟨Text.lit "Do", [.ofText (Text.lit "/Fm")]⟩

theorem turn_drawLone : turn loneRestore [0] loneResources drawLone
    = .enter 0 ⟨Text.lit "Fm", .identity, none, some 0⟩ loneResources [⟨Text.lit "Q", []⟩] := rfl

theorem turn_loneQ :
    turn loneRestore [] loneResources ⟨Text.lit "Q", []⟩ = .operator .restore := rfl

theorem moves_drawLone : moves loneRestore [0] loneResources [drawLone] = [.restore] := by
  rw [moves_cons, movesAt, turn_drawLone, moves]
  show moves loneRestore [] loneResources [⟨Text.lit "Q", []⟩] ++ [] = _
  rw [moves_cons, movesAt, turn_loneQ, moves]
  rfl

theorem run_drawLone (w : Walker ℚ Unit) :
    ((walk loneRestore [0] loneResources [drawLone]).run w).1 = .ok () := by
  have hinner : ∀ w' : Walker ℚ Unit,
      ((walk loneRestore [] loneResources [⟨Text.lit "Q", []⟩]).run w').1 = .ok () := by
    rintro ⟨graphics, _ | ⟨g, stack⟩, textMatrix, lineMatrix, listener⟩
    · rw [walk_cons, carryOut, turn_loneQ, walk_nil]
      rfl
    · rw [walk_cons, carryOut, turn_loneQ, walk_nil]
      rfl
  have hgoes : GoesOn ((carryOut loneRestore [0] loneResources drawLone).run w).1 := by
    rw [carryOut, turn_drawLone]
    simp only [run_withinForm]
    exact goesOn_walk_iff.mpr (hinner _)
  rw [run_walk_cons_of_goesOn hgoes, walk_nil]
  rfl

/-- A restore that the form's content does not save before takes a state of the page. -/
theorem form_isolation_loneRestore : form? loneRestore loneResources drawLone = some 0
    ∧ ∀ w : Walker ℚ Unit,
      ¬ ∀ stack, ((walk loneRestore [0] loneResources [drawLone]).run { w with stack := stack }).2.stack
        = stack := by
  have hform : form? loneRestore loneResources drawLone = some 0 := by decide
  refine ⟨hform, fun w hkept => ?_⟩
  obtain ⟨-, -, hiff, -⟩ := form_isolation loneRestore [0] loneResources hform
  have hbalanced := (hiff w fun stack => run_drawLone _).mp hkept
  rw [moves_drawLone] at hbalanced
  exact absurd hbalanced (by decide)

end Walker

end Folio.Pdf
