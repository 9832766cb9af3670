import Folio.Text.Escape

/-!
# Character references

The way back from an escaped text. Which references there are is left open, as readers know many
more than are ever written: `References` asks only that the five that are written are understood,
whatever follows them, and that no reference stands for a text longer than itself.

Then escaping is undone for every text (`unescape_escapeQuoted`), and a text that was not escaped
comes back if and only if there is no reference in it (`unescape_eq_self_iff`).
-/

namespace Folio.Html

open Text (lit)

/-- What stands behind the ampersand of each reference that is written, and what it means. -/
def writtenReferences : List (Text × CodePoint) := [
  (lit "amp;", CodePoint.ofChar '&'), (lit "lt;", CodePoint.ofChar '<'),
  (lit "gt;", CodePoint.ofChar '>'), (lit "quot;", CodePoint.ofChar '"'),
  (lit "#x27;", CodePoint.ofNat 39)]

/-- The references that a reader understands. -/
structure References where
  /-- What the reference behind an ampersand means, if there is one, and how long it is without the
  ampersand. -/
  find? : Text → Option (Text × Nat)
  bounds : ∀ {t meaning : Text} {length : Nat}, find? t = some (meaning, length) →
    meaning.length ≤ length ∧ length ≤ t.length
  find_written : ∀ r ∈ writtenReferences, ∀ t, find? (r.1 ++ t) = some ([r.2], r.1.length)

namespace References

/-- The reader that knows no references but the written ones. -/
def basic : References where
  find? t := writtenReferences.findSome? fun r =>
    if r.1 <+: t then some ([r.2], r.1.length) else none
  bounds := by
    intro t meaning length h
    obtain ⟨r, hr, hsome⟩ := List.exists_of_findSome?_eq_some h
    split at hsome
    next hprefix =>
      cases hsome
      have hpos : ∀ r ∈ writtenReferences, 1 ≤ r.1.length := by decide
      exact ⟨hpos r hr, hprefix.length_le⟩
    · cases hsome
  find_written := by
    intro r hr t
    simp only [writtenReferences, List.mem_cons, List.not_mem_nil, or_false] at hr
    rcases hr with rfl | rfl | rfl | rfl | rfl <;> rfl

instance : Inhabited References := ⟨basic⟩

/-- The text that a reader takes a value for. -/
def unescape (refs : References) : Text → Text
  | [] => []
  | c :: t =>
    if c = CodePoint.ofChar '&' then
      match refs.find? t with
      | some (meaning, length) => meaning ++ refs.unescape (t.drop length)
      | none => c :: refs.unescape t
    else c :: refs.unescape t
termination_by t => t.length
decreasing_by all_goals simp only [List.length_drop, List.length_cons]; omega

/-- There is no reference in the text. -/
def Inert (refs : References) (t : Text) : Prop :=
  ∀ u, CodePoint.ofChar '&' :: u <:+ t → refs.find? u = none

variable (refs : References)

@[simp] theorem unescape_nil : refs.unescape [] = [] := by rw [unescape]

theorem unescape_cons_of_ne {c : CodePoint} (hc : c ≠ CodePoint.ofChar '&') (t : Text) :
    refs.unescape (c :: t) = c :: refs.unescape t := by
  rw [unescape, if_neg hc]

theorem unescape_cons_of_none {t : Text} (h : refs.find? t = none) :
    refs.unescape (CodePoint.ofChar '&' :: t) = CodePoint.ofChar '&' :: refs.unescape t := by
  rw [unescape, if_pos rfl, h]

theorem unescape_cons_of_some {t meaning : Text} {length : Nat}
    (h : refs.find? t = some (meaning, length)) :
    refs.unescape (CodePoint.ofChar '&' :: t) = meaning ++ refs.unescape (t.drop length) := by
  rw [unescape, if_pos rfl, h]

/-! ## Escaped texts -/

/-- A code point is escaped by the reference that means it, or stands for itself. -/
theorem escapeQuotedOne_cases (c : CodePoint) :
    (∃ name, (name, c) ∈ writtenReferences
        ∧ Text.escapeQuotedOne c = CodePoint.ofChar '&' :: name)
      ∨ c ≠ CodePoint.ofChar '&' ∧ Text.escapeQuotedOne c = [c] := by
  unfold Text.escapeQuotedOne
  split
  next h => exact .inl ⟨lit "quot;", h ▸ by decide, by decide⟩
  · split
    next h => exact .inl ⟨lit "#x27;", h ▸ by decide, by decide⟩
    · unfold Text.escapeOne
      split
      next h => exact .inl ⟨lit "amp;", h ▸ by decide, by decide⟩
      next hamp =>
        split
        next h => exact .inl ⟨lit "lt;", h ▸ by decide, by decide⟩
        · split
          next h => exact .inl ⟨lit "gt;", h ▸ by decide, by decide⟩
          · exact .inr ⟨hamp, rfl⟩

theorem unescape_escapeQuotedOne (c : CodePoint) (t : Text) :
    refs.unescape (Text.escapeQuotedOne c ++ t) = c :: refs.unescape t := by
  obtain ⟨name, hwritten, hescape⟩ | ⟨hc, hescape⟩ := escapeQuotedOne_cases c
  · rw [hescape, List.cons_append,
      refs.unescape_cons_of_some (refs.find_written (name, c) hwritten t), List.drop_left]
    rfl
  · rw [hescape, List.singleton_append, refs.unescape_cons_of_ne hc]

/-- Escaping is undone, whatever the text is. -/
theorem unescape_escapeQuoted (t : Text) : refs.unescape t.escapeQuoted = t := by
  induction t with
  | nil => exact refs.unescape_nil
  | cons c t ih =>
    have hcons : Text.escapeQuoted (c :: t) = Text.escapeQuotedOne c ++ Text.escapeQuoted t := rfl
    rw [hcons, unescape_escapeQuotedOne, ih]

/-! ## Texts that were not escaped -/

theorem length_unescape_le (t : Text) : (refs.unescape t).length ≤ t.length := by
  induction t using unescape.induct refs with
  | case1 => exact Nat.le_of_eq (congrArg List.length refs.unescape_nil)
  | case2 t meaning length hfind ih =>
    obtain ⟨hmeaning, hlength⟩ := refs.bounds hfind
    rw [List.length_drop] at ih
    rw [refs.unescape_cons_of_some hfind, List.length_append, List.length_cons]
    omega
  | case3 t hfind ih =>
    rw [refs.unescape_cons_of_none hfind, List.length_cons, List.length_cons]
    omega
  | case4 c t hc ih =>
    rw [refs.unescape_cons_of_ne hc, List.length_cons, List.length_cons]
    omega

/-- A reference is longer than its meaning, so a text with one in it does not come back. -/
theorem unescape_eq_self_iff (t : Text) : refs.unescape t = t ↔ refs.Inert t := by
  induction t with
  | nil =>
    refine iff_of_true refs.unescape_nil fun u hu => ?_
    cases List.suffix_nil.mp hu
  | cons c t ih =>
    by_cases hc : c = CodePoint.ofChar '&'
    · subst hc
      cases hfind : refs.find? t with
      | none =>
        rw [refs.unescape_cons_of_none hfind, List.cons_inj_right, ih]
        refine ⟨fun h u hu => ?_, fun h u hu => h u (hu.trans (List.suffix_cons _ _))⟩
        rcases List.suffix_cons_iff.mp hu with heq | hsuffix
        · rw [(List.cons.inj heq).2, hfind]
        · exact h u hsuffix
      | some found =>
        obtain ⟨meaning, length⟩ := found
        obtain ⟨hmeaning, hlength⟩ := refs.bounds hfind
        refine iff_of_false (fun h => ?_) fun h => ?_
        · have hle := refs.length_unescape_le (t.drop length)
          have hsame := congrArg List.length h
          rw [refs.unescape_cons_of_some hfind, List.length_append, List.length_cons] at hsame
          rw [List.length_drop] at hle
          omega
        · rw [h t List.suffix_rfl] at hfind
          cases hfind
    · rw [refs.unescape_cons_of_ne hc, List.cons_inj_right, ih]
      refine ⟨fun h u hu => ?_, fun h u hu => h u (hu.trans (List.suffix_cons _ _))⟩
      rcases List.suffix_cons_iff.mp hu with heq | hsuffix
      · exact absurd (List.cons.inj heq).1.symm hc
      · exact h u hsuffix

theorem inert_of_notMem {t : Text} (h : CodePoint.ofChar '&' ∉ t) : refs.Inert t :=
  fun _ hu => absurd (hu.subset List.mem_cons_self) h

end References

end Folio.Html
