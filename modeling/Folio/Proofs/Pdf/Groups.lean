import Folio.Pdf.Decoder
import Folio.Pdf.Notation.References
import Folio.Proofs.Scalar.Lawful

/-!
# Width groups

A composite font writes the widths of its codes in groups of two shapes, one after the other.
`Graph.WritesGroups` says which groups an array writes, with references wherever they may stand and
with whatever is there of a last group that is not complete. `width_of_writesGroups` says that the
font's decoder gives every code of two bytes the width that the last group with the code gives it,
or else the default one, and that an array of values in any disorder is read to its end as well.

Runs are the groups in the form in which they are looked up. The run of a long group is cut off, but
behind all codes of two bytes (`width?_toRun`).
-/

namespace Folio

namespace Scalar

variable {α : Type} [Scalar α]

/-- The coordinate has a whole part: it is neither infinite nor undefined. -/
def IsFinite (x : α) : Prop := ∃ n, truncate x = .ok n

theorem isFinite_rat (q : ℚ) : IsFinite q := ⟨_, rfl⟩

theorem truncate_ofNat [Lawful α] {n : Nat} (hn : n ≤ 2 ^ 53) :
    truncate (ofNat n : α) = .ok (n : Int) := by
  obtain ⟨den, hden, hexact⟩ := Lawful.exact_ofNat (α := α) n hn
  rw [truncate, hexact, Exact.truncate, Nat.mul_div_cancel n hden]
  rfl

end Scalar

namespace Pdf

variable {α : Type}

/-! ## Groups -/

/-- A group of codes with their widths. -/
inductive WidthGroup (α : Type)
  /-- A code with the widths from there on. -/
  | list (first : Nat) (widths : List α)
  /-- The first and the last of the codes with a width. -/
  | range (first last : Nat) (width : α)

namespace WidthGroup

/-- The group gives the code this width. -/
def Gives : WidthGroup α → Nat → α → Prop
  | list first widths, code, x => ∃ i, code = first + i ∧ widths[i]? = some x
  | range first last width, code, x => first ≤ code ∧ code ≤ last ∧ width = x

/-- The code is one of the group's. -/
def Covers (group : WidthGroup α) (code : Nat) : Prop := ∃ x, group.Gives code x

theorem covers_list {first : Nat} {widths : List α} {code : Nat} :
    (list first widths).Covers code ↔ first ≤ code ∧ code < first + widths.length := by
  constructor
  · rintro ⟨x, i, rfl, hx⟩
    obtain ⟨hi, -⟩ := List.getElem?_eq_some_iff.mp hx
    omega
  · rintro ⟨hle, hlt⟩
    have hi : code - first < widths.length := by omega
    exact ⟨widths[code - first], code - first, by omega, List.getElem?_eq_getElem hi⟩

theorem covers_range {first last code : Nat} {width : α} :
    (range first last width).Covers code ↔ first ≤ code ∧ code ≤ last :=
  ⟨fun ⟨_, hle, hge, _⟩ => ⟨hle, hge⟩, fun ⟨hle, hge⟩ => ⟨width, hle, hge, rfl⟩⟩

def toRun : WidthGroup α → WidthRun α
  | list first widths => .each first widths
  | range first last width => .span first (min last (first + WidthRun.maxSpan)) width

/-- Where a run is cut off there are no codes of two bytes any more. -/
theorem width?_toRun {group : WidthGroup α} {code : Nat} (hcode : code < 2 ^ 16) (x : α) :
    group.toRun.width? code = some x ↔ group.Gives code x := by
  cases group with
  | list first widths =>
    rw [toRun, WidthRun.width?, Gives]
    split
    · next hle =>
      have hindex : ((code : Int) - first).toNat = code - first := by omega
      rw [hindex]
      constructor
      · exact fun h => ⟨code - first, by omega, h⟩
      · rintro ⟨i, rfl, h⟩
        rwa [Nat.add_sub_cancel_left]
    · next hlt =>
      refine iff_of_false nofun ?_
      rintro ⟨i, rfl, -⟩
      omega
  | range first last width =>
    have hcap : (first : Int) ≤ code ∧ (code : Int) ≤ min (last : Int) (first + WidthRun.maxSpan)
        ↔ first ≤ code ∧ code ≤ last := by
      unfold WidthRun.maxSpan
      omega
    rw [toRun, WidthRun.width?, Gives, ← and_assoc, ← hcap]
    split
    · next h => rw [Option.some.injEq, and_iff_right h]
    · next h => exact iff_of_false nofun fun hgives => h hgives.1

end WidthGroup

namespace WidthRun

theorem lookup?_eq_findSome? (runs : List (WidthRun α)) (code : Int) :
    lookup? runs code = runs.reverse.findSome? fun run => run.width? code := by
  rw [lookup?, ← List.foldr_reverse]
  induction runs.reverse with
  | nil => rfl
  | cons run runs ih =>
    rw [List.foldr_cons, ih, List.findSome?_cons]
    cases run.width? code <;> rfl

variable {groups : List (WidthGroup α)} {code : Nat}

theorem findSome?_toRun_eq_none (hcode : code < 2 ^ 16) (h : ∀ g ∈ groups, ¬ g.Covers code) :
    (groups.map WidthGroup.toRun).reverse.findSome? (fun run => run.width? code) = none := by
  rw [List.findSome?_eq_none_iff]
  intro run hrun
  obtain ⟨g, hg, rfl⟩ := List.mem_map.mp (List.mem_reverse.mp hrun)
  rw [Option.eq_none_iff_forall_ne_some]
  exact fun x hx => h g hg ⟨x, (WidthGroup.width?_toRun hcode x).mp hx⟩

theorem lookup?_of_not_covers (hcode : code < 2 ^ 16) (h : ∀ g ∈ groups, ¬ g.Covers code) :
    lookup? (groups.map WidthGroup.toRun) code = none := by
  rw [lookup?_eq_findSome?, findSome?_toRun_eq_none hcode h]

/-- A code has the width of the last group that has it. -/
theorem lookup?_of_last (hcode : code < 2 ^ 16) {before after : List (WidthGroup α)}
    {group : WidthGroup α} {x : α} (hgroup : group.Gives code x)
    (hafter : ∀ g ∈ after, ¬ g.Covers code) :
    lookup? ((before ++ group :: after).map WidthGroup.toRun) code = some x := by
  have hx : group.toRun.width? code = some x := (WidthGroup.width?_toRun hcode x).mpr hgroup
  rw [lookup?_eq_findSome?, List.map_append, List.map_cons, List.reverse_append,
    List.reverse_cons, List.findSome?_append, List.findSome?_append,
    findSome?_toRun_eq_none hcode hafter, List.findSome?_cons, hx]
  rfl

end WidthRun

variable [Scalar α]

/-! ## Numbers -/

/-- The value is a number, and this is its coordinate. -/
def Object.IsNumber : Object α → α → Prop
  | .whole n, x => Scalar.ofInt? n = some x
  | .real y, x => y = x
  | _, _ => False

namespace Graph

variable {graph : Graph α} {o : Object α} {x : α} {n : Nat}

/-- The value is a number or a reference that leads to one. -/
inductive IsNumber (graph : Graph α) : Object α → α → Prop
  | here {o : Object α} {x : α} (h : o.IsNumber x) : IsNumber graph o x
  | step {n : Int} {o : Object α} {x : α} (hn : graph.objects.lookup n = some o)
      (h : IsNumber graph o x) : IsNumber graph (.reference n) x

/-- References that lead to numbers are read as these. -/
def ReadsNumbers (graph : Graph α) : Prop :=
  ∀ n x, graph.IsNumber (.reference n) x → graph.references.number n = .ok x

/-- The value is a number, or leads to one, with this whole part. -/
def IsCode (graph : Graph α) (o : Object α) (n : Nat) : Prop :=
  ∃ x, graph.IsNumber o x ∧ Scalar.truncate x = .ok (n : Int)

/-- Codes are written as they are, for one. -/
theorem isCode_whole [Scalar.Lawful α] (hn : n ≤ 2 ^ 53)
    (h : ∀ x, (Object.whole (n : Int)).IsNumber x → graph.IsNumber o x) : graph.IsCode o n :=
  ⟨Scalar.ofNat n, h _ (Scalar.Lawful.ofInt?_natCast n hn), Scalar.truncate_ofNat hn⟩

/-- One step on the way leads to the same end. -/
theorem isNumber_resolve (h : graph.IsNumber o x) : graph.IsNumber (graph.resolve o) x := by
  cases h with
  | here h =>
    cases o with
    | reference => exact h.elim
    | _ => exact .here h
  | step hn h =>
    rw [resolve, hn]
    exact h

theorem isCode_resolve (h : graph.IsCode o n) : graph.IsCode (graph.resolve o) n := by
  obtain ⟨x, hx, hn⟩ := h
  exact ⟨x, isNumber_resolve hx, hn⟩

theorem ne_array_of_isCode (h : graph.IsCode o n) (items : List (Object α)) :
    graph.resolve o ≠ .array items := by
  intro harray
  obtain ⟨x, hx, -⟩ := isCode_resolve h
  rw [harray] at hx
  cases hx with
  | here h => exact h

section

variable (hreferences : graph.ReadsNumbers)
include hreferences

theorem number_of_isNumber (h : graph.IsNumber o x) : graph.number o = .ok x := by
  cases o with
  | reference n => exact hreferences n x h
  | whole n =>
    cases h with
    | here h =>
      have hn : Scalar.ofInt? n = some x := h
      show Scalar.ofWhole n = .ok x
      rw [Scalar.ofWhole, hn]
  | real y =>
    cases h with
    | here h => exact congrArg Except.ok h
  | _ =>
    cases h with
    | here h => exact h.elim

theorem numberOr_of_isNumber (h : graph.IsNumber o x) (default : α) :
    graph.numberOr default o = .ok x := by
  rw [numberOr, number_of_isNumber hreferences h, Object.orDefault]
  · nofun
  · nofun

theorem coordinate_of_isNumber (h : graph.IsNumber o x) : graph.coordinate o = .ok x :=
  numberOr_of_isNumber hreferences (isNumber_resolve h) 0

theorem whole_of_isCode (h : graph.IsCode o n) :
    graph.whole 0 (graph.resolve o) = .ok (n : Int) := by
  obtain ⟨x, hx, hn⟩ := isCode_resolve h
  rw [whole, numberOr_of_isNumber hreferences hx]
  exact hn

end

/-! ## Groups as they are written -/

/-- The values write the groups one after the other, each complete; of one more group they may
write what is not all of it. -/
inductive WritesGroups (graph : Graph α) : List (Object α) → List (WidthGroup α) → Prop
  | done : WritesGroups graph [] []
  | list {first listed : Object α} {items rest : List (Object α)} {n : Nat} {widths : List α}
      {groups : List (WidthGroup α)} (hfirst : graph.IsCode first n)
      (hlisted : graph.items? listed = some items)
      (hwidths : List.Forall₂ graph.IsNumber items widths)
      (hrest : WritesGroups graph rest groups) :
      WritesGroups graph (first :: listed :: rest) (.list n widths :: groups)
  | range {first last width : Object α} {rest : List (Object α)} {m n : Nat} {x : α}
      {groups : List (WidthGroup α)} (hfirst : graph.IsCode first m) (hlast : graph.IsCode last n)
      (hwidth : graph.IsNumber width x) (hrest : WritesGroups graph rest groups) :
      WritesGroups graph (first :: last :: width :: rest) (.range m n x :: groups)
  | loneFirst {first : Object α} {m : Nat} (hfirst : graph.IsCode first m) :
      WritesGroups graph [first] []
  | noWidth {first last : Object α} {m n : Nat} (hfirst : graph.IsCode first m)
      (hlast : graph.IsCode last n) : WritesGroups graph [first, last] []

variable {items : List (Object α)}

theorem mapM_coordinate (hreferences : graph.ReadsNumbers) {widths : List α}
    (h : List.Forall₂ graph.IsNumber items widths) :
    items.mapM graph.coordinate = .ok widths := by
  induction h with
  | nil => rfl
  | cons hx _ ih =>
    rw [List.mapM_cons, coordinate_of_isNumber hreferences hx, ih]
    rfl

omit [Scalar α] in
theorem resolve_of_items? (h : graph.items? o = some items) :
    graph.resolve o = .array items := by
  cases hvalue : graph.resolve o with
  | array =>
    rw [items?, hvalue] at h
    exact congrArg Object.array (Option.some.inj h)
  | _ =>
    rw [items?, hvalue] at h
    cases h

/-- Groups are read as they are written. -/
theorem ofGroups_of_writes (hreferences : graph.ReadsNumbers) {groups : List (WidthGroup α)}
    (h : graph.WritesGroups items groups) :
    WidthRun.ofGroups graph (items.map graph.resolve) = .ok (groups.map WidthGroup.toRun) := by
  induction h with
  | done => rfl
  | list hfirst hlisted hwidths _ ih =>
    rw [List.map_cons, List.map_cons, resolve_of_items? hlisted, WidthRun.ofGroups,
      whole_of_isCode hreferences hfirst, mapM_coordinate hreferences hwidths, ih]
    rfl
  | range hfirst hlast hwidth _ ih =>
    rw [List.map_cons, List.map_cons, List.map_cons, WidthRun.ofGroups.eq_2,
      whole_of_isCode hreferences hfirst, whole_of_isCode hreferences hlast,
      numberOr_of_isNumber hreferences (isNumber_resolve hwidth), ih]
    · rfl
    · exact ne_array_of_isCode hlast
  | loneFirst => rfl
  | noWidth hfirst hlast =>
    rw [List.map_cons, List.map_cons, List.map_nil, WidthRun.ofGroups.eq_3,
      whole_of_isCode hreferences hfirst]
    · rfl
    · exact ne_array_of_isCode hlast

end Graph

/-! ## Disorder -/

/-- Something is read that has the property `Q`, unless one of the whole numbers `P` is beyond all
coordinates. -/
def Reads (α : Type) [Scalar α] (P : Int → Prop) {β : Type} (Q : β → Prop)
    (answer : Except Fault β) : Prop :=
  (∃ b, answer = .ok b ∧ Q b)
    ∨ answer = .error .wholeTooLarge ∧ ∃ n, P n ∧ (Scalar.ofInt? n : Option α) = none

namespace Reads

variable {P : Int → Prop} {β γ : Type} {Q : β → Prop} {R : γ → Prop}

theorem ok {b : β} (h : Q b) : Reads α P Q (.ok b) := .inl ⟨b, rfl, h⟩

theorem bind {answer : Except Fault β} {next : β → Except Fault γ} (h : Reads α P Q answer)
    (hnext : ∀ b, Q b → Reads α P R (next b)) : Reads α P R (answer >>= next) := by
  obtain ⟨b, rfl, hb⟩ | ⟨rfl, hn⟩ := h
  · exact hnext b hb
  · exact .inr ⟨rfl, hn⟩

end Reads

namespace Graph

/-- Numbers, nulls, strings that write no number, and arrays of such values or of references to
them. Its whole numbers are among `P`. -/
inductive IsEntry (graph : Graph α) (P : Int → Prop) : Object α → Prop
  | null : IsEntry graph P .null
  | whole {n : Int} (hn : P n) (hfinite : ∀ x : α, Scalar.ofInt? n = some x → Scalar.IsFinite x) :
      IsEntry graph P (.whole n)
  | real {x : α} (hfinite : Scalar.IsFinite x) : IsEntry graph P (.real x)
  | text {t : Text} (h : Decimal.Numeral.read? t = none) (source : Option Bytes) :
      IsEntry graph P (.text t source)
  | bytes {b : Bytes} (h : Decimal.Numeral.readBytes? b = none) : IsEntry graph P (.bytes b)
  | array {items : List (Object α)} (h : ∀ o ∈ items, IsEntry graph P (graph.resolve o)) :
      IsEntry graph P (.array items)

variable {graph : Graph α} {P : Int → Prop} [Scalar.Lawful α] {v : Object α}

theorem reads_numberOr (h : graph.IsEntry P v) :
    Reads α P Scalar.IsFinite (graph.numberOr 0 v) := by
  -- What is no number counts as zero, so that only a whole number can be a fault.
  have hzero : Scalar.IsFinite (0 : α) := ⟨0, Scalar.truncate_zero⟩
  cases h with
  | null => exact .ok hzero
  | array => exact .ok hzero
  | real hfinite => exact .ok hfinite
  | @whole n hn hfinite =>
    cases hx : (Scalar.ofInt? n : Option α) with
    | some x =>
      have hread : graph.numberOr 0 (.whole n) = .ok x := by
        show Object.orDefault 0 (Scalar.ofWhole n) = _
        rw [Scalar.ofWhole, hx]
        rfl
      rw [hread]
      exact .ok (hfinite x hx)
    | none =>
      have hread : graph.numberOr (0 : α) (.whole n) = .error .wholeTooLarge := by
        show Object.orDefault 0 (Scalar.ofWhole n) = _
        rw [Scalar.ofWhole, hx]
        rfl
      exact .inr ⟨hread, n, hn, hx⟩
  | @text t hnone source =>
    have hread : graph.numberOr (0 : α) (.text t source) = .ok 0 := by
      show Object.orDefault 0 (Object.number graph.references.number (.text t source)) = _
      rw [Object.number, hnone]
      rfl
    rw [hread]
    exact .ok hzero
  | @bytes b hnone =>
    have hread : graph.numberOr (0 : α) (.bytes b) = .ok 0 := by
      show Object.orDefault 0 (Object.number graph.references.number (.bytes b)) = _
      rw [Object.number, hnone]
      rfl
    rw [hread]
    exact .ok hzero

theorem reads_whole (h : graph.IsEntry P v) : Reads α P (fun _ => True) (graph.whole 0 v) := by
  refine (reads_numberOr h).bind ?_
  rintro x ⟨n, hn⟩
  rw [hn]
  exact .ok trivial

theorem reads_mapM_coordinate {items : List (Object α)}
    (h : ∀ o ∈ items, graph.IsEntry P (graph.resolve o)) :
    Reads α P (fun widths => widths.length = items.length) (items.mapM graph.coordinate) := by
  induction items with
  | nil => exact .ok rfl
  | cons o items ih =>
    rw [List.mapM_cons]
    refine (reads_numberOr (h o List.mem_cons_self)).bind fun x _ => ?_
    refine (ih fun o ho => h o (List.mem_cons_of_mem _ ho)).bind fun widths hlength => ?_
    exact .ok (congrArg (· + 1) hlength)

end Graph

namespace WidthRun

/-- The number of codes that a run sets a width for. -/
def size {α : Type} : WidthRun α → Nat
  | each _ widths => widths.length
  | span first last _ => (last + 1 - first).toNat

/-- There is a run for two values at most, and no run is longer than spans may be or than one of the
arrays among the values. -/
structure IsBounded {α : Type} (values : List (Object α)) (runs : List (WidthRun α)) : Prop where
  length_le : 2 * runs.length ≤ values.length
  size_le : ∀ run ∈ runs, (run.size : Int) ≤ maxSpan + 1
    ∨ ∃ widths, .array widths ∈ values ∧ run.size = widths.length

theorem isBounded_nil {α : Type} (values : List (Object α)) : IsBounded values [] :=
  ⟨Nat.zero_le _, nofun⟩

theorem IsBounded.cons {α : Type} {rest : List (Object α)} {run : WidthRun α}
    {runs : List (WidthRun α)} (h : IsBounded rest runs) (taken : List (Object α))
    (htaken : 2 ≤ taken.length)
    (hrun : (run.size : Int) ≤ maxSpan + 1
      ∨ ∃ widths, .array widths ∈ taken ∧ run.size = widths.length) :
    IsBounded (taken ++ rest) (run :: runs) where
  length_le := by
    have hlength := h.length_le
    rw [List.length_cons, List.length_append]
    omega
  size_le := by
    rw [List.forall_mem_cons]
    constructor
    · exact hrun.imp_right fun ⟨widths, hmem, hsize⟩ =>
        ⟨widths, List.mem_append_left _ hmem, hsize⟩
    · exact fun run hmem => (h.size_le run hmem).imp_right fun ⟨widths, hmem, hsize⟩ =>
        ⟨widths, List.mem_append_right _ hmem, hsize⟩

theorem size_span_le {α : Type} (first last : Int) (width : α) :
    ((span first (min last (first + maxSpan)) width).size : Int) ≤ maxSpan + 1 := by
  have hsize : (span first (min last (first + maxSpan)) width).size
      = (min last (first + maxSpan) + 1 - first).toNat := rfl
  rw [hsize, maxSpan]
  omega

end WidthRun

/-- Values in any disorder are read to their end. -/
theorem Graph.reads_ofGroups [Scalar.Lawful α] {graph : Graph α} {P : Int → Prop}
    {values : List (Object α)} (h : ∀ v ∈ values, graph.IsEntry P v) :
    Reads α P (WidthRun.IsBounded values) (WidthRun.ofGroups graph values) := by
  fun_induction WidthRun.ofGroups graph values with
  | case1 first widths rest ih =>
    simp only [List.forall_mem_cons] at h
    obtain ⟨hfirst, hwidths, hrest⟩ := h
    have hitems : ∀ o ∈ widths, graph.IsEntry P (graph.resolve o) := by
      cases hwidths with
      | array hitems => exact hitems
    refine (reads_whole hfirst).bind fun first' _ => ?_
    refine (reads_mapM_coordinate hitems).bind fun widths' hlength => ?_
    refine (ih hrest).bind fun runs hruns => ?_
    exact .ok (hruns.cons [first, .array widths] (Nat.le_refl 2)
      (.inr ⟨widths, by simp, hlength⟩))
  | case2 first last width rest hne ih =>
    simp only [List.forall_mem_cons] at h
    obtain ⟨hfirst, hlast, hwidth, hrest⟩ := h
    refine (reads_whole hfirst).bind fun first' _ => ?_
    refine (reads_whole hlast).bind fun last' _ => ?_
    refine (reads_numberOr hwidth).bind fun width' _ => ?_
    refine (ih hrest).bind fun runs hruns => ?_
    exact .ok (hruns.cons [first, last, width] (Nat.le_succ 2)
      (.inl (WidthRun.size_span_le first' last' width')))
  | case3 first second hne =>
    exact (reads_whole (h first List.mem_cons_self)).bind fun _ _ =>
      .ok (WidthRun.isBounded_nil _)
  | case4 => exact .ok (WidthRun.isBounded_nil _)

/-! ## The decoder of a composite font -/

/-- The width of the codes that no group has: it is written as a number, or it is 1000. -/
def Graph.IsDefaultWidth (graph : Graph α) (descendant : Nat) (x : α) : Prop :=
  graph.IsNumber (graph.entry descendant "/DW") x
    ∨ graph.hasEntry descendant "/DW" = false ∧ x = Scalar.ofNat 1000

theorem Graph.numberOr_of_isDefaultWidth {graph : Graph α} (hreferences : graph.ReadsNumbers)
    {descendant : Nat} {x : α} (h : graph.IsDefaultWidth descendant x) :
    graph.numberOr (Scalar.ofNat 1000) (graph.entry descendant "/DW") = .ok x := by
  obtain hx | ⟨habsent, rfl⟩ := h
  · exact numberOr_of_isNumber hreferences hx _
  · rw [hasEntry, Option.isSome_eq_false_iff, Option.isNone_iff_eq_none] at habsent
    rw [entry, habsent]
    rfl

theorem WidthRun.ofDescendant_eq {graph : Graph α} {descendant : Nat} {values : List (Object α)}
    (h : graph.items? (graph.entry descendant "/W") = some values) :
    ofDescendant graph descendant = ofGroups graph (values.map graph.resolve) := by
  rw [ofDescendant, h]

namespace Decoder

theorem codeNumber_pair (a b : UInt8) : codeNumber [a, b] = a.toNat * 256 + b.toNat := by
  simp [codeNumber]

theorem exists_ofFont {graph : Graph α} (hreferences : graph.ReadsNumbers)
    {font descendant : Nat} {texts : List (Text × Text)}
    {runs : List (WidthRun α)} {missing : α}
    (htexts : mapTexts graph ((graph.nodes[font]?).bind (·.codes)) = .ok texts)
    (hruns : WidthRun.ofDescendant graph descendant = .ok runs)
    (hmissing : graph.IsDefaultWidth descendant missing) (resource : Font α) :
    ∃ decoder, ofFont graph font (some descendant) resource = .ok decoder
      ∧ decoder.isWide = true ∧ decoder.widths = runs ∧ decoder.defaultWidth = missing := by
  rw [ofFont, htexts]
  simp only [hruns, Graph.numberOr_of_isDefaultWidth hreferences hmissing]
  exact ⟨_, rfl, rfl, rfl, rfl⟩

/-- A composite font gives a code the width that the last of its groups with the code gives it, and
its default width if none has the code. Whatever values stand in place of the groups, they are read
to their end. References may stand anywhere; what lead to numbers are read as these. -/
theorem width_of_writesGroups [Scalar.Lawful α] {graph : Graph α} {descendant : Nat}
    {values : List (Object α)}
    (hvalues : graph.items? (graph.entry descendant "/W") = some values) :
    (∀ (font : Nat) (resource : Font α) {texts : List (Text × Text)}
      {groups : List (WidthGroup α)} {missing : α}, graph.ReadsNumbers →
      mapTexts graph ((graph.nodes[font]?).bind (·.codes)) = .ok texts →
      graph.WritesGroups values groups → graph.IsDefaultWidth descendant missing →
      ∃ decoder, ofFont graph font (some descendant) resource = .ok decoder
        ∧ decoder.isWide = true
        ∧ ∀ a b : UInt8,
          (∀ before group after x, groups = before ++ group :: after →
            group.Gives (a.toNat * 256 + b.toNat) x →
            (∀ g ∈ after, ¬ g.Covers (a.toNat * 256 + b.toNat)) → decoder.width [a, b] = x)
          ∧ ((∀ g ∈ groups, ¬ g.Covers (a.toNat * 256 + b.toNat)) →
            decoder.width [a, b] = missing))
    ∧ ∀ P : Int → Prop, (∀ o ∈ values, graph.IsEntry P (graph.resolve o)) →
      Reads α P (WidthRun.IsBounded (values.map graph.resolve))
        (WidthRun.ofDescendant graph descendant) := by
  constructor
  · intro font resource texts groups missing hreferences htexts hgroups hmissing
    have hruns : WidthRun.ofDescendant graph descendant = .ok (groups.map WidthGroup.toRun) := by
      rw [WidthRun.ofDescendant_eq hvalues, Graph.ofGroups_of_writes hreferences hgroups]
    obtain ⟨decoder, hdecoder, hwide, hwidths, rfl⟩ :=
      exists_ofFont hreferences htexts hruns hmissing resource
    refine ⟨decoder, hdecoder, hwide, fun a b => ?_⟩
    have hcode : a.toNat * 256 + b.toNat < 2 ^ 16 := by
      have ha := a.toNat_lt
      have hb := b.toNat_lt
      omega
    rw [width, codeNumber_pair, hwidths]
    constructor
    · rintro before group after x rfl hgroup hafter
      rw [WidthRun.lookup?_of_last hcode hgroup hafter, Option.getD_some]
    · intro hnone
      rw [WidthRun.lookup?_of_not_covers hcode hnone, Option.getD_none]
  · intro P hentries
    rw [WidthRun.ofDescendant_eq hvalues]
    refine Graph.reads_ofGroups fun v hv => ?_
    obtain ⟨o, ho, rfl⟩ := List.mem_map.mp hv
    exact hentries o ho

/-- A font with a list of widths, a range over a part of it and a list over a part of that, then a
code alone; the list, a width, a code and the default width are referred to. -/
def grouped : Graph ℚ where
  nodes := #[
    { entries := [] },
    { entries := [
        (Text.lit "/W", .array [.whole 10, .reference 2, .reference 1, .whole 14, .whole 600,
          .whole 12, .array [.whole 700], .whole 20]),
        (Text.lit "/DW", .reference 4)] }]
  objects := [
    (1, .whole 11), (2, .array [.whole 500, .reference 3]), (3, .real (1 / 2)), (4, .whole 900)]
  references := .following #[] [
    (1, .whole 11), (2, .array [.whole 500, .reference 3]), (3, .real (1 / 2)), (4, .whole 900)]

theorem readsNumbers_grouped : grouped.ReadsNumbers := by
  intro n x h
  cases h with
  | here h => exact h.elim
  | @step _ o _ hn h =>
    have hmem : (n, o) ∈ grouped.objects := by
      obtain ⟨before, after, hobjects, -⟩ := List.lookup_eq_some_iff.mp hn
      rw [hobjects]
      exact List.mem_append_right _ List.mem_cons_self
    simp only [grouped, List.mem_cons, Prod.mk.injEq, List.not_mem_nil, or_false] at hmem
    obtain ⟨rfl, rfl⟩ | ⟨rfl, rfl⟩ | ⟨rfl, rfl⟩ | ⟨rfl, rfl⟩ := hmem <;> cases h with
    | here h => first | exact h.elim | (cases h; rfl)

/-- The last group with a code counts, be it shorter or longer than the one before. -/
theorem width_of_grouped :
    let resource : Font ℚ := ⟨0, Text.lit "F", none, none, none, none, 0, 0, 0, none, 0⟩
    ∃ decoder, ofFont grouped 0 (some 1) resource = .ok decoder
      ∧ decoder.width [0, 10] = 500 ∧ decoder.width [0, 11] = 600 ∧ decoder.width [0, 12] = 700
      ∧ decoder.width [0, 20] = 900
      ∧ ∃ runs, WidthRun.ofDescendant grouped 1 = .ok runs ∧ 2 * runs.length ≤ 8 := by
  intro resource
  have hwhole : ∀ n : Nat, grouped.IsNumber (.whole n) n := fun n => .here rfl
  have hcode : ∀ n : Nat, n ≤ 2 ^ 53 → grouped.IsCode (.whole n) n :=
    fun n hn => Graph.isCode_whole hn fun _ => .here
  have hfirst : grouped.IsCode (.reference 1) 11 := 
    Graph.isCode_whole (by decide) fun _ h => .step rfl (.here h)
  have hlisted : List.Forall₂ grouped.IsNumber [.whole 500, .reference 3] [500, 1 / 2] :=
    .cons (hwhole 500) (.cons (.step rfl (.here rfl)) .nil)
  have hgroups : grouped.WritesGroups
      [.whole 10, .reference 2, .reference 1, .whole 14, .whole 600, .whole 12,
        .array [.whole 700], .whole 20]
      [.list 10 [500, 1 / 2], .range 11 14 600, .list 12 [700]] :=
    .list (hcode 10 (by decide)) rfl hlisted
      (.range hfirst (hcode 14 (by decide)) (hwhole 600)
        (.list (hcode 12 (by decide)) rfl (.cons (hwhole 700) .nil)
          (.loneFirst (hcode 20 (by decide)))))
  have hmissing : grouped.IsDefaultWidth 1 900 := .inl (.step rfl (.here rfl))
  obtain ⟨hwidths, hends⟩ := width_of_writesGroups (rfl : grouped.items? (grouped.entry 1 "/W") = _)
  obtain ⟨decoder, hdecoder, -, hwidth⟩ := hwidths 0 resource readsNumbers_grouped rfl hgroups hmissing
  refine ⟨decoder, hdecoder, ?_, ?_, ?_, ?_, ?_⟩
  · refine (hwidth 0 10).1 [] _ _ 500 rfl ⟨0, rfl, rfl⟩ ?_
    simp [WidthGroup.covers_list, WidthGroup.covers_range]
  · refine (hwidth 0 11).1 [.list 10 [500, 1 / 2]] _ _ 600 rfl ⟨by decide, by decide, rfl⟩ ?_
    simp [WidthGroup.covers_list]
  · exact (hwidth 0 12).1 [.list 10 [500, 1 / 2], .range 11 14 600] _ [] 700 rfl ⟨0, rfl, rfl⟩ nofun
  · refine (hwidth 0 20).2 ?_
    simp [WidthGroup.covers_list, WidthGroup.covers_range]
  · have hentry : ∀ n : Int, grouped.IsEntry (fun _ => True) (.whole n) :=
      fun n => .whole trivial fun x _ => Scalar.isFinite_rat x
    have hhalf : grouped.IsEntry (fun _ => True) (.real (1 / 2)) := .real (Scalar.isFinite_rat _)
    have hnested : grouped.IsEntry (fun _ => True) (.array [.whole 500, .reference 3]) :=
      .array (List.forall_mem_cons.mpr ⟨hentry 500, List.forall_mem_singleton.mpr hhalf⟩)
    have hlone : grouped.IsEntry (fun _ => True) (.array [.whole 700]) :=
      .array (List.forall_mem_singleton.mpr (hentry 700))
    obtain ⟨runs, hruns, hbounded⟩ | ⟨-, n, -, hn⟩ := hends (fun _ => True) (by
      simp only [List.forall_mem_cons]
      exact ⟨hentry 10, hnested, hentry 11, hentry 14, hentry 600, hentry 12, hlone, hentry 20,
        nofun⟩)
    · exact ⟨runs, hruns, hbounded.length_le⟩
    · cases hn

end Decoder

end Pdf
end Folio
