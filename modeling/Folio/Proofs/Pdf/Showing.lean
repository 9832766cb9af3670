import Mathlib.Data.List.TakeWhile
import Folio.Proofs.Pdf.Walk

/-!
# Showing a string code by code

A shown string is split into its codes (`Decoder.codes`), and what a code means is looked up when its
turn comes. A lookup fails where the font's encoding does. So a string is shown up to the first code
that cannot be read (`Decoder.readable`), and its end is told by that code alone
(`Decoder.outcome`): `run_showCodes_readable`, by induction on the codes.
-/

namespace Folio

/-- The listener takes every event. -/
def Listener.TakesAll {α σ : Type} (l : Listener α σ) : Prop := ∀ e, (l.receive e).Succeeds

namespace Pdf

/-! ## The codes of a string -/

namespace Decoder

variable {α : Type}

/-- The codes of a string: as many as there is room for, one behind the other. -/
def codes (decoder : Decoder α) (bytes : Bytes) : List Bytes :=
  (List.range (bytes.length / decoder.codeLength)).map fun i =>
    (bytes.drop (i * decoder.codeLength)).take decoder.codeLength

theorem codeLength_pos (decoder : Decoder α) : 0 < decoder.codeLength := by
  unfold codeLength
  split <;> decide

/-- Bytes that are too few for a code have none. -/
theorem codes_of_length_lt {decoder : Decoder α} {bytes : Bytes}
    (h : bytes.length < decoder.codeLength) : decoder.codes bytes = [] := by
  rw [codes, Nat.div_eq_of_lt h]
  rfl

theorem codes_append {decoder : Decoder α} (code : Bytes) (h : code.length = decoder.codeLength)
    (bytes : Bytes) : decoder.codes (code ++ bytes) = code :: decoder.codes bytes := by
  have hcount : (code ++ bytes).length / decoder.codeLength
      = bytes.length / decoder.codeLength + 1 := by
    rw [List.length_append, h, Nat.add_div_left _ decoder.codeLength_pos]
  unfold codes
  rw [hcount, List.range_succ_eq_map, List.map_cons, List.map_map, Nat.zero_mul, List.drop_zero,
    ← h, List.take_left]
  refine congrArg (code :: ·) (List.map_congr_left fun i _ => ?_)
  rw [Function.comp_apply, Nat.succ_mul, Nat.add_comm, ← List.drop_drop, List.drop_left]

/-- Splitting finds the codes of the string and nothing else. -/
theorem split_eq_codes (decoder : Decoder α) (bytes : Bytes) :
    decoder.split bytes = decoder.codes bytes := by
  fun_induction split decoder bytes with
  | case1 =>
    have hempty : ([] : Bytes).length < decoder.codeLength := decoder.codeLength_pos
    exact (codes_of_length_lt hempty).symm
  | case2 a hwide =>
    have hlength : decoder.codeLength = 2 := if_pos hwide
    exact (codes_of_length_lt (by rw [hlength]; exact Nat.one_lt_two)).symm
  | case3 a hwide b more ih =>
    have hlength : decoder.codeLength = 2 := if_pos hwide
    have hcodes : decoder.codes (a :: b :: more) = [a, b] :: decoder.codes more :=
      codes_append [a, b] hlength.symm more
    rw [hcodes, ih]
  | case4 a rest hwide ih =>
    have hlength : decoder.codeLength = 1 := if_neg hwide
    have hcodes : decoder.codes (a :: rest) = [a] :: decoder.codes rest :=
      codes_append [a] hlength.symm rest
    rw [hcodes, ih]

/-- Behind whole codes a string is split as if it began there. -/
theorem codes_append_of_dvd {decoder : Decoder α} {first : Bytes}
    (hwhole : decoder.codeLength ∣ first.length) (second : Bytes) :
    decoder.codes (first ++ second) = decoder.codes first ++ decoder.codes second := by
  obtain ⟨n, hn⟩ := hwhole
  -- The induction is on how many whole codes there are in front.
  induction n generalizing first with
  | zero =>
    have hnil : first = [] := List.eq_nil_of_length_eq_zero (by rw [hn, Nat.mul_zero])
    have hempty : ([] : Bytes).length < decoder.codeLength := decoder.codeLength_pos
    rw [hnil, codes_of_length_lt hempty, List.nil_append, List.nil_append]
  | succ n ih =>
    have hle : decoder.codeLength ≤ first.length := hn ▸ Nat.le_mul_of_pos_right _ n.succ_pos
    have hcode : (first.take decoder.codeLength).length = decoder.codeLength := by
      rw [List.length_take, Nat.min_eq_left hle]
    have hrest : (first.drop decoder.codeLength).length = decoder.codeLength * n := by
      rw [List.length_drop, hn, Nat.mul_succ, Nat.add_sub_cancel]
    rw [← List.take_append_drop decoder.codeLength first, List.append_assoc, codes_append _ hcode,
      codes_append _ hcode, ih hrest, List.cons_append]

/-! ## What can be read of it -/

variable (decoder : Decoder α)

/-- The text of the code can be found. -/
def reads (code : Bytes) : Bool := (decoder.text code).isOk

/-- The codes in front of the first one that cannot be read. -/
def readable (codes : List Bytes) : List Bytes := codes.takeWhile decoder.reads

/-- How reading codes one after the other ends. -/
def outcome : List Bytes → Except Fault Unit
  | [] => .ok ()
  | code :: rest => do
    let _ ← decoder.text code
    outcome rest

variable {decoder} {codes before after : List Bytes} {code : Bytes}

theorem text_eq_ok_of_reads (h : decoder.reads code = true) : ∃ t, decoder.text code = .ok t := by
  unfold reads at h
  cases ht : decoder.text code with
  | ok t => exact ⟨t, rfl⟩
  | error e =>
    rw [ht] at h
    cases h

theorem reads_of_text {t : Text} (h : decoder.text code = .ok t) : decoder.reads code = true := by
  rw [reads, h]
  rfl

theorem not_reads_of_text {e : Fault} (h : decoder.text code = .error e) :
    ¬ decoder.reads code = true := by
  rw [reads, h]
  exact Bool.false_ne_true

theorem readable_cons_of_text {t : Text} (h : decoder.text code = .ok t) :
    decoder.readable (code :: codes) = code :: decoder.readable codes :=
  List.takeWhile_cons_of_pos (reads_of_text h)

theorem readable_cons_of_error {e : Fault} (h : decoder.text code = .error e) :
    decoder.readable (code :: codes) = [] :=
  List.takeWhile_cons_of_neg (not_reads_of_text h)

theorem outcome_cons_of_text {t : Text} (h : decoder.text code = .ok t) :
    decoder.outcome (code :: codes) = decoder.outcome codes := by
  rw [outcome, h]
  rfl

theorem outcome_cons_of_error {e : Fault} (h : decoder.text code = .error e) :
    decoder.outcome (code :: codes) = .error e := by
  rw [outcome, h]
  rfl

theorem outcome_append_of_reads (hbefore : ∀ code ∈ before, decoder.reads code = true) :
    decoder.outcome (before ++ after) = decoder.outcome after := by
  induction before with
  | nil => rfl
  | cons code before ih =>
    obtain ⟨hcode, hrest⟩ := List.forall_mem_cons.mp hbefore
    obtain ⟨t, ht⟩ := text_eq_ok_of_reads hcode
    rw [List.cons_append, outcome_cons_of_text ht, ih hrest]

/-- Codes that can all be read are read to the end. -/
theorem readable_of_reads (h : ∀ code ∈ codes, decoder.reads code = true) :
    decoder.readable codes = codes ∧ decoder.outcome codes = .ok () := by
  refine ⟨List.takeWhile_eq_self_iff.mpr h, ?_⟩
  rw [← List.append_nil codes]
  exact outcome_append_of_reads h

/-- Codes are read up to the first that cannot be. -/
theorem readable_of_text_eq_error (hbefore : ∀ code ∈ before, decoder.reads code = true) {e : Fault}
    (hcode : decoder.text code = .error e) :
    decoder.readable (before ++ code :: after) = before
      ∧ decoder.outcome (before ++ code :: after) = .error e := by
  refine ⟨?_, ?_⟩
  · rw [readable, List.takeWhile_append_of_pos hbefore,
      List.takeWhile_cons_of_neg (not_reads_of_text hcode), List.append_nil]
  · rw [outcome_append_of_reads hbefore, outcome_cons_of_error hcode]

/-- Reading comes to the end if and only if every code can be read. -/
theorem outcome_eq_ok_iff :
    decoder.outcome codes = .ok () ↔ ∀ code ∈ codes, decoder.reads code = true := by
  refine ⟨fun h => ?_, fun h => (readable_of_reads h).2⟩
  induction codes with
  | nil => exact fun _ h => absurd h List.not_mem_nil
  | cons code codes ih =>
    cases ht : decoder.text code with
    | error e =>
      rw [outcome_cons_of_error ht] at h
      cases h
    | ok t =>
      rw [outcome_cons_of_text ht] at h
      exact List.forall_mem_cons.mpr ⟨reads_of_text ht, ih h⟩

/-- Only a byte that the font's map leaves to an encoding may have no text, and then because the
encoding fails on it. -/
theorem text_eq_error_iff {e : Fault} :
    decoder.text code = .error e ↔ decoder.mapped? code = none
      ∧ ∃ name byte, code = [byte] ∧ decoder.table = .encoding name
        ∧ decoder.lexicon.decode name byte = .error e := by
  have htabled : decoder.tabled? code = .error e ↔ ∃ name byte, code = [byte]
      ∧ decoder.table = .encoding name ∧ decoder.lexicon.decode name byte = .error e := by
    unfold tabled?
    split
    next byte =>
      cases decoder.table with
      | encoding name => simp
      | glyphs names =>
        simp only [List.cons.injEq, and_true, reduceCtorEq, false_and, and_false, exists_false,
          iff_false]
        split <;> exact nofun
      | none => simp
    next hcode =>
      refine ⟨nofun, ?_⟩
      rintro ⟨_, byte, h, -⟩
      exact absurd h (hcode byte)
  unfold text
  cases hmap : decoder.mapped? code with
  | some t => simp
  | none =>
    rw [← htabled]
    cases decoder.tabled? code <;> simp [Except.map]

end Decoder

namespace Walker

variable {α σ : Type} [Scalar α] {c : WalkContext α σ} {g : Graphics α} {decoder : Decoder α}

/-! ## Codes one by one -/

theorem run_showCodes_nil (w : Walker α σ) : (showCodes c g decoder []).run w = (.ok (), w) := rfl

/-- A code that cannot be read ends the string, and nothing is done about it. -/
theorem run_showCodes_cons_of_error {code : Bytes} {e : Fault} (h : decoder.text code = .error e)
    (rest : List Bytes) (w : Walker α σ) :
    (showCodes c g decoder (code :: rest)).run w = (.error e, w) := by
  have hshown : decoder.shown code = .error e := by
    rw [Decoder.shown, h]
    rfl
  rw [showCodes, hshown]
  exact Act.run_bind_error (Act.run_ofExcept _ w)

theorem showCodes_append (xs ys : List Bytes) :
    showCodes c g decoder (xs ++ ys)
      = showCodes c g decoder xs >>= fun _ => showCodes c g decoder ys := by
  induction xs with
  | nil => rw [List.nil_append, showCodes, pure_bind]
  | cons code xs ih =>
    rw [List.cons_append, showCodes, showCodes, bind_assoc]
    congr 1
    funext s
    split <;> simp only [ih, bind_assoc]

theorem keeps_graphics_showCodes (c : WalkContext α σ) (g g' : Graphics α) (decoder : Decoder α)
    (codes : List Bytes) :
    (showCodes c g decoder codes).Keeps fun w => w.graphics = g' := by
  have hsend : ∀ e, (send c e).Keeps fun w => w.graphics = g' := fun _ _ hw => hw
  have hadvance : ∀ x, (advance x : Act (Walker α σ) Unit).Keeps fun w => w.graphics = g' :=
    fun _ => .modify fun _ hw => hw
  induction codes with
  | nil => exact .pure _
  | cons code codes ih =>
    rw [showCodes]
    refine .bind (.ofExcept _) fun s => ?_
    split
    · exact .bind .get fun _ => .bind (hsend _) fun _ => .bind (hadvance _) fun _ => ih
    · exact .bind (hadvance _) fun _ => ih

section

variable (hglyphs : ∀ glyph, (c.listener.receive (.glyph glyph)).Succeeds)
include hglyphs

/-- A code that can be read is shown, and those behind it are shown from there. -/
theorem exists_run_showCodes_cons {code : Bytes} {t : Text} (h : decoder.text code = .ok t)
    (w : Walker α σ) :
    ∃ v, ∀ rest, (showCodes c g decoder (code :: rest)).run w
      = (showCodes c g decoder rest).run v := by
  let s : ShownCode α := ⟨code, t, decoder.width code⟩
  have hshown : decoder.shown code = .ok s := by
    rw [Decoder.shown, h]
    rfl
  have hadvance : (advance (step g s) : Act (Walker α σ) Unit).Succeeds := .modify _
  have hsend : ∀ glyph, (send c (.glyph glyph)).Succeeds := by
    intro glyph u
    obtain ⟨b, l, hrun⟩ := hglyphs glyph u.listener
    refine ⟨b, { u with listener := l }, ?_⟩
    rw [send, Act.run_onPart, hrun]
  by_cases htext : (!s.text.isEmpty) = true
  · obtain ⟨_, u, hsent⟩ :=
      hsend (glyph (device c.page g w.textMatrix) g decoder.heightRatio s) w
    obtain ⟨_, v, hmoved⟩ := hadvance u
    refine ⟨v, fun rest => ?_⟩
    rw [showCodes, hshown, Act.run_bind_ok (Act.run_ofExcept _ w), if_pos htext,
      Act.run_bind_ok (Act.run_get w), Act.run_bind_ok hsent, Act.run_bind_ok hmoved]
  · obtain ⟨_, v, hmoved⟩ := hadvance w
    refine ⟨v, fun rest => ?_⟩
    rw [showCodes, hshown, Act.run_bind_ok (Act.run_ofExcept _ w), if_neg htext,
      Act.run_bind_ok hmoved]

/-- Codes are shown up to the first that cannot be read, which tells how they end. -/
theorem run_showCodes_readable (g : Graphics α) (decoder : Decoder α) (codes : List Bytes)
    (w : Walker α σ) :
    ∃ w', (showCodes c g decoder (decoder.readable codes)).run w = (.ok (), w')
      ∧ (showCodes c g decoder codes).run w = (decoder.outcome codes, w') := by
  induction codes generalizing w with
  | nil => exact ⟨w, rfl, rfl⟩
  | cons code codes ih =>
    cases ht : decoder.text code with
    | error e =>
      refine ⟨w, ?_, ?_⟩
      · rw [Decoder.readable_cons_of_error ht, run_showCodes_nil]
      · rw [Decoder.outcome_cons_of_error ht, run_showCodes_cons_of_error ht]
    | ok t =>
      obtain ⟨v, hv⟩ := exists_run_showCodes_cons hglyphs (g := g) ht w
      rw [Decoder.readable_cons_of_text ht, Decoder.outcome_cons_of_text ht, hv, hv]
      exact ih v

end

/-! ## Strings -/

/-- What a string does whose bytes are known: its codes are shown, if there is a font to show them
in. -/
theorem run_showString_of_bytes {value : Object α} {bytes : Bytes}
    (hbytes : stringBytes c.graph value = .ok bytes) (w : Walker α σ) :
    (showString c value).run w
      = match w.graphics.font.bind c.model.decoder? with
        | none => (.ok (), w)
        | some decoder => (showCodes c w.graphics decoder (decoder.codes bytes)).run w := by
  rw [showString, Act.run_bind_ok (Act.run_get w)]
  cases hfont : w.graphics.font.bind c.model.decoder? with
  | none => simp only [hfont, Act.run_pure]
  | some decoder =>
    simp only [hfont]
    rw [hbytes, Act.run_bind_ok (Act.run_ofExcept _ w), Decoder.split_eq_codes]

/-- The value is shown from `w` up to the first code that cannot be read; that leads to `w'`. -/
def BreaksOff (c : WalkContext α σ) (value : Object α) (e : Fault) (w w' : Walker α σ) : Prop :=
  ∃ decoder bytes, w.graphics.font.bind c.model.decoder? = some decoder
    ∧ stringBytes c.graph value = .ok bytes
    ∧ decoder.outcome (decoder.codes bytes) = .error e
    ∧ (showCodes c w.graphics decoder (decoder.readable (decoder.codes bytes))).run w
      = (.ok (), w')

/-- A string that is not shown to its end is not begun at all or breaks off at a code. -/
theorem eq_or_breaksOff_of_showString
    (hglyphs : ∀ glyph, (c.listener.receive (.glyph glyph)).Succeeds) {value : Object α}
    {w w' : Walker α σ} {e : Fault} (hrun : (showString c value).run w = (.error e, w')) :
    w' = w ∨ BreaksOff c value e w w' := by
  cases hbytes : stringBytes c.graph value with
  | error e' =>
    -- Without a font the bytes are not asked for, and with one they are asked for first.
    refine .inl ?_
    rw [showString, Act.run_bind_ok (Act.run_get w)] at hrun
    cases hfont : w.graphics.font.bind c.model.decoder? with
    | none =>
      simp only [hfont] at hrun
      cases hrun
    | some decoder =>
      simp only [hfont] at hrun
      rw [hbytes, Act.run_bind_error (Act.run_ofExcept _ w)] at hrun
      exact (Prod.mk.inj hrun).2.symm
  | ok bytes =>
    rw [run_showString_of_bytes hbytes] at hrun
    cases hfont : w.graphics.font.bind c.model.decoder? with
    | none =>
      rw [hfont] at hrun
      cases hrun
    | some decoder =>
      obtain ⟨v, hshown, hall⟩ := run_showCodes_readable hglyphs w.graphics decoder
        (decoder.codes bytes) w
      simp only [hfont] at hrun
      rw [hall] at hrun
      obtain ⟨houtcome, rfl⟩ := Prod.mk.inj hrun
      exact .inr ⟨decoder, bytes, hfont, hbytes, houtcome, hshown⟩

/-- A string that breaks off ends in the fault of its code. -/
theorem BreaksOff.run_showString
    (hglyphs : ∀ glyph, (c.listener.receive (.glyph glyph)).Succeeds) {value : Object α}
    {w w' : Walker α σ} {e : Fault} (h : BreaksOff c value e w w') :
    (showString c value).run w = (.error e, w') := by
  obtain ⟨decoder, bytes, hfont, hbytes, houtcome, hshown⟩ := h
  obtain ⟨v, hreadable, hall⟩ := run_showCodes_readable hglyphs w.graphics decoder
    (decoder.codes bytes) w
  rw [hshown] at hreadable
  obtain ⟨-, rfl⟩ := Prod.mk.inj hreadable
  rw [run_showString_of_bytes hbytes, hfont]
  simp only
  rw [hall, houtcome]

end Walker

end Pdf

end Folio
