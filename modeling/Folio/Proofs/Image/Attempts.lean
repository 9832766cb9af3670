import Folio.Image.Encoding

/-!
# Every way of writing a picture is tried

There are three ways of writing a raster: compressed and plain in its own format, and as a plain PNG.
Which of them apply depends on its size and its format alone (`Way.Applies`). Whatever the codec makes
of them, they are tried in order until one succeeds (`Tried`): the picture is that of the last one
tried, and each one before it has been warned about once. A raster is given up only if it has no format
or if all ways that apply fail (`encode_tries_all`).
-/

namespace Folio.ImageEncoding

open Text (lit)

/-- A way of writing a raster. -/
inductive Way
  /-- In its own format, compressed. -/
  | compressed
  /-- In its own format, without settings. -/
  | plain
  /-- As a PNG, without settings. -/
  | png
  deriving DecidableEq, Repr

namespace Way

/-- Only a large raster is compressed, and only one in another format is left for PNG. -/
def Applies (raster : Raster) (own : Text) : Way → Prop
  | compressed => mebibyte < raster.estimatedSize
  | plain => True
  | png => own ≠ lit "png"

instance (raster : Raster) (own : Text) : DecidablePred (Applies raster own)
  | compressed => inferInstanceAs (Decidable (mebibyte < raster.estimatedSize))
  | plain => inferInstanceAs (Decidable True)
  | png => inferInstanceAs (Decidable (own ≠ lit "png"))

def format (own : Text) : Way → Text
  | compressed | plain => own
  | png => lit "png"

/-- In percent. A raster that is compressed is large already; the larger it is, the lower. -/
def quality (raster : Raster) : Way → Option Nat
  | compressed => some (
    if 5 * mebibyte < raster.estimatedSize then 10
    else if 2 * mebibyte < raster.estimatedSize then 20
    else 40)
  | plain | png => none

def settings (raster : Raster) (own : Text) (way : Way) : SaveSettings :=
  match way.quality raster with
  | some quality => compressedSettings own quality
  | none => .plain

/-- What comes of the way. -/
def answer (raster : Raster) (own : Text) (way : Way) : Except Fault EncodedImage :=
  match write raster (way.format own) (way.settings raster own) with
  | .ok data => .ok ⟨data, way.format own, way.quality raster, way = compressed⟩
  | .error fault => .error fault

/-- Whether the codec gives up on the way. -/
def Fails (raster : Raster) (own : Text) (way : Way) : Prop :=
  ∃ fault, way.answer raster own = .error fault

/-- What a warning about the way begins with; the last one of all is never warned about. -/
def preface (own : Text) : Way → Text
  | compressed => lit "Image compression failed, writing uncompressed: "
  | plain => lit "Native " ++ own ++ lit " write failed, falling back to PNG: "
  | png => []

/-- What is reported when the way fails and another one follows. -/
def warning (raster : Raster) (own : Text) (way : Way) : LogRecord where
  level := .warning
  message := way.preface own ++
    match way.answer raster own with
    | .error fault => fault.message
    | .ok _ => []

/-- What the whole answers if the way is the last one tried. -/
def final (raster : Raster) (own : Text) (way : Way) : Except Fault EncodedImage :=
  match way.answer raster own with
  | .ok image => .ok image
  | .error fault =>
    .error (.ofProblem .imageEncoding (lit "Failed to encode image: " ++ fault.message))

/-- The way as an attempt. -/
def attempt (raster : Raster) (own : Text) (way : Way) : Attempt where
  format := way.format own
  quality := way.quality raster
  warning := way.preface own

theorem run_attempt (raster : Raster) (own : Text) (way : Way) :
    (way.attempt raster own).run raster = way.answer raster own := by
  have hrun : (way.attempt raster own).run raster
      = write raster (way.format own) (way.settings raster own) >>= fun data =>
        .ok ⟨data, way.format own, way.quality raster, way = compressed⟩ := by
    cases way <;> rfl
  rw [hrun, answer]
  cases write raster (way.format own) (way.settings raster own) with
  | ok data => rfl
  | error fault => rfl

end Way

/-- The ways that apply to a raster, in order. -/
def ways (raster : Raster) (own : Text) : List Way :=
  [.compressed, .plain, .png].filter (Way.Applies raster own)

/-- Of these ways, some are tried and fail, and then a last one: it succeeds, or no other is left. -/
structure Tried (raster : Raster) (own : Text) (all before : List Way) (last : Way) : Prop where
  in_order : before ++ [last] <+: all
  failed : ∀ way ∈ before, way.Fails raster own
  settled : ¬ last.Fails raster own ∨ before ++ [last] = all

/-! ## Sizes -/

theorem exceeds_ofInt (m n : Int) : (Exact.ofInt m).exceeds n = decide (n < m) := by
  have hsigned : ∀ k : Int, (if decide (k < 0) then -((k.natAbs * 1 : Nat) : Int)
      else ((k.natAbs * 1 : Nat) : Int)) = k := by
    intro k
    split
    next h =>
      have hneg : k < 0 := of_decide_eq_true h
      omega
    next h =>
      have hnonneg : ¬ k < 0 := fun hneg => h (decide_eq_true hneg)
      omega
  unfold Exact.exceeds Exact.ofInt Exact.below
  simp only [hsigned]

/-- A large raster has one of three qualities. -/
theorem quality_of_large {raster : Raster} (h : mebibyte < raster.estimatedSize) :
    Way.quality raster .compressed = some (quality (.ofInt raster.estimatedSize)) := by
  simp only [Way.quality, quality, exceeds_ofInt, decide_eq_true_eq, if_pos h]

/-- The attempts are the ways that apply. -/
theorem attempts_eq (raster : Raster) (own : Text) :
    attempts raster own = (ways raster own).map (Way.attempt raster own) := by
  have hlarge : isLarge (.ofInt raster.estimatedSize) = decide (mebibyte < raster.estimatedSize) :=
    exceeds_ofInt _ _
  have hcompressed : Way.compressed.Applies raster own ↔ mebibyte < raster.estimatedSize := Iff.rfl
  have hplain : Way.plain.Applies raster own := trivial
  have hpng : Way.png.Applies raster own ↔ own ≠ lit "png" := Iff.rfl
  have hways : ways raster own = (if mebibyte < raster.estimatedSize then [.compressed] else [])
      ++ [.plain] ++ (if own = lit "png" then [] else [.png]) := by
    simp only [ways, List.filter_cons, hcompressed, hplain, hpng, decide_true, decide_eq_true_eq,
      List.filter_nil, if_true]
    split <;> split <;> simp_all
  rw [hways, List.map_append, List.map_append, attempts]
  simp only [hlarge, decide_eq_true_eq]
  congr 1
  · congr 1
    split
    next hsize =>
      rw [List.map_singleton, Way.attempt, quality_of_large hsize]
      rfl
    next => rfl
  · split <;> rfl

/-! ## Trying -/

/-- The ways are tried until one succeeds, with a warning for each that another one follows. -/
theorem firstSuccess_ways (raster : Raster) (own : Text) {all : List Way} (hall : all ≠ []) :
    ∃ before last, Tried raster own all before last
      ∧ firstSuccess raster (all.map (Way.attempt raster own))
        = (last.final raster own, before.map (Way.warning raster own)) := by
  induction all with
  | nil => exact absurd rfl hall
  | cons way rest ih =>
    rw [List.map_cons, firstSuccess, Way.run_attempt]
    cases hanswer : way.answer raster own with
    | ok image =>
      refine ⟨[], way, ⟨List.prefix_append [way] rest, fun _ h => (by cases h), .inl ?_⟩, ?_⟩
      · rintro ⟨fault, hfault⟩
        cases hanswer.symm.trans hfault
      · rw [Way.final, hanswer]
        rfl
    | error fault =>
      have hfails : way.Fails raster own := ⟨fault, hanswer⟩
      cases rest with
      | nil =>
        refine ⟨[], way, ⟨List.prefix_refl _, fun _ h => (by cases h), .inr rfl⟩, ?_⟩
        rw [Way.final, hanswer]
        rfl
      | cons next others =>
        obtain ⟨before, last, htried, hfirst⟩ := ih (List.cons_ne_nil next others)
        refine ⟨way :: before, last, ⟨?_, ?_, ?_⟩, ?_⟩
        · exact (List.prefix_cons_inj way).mpr htried.in_order
        · exact List.forall_mem_cons.mpr ⟨hfails, htried.failed⟩
        · exact htried.settled.imp_right fun hrest => by rw [List.cons_append, hrest]
        · have hmore : (List.map (Way.attempt raster own) (next :: others)).isEmpty = false := rfl
          have hwarning : Way.warning raster own way
              = ⟨.warning, way.preface own ++ fault.message⟩ := by
            rw [Way.warning, hanswer]
          simp only [hmore, hfirst, Bool.false_eq_true, if_false]
          rw [List.map_cons, hwarning]
          rfl

theorem ways_ne_nil (raster : Raster) (own : Text) : ways raster own ≠ [] := by
  have hmem : Way.plain ∈ ways raster own :=
    List.mem_filter.mpr ⟨by decide, decide_eq_true trivial⟩
  exact List.ne_nil_of_mem hmem

/-- The last way tried fails only if all of them do. -/
theorem Tried.fails_iff {raster : Raster} {own : Text} {all before : List Way} {last : Way}
    (h : Tried raster own all before last) :
    last.Fails raster own ↔ ∀ way ∈ all, way.Fails raster own := by
  constructor
  · intro hlast
    obtain hfalse | rfl := h.settled
    · exact absurd hlast hfalse
    · intro way hway
      rcases List.mem_append.mp hway with hbefore | hsingle
      · exact h.failed way hbefore
      · rwa [List.mem_singleton.mp hsingle]
  · intro hall
    exact hall last (h.in_order.subset (List.mem_append_right _ List.mem_cons_self))

namespace Way

variable {raster : Raster} {own : Text} {way : Way}

theorem final_error_iff : (∃ fault, way.final raster own = .error fault)
    ↔ way.Fails raster own := by
  unfold final Fails
  cases way.answer raster own with
  | ok image => exact ⟨fun ⟨_, h⟩ => (by cases h), fun ⟨_, h⟩ => (by cases h)⟩
  | error fault => exact ⟨fun _ => ⟨_, rfl⟩, fun _ => ⟨_, rfl⟩⟩

/-- What is given up is given up as a picture that cannot be encoded. -/
theorem problem_of_final {fault : Fault} (h : way.final raster own = .error fault) :
    ∃ words, fault = .problem .imageEncoding words := by
  unfold final at h
  split at h
  · cases h
  · cases h
    exact ⟨_, rfl⟩

/-- A picture has a quality exactly if it is compressed. -/
theorem isSome_quality_of_final {image : EncodedImage} (h : way.final raster own = .ok image) :
    image.quality.isSome = image.compressed := by
  unfold final answer at h
  cases hwrite : write raster (way.format own) (way.settings raster own) with
  | error fault =>
    rw [hwrite] at h
    cases h
  | ok data =>
    rw [hwrite] at h
    cases h
    cases way <;> rfl

end Way

/-- A raster without a format is given up at once. Any other is written in the first way that applies
and does not fail, and is given up only if there is none; each way that fails before another one is
tried has been warned about once. -/
theorem encode_tries_all (raster : Raster) :
    (raster.format? = none → encode raster = (.error (.ofProblem .imageEncoding
        (lit "Image " ++ raster.title ++ lit " has no native format")), []))
      ∧ (∀ name, raster.format? = some name →
        let own := normalFormat name
        ∃ before last, Tried raster own (ways raster own) before last
          ∧ encode raster = (last.final raster own, before.map (Way.warning raster own)))
      ∧ ((∃ fault, (encode raster).1 = .error fault)
        ↔ raster.format? = none ∨ ∃ name, raster.format? = some name
          ∧ ∀ way : Way, way.Applies raster (normalFormat name) →
            way.Fails raster (normalFormat name))
      ∧ (∀ fault, (encode raster).1 = .error fault → ∃ words, fault = .problem .imageEncoding words)
      ∧ ∀ image, (encode raster).1 = .ok image → image.quality.isSome = image.compressed := by
  cases hformat : raster.format? with
  | none =>
    have hencode : encode raster = (.error (.ofProblem .imageEncoding
        (lit "Image " ++ raster.title ++ lit " has no native format")), []) := by
      rw [encode, hformat]
    rw [hencode]
    refine ⟨fun _ => rfl, fun name h => (by cases h), ⟨fun _ => .inl rfl, fun _ => ⟨_, rfl⟩⟩, ?_, ?_⟩
    · intro fault h
      cases h
      exact ⟨_, rfl⟩
    · intro image h
      cases h
  | some name =>
    have hencode : encode raster
        = firstSuccess raster (attempts raster (normalFormat name)) := by
      rw [encode, hformat]
    obtain ⟨before, last, htried, hfirst⟩ :=
      firstSuccess_ways raster (normalFormat name) (ways_ne_nil raster (normalFormat name))
    rw [← attempts_eq, ← hencode] at hfirst
    have hall : (∀ way ∈ ways raster (normalFormat name), way.Fails raster (normalFormat name))
        ↔ ∀ way : Way, way.Applies raster (normalFormat name) →
          way.Fails raster (normalFormat name) := by
      refine forall_congr' fun way => ?_
      have hmem : way ∈ ways raster (normalFormat name)
          ↔ way.Applies raster (normalFormat name) := by
        rw [ways, List.mem_filter, decide_eq_true_eq]
        exact and_iff_right (by cases way <;> decide)
      rw [hmem]
    rw [hfirst]
    refine ⟨fun h => (by cases h), ?_, ?_, fun _ => Way.problem_of_final,
      fun _ => Way.isSome_quality_of_final⟩
    · intro other hother
      cases hother
      exact ⟨before, last, htried, rfl⟩
    · rw [Way.final_error_iff, htried.fails_iff, hall]
      constructor
      · exact fun h => .inr ⟨name, rfl, h⟩
      · rintro (h | ⟨other, hother, h⟩)
        · cases h
        · cases hother
          exact h

/-- A large picture whose own codec gives up. -/
def stubborn : Raster where
  mode := lit "RGB"
  width := 1000
  height := 1000
  format := some (lit "JPG")
  bitsPerPixel := 24
  name := none
  encoder := ⟨fun _ _ => .ok (), fun format _ _ =>
    if format = lit "PNG" then .ok [1] else .error (.device (lit "no codec"))⟩

/-- It becomes a PNG, with a warning for each of the two ways before. -/
theorem encode_tries_all_stubborn :
    (∃ before last, Tried stubborn (lit "jpeg") (ways stubborn (lit "jpeg")) before last
        ∧ (encode stubborn).2 = before.map (Way.warning stubborn (lit "jpeg")))
      ∧ (encode stubborn).1.toOption = some ⟨[1], lit "png", none, false⟩
      ∧ (encode stubborn).2.length = 2 := by
  have hformat : stubborn.format? = some (lit "JPG") := rfl
  obtain ⟨-, htried, -⟩ := encode_tries_all stubborn
  obtain ⟨before, last, hbefore, hencode⟩ := htried _ hformat
  have hown : normalFormat (lit "JPG") = lit "jpeg" := by decide +kernel
  rw [hown] at hbefore hencode
  exact ⟨⟨before, last, hbefore, by rw [hencode]⟩, by decide +kernel, by decide +kernel⟩

end Folio.ImageEncoding
