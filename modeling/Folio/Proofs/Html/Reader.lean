import Folio.Proofs.Text.Plain
import Mathlib.Tactic.SplitIfs

/-!
# Reading markup

The way back from a document's text to its tags: a machine that takes one code point at a time, as
readers of HTML do. What stands between tags is passed over. Start tags come with their attributes
in the order they are written, quoted in either way or not at all, each value as it stands there;
a slash before the end of a start tag means nothing.

`Reads` says which tags a text has, and that it has no angle brackets besides theirs. Texts that are
read to their end can be put one after the other (`Reads.append`), and a start tag is read as it was
written, whatever plain texts stand in its attributes (`Reads.startTag`).
-/

namespace Folio.Html

open Text (lit)

/-- A tag. -/
inductive Tag
  | opening (name : Text) (attributes : List (Text × Text))
  | closing (name : Text)
  deriving DecidableEq, Repr

/-- As much of a start tag as has been read. -/
structure StartTag where
  name : Text
  attributes : List (Text × Text) := []
  deriving DecidableEq, Repr

namespace StartTag

/-- The tag when its end is reached. -/
def tag (s : StartTag) : Tag := .opening s.name s.attributes

/-- The start tag with one more attribute. -/
def add (s : StartTag) (key value : Text) : StartTag :=
  { s with attributes := s.attributes ++ [(key, value)] }

end StartTag

/-- Where a reader is. -/
inductive Mode
  /-- Between tags. -/
  | data
  /-- Behind the first angle bracket of what may be a tag. -/
  | angle
  /-- In the name of an end tag. -/
  | closing (name : Text)
  /-- In the name of a start tag. -/
  | name (name : Text)
  /-- In a start tag, outside of its attributes. -/
  | between (tag : StartTag)
  /-- In the name of an attribute. -/
  | key (tag : StartTag) (key : Text)
  /-- Behind the equals sign of an attribute. -/
  | equals (tag : StartTag) (key : Text)
  /-- In a value that ends with a quote. -/
  | value (tag : StartTag) (key : Text) (quote : CodePoint) (value : Text)
  /-- In a value without quotes. -/
  | bare (tag : StartTag) (key value : Text)
  deriving DecidableEq, Repr

/-- A reader with the tags read so far. -/
structure Reader where
  tags : List Tag
  mode : Mode
  deriving DecidableEq, Repr

namespace Reader

/-- Whether a code point separates attributes. -/
def isSpace (c : CodePoint) : Bool := c.val = 0x20 || (0x09 ≤ c.val && c.val ≤ 0x0D)

def goto (r : Reader) (mode : Mode) : Reader := { r with mode := mode }

def emit (r : Reader) (tag : Tag) : Reader := ⟨r.tags ++ [tag], .data⟩

def step (r : Reader) (c : CodePoint) : Reader :=
  match r.mode with
  | .data => if c = CodePoint.ofChar '<' then r.goto .angle else r
  | .angle =>
    if c = CodePoint.ofChar '/' then r.goto (.closing [])
    else if c.isAsciiLower || c.isAsciiUpper || c = CodePoint.ofChar '!' then r.goto (.name [c])
    else if c = CodePoint.ofChar '<' then r
    else r.goto .data
  | .closing name =>
    if c = CodePoint.ofChar '>' then r.emit (.closing name) else r.goto (.closing (name ++ [c]))
  | .name name =>
    if isSpace c || c = CodePoint.ofChar '/' then r.goto (.between ⟨name, []⟩)
    else if c = CodePoint.ofChar '>' then r.emit (.opening name [])
    else r.goto (.name (name ++ [c]))
  | .between tag =>
    if isSpace c || c = CodePoint.ofChar '/' then r
    else if c = CodePoint.ofChar '>' then r.emit tag.tag
    else r.goto (.key tag [c])
  | .key tag key =>
    if isSpace c || c = CodePoint.ofChar '/' then r.goto (.between (tag.add key []))
    else if c = CodePoint.ofChar '>' then r.emit (tag.add key []).tag
    else if c = CodePoint.ofChar '=' then r.goto (.equals tag key)
    else r.goto (.key tag (key ++ [c]))
  | .equals tag key =>
    if isSpace c then r
    else if c = CodePoint.ofChar '"' || c = CodePoint.ofNat 39 then r.goto (.value tag key c [])
    else if c = CodePoint.ofChar '>' then r.emit (tag.add key []).tag
    else r.goto (.bare tag key [c])
  | .value tag key quote value =>
    if c = quote then r.goto (.between (tag.add key value))
    else r.goto (.value tag key quote (value ++ [c]))
  | .bare tag key value =>
    if isSpace c then r.goto (.between (tag.add key value))
    else if c = CodePoint.ofChar '>' then r.emit (tag.add key value).tag
    else r.goto (.bare tag key (value ++ [c]))

def run (r : Reader) (t : Text) : Reader := t.foldl step r

@[simp] theorem run_nil (r : Reader) : r.run [] = r := rfl

@[simp] theorem run_cons (r : Reader) (c : CodePoint) (t : Text) :
    r.run (c :: t) = (r.step c).run t := rfl

theorem run_append (r : Reader) (t u : Text) : r.run (t ++ u) = (r.run t).run u :=
  List.foldl_append

/-- The tags read before stay where they are and have no part in what is read. -/
theorem step_tags (r : Reader) (c : CodePoint) :
    r.step c = ⟨r.tags ++ (step ⟨[], r.mode⟩ c).tags, (step ⟨[], r.mode⟩ c).mode⟩ := by
  obtain ⟨tags, mode⟩ := r
  cases mode <;> simp only [step] <;> split_ifs <;> simp [goto, emit]

theorem run_tags (r : Reader) (t : Text) :
    r.run t = ⟨r.tags ++ (run ⟨[], r.mode⟩ t).tags, (run ⟨[], r.mode⟩ t).mode⟩ := by
  induction t generalizing r with
  | nil => simp
  | cons c t ih =>
    rw [run_cons, ih (r.step c), run_cons, ih (step ⟨[], r.mode⟩ c), step_tags r c]
    simp only [List.append_assoc]

/-! ## Runs within one mode -/

/-- Between tags nothing but an angle bracket matters. -/
theorem run_data {t : Text} (h : t.HasNoAngle) (tags : List Tag) :
    (⟨tags, .data⟩ : Reader).run t = ⟨tags, .data⟩ := by
  induction t with
  | nil => rfl
  | cons c t ih =>
    have hc : c ≠ CodePoint.ofChar '<' := by
      rintro rfl
      exact absurd (h _ List.mem_cons_self) (by decide)
    have hstep : step ⟨tags, .data⟩ c = ⟨tags, .data⟩ := if_neg hc
    rw [run_cons, hstep]
    exact ih fun d hd => h d (List.mem_cons_of_mem _ hd)

/-- In a quoted value nothing but the quote matters. -/
theorem run_value {t : Text} {quote : CodePoint} (h : quote ∉ t) (tags : List Tag) (tag : StartTag)
    (key value : Text) :
    (⟨tags, .value tag key quote value⟩ : Reader).run t
      = ⟨tags, .value tag key quote (value ++ t)⟩ := by
  induction t generalizing value with
  | nil => rw [List.append_nil]; rfl
  | cons c t ih =>
    have hc : c ≠ quote := fun hc => h (hc ▸ List.mem_cons_self)
    have hstep : step ⟨tags, .value tag key quote value⟩ c
        = ⟨tags, .value tag key quote (value ++ [c])⟩ := if_neg hc
    rw [run_cons, hstep, ih fun hq => h (List.mem_cons_of_mem _ hq), List.append_assoc]
    rfl

/-- A small letter is none of the marks that end the name of a tag or of an attribute. -/
theorem not_mark_of_isAsciiLower {c : CodePoint} (h : c.isAsciiLower = true) :
    isSpace c = false ∧ c ≠ CodePoint.ofChar '/' ∧ c ≠ CodePoint.ofChar '>'
      ∧ c ≠ CodePoint.ofChar '=' := by
  refine ⟨?_, ?_, ?_, ?_⟩
  · simp only [CodePoint.isAsciiLower, Bool.and_eq_true, decide_eq_true_eq] at h
    simp only [isSpace, Bool.or_eq_false_iff, Bool.and_eq_false_iff, decide_eq_false_iff_not]
    omega
  all_goals
    rintro rfl
    exact absurd h (by decide)

theorem run_name {t : Text} (h : ∀ c ∈ t, c.isAsciiLower = true) (tags : List Tag) (name : Text) :
    (⟨tags, .name name⟩ : Reader).run t = ⟨tags, .name (name ++ t)⟩ := by
  induction t generalizing name with
  | nil => rw [List.append_nil]; rfl
  | cons c t ih =>
    obtain ⟨hspace, hslash, hend, -⟩ := not_mark_of_isAsciiLower (h c List.mem_cons_self)
    have hstep : step ⟨tags, .name name⟩ c = ⟨tags, .name (name ++ [c])⟩ := by
      simp [step, goto, hspace, hslash, hend]
    rw [run_cons, hstep, ih fun d hd => h d (List.mem_cons_of_mem _ hd), List.append_assoc]
    rfl

theorem run_key {t : Text} (h : ∀ c ∈ t, c.isAsciiLower = true) (tags : List Tag) (tag : StartTag)
    (key : Text) : (⟨tags, .key tag key⟩ : Reader).run t = ⟨tags, .key tag (key ++ t)⟩ := by
  induction t generalizing key with
  | nil => rw [List.append_nil]; rfl
  | cons c t ih =>
    obtain ⟨hspace, hslash, hend, hequals⟩ := not_mark_of_isAsciiLower (h c List.mem_cons_self)
    have hstep : step ⟨tags, .key tag key⟩ c = ⟨tags, .key tag (key ++ [c])⟩ := by
      simp [step, goto, hspace, hslash, hend, hequals]
    rw [run_cons, hstep, ih fun d hd => h d (List.mem_cons_of_mem _ hd), List.append_assoc]
    rfl

end Reader

/-! ## Reading texts -/

/-- The tags of a text, unless it ends within one. -/
def read (t : Text) : Option (List Tag) :=
  let r := (⟨[], .data⟩ : Reader).run t
  match r.mode with
  | .data => some r.tags
  | _ => none

/-- The text is read to its end, with these tags on the way, and it has two angle brackets for each
of them and no others. -/
structure Reads (t : Text) (tags : List Tag) : Prop where
  read : read t = some tags
  angles : t.filter CodePoint.isAngle = tags.flatMap fun _ => lit "<>"

theorem run_of_read {t : Text} {tags : List Tag} (h : read t = some tags) (before : List Tag) :
    (⟨before, .data⟩ : Reader).run t = ⟨before ++ tags, .data⟩ := by
  have hmode : ((⟨[], .data⟩ : Reader).run t).mode = .data ∧
      ((⟨[], .data⟩ : Reader).run t).tags = tags := by
    simp only [read] at h
    split at h
    next hmode => exact ⟨hmode, Option.some.inj h⟩
    · cases h
  rw [Reader.run_tags, hmode.1, hmode.2]

theorem read_of_run {t : Text} {tags : List Tag}
    (h : (⟨[], .data⟩ : Reader).run t = ⟨tags, .data⟩) : read t = some tags := by
  simp only [read, h]

namespace Reads

theorem nil : Reads [] [] := ⟨rfl, rfl⟩

theorem append {t u : Text} {ts us : List Tag} (ht : Reads t ts) (hu : Reads u us) :
    Reads (t ++ u) (ts ++ us) where
  read := by
    apply read_of_run
    rw [Reader.run_append, run_of_read ht.read, run_of_read hu.read, List.nil_append]
  angles := by rw [List.filter_append, List.flatMap_append, ht.angles, hu.angles]

/-- A text without angle brackets has no tags. -/
theorem of_hasNoAngle {t : Text} (h : t.HasNoAngle) : Reads t [] where
  read := read_of_run (Reader.run_data h [])
  angles := by
    refine List.filter_eq_nil_iff.mpr fun c hc => ?_
    rw [h c hc]
    exact Bool.false_ne_true

/-- A constant is read character by character; its string is never taken apart. -/
theorem of_lit {l : List Char} {tags : List Tag} (h : Reads (l.map CodePoint.ofChar) tags) :
    Reads (lit (String.ofList l)) tags := by
  rw [Text.lit_ofList]
  exact h

theorem flatMap {β : Type} {f : β → Text} {g : β → List Tag} {l : List β}
    (h : ∀ b ∈ l, Reads (f b) (g b)) : Reads (l.flatMap f) (l.flatMap g) := by
  induction l with
  | nil => exact nil
  | cons b l ih =>
    exact (h b List.mem_cons_self).append (ih fun c hc => h c (List.mem_cons_of_mem _ hc))

end Reads

/-! ## Start tags -/

/-- An attribute as it is written, with the blank in front of it. -/
def field (a : Text × Text) : Text := lit " " ++ a.1 ++ lit "=\"" ++ a.2 ++ lit "\""

/-- A start tag as it is written; `ending` is what it ends with. -/
def startTag (name : Text) (attributes : List (Text × Text)) (ending : Text) : Text :=
  lit "<" ++ name ++ attributes.flatMap field ++ ending

/-- A word of small letters, which can name a tag or an attribute. -/
def IsWord (t : Text) : Prop := t ≠ [] ∧ ∀ c ∈ t, c.isAsciiLower = true

instance (t : Text) : Decidable (IsWord t) := inferInstanceAs (Decidable (_ ∧ _))

theorem isWord_style : IsWord (lit "style") := by decide

namespace Reader

/-- Where a reader is behind a tag's name and attributes. -/
def behind (name : Text) : List (Text × Text) → Mode
  | [] => .name name
  | attributes => .between ⟨name, attributes⟩

/-- Behind the blank, the key and the quote of an attribute its value is read. -/
theorem run_fieldStart {key : Text} (hkey : IsWord key) (name : Text)
    (attributes : List (Text × Text)) :
    (⟨[], behind name attributes⟩ : Reader).run (lit " " ++ key ++ lit "=\"")
      = ⟨[], .value ⟨name, attributes⟩ key (CodePoint.ofChar '"') []⟩ := by
  obtain ⟨hne, hletters⟩ := hkey
  cases key with
  | nil => exact absurd rfl hne
  | cons c key =>
    obtain ⟨hspace, hslash, hend, -⟩ :=
      not_mark_of_isAsciiLower (hletters c List.mem_cons_self)
    have hblank : (⟨[], behind name attributes⟩ : Reader).run (lit " ")
        = ⟨[], .between ⟨name, attributes⟩⟩ := by
      cases attributes <;> rfl
    have hfirst : (⟨[], .between ⟨name, attributes⟩⟩ : Reader).step c
        = ⟨[], .key ⟨name, attributes⟩ [c]⟩ := by
      simp [step, goto, hspace, hslash, hend]
    have hquote : (⟨[], .key ⟨name, attributes⟩ (c :: key)⟩ : Reader).run (lit "=\"")
        = ⟨[], .value ⟨name, attributes⟩ (c :: key) (CodePoint.ofChar '"') []⟩ := rfl
    -- The blank, the key and the equals sign with its quote in turn.
    rw [run_append, run_append, hblank, run_cons, hfirst,
      run_key fun d hd => hletters d (List.mem_cons_of_mem _ hd), List.singleton_append, hquote]

/-- From where an attribute can follow, one that is well-formed is taken down. -/
theorem run_attribute {key value : Text} (hkey : IsWord key)
    (hvalue : CodePoint.ofChar '"' ∉ value) (name : Text) (attributes : List (Text × Text)) :
    (⟨[], behind name attributes⟩ : Reader).run (field (key, value))
      = ⟨[], behind name (attributes ++ [(key, value)])⟩ := by
  have hlast : (⟨[], .value ⟨name, attributes⟩ key (CodePoint.ofChar '"') value⟩
      : Reader).run (lit "\"") = ⟨[], .between ⟨name, attributes ++ [(key, value)]⟩⟩ := rfl
  have hbehind : behind name (attributes ++ [(key, value)])
      = .between ⟨name, attributes ++ [(key, value)]⟩ := by
    cases attributes <;> rfl
  rw [field, run_append, run_append, run_fieldStart hkey, run_value hvalue, List.nil_append, hlast,
    hbehind]

theorem run_attributes {attributes : List (Text × Text)}
    (h : ∀ a ∈ attributes, IsWord a.1 ∧ CodePoint.ofChar '"' ∉ a.2) (name : Text)
    (before : List (Text × Text)) :
    (⟨[], behind name before⟩ : Reader).run (attributes.flatMap field)
      = ⟨[], behind name (before ++ attributes)⟩ := by
  induction attributes generalizing before with
  | nil => rw [List.append_nil]; rfl
  | cons a attributes ih =>
    obtain ⟨hkey, hvalue⟩ := h a List.mem_cons_self
    rw [List.flatMap_cons, run_append, run_attribute hkey hvalue,
      ih fun b hb => h b (List.mem_cons_of_mem _ hb), List.append_assoc]
    rfl

/-- Behind its name a start tag is ready for attributes. -/
theorem run_tagStart {name : Text} (hname : IsWord name) :
    (⟨[], .data⟩ : Reader).run (lit "<" ++ name) = ⟨[], behind name []⟩ := by
  obtain ⟨hne, hletters⟩ := hname
  cases name with
  | nil => exact absurd rfl hne
  | cons c name =>
    have hopen : (⟨[], .data⟩ : Reader).run (lit "<") = ⟨[], .angle⟩ := rfl
    -- The first letter tells a start tag from an end tag and from a declaration.
    have hslash := (not_mark_of_isAsciiLower (hletters c List.mem_cons_self)).2.1
    have hfirst : (⟨[], .angle⟩ : Reader).step c = ⟨[], behind [c] []⟩ := by
      simp [step, goto, behind, hslash, hletters c List.mem_cons_self]
    have hword : (⟨[], behind [c] []⟩ : Reader).run name = ⟨[], behind (c :: name) []⟩ :=
      run_name (fun d hd => hletters d (List.mem_cons_of_mem _ hd)) _ _
    rw [run_append, hopen, run_cons, hfirst, hword]

/-- A start tag is read as it was written if no quote stands in its attributes. -/
theorem run_startTag {name : Text} {attributes : List (Text × Text)} {ending : Text}
    (hname : IsWord name) (h : ∀ a ∈ attributes, IsWord a.1 ∧ CodePoint.ofChar '"' ∉ a.2)
    (hending : ending = lit ">" ∨ ending = lit "/>") :
    (⟨[], .data⟩ : Reader).run (startTag name attributes ending)
      = ⟨[.opening name attributes], .data⟩ := by
  have hlast : (⟨[], behind name attributes⟩ : Reader).run ending
      = ⟨[.opening name attributes], .data⟩ := by
    rcases hending with rfl | rfl <;> cases attributes <;> rfl
  rw [startTag, run_append, run_append, run_tagStart hname, run_attributes h, List.nil_append,
    hlast]

end Reader

theorem filter_isAngle_of_hasNoAngle {t : Text} (h : t.HasNoAngle) :
    t.filter CodePoint.isAngle = [] := (Reads.of_hasNoAngle h).angles

theorem hasNoAngle_of_isWord {t : Text} (h : IsWord t) : t.HasNoAngle := by
  intro c hc
  cases hangle : c.isAngle with
  | false => rfl
  | true =>
    rw [CodePoint.isAngle, Bool.or_eq_true, decide_eq_true_iff, decide_eq_true_iff] at hangle
    rcases hangle with rfl | rfl <;> exact absurd (h.2 _ hc) (by decide)

/-- A start tag is read as it was written, whatever plain texts its attributes hold. -/
theorem Reads.startTag {name : Text} {attributes : List (Text × Text)} {ending : Text}
    (hname : IsWord name) (h : ∀ a ∈ attributes, IsWord a.1 ∧ a.2.IsPlain)
    (hending : ending = lit ">" ∨ ending = lit "/>") :
    Reads (startTag name attributes ending) [.opening name attributes] where
  read := read_of_run
    (Reader.run_startTag hname (fun a ha => ⟨(h a ha).1, (h a ha).2.no_quote⟩) hending)
  angles := by
    have hattributes : Text.HasNoAngle (attributes.flatMap field) := by
      intro c hc
      obtain ⟨a, ha, hc⟩ := List.mem_flatMap.mp hc
      obtain ⟨hkey, hvalue⟩ := h a ha
      have hplain : (field a).HasNoAngle := by
        simp only [field, Text.hasNoAngle_append]
        exact ⟨⟨⟨⟨by decide, hasNoAngle_of_isWord hkey⟩, by decide⟩, hvalue.hasNoAngle⟩, by decide⟩
      exact hplain c hc
    rw [Html.startTag, List.filter_append, List.filter_append, List.filter_append,
      filter_isAngle_of_hasNoAngle hattributes,
      filter_isAngle_of_hasNoAngle (hasNoAngle_of_isWord hname)]
    rcases hending with rfl | rfl <;> rfl

end Folio.Html
