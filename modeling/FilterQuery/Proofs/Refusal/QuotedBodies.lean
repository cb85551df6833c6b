import FilterQuery.Proofs.Refusal.Calls
import FilterQuery.Proofs.RoundTrip.Literal

/-!
Quoted bodies of dates and timestamps. A body lacks the form of its kind, or it has the form and
what it denotes does not exist, or it denotes a value; the first two are refused, each with an error
of its own kind, and in the third the body is the only text of the value.
-/

namespace FilterQuery

open Calendar

/-! ## Forms -/

/-- `dddd-dd-dd`, whether or not there is such a date. -/
inductive DateForm : List Char → Fixed.DateParts → Prop
  | mk {y m n : List Char} {p : Fixed.DateParts} :
    FixedLayout 4 y p.year → FixedLayout 2 m p.month → FixedLayout 2 n p.day →
      DateForm (y ++ '-' :: m ++ '-' :: n) p

/-- `dddd-dd-dd dd:dd:dd` and a fraction, whether or not there is such a time. -/
inductive TimestampForm : List Char → Fixed.TimestampParts → Prop
  | mk {a h m s f : List Char} {p : Fixed.TimestampParts} :
    DateForm a p.toDateParts → FixedLayout 2 h p.hour → FixedLayout 2 m p.minute →
      FixedLayout 2 s p.second → FractionLayout f (1000 * p.micros) p.precision →
      TimestampForm (a ++ ' ' :: h ++ ':' :: m ++ ':' :: s ++ f) p

theorem dateParts?_eq_some_iff_form {cs : List Char} {p : Fixed.DateParts} :
    Fixed.dateParts? cs = some p ↔ DateForm cs p := by
  rw [Fixed.dateParts?_eq_some_iff]
  constructor
  · rintro ⟨y, m, n, rfl, hy, hm, hn⟩
    exact .mk hy hm hn
  · rintro ⟨hy, hm, hn⟩
    exact ⟨_, _, _, rfl, hy, hm, hn⟩

theorem timestampParts?_eq_some_iff_form {cs : List Char} {p : Fixed.TimestampParts} :
    Fixed.timestampParts? cs = some p ↔ TimestampForm cs p := by
  simp only [Fixed.timestampParts?_eq_some_iff, dateParts?_eq_some_iff_form,
    Fixed.fraction?_eq_some_iff]
  constructor
  · rintro ⟨a, h, m, s, f, rfl, ha, hh, hm, hs, hf⟩
    exact .mk ha hh hm hs hf
  · rintro ⟨ha, hh, hm, hs, hf⟩
    exact ⟨_, _, _, _, _, rfl, ha, hh, hm, hs, hf⟩

/-! ## What exists -/

namespace Calendar.Fixed

/-- The Gregorian rule: of the years that end a century only every fourth is a leap year. -/
def LeapYear (year : Nat) : Prop :=
  4 ∣ year ∧ (100 ∣ year → 400 ∣ year)

/-- The month has such a day. The lengths of the months stand here on their own; `exists_iff`
compares them with `daysInMonth`. -/
def DateParts.Exists (p : DateParts) : Prop :=
  1 ≤ p.day ∧
    (p.month ∈ [1, 3, 5, 7, 8, 10, 12] ∧ p.day ≤ 31 ∨
      p.month ∈ [4, 6, 9, 11] ∧ p.day ≤ 30 ∨
      p.month = 2 ∧ (p.day ≤ 28 ∨ p.day = 29 ∧ LeapYear p.year))

/-- The month has such a day, and the day such a second. -/
def TimestampParts.Exists (p : TimestampParts) : Prop :=
  p.toDateParts.Exists ∧ p.hour < 24 ∧ p.minute < 60 ∧ p.second < 60

instance (year : Nat) : Decidable (LeapYear year) :=
  inferInstanceAs (Decidable (_ ∧ _))

instance (p : DateParts) : Decidable p.Exists :=
  inferInstanceAs (Decidable (_ ∧ _))

instance (p : TimestampParts) : Decidable p.Exists :=
  inferInstanceAs (Decidable (_ ∧ _))

theorem isLeapYear_iff {year : Nat} : isLeapYear year = true ↔ LeapYear year := by
  simp only [isLeapYear, LeapYear, Bool.and_eq_true, Bool.or_eq_true, beq_iff_eq, bne_iff_ne]
  omega

theorem daysInMonth_of_long {year : Int} {month : Nat} (h : month ∈ [1, 3, 5, 7, 8, 10, 12]) :
    daysInMonth year month = 31 := by
  revert month
  simp [daysInMonth]

theorem daysInMonth_of_short {year : Int} {month : Nat} (h : month ∈ [4, 6, 9, 11]) :
    daysInMonth year month = 30 := by
  revert month
  simp [daysInMonth]

theorem le_daysInMonth_february {year day : Nat} :
    day ≤ daysInMonth year 2 ↔ day ≤ 28 ∨ day = 29 ∧ LeapYear year := by
  rw [← isLeapYear_iff, daysInMonth]
  by_cases hleap : isLeapYear year = true
  · simp only [hleap, if_true, and_true]
    omega
  · simp [hleap]

theorem DateParts.exists_iff {p : DateParts} :
    p.Exists ↔ (1 ≤ p.month ∧ p.month ≤ 12) ∧ 1 ≤ p.day ∧ p.day ≤ daysInMonth p.year p.month := by
  have hmonths : 1 ≤ p.month ∧ p.month ≤ 12 ↔
      p.month ∈ [1, 3, 5, 7, 8, 10, 12] ∨ p.month ∈ [4, 6, 9, 11] ∨ p.month = 2 := by
    simp only [List.mem_cons, List.not_mem_nil, or_false]
    omega
  rw [hmonths]
  constructor
  · rintro ⟨hday, ⟨hmonth, hle⟩ | ⟨hmonth, hle⟩ | ⟨hmonth, hle⟩⟩
    · exact ⟨.inl hmonth, hday, by rwa [daysInMonth_of_long hmonth]⟩
    · exact ⟨.inr (.inl hmonth), hday, by rwa [daysInMonth_of_short hmonth]⟩
    · exact ⟨.inr (.inr hmonth), hday, by rwa [hmonth, le_daysInMonth_february]⟩
  · rintro ⟨hmonth | hmonth | hmonth, hday, hle⟩
    · rw [daysInMonth_of_long hmonth] at hle
      exact ⟨hday, .inl ⟨hmonth, hle⟩⟩
    · rw [daysInMonth_of_short hmonth] at hle
      exact ⟨hday, .inr (.inl ⟨hmonth, hle⟩)⟩
    · rw [hmonth, le_daysInMonth_february] at hle
      exact ⟨hday, .inr (.inr ⟨hmonth, hle⟩)⟩

end Calendar.Fixed

/-- Four digits never leave the supported years. -/
theorem DateForm.exists_iff {cs : List Char} {p : Fixed.DateParts} (h : DateForm cs p) :
    (∃ d, Date.of? p.year p.month p.day = some d) ↔ p.Exists := by
  cases h with
  | mk hy _ _ =>
    have hlt : p.year < 10000 := hy.lt
    constructor
    · rintro ⟨d, hd⟩
      obtain ⟨hyear, hmonth, hday⟩ := Date.of?_eq_some_iff.1 hd
      have hd := d.dayExists.2
      rw [hyear, hmonth, hday] at hd
      exact Fixed.DateParts.exists_iff.2 hd
    · intro hp
      have hday := Fixed.DateParts.exists_iff.1 hp
      exact ⟨⟨p.year, p.month, p.day, ⟨by omega, hday⟩⟩, Date.of?_eq_some_iff.2 ⟨rfl, rfl, rfl⟩⟩

/-- A fraction never completes a second. -/
theorem TimestampForm.exists_iff {cs : List Char} {p : Fixed.TimestampParts}
    (h : TimestampForm cs p) :
    (∃ t, Timestamp.ofParts? p.year p.month p.day p.hour p.minute p.second p.micros p.precision =
      some t) ↔ p.Exists := by
  cases h with
  | mk ha _ _ _ hf =>
    have hfits := Fixed.fraction?_fits (Fixed.fraction?_eq_some_iff.2 hf)
    simp only [Timestamp.ofParts?_eq_some_iff, DateTime.of?_eq_some_iff,
      TimeOfDay.of?_eq_some_iff, Fixed.TimestampParts.Exists, ← ha.exists_iff]
    constructor
    · rintro ⟨t, -, ⟨hd, hhour, hminute, hsecond, -⟩, -⟩
      obtain ⟨hh, hm, hs, -⟩ := t.moment.time.timeExists
      rw [hhour] at hh
      rw [hminute] at hm
      rw [hsecond] at hs
      exact ⟨⟨_, hd⟩, hh, hm, hs⟩
    · rintro ⟨⟨d, hd⟩, hh, hm, hs⟩
      have hnanos : 1000 * p.micros < 1000000000 := by omega
      let time : TimeOfDay := ⟨p.hour, p.minute, p.second, 1000 * p.micros, hh, hm, hs, .inl hnanos⟩
      exact ⟨⟨⟨d, time⟩, p.precision⟩, hfits, ⟨hd, rfl, rfl, rfl, rfl⟩, rfl⟩

/-! ## Texts with a body -/

namespace Rule

variable {c e : Cursor} {k w : List Char} {body : String}

theorem scalar_of_date (hk : KeywordLayout k .date) (hw : Blanks w) (hb : '\'' ∉ body.toList)
    (h : c.Passes (k ++ w ++ quoted body.toList) e) :
    scalar c = answerSince c (dateBody body) e := by
  rw [List.append_assoc] at h
  obtain ⟨d, hd, hp⟩ := eatKeyword?_of_layout hk h fun d hd => hd.atWordEnd hw (by decide)
  simp only [scalar, get_bind, eatKeyword, attempt_bind, hd, if_true]
  rw [dateLiteral_eq, bodyLiteral_of_quoted hw hb hp]

theorem scalar_of_timestamp (hk : KeywordLayout k .timestamp) (hw : Blanks w)
    (hb : '\'' ∉ body.toList) (h : c.Passes (k ++ w ++ quoted body.toList) e) :
    scalar c = answerSince c (timestampBody body) e := by
  rw [List.append_assoc] at h
  obtain ⟨d, hd, hp⟩ := eatKeyword?_of_layout hk h fun d hd => hd.atWordEnd hw (by decide)
  have hdate : c.eatKeyword? .date = none := Cursor.eatKeyword?_eq_none_of_apart hd (by decide)
  simp only [scalar, get_bind, eatKeyword, attempt_bind, hdate, hd, Bool.false_eq_true, if_false,
    if_true]
  rw [timestampLiteral_eq, bodyLiteral_of_quoted hw hb hp]

end Rule

/-- A text that is a keyword with a body answers the value of the body, or an error over the whole
text. -/
theorem Parser.literal_of_body {d : Dialect} {maxDepth : Nat} {text : String} {k body : List Char}
    {keyword : Keyword} {value : Except Cause Literal} (hk : KeywordLayout k keyword)
    (htext : text.toList = k ++ [' '] ++ quoted body)
    (hvalue : ∀ c e : Cursor, c.Passes (k ++ [' '] ++ quoted body) e →
      Rule.scalar c = Rule.answerSince c value e) :
    (ofString d maxDepth text).literal.1 =
      value.mapError fun cause => ⟨cause, ⟨0, text.utf8ByteSize⟩, text⟩ := by
  -- The text begins with a word, so neither a blank nor a list stands there.
  have hword : text.toList.head?.any isWordStart = true := by
    obtain ⟨x, hx, hs⟩ := (Option.any_eq_true _ _).1 hk.head?
    simp [htext, hx, hs]
  have hlist : text.toList.head? ≠ some '(' := by
    intro hopen
    rw [hopen] at hword
    cases hword
  obtain ⟨c, hc⟩ : ∃ c, c = (ofString d maxDepth text).cursor := ⟨_, rfl⟩
  have hrest : c.rest = text.toList := congrArg Cursor.rest hc
  have hpeek : c.peek? = text.toList.head? := congrArg List.head? hrest
  have hblanks : c.skipBlanks = c :=
    (Cursor.Passes.refl c).skipBlanks .nil (Cursor.not_blank_of_wordStart (hpeek ▸ hword))
  obtain ⟨e, he, hend⟩ := c.passes_all
  have hread : Rule.literal c.skipBlanks = Rule.answerSince c value e := by
    rw [hblanks, Rule.literal, Rule.get_bind, hpeek, if_neg hlist]
    exact hvalue c e (htext ▸ hrest ▸ he)
  cases value with
  | ok l =>
    have hdone : e.AtTextEnd := (Cursor.Passes.refl e).atTextEnd .nil hend
    refine run_eq_ok_iff.2 (Rule.whole_eq_ok_iff.2 ⟨e, ?_, hdone⟩)
    rw [← hc, hread]
    rfl
  | error cause =>
    refine run_eq_error_iff.2 ⟨⟨e.errorSince c cause, e, 0⟩, ?_, ?_⟩
    · exact hc ▸ Rule.whole_of_error hread
    · subst hc
      obtain ⟨-, hsize⟩ := he.ofString_parts
      rw [hrest, String.ofList_toList] at hsize
      rw [Cursor.errorSince, ← hsize, Cursor.restText, hrest, String.ofList_toList]
      rfl

/-! ## The three fates of a body -/

/-- The answer to a text with a body tells the fate of the body: `Form` holds of the parts that it
has in the form of its kind, and `Existing` of those parts that some value has. An error shows the
whole text, and the canonical text of a value is the text itself. -/
structure Classified {P : Type} (Form Existing : P → Prop) (text : String)
    (answer : Except ParseError Literal) : Prop where
  ok : (∃ l, answer = .ok l) ↔ ∃ p, Form p ∧ Existing p
  lexical : (∃ e, answer = .error e ∧ e.kind = .lexical) ↔ ¬ ∃ p, Form p
  literalValue : (∃ e, answer = .error e ∧ e.kind = .literalValue) ↔ ∃ p, Form p ∧ ¬ Existing p
  span : ∀ e, answer = .error e → e.span = ⟨0, text.utf8ByteSize⟩
  render : ∀ l, answer = .ok l → l.render = text

theorem Classified.of_bodyValue {P : Type} {Form Existing : P → Prop} {text : String}
    {parts? : Option P} {value? : P → Option Literal} {malformed missing : Cause}
    (hform : ∀ p, parts? = some p ↔ Form p)
    (hexists : ∀ p, Form p → ((∃ l, value? p = some l) ↔ Existing p))
    (hrender : ∀ l, bodyValue parts? value? malformed missing = .ok l → l.render = text)
    (hmalformed : malformed.kind = .lexical) (hmissing : missing.kind = .literalValue) :
    Classified Form Existing text ((bodyValue parts? value? malformed missing).mapError
      fun cause => ⟨cause, ⟨0, text.utf8ByteSize⟩, text⟩) := by
  obtain rfl : Form = fun p => parts? = some p := funext fun p => propext (hform p).symm
  cases parts? with
  | none =>
    change Classified _ _ _ (.error ⟨malformed, _, text⟩)
    constructor <;> simp [ParseError.kind, hmalformed]
  | some p =>
    have hp := hexists p rfl
    rw [bodyValue] at hrender ⊢
    cases hv : value? p with
    | none =>
      have hmissed : ¬ Existing p := by simpa [hv] using hp
      change Classified _ _ _ (.error ⟨missing, _, text⟩)
      constructor <;> simp [ParseError.kind, hmissing, hmissed]
    | some l =>
      have hfound : Existing p := hp.1 ⟨l, hv⟩
      have hl : l.render = text := hrender l (by rw [hv])
      change Classified _ _ _ (.ok l)
      constructor <;> simp [hfound, hl]

theorem dateBody_classified {b : String} :
    Classified (DateForm b.toList) Fixed.DateParts.Exists ("DATE '" ++ b ++ "'")
      ((dateBody b).mapError
        fun cause => ⟨cause, ⟨0, ("DATE '" ++ b ++ "'").utf8ByteSize⟩, "DATE '" ++ b ++ "'"⟩) := by
  refine .of_bodyValue (fun p => dateParts?_eq_some_iff_form) (fun p hp => ?_) (fun l hl => ?_) rfl
    rfl
  · simp only [← hp.exists_iff, ← Option.isSome_iff_exists, Literal.date?, Option.isSome_map]
  · obtain ⟨day, rfl, hday⟩ := dateBody_eq_ok_iff.1 hl
    rw [Literal.render, ← String.toList_inj.1 hday.eq_text]

theorem timestampBody_classified {b : String} :
    Classified (TimestampForm b.toList) Fixed.TimestampParts.Exists ("TIMESTAMP '" ++ b ++ "'")
      ((timestampBody b).mapError fun cause =>
        ⟨cause, ⟨0, ("TIMESTAMP '" ++ b ++ "'").utf8ByteSize⟩, "TIMESTAMP '" ++ b ++ "'"⟩) := by
  refine .of_bodyValue (fun p => timestampParts?_eq_some_iff_form) (fun p hp => ?_) (fun l hl => ?_)
    rfl rfl
  · simp only [← hp.exists_iff, ← Option.isSome_iff_exists, Option.isSome_map]
  · obtain ⟨t, rfl, ht⟩ := timestampBody_eq_ok_iff.1 hl
    rw [Literal.render, ← String.toList_inj.1 ht.eq_text]

/-- Every body without quotes is read if it denotes a value, and refused for its form or for what it
denotes otherwise; the precision of a timestamp is the number of the digits behind its dot. -/
theorem parseLiteral_quotedBody (d : Dialect) (maxDepth : Nat) (b : String)
    (hb : '\'' ∉ b.toList) :
    let date := (Parser.ofString d maxDepth ("DATE '" ++ b ++ "'")).literal.1
    let timestamp := (Parser.ofString d maxDepth ("TIMESTAMP '" ++ b ++ "'")).literal.1
    (Classified (DateForm b.toList) Fixed.DateParts.Exists ("DATE '" ++ b ++ "'") date ∧
      ∀ l, date = .ok l → ∃ day, l = .date day ∧ DateLayout b.toList day) ∧
    Classified (TimestampForm b.toList) Fixed.TimestampParts.Exists ("TIMESTAMP '" ++ b ++ "'")
        timestamp ∧
      ∀ l, timestamp = .ok l → ∃ t, l = .timestamp t ∧ TimestampLayout b.toList t ∧
        t.precision = ((b.toList.dropWhile (· != '.')).tail).length := by
  have hd : KeywordLayout "DATE".toList .date := .word "DATE"
  have ht : KeywordLayout "TIMESTAMP".toList .timestamp := .word "TIMESTAMP"
  intro date timestamp
  have hdate : date = (dateBody b).mapError _ :=
    Parser.literal_of_body hd (toList_quotedDate b)
      fun _ _ => Rule.scalar_of_date hd Gap.blank.blanks hb
  have htimestamp : timestamp = (timestampBody b).mapError _ :=
    Parser.literal_of_body ht (toList_quotedTimestamp b)
      fun _ _ => Rule.scalar_of_timestamp ht Gap.blank.blanks hb
  clear_value date timestamp
  subst hdate htimestamp
  refine ⟨⟨dateBody_classified, fun l hl => ?_⟩, timestampBody_classified, fun l hl => ?_⟩
  · exact dateBody_eq_ok_iff.1 (Rule.mapError_eq_ok_iff.1 hl)
  · obtain ⟨t, rfl, ht⟩ := timestampBody_eq_ok_iff.1 (Rule.mapError_eq_ok_iff.1 hl)
    exact ⟨t, rfl, ht, ht.precision_eq⟩

/-- With a clock time behind it a leap day is no date, and without its leap year it is no day; the
zero that ends a fraction is shown. -/
theorem parseLiteral_quotedBody_leapDay :
    let text := "TIMESTAMP '2024-02-29 23:59:59.120'"
    (∃ e, (Parser.ofString .clause 0 "DATE '2024-02-29 23:59:59.120'").literal.1 = .error e ∧
      e.kind = .lexical ∧ e.span = ⟨0, 30⟩) ∧
    (∃ e, (Parser.ofString .clause 0 "DATE '2023-02-29'").literal.1 = .error e ∧
      e.kind = .literalValue ∧ e.span = ⟨0, 17⟩) ∧
    ∃ t, (Parser.ofString .clause 0 text).literal.1 = .ok (.timestamp t) ∧ t.precision = 3 ∧
      (Literal.timestamp t).render = text := by
  intro text
  obtain ⟨⟨hdate, -⟩, htimestamp, hvalue⟩ :=
    parseLiteral_quotedBody .clause 0 "2024-02-29 23:59:59.120" (by decide)
  obtain ⟨⟨hcommon, -⟩, -⟩ := parseLiteral_quotedBody .clause 0 "2023-02-29" (by decide)
  refine ⟨?_, ?_, ?_⟩
  · have hform : ¬ ∃ p, DateForm "2024-02-29 23:59:59.120".toList p := by
      rintro ⟨p, hp⟩
      cases dateParts?_eq_some_iff_form.2 hp
    obtain ⟨e, he, hkind⟩ := hdate.lexical.2 hform
    exact ⟨e, he, hkind, hdate.span e he⟩
  · obtain ⟨e, he, hkind⟩ := hcommon.literalValue.2
      ⟨⟨2023, 2, 29⟩, dateParts?_eq_some_iff_form.1 rfl, by decide⟩
    exact ⟨e, he, hkind, hcommon.span e he⟩
  · obtain ⟨l, hl⟩ := htimestamp.ok.2
      ⟨⟨⟨2024, 2, 29⟩, 23, 59, 59, 120000, 3⟩, timestampParts?_eq_some_iff_form.1 rfl, by decide⟩
    obtain ⟨t, rfl, -, hprecision⟩ := hvalue l hl
    exact ⟨t, hl, hprecision, htimestamp.render _ hl⟩

end FilterQuery
