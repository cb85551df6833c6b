import FilterQuery.Proofs.Cursor.Scans
import FilterQuery.Proofs.Refusal.Calls

/-!
Runs of cursor operations. A step of a run reads on from the place of the cursor, or goes back to a
place that was saved. So every place of a run is a boundary between characters of the text, and only
going back leads to an earlier one.
-/

namespace FilterQuery

/-! ## Parts of a text -/

/-- The span goes from one boundary of the text to another, with `part` between them. -/
def Span.Covers (span : Span) (text part : String) : Prop :=
  ∃ before rest, text = before ++ part ++ rest ∧
    span = ⟨before.utf8ByteSize, (before ++ part).utf8ByteSize⟩

theorem Span.Covers.slice {span : Span} {text part : String} (h : span.Covers text part) :
    span.slice text = part := by
  obtain ⟨before, rest, rfl, rfl⟩ := h
  exact Span.slice_append before part rest

/-- Inside the quotes. -/
theorem Span.Covers.inner {start stop : Nat} {text body : String}
    (h : (Span.mk start stop).Covers text ("'" ++ body ++ "'")) :
    (Span.mk (start + 1) (stop - 1)).Covers text body := by
  obtain ⟨before, rest, ht, hspan⟩ := h
  have hquote : "'".utf8ByteSize = 1 := rfl
  refine ⟨before ++ "'", "'" ++ rest, by simp [ht, String.append_assoc], ?_⟩
  simp only [Span.mk.injEq, String.utf8ByteSize_append, hquote] at hspan ⊢
  omega

/-! ## Runs -/

namespace Cursor

/-- A step of a run, which goes back to a place or reads on. -/
inductive Step where
  | reset (pos : Nat)
  | scan (s : Scan)

variable {c d : Cursor} {text : String} {t : List Char} {n : Nat}

/-- What is answered, and the cursor behind what was read. -/
def scan (c : Cursor) (s : Scan) : Except ParseError s.Answer × Cursor :=
  match s.rule c with
  | .ok (a, d) => (.ok a, d)
  | .error r => (.error r.error, r.stop)

/-- There is no step to a place inside a character or behind the text. -/
def step? (c : Cursor) : Step → Option Cursor
  | .reset pos => c.seek? pos
  | .scan s => some (c.scan s).2

def run? (c : Cursor) : List Step → Option Cursor
  | [] => some c
  | step :: steps => (c.step? step).bind (·.run? steps)

theorem scan_passes (c : Cursor) (s : Scan) :
    ∃ t, c.Passes t (c.scan s).2 ∧ (∀ a, (c.scan s).1 = .ok a → s.Reads a t) ∧
      (s.Declines (c.scan s).1 → t = []) := by
  rw [scan]
  cases h : s.rule c with
  | ok p =>
    obtain ⟨a, d⟩ := p
    obtain ⟨t, ht, hp⟩ := Scan.passes_of_ok h
    refine ⟨t, hp, ?_, ht.eq_nil⟩
    rintro _ ⟨⟩
    exact ht
  | error r =>
    obtain ⟨t, hp, ht⟩ := Scan.passes_of_error h
    exact ⟨t, hp, nofun, ht⟩

/-! ## Places on a text -/

theorem isValid_pos (h : c.input = text.toList) : (⟨c.pos⟩ : String.Pos.Raw).IsValid text :=
  String.Pos.Raw.isValid_iff_exists_append.2 ⟨c.pastText, c.restText,
    (pastText_append_restText h).symm, by rw [← utf8ByteSize_pastText]; rfl⟩

theorem covers_restText (h : c.input = text.toList) :
    (Span.mk c.pos text.utf8ByteSize).Covers text c.restText := by
  refine ⟨c.pastText, "", ?_, ?_⟩
  · rw [pastText_append_restText h, String.append_empty]
  · rw [pastText_append_restText h, utf8ByteSize_pastText]

theorem Passes.covers (hp : c.Passes t d) (h : c.input = text.toList) :
    (Span.mk c.pos d.pos).Covers text (String.ofList t) := by
  refine ⟨c.pastText, d.restText, ?_, ?_⟩
  · rw [String.append_assoc, ← hp.restText, pastText_append_restText h]
  · rw [← hp.pastText, utf8ByteSize_pastText, utf8ByteSize_pastText]

/-- A place between characters can be gone back to. -/
theorem seek?_of_isValid (h : c.input = text.toList) (hn : (⟨n⟩ : String.Pos.Raw).IsValid text) :
    ∃ d, c.seek? n = some d ∧ d.input = text.toList ∧ d.pos = n := by
  obtain ⟨before, after, rfl, hpos⟩ := String.Pos.Raw.isValid_iff_exists_append.1 hn
  have hsize : n = byteLength before.toList := by
    rw [← utf8ByteSize_eq_byteLength]
    exact congrArg String.Pos.Raw.byteIdx hpos
  subst hsize
  refine ⟨⟨before.toList.reverse, after.toList, c.dotted⟩, ?_, ?_, ?_⟩
  · rw [seek?, h, String.toList_append, cutAt?_byteLength]
    rfl
  · simp [input]
  · simp [pos]

/-! ## What every run keeps -/

theorem step?_eq_some (h : c.input = text.toList) {step : Step}
    (hstep : ∀ n, step = .reset n → (⟨n⟩ : String.Pos.Raw).IsValid text) :
    ∃ d, c.step? step = some d ∧ d.input = text.toList := by
  cases step with
  | reset n =>
    obtain ⟨d, hd, hinput, -⟩ := seek?_of_isValid h (hstep n rfl)
    exact ⟨d, hd, hinput⟩
  | scan s =>
    obtain ⟨t, hp, -⟩ := c.scan_passes s
    exact ⟨_, rfl, hp.sameText.input.trans h⟩

theorem run?_eq_some (h : c.input = text.toList) {steps : List Step}
    (hsteps : ∀ n, Step.reset n ∈ steps → (⟨n⟩ : String.Pos.Raw).IsValid text) :
    ∃ d, c.run? steps = some d ∧ d.input = text.toList := by
  induction steps generalizing c with
  | nil => exact ⟨c, rfl, h⟩
  | cons step steps ih =>
    have hstep : ∀ n, step = .reset n → (⟨n⟩ : String.Pos.Raw).IsValid text := by
      rintro n rfl
      exact hsteps n List.mem_cons_self
    obtain ⟨d, hd, hinput⟩ := step?_eq_some h hstep
    obtain ⟨e, he, hinput⟩ := ih hinput fun n hn => hsteps n (List.mem_cons_of_mem _ hn)
    refine ⟨e, ?_, hinput⟩
    rw [run?, hd, Option.bind_some, he]

/-- The cursor stands on a boundary of the text, and so it does behind whatever it scans. It scans
forwards; where an operation does not apply it stays, and what it has read with an answer is what
the answer says. -/
structure SafeOn (c : Cursor) (text : String) : Prop where
  boundary : (⟨c.pos⟩ : String.Pos.Raw).IsValid text
  within : c.pos ≤ text.utf8ByteSize
  restText : (Span.mk c.pos text.utf8ByteSize).Covers text c.restText
  reset : ∀ n, (⟨n⟩ : String.Pos.Raw).IsValid text →
    ∃ d, c.step? (.reset n) = some d ∧ d.pos = n
  forward : ∀ s, c.pos ≤ (c.scan s).2.pos
  reads : ∀ s, ∃ t, (Span.mk c.pos (c.scan s).2.pos).Covers text t ∧
    ∀ a, (c.scan s).1 = .ok a → s.Reads a t.toList
  declines : ∀ s, s.Declines (c.scan s).1 → (c.scan s).2 = c
  identifier : ∀ name : String, (c.scan .identifier).1 = .ok name →
    (Span.mk c.pos (c.scan .identifier).2.pos).Covers text name
  quotedString : ∀ body : String, (c.scan .quotedString).1 = .ok body → '\'' ∉ body.toList ∧
    (Span.mk c.pos (c.scan .quotedString).2.pos).Covers text ("'" ++ body ++ "'") ∧
    (Span.mk (c.pos + 1) ((c.scan .quotedString).2.pos - 1)).Covers text body

theorem safeOn (h : c.input = text.toList) : c.SafeOn text where
  boundary := isValid_pos h
  within := (isValid_pos h).le_rawEndPos
  restText := covers_restText h
  reset n hn := by
    obtain ⟨d, hd, -, hpos⟩ := seek?_of_isValid h hn
    exact ⟨d, hd, hpos⟩
  forward s := by
    obtain ⟨t, hp, -⟩ := c.scan_passes s
    rw [hp.pos]
    exact Nat.le_add_right _ _
  reads s := by
    obtain ⟨t, hp, hreads, -⟩ := c.scan_passes s
    exact ⟨_, hp.covers h, by simpa using hreads⟩
  declines s hs := by
    obtain ⟨t, hp, -, hnil⟩ := c.scan_passes s
    rw [hnil hs] at hp
    exact hp.eq_of_nil
  identifier name hname := by
    obtain ⟨t, hp, hreads, -⟩ := c.scan_passes .identifier
    obtain rfl := hreads name hname
    have hcovers := hp.covers h
    rwa [String.ofList_toList] at hcovers
  quotedString body hbody := by
    obtain ⟨t, hp, hreads, -⟩ := c.scan_passes .quotedString
    obtain ⟨hfree, rfl⟩ := hreads body hbody
    have hcovers := hp.covers h
    have hquoted : String.ofList (quoted body.toList) = "'" ++ body ++ "'" := by
      rw [← String.toList_inj]
      simp [quoted]
    rw [hquoted] at hcovers
    exact ⟨hfree, hcovers, hcovers.inner⟩

/-- Whatever is scanned in between, a cursor that only goes back to boundaries of its text is safe
on it. -/
theorem run?_safeOn (text : String) (dotted : Bool) (steps : List Step)
    (hsteps : ∀ n, Step.reset n ∈ steps → (⟨n⟩ : String.Pos.Raw).IsValid text) :
    ∃ c, (ofString text dotted).run? steps = some c ∧ c.SafeOn text := by
  obtain ⟨c, hc, hinput⟩ := run?_eq_some (c := ofString text dotted) rfl hsteps
  exact ⟨c, hc, safeOn hinput⟩

/-- A name, a letter of two bytes, a blank and a quoted text are read. Then the cursor goes back to
the quote, where no name stands. -/
theorem run?_safeOn_letters :
    let steps : List Step := [.scan .identifier, .scan .advance, .scan .skipBlanks,
      .scan .quotedString, .reset 4]
    let c : Cursor := ⟨" én".toList, "'ü'é".toList, true⟩
    (∀ n, Step.reset n ∈ steps → (⟨n⟩ : String.Pos.Raw).IsValid "né 'ü'é") ∧
      (ofString "né 'ü'é" true).run? steps = some c ∧
      (Span.mk 5 7).slice "né 'ü'é" = "ü" ∧ (c.scan .identifier).2 = c := by
  intro steps c
  have hsteps : ∀ n, Step.reset n ∈ steps → (⟨n⟩ : String.Pos.Raw).IsValid "né 'ü'é" := by
    intro n hn
    obtain rfl : n = 4 := by simpa [steps] using hn
    exact String.Pos.Raw.isValid_iff_exists_append.2 ⟨"né ", "'ü'é", by decide, by decide⟩
  have hrun : (ofString "né 'ü'é" true).run? steps = some c := by rfl
  obtain ⟨d, hd, hsafe⟩ := run?_safeOn "né 'ü'é" true steps hsteps
  obtain rfl := Option.some.inj (hrun.symm.trans hd)
  obtain ⟨-, -, hinner⟩ := hsafe.quotedString "ü" (by rfl)
  exact ⟨hsteps, hrun, hinner.slice, hsafe.declines .identifier ⟨_, by rfl⟩⟩

end Cursor

end FilterQuery
