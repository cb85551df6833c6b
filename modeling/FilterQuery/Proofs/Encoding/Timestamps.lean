import FilterQuery.Proofs.Encoding.Serialized
import FilterQuery.Proofs.Refusal.Calls
import FilterQuery.Proofs.RoundTrip.ClauseSet
import FilterQuery.Proofs.RoundTrip.Filter

/-!
Where timestamps come from: their parts, date-times, data, and texts. A timestamp fits its
precision from wherever it comes, unless it is made of a date-time that has a fraction, which it
keeps but does not show.
-/

namespace FilterQuery

open Calendar

/-! ## Timestamps in texts -/

theorem Literal.Writable.timestamps_fit {l : Literal} (h : l.Writable) :
    ∀ t ∈ l.timestamps, t.Fits := by
  cases l with
  | timestamp t => simpa [Literal.timestamps] using h.2
  | integer | text | boolean | date => simp [Literal.timestamps]
  | list => cases h

theorem Literal.timestamps_fit_of_items {ls : List Literal} (h : ∀ l ∈ ls, l.WritableElement) :
    ∀ t ∈ Literal.itemTimestamps ls, t.Fits := by
  rw [Literal.itemTimestamps_eq, List.forall_mem_flatMap]
  exact fun l hl => (h l hl).2.timestamps_fit

theorem LiteralLayout.timestamps_fit {s : List Char} {l : Literal} (h : LiteralLayout s l) :
    ∀ t ∈ l.timestamps, t.Fits := by
  cases h with
  | scalar h => exact h.writable.timestamps_fit
  | list h => exact Literal.timestamps_fit_of_items h.writable

theorem Leaf.WellFormed.timestamps_fit {dotted : Bool} {l : Leaf} (h : l.WellFormed dotted) :
    ∀ t ∈ l.timestamps, t.Fits := by
  obtain ⟨-, h⟩ := h
  cases l with
  | comparison f op v => exact h.2.timestamps_fit
  | nullCheck => simp [Leaf.timestamps]
  | membership f negated vs => exact Literal.timestamps_fit_of_items h

theorem Chain.WellFormed.timestamps_fit {d : Dialect} {c : Chain} (h : Chain.WellFormed d c) :
    ∀ t ∈ Chain.timestamps c, t.Fits := by
  rw [Chain.timestamps, List.forall_mem_flatMap]
  exact fun l hl => (h.leaves.2 l hl).timestamps_fit

namespace Call

def timestamps : (k : Call) → k.Answer → List Timestamp
  | .chain => Chain.timestamps
  | .clauseSet => ClauseSet.timestamps
  | .literal => Literal.timestamps

theorem timestamps_fit {d : Dialect} {n : Nat} {s : List Char} {k : Call} {a : k.Answer}
    (h : k.Layout d n s a) : ∀ t ∈ k.timestamps a, t.Fits := by
  cases k with
  | chain => exact h.1.wellFormed.timestamps_fit
  | clauseSet =>
    have hs : ClauseSet.WellFormed d n a := ClauseSetLayout.wellFormed h
    exact ClauseSet.forall_mem_timestamps.2 fun c hc => (hs.whereClause c hc).1.timestamps_fit
  | literal => exact LiteralLayout.timestamps_fit h

end Call

/-- All timestamps that a parser answers fit, whatever it was asked before. -/
theorem Parser.Reads.timestamps_fit {p : Parser} {d : Dialect} {text : String} {k : Call}
    {a : k.Answer} (hp : p.Reads d text) (h : (p.call k).1 = .ok a) :
    ∀ t ∈ k.timestamps a, t.Fits := by
  obtain ⟨s, hs⟩ := exists_layout_of_ok hp.dottedNames h
  exact Call.timestamps_fit hs

/-! ## All timestamps -/

namespace Timestamp

/-- The ways in which a timestamp can come about. -/
inductive Produced : Timestamp → Prop
  | ofParts {year : Int} {month day hour minute second micros precision : Nat} {t : Timestamp} :
    ofParts? year month day hour minute second micros precision = some t → Produced t
  | ofDateTime (m : DateTime) : Produced (Timestamp.ofDateTime m)
  | ofJson {s : Spelling} {j : Json} {t : Timestamp} : Timestamp.ofJson s j = .ok t → Produced t
  | inData {k : Serialized} {s : Spelling} {j : Json} {a : k.Value} {t : Timestamp} :
    k.ofJson s j = .ok a → t ∈ k.timestamps a → Produced t
  | inText (d : Dialect) (maxDepth : Nat) (text : String) (calls : List Call) {k : Call}
    {a : k.Answer} {t : Timestamp} :
    (((Parser.ofString d maxDepth text).after calls).call k).1 = .ok a → t ∈ k.timestamps a →
      Produced t

theorem ofJson_toJson_eq_ok_iff {t : Timestamp} :
    Timestamp.ofJson .strict t.toJson = .ok t ↔ t.Fits :=
  ⟨fun h => yields_ofJson h, fun h => reads_toJson h .strict⟩

theorem fits_ofDateTime_iff {m : DateTime} : (ofDateTime m).Fits ↔ m.time.nanos = 0 := by
  have hscale : Decimal.scale 9 = 1000000000 := rfl
  simp only [Fits, ofDateTime, hscale]
  omega

/-- A timestamp that does not fit was made of a date-time, and keeps its fraction. -/
theorem Produced.fits_or {t : Timestamp} (h : t.Produced) :
    t.Fits ∨ ∃ m : DateTime, t = Timestamp.ofDateTime m ∧ m.time.nanos ≠ 0 := by
  cases h with
  | ofParts h => exact .inl (fits_of_ofParts? h)
  | ofDateTime m =>
    by_cases hm : m.time.nanos = 0
    · exact .inl (fits_ofDateTime_iff.2 hm)
    · exact .inr ⟨m, rfl, hm⟩
  | ofJson h => exact .inl (yields_ofJson h)
  | inData h ht => exact .inl (Serialized.yields_ofJson _ h t ht)
  | inText d maxDepth text calls h ht =>
    exact .inl ((Parser.Reads.ofString.after calls).timestamps_fit h t ht)

/-- A timestamp fits its precision, and is read back from what is written of it, unless it was made
of a date-time with a fraction; then neither holds. -/
theorem Produced.fits_iff {t : Timestamp} (h : t.Produced) :
    (t.Fits ∧ Timestamp.ofJson .strict t.toJson = .ok t) ↔
      ¬ ∃ m : DateTime, t = Timestamp.ofDateTime m ∧ m.time.nanos ≠ 0 := by
  rw [ofJson_toJson_eq_ok_iff, and_self]
  constructor
  · rintro hfits ⟨m, rfl, hm⟩
    exact hm (fits_ofDateTime_iff.1 hfits)
  · exact h.fits_or.resolve_right

/-- A fraction of three digits, the last of them zero. -/
theorem Produced.fits_iff_trailing_zero :
    let t : Timestamp := ⟨⟨⟨2024, 2, 29, by decide⟩, ⟨1, 2, 3, 250000000, by decide⟩⟩, 3⟩
    ((Parser.ofString .expression 64 "TIMESTAMP '2024-02-29 01:02:03.250'").call .literal).1 =
        .ok (.timestamp t) ∧
      t.Fits ∧ Timestamp.ofJson .strict t.toJson = .ok t := by
  intro t
  have hread :
      ((Parser.ofString .expression 64 "TIMESTAMP '2024-02-29 01:02:03.250'").call .literal).1 =
        .ok (.timestamp t) := by rfl
  have hmem : t ∈ Call.timestamps .literal (.timestamp t) := List.mem_singleton_self t
  have h : t.Produced := .inText .expression 64 _ [] hread hmem
  refine ⟨hread, (Produced.fits_iff h).2 ?_⟩
  rintro ⟨m, hm, -⟩
  cases congrArg Timestamp.precision hm

/-- Half a second is kept though the precision is zero, and what is written of it is refused. -/
theorem ofDateTime_unfit :
    let t := ofDateTime ⟨⟨2024, 2, 29, by decide⟩, ⟨1, 2, 3, 500000000, by decide⟩⟩
    t.Produced ∧ ¬ t.Fits ∧ Timestamp.ofJson .strict t.toJson = .error (.unfitTimestamp 0) :=
  ⟨.ofDateTime _, by decide, rfl⟩

end Timestamp

end FilterQuery
