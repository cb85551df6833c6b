import FilterQuery.Encoding.Literal
import FilterQuery.Proofs.Encoding.Calendar
import FilterQuery.Proofs.Encoding.Decoders

/-!
Literals in JSON. A timestamp is read back exactly if its fraction fits its precision, and no other
is ever read; what holds of timestamps is carried to the literals that they stand in.
-/

namespace FilterQuery

open Calendar Decoder

/-! ## Plain values -/

namespace Decoder

theorem Reads.bool (b : Bool) : Reads bool (.bool b) b :=
  fun _ => rfl

theorem Reads.str (x : String) : Reads str (.str x) x :=
  fun _ => rfl

theorem Reads.int64 (n : Int64) : Reads int64 (.int n.toInt) n := by
  intro s
  change (if _ then _ else _) = _
  rw [if_pos ⟨n.minValue_le_toInt, n.toInt_le⟩, Int64.ofInt_toInt]

theorem Reads.natBelow {bound n : Nat} (h : n < bound) : Reads (natBelow bound) (.int n) n := by
  intro s
  change (if _ then _ else _) = _
  rw [if_pos ⟨Int.natCast_nonneg n, Int.ofNat_lt.2 h⟩, Int.toNat_natCast]

end Decoder

theorem Calendar.Date.reads_text (d : Date) : Reads Date.ofJson (.str d.text) d :=
  fun _ => need_of_eq_some d.read?_text

theorem Calendar.DateTime.reads_text (m : DateTime) : Reads DateTime.ofJson (.str m.text) m :=
  fun _ => need_of_eq_some m.read?_text

/-! ## Timestamps -/

namespace Timestamp

/-- What a timestamp shows is counted in microseconds. -/
theorem fits_iff_micros {t : Timestamp} :
    t.Fits ↔ t.moment.time.nanos % 1000 = 0 ∧ t.precision ≤ maxPrecision ∧
      t.micros % Decimal.scale (maxPrecision - t.precision) = 0 ∧ t.micros < 1000000 := by
  obtain ⟨moment, precision⟩ := t
  simp only [Fits, micros, maxPrecision]
  generalize moment.time.nanos = nanos
  have key (hp : precision ≤ 6) : nanos % Decimal.scale (9 - precision) = 0 ↔
      nanos % 1000 = 0 ∧ nanos / 1000 % Decimal.scale (6 - precision) = 0 := by
    have hscale : Decimal.scale (9 - precision) = 1000 * Decimal.scale (6 - precision) := by
      simpa using (Fixed.scale_micros (n := 1) hp).symm
    rw [hscale, Nat.mod_mul]
    omega
  constructor
  · rintro ⟨hp, hlt, hmod⟩
    obtain ⟨h0, hmicros⟩ := (key hp).1 hmod
    exact ⟨h0, hp, hmicros, by omega⟩
  · rintro ⟨h0, hp, hmicros, hlt⟩
    exact ⟨hp, by omega, (key hp).2 ⟨h0, hmicros⟩⟩

theorem fits_of_ofParts? {year : Int} {month day hour minute second micros precision : Nat}
    {t : Timestamp} (h : ofParts? year month day hour minute second micros precision = some t) :
    t.Fits := by
  obtain ⟨hparts, hm, rfl⟩ := ofParts?_eq_some_iff.1 h
  obtain ⟨-, ht⟩ := DateTime.of?_eq_some_iff.1 hm
  obtain ⟨-, -, -, hn⟩ := TimeOfDay.of?_eq_some_iff.1 ht
  have hmicros : t.micros = micros := by
    rw [Timestamp.micros, hn]
    omega
  rw [fits_iff_micros, hmicros]
  exact ⟨by omega, hparts⟩

/-- A timestamp that is built again from its parts is the same. -/
theorem check?_eq_some_iff {t u : Timestamp} : t.check? = some u ↔ t.Fits ∧ t = u := by
  unfold check?
  rw [fits_iff_micros]
  split
  · next h0 =>
    have hn : 1000 * t.micros = t.moment.time.nanos := by
      rw [Timestamp.micros]
      omega
    rw [ofParts?_eq_some_iff, hn, DateTime.of?_eq_some_iff, Date.of?_parts, TimeOfDay.of?_parts]
    simp only [h0, true_and, Option.some.injEq]
    refine and_congr_right fun _ => ?_
    obtain ⟨⟨date, time⟩, precision⟩ := t
    obtain ⟨⟨date', time'⟩, precision'⟩ := u
    simp [and_assoc, eq_comm]
  · next h0 => simp [h0]

theorem yields_ofJson : Yields ofJson Fits := by
  intro s j t ht
  obtain ⟨u, -, hu⟩ := Except.bind_eq_ok_iff.1 ht
  split at hu
  · next v hv =>
    cases hu
    obtain ⟨hfits, rfl⟩ := check?_eq_some_iff.1 hv
    exact hfits
  · cases hu

theorem reads_toJson {t : Timestamp} (h : t.Fits) : Reads ofJson t.toJson t := by
  have hprecision : t.precision < 256 := Nat.lt_of_le_of_lt h.1 (by decide)
  have hparts : Reads partsOfJson t.toJson t := by
    refine Reads.record fun s => ?_
    exact Part.seq_of_read (Part.map_of_read (Reads.part rfl t.moment.reads_text s))
      (Reads.part rfl (.natBelow hprecision) s) rfl
  intro s
  refine Except.bind_eq_ok_iff.2 ⟨t, hparts s, ?_⟩
  rw [check?_eq_some_iff.2 ⟨h, rfl⟩]
  rfl

end Timestamp

/-! ## Literals -/

namespace Literal

mutual

/-- The timestamps in a literal, also those in lists. -/
def timestamps : Literal → List Timestamp
  | .timestamp t => [t]
  | .list items => itemTimestamps items
  | .integer _ | .text _ | .boolean _ | .date _ => []

def itemTimestamps : List Literal → List Timestamp
  | [] => []
  | l :: ls => l.timestamps ++ itemTimestamps ls

end

theorem itemTimestamps_eq (ls : List Literal) : itemTimestamps ls = ls.flatMap timestamps := by
  induction ls with
  | nil => rfl
  | cons l ls ih => rw [itemTimestamps, ih, List.flatMap_cons]

theorem itemsToJson_eq (ls : List Literal) : itemsToJson ls = ls.map toJson := by
  induction ls with
  | nil => rfl
  | cons l ls ih => rw [itemsToJson, ih, List.map_cons]

/-- In what is read every timestamp fits. -/
theorem yields_ofJsonUpTo (levels : Nat) :
    Yields (ofJsonUpTo levels) fun l => ∀ t ∈ l.timestamps, t.Fits := by
  induction levels with
  | zero =>
    intro s j l h
    cases h
  | succ levels ih =>
    refine Yields.tagged ?_
    simp only [valuesOfJson, List.forall_mem_cons, List.not_mem_nil, false_implies, implies_true,
      and_true]
    refine ⟨?integer, ?text, ?boolean, ?date, ?timestamp, ?list⟩
    case timestamp =>
      refine .map fun s j t ht => ?_
      simpa [timestamps] using Timestamp.yields_ofJson ht
    case list =>
      refine .map fun s j ls hls => ?_
      change ∀ t ∈ (Literal.list ls).timestamps, t.Fits
      rw [timestamps, itemTimestamps_eq, List.forall_mem_flatMap]
      exact ih.list hls
    all_goals exact .map fun _ _ _ _ => by simp [timestamps]

theorem reads_typed {levels : Nat} {type : String} {j : Json} {value : Decoder Literal}
    {l : Literal} (hvalue : (valuesOfJson (ofJsonUpTo levels)).lookup type = some value)
    (h : Reads value j l) : Reads (ofJsonUpTo (levels + 1)) (typed type j) l :=
  Reads.tagged (by decide) hvalue h

mutual

/-- A literal is read back with as many levels as its form has. -/
theorem reads_ofJsonUpTo {levels : Nat} :
    (l : Literal) → l.toJson.height ≤ levels + 1 → (∀ t ∈ l.timestamps, t.Fits) →
      Reads (ofJsonUpTo (levels + 1)) l.toJson l
  | .integer n, _, _ => reads_typed rfl (.map (.int64 n) _)
  | .text x, _, _ => reads_typed rfl (.map (.str x) _)
  | .boolean b, _, _ => reads_typed rfl (.map (.bool b) _)
  | .date d, _, _ => reads_typed rfl (.map d.reads_text _)
  | .timestamp t, _, h => reads_typed rfl (.map (t.reads_toJson (by simpa [timestamps] using h)) _)
  | .list items, hlevels, h => by
    simp only [toJson, typed, Json.height, Json.heightMembers] at hlevels
    rw [timestamps] at h
    obtain ⟨m, rfl⟩ := Nat.exists_eq_add_one_of_ne_zero (n := levels) (by omega)
    rw [toJson, itemsToJson_eq]
    exact reads_typed rfl (.map (.list (reads_items items (by omega) h)) _)

theorem reads_items {levels : Nat} :
    (ls : List Literal) → Json.heightItems (itemsToJson ls) ≤ levels + 1 →
      (∀ t ∈ itemTimestamps ls, t.Fits) → ∀ l ∈ ls, Reads (ofJsonUpTo (levels + 1)) l.toJson l
  | [], _, _ => by simp
  | l :: ls, hlevels, h => by
    rw [itemsToJson, Json.heightItems] at hlevels
    rw [itemTimestamps, List.forall_mem_append] at h
    rw [List.forall_mem_cons]
    exact ⟨reads_ofJsonUpTo l (by omega) h.1, reads_items ls (by omega) h.2⟩

end

theorem yields_ofJson : Yields ofJson fun l => ∀ t ∈ l.timestamps, t.Fits :=
  fun _ j _ h => yields_ofJsonUpTo j.height h

theorem reads_toJson {l : Literal} (h : ∀ t ∈ l.timestamps, t.Fits) :
    Reads ofJson l.toJson l := by
  intro s
  obtain ⟨n, hn⟩ := l.toJson.exists_height_eq_succ
  unfold ofJson
  rw [hn]
  exact reads_ofJsonUpTo l (Nat.le_of_eq hn) h s

end Literal

end FilterQuery
