import FilterQuery.Command.Run

/-!
The filter text of a command, given as an argument or on standard input. An argument is answered
unless it is larger than the limit. From standard input no more is read than shows that a text is
too large, and where that breaks off inside a character the bytes are refused for their encoding.
-/

namespace FilterQuery.Command

/-- What the limit makes of a text: the text itself unless it is larger. -/
def limited (text : String) (limit : Nat) : Except Failure String :=
  if limit < text.utf8ByteSize then .error (.inputTooLarge limit) else .ok text

variable {s : String} {limit n : Nat}

theorem limited_of_lt (h : limit < s.utf8ByteSize) :
    limited s limit = .error (.inputTooLarge limit) :=
  if_pos h

/-! ## Bytes of a text -/

theorem fromUTF8?_toUTF8 (s : String) : String.fromUTF8? s.toUTF8 = some s :=
  dif_pos s.isValidUTF8

/-- Nothing is cut off a text that is no larger. -/
theorem fromUTF8?_extract_of_le (h : s.utf8ByteSize ≤ n) :
    String.fromUTF8? (s.toUTF8.extract 0 n) = some s := by
  have hall : s.toUTF8.extract 0 n = s.toUTF8 := by
    rw [← Nat.max_eq_left h]
    exact ByteArray.extract_zero_max_size
  rw [hall, fromUTF8?_toUTF8]

/-- A place between characters cuts a text off as a text. -/
theorem fromUTF8?_extract_of_isValid (h : (⟨n⟩ : String.Pos.Raw).IsValid s) :
    ∃ t, String.fromUTF8? (s.toUTF8.extract 0 n) = some t ∧ t.utf8ByteSize = n := by
  obtain ⟨t, u, rfl, hn⟩ := String.Pos.Raw.isValid_iff_exists_append.1 h
  obtain rfl : n = t.utf8ByteSize := congrArg String.Pos.Raw.byteIdx hn
  have hcut : (t ++ u).toUTF8.extract 0 t.utf8ByteSize = t.toUTF8 := by
    rw [String.toUTF8_eq_toByteArray, String.toByteArray_append]
    exact ByteArray.extract_append_eq_left rfl
  exact ⟨t, by rw [hcut, fromUTF8?_toUTF8], rfl⟩

/-- What is cut off inside a character is no text. -/
theorem fromUTF8?_extract_of_not_isValid (hn : n ≤ s.utf8ByteSize)
    (h : ¬ (⟨n⟩ : String.Pos.Raw).IsValid s) : String.fromUTF8? (s.toUTF8.extract 0 n) = none := by
  refine dif_neg fun hvalid => h ?_
  exact String.Pos.Raw.isValid_iff_isValidUTF8_extract_zero.2 ⟨hn, hvalid⟩

/-! ## Reading -/

theorem readInput_of_ne_dash (h : s ≠ "-") (limit : Nat) (stdin : ByteArray) :
    readInput s limit stdin = limited s limit := by
  rw [readInput, if_neg h]
  rfl

/-- The bytes that are read from standard input decide. -/
theorem readInput_dash (limit : Nat) (stdin : ByteArray) :
    readInput "-" limit stdin =
      match String.fromUTF8? (stdin.extract 0 (min (limit + 1) (UInt64.size - 1))) with
      | some text => limited text limit
      | none => .error .notUtf8 := by
  rw [readInput, if_pos rfl]
  cases String.fromUTF8? (stdin.extract 0 (min (limit + 1) (UInt64.size - 1))) <;> rfl

/-- A text within the limit is read to its end. -/
theorem readInput_dash_of_le (hs : s.utf8ByteSize < UInt64.size) (h : s.utf8ByteSize ≤ limit) :
    readInput "-" limit s.toUTF8 = limited s limit := by
  rw [readInput_dash, fromUTF8?_extract_of_le (by omega)]

/-- Of a larger text one byte more than the limit is read. That suffices if a character ends
there, and otherwise the text is refused for its encoding. -/
theorem readInput_dash_of_lt (hs : s.utf8ByteSize < UInt64.size) (h : limit < s.utf8ByteSize) :
    readInput "-" limit s.toUTF8 =
      if (⟨limit + 1⟩ : String.Pos.Raw).IsValid s then limited s limit else .error .notUtf8 := by
  have hread : min (limit + 1) (UInt64.size - 1) = limit + 1 := by omega
  rw [readInput_dash, hread]
  by_cases hcut : (⟨limit + 1⟩ : String.Pos.Raw).IsValid s
  · obtain ⟨t, ht, hsize⟩ := fromUTF8?_extract_of_isValid hcut
    rw [if_pos hcut, ht, limited_of_lt h]
    exact limited_of_lt (by omega)
  · rw [if_neg hcut, fromUTF8?_extract_of_not_isValid h hcut]

/-- A text is answered alike as an argument and on standard input, exactly unless it is larger than
the limit and its first byte too many is inside a character and not its last; then the bytes from
standard input are refused for their encoding. -/
theorem readInput_dash_eq_limited_iff (s : String) (limit : Nat)
    (hs : s.utf8ByteSize < UInt64.size) :
    (s ≠ "-" → ∀ stdin, readInput s limit stdin = limited s limit) ∧
      (readInput "-" limit s.toUTF8 = limited s limit ↔
        s.utf8ByteSize ≤ limit ∨ (⟨limit + 1⟩ : String.Pos.Raw).IsValid s) ∧
      (readInput "-" limit s.toUTF8 ≠ limited s limit →
        limit < s.utf8ByteSize ∧ readInput "-" limit s.toUTF8 = .error .notUtf8) := by
  refine ⟨fun h stdin => readInput_of_ne_dash h limit stdin, ?_⟩
  rcases Nat.lt_or_ge limit s.utf8ByteSize with h | h
  · rw [readInput_dash_of_lt hs h]
    by_cases hcut : (⟨limit + 1⟩ : String.Pos.Raw).IsValid s
    · rw [if_pos hcut]
      exact ⟨⟨fun _ => .inr hcut, fun _ => rfl⟩, fun hne => absurd rfl hne⟩
    · have hne : (.error .notUtf8 : Except Failure String) ≠ limited s limit := by
        rw [limited_of_lt h]
        intro heq
        cases heq
      rw [if_neg hcut]
      refine ⟨⟨fun heq => absurd heq hne, fun hor => ?_⟩, fun _ => ⟨h, rfl⟩⟩
      exact hor.elim (fun hle => absurd h (Nat.not_lt.2 hle)) fun hvalid => absurd hvalid hcut
  · rw [readInput_dash_of_le hs h]
    exact ⟨⟨fun _ => .inl h, fun _ => rfl⟩, fun hne => absurd rfl hne⟩

/-- With a limit of 7 bytes the first byte too many is the quote behind a character of two bytes. -/
theorem readInput_dash_eq_limited_iff_behind_character :
    "a = 'é'".utf8ByteSize = 8 ∧ "a = 'é'".utf8ByteSize < UInt64.size ∧ "a = 'é'" ≠ "-" ∧
      readInput "a = 'é'" 7 .empty = .error (.inputTooLarge 7) ∧
      readInput "-" 7 "a = 'é'".toUTF8 = .error (.inputTooLarge 7) := by
  have hs : "a = 'é'".utf8ByteSize < UInt64.size := by decide
  have hdash : "a = 'é'" ≠ "-" := by decide
  obtain ⟨hargument, hiff, -⟩ := readInput_dash_eq_limited_iff "a = 'é'" 7 hs
  have hlimited : limited "a = 'é'" 7 = .error (.inputTooLarge 7) := by rfl
  exact ⟨by decide, hs, hdash, (hargument hdash .empty).trans hlimited,
    (hiff.2 (.inr (by decide))).trans hlimited⟩

/-- With a limit of 5 bytes the first byte too many is the first of the character's two bytes. -/
theorem readInput_dash_inside_character :
    readInput "a = 'é'" 5 .empty = .error (.inputTooLarge 5) ∧
      readInput "-" 5 "a = 'é'".toUTF8 = .error .notUtf8 :=
  ⟨by rfl, by rfl⟩

end FilterQuery.Command
