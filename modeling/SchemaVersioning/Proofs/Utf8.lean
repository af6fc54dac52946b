import Mathlib.Data.List.TakeWhile
import Mathlib.Data.Nat.Notation
import SchemaVersioning.Text.Utf8

/-!
# Texts in UTF-8

What is written in UTF-8 is read back (`decode_utf8_encode`).  The bytes of one character are taken
together, whatever follows them (`decodeUtf8_encodeChar`): the first tells how many there are, the
second lies in the range that the first asks for, and the payload bits spell the character.
-/

namespace SchemaVersioning.Encoding

/-! ## One sequence of bytes -/

theorem isContinuation_iff {b : UInt8} :
    isContinuation b = true ↔ 0x80 ≤ b.toNat ∧ b.toNat < 0xC0 := by
  simp [isContinuation]

theorem isSecond_iff {first second : UInt8} :
    isSecond first second = true ↔ (0x80 ≤ second.toNat ∧ second.toNat < 0xC0) ∧
      (first.toNat = 0xE0 → 0xA0 ≤ second.toNat) ∧ (first.toNat = 0xED → second.toNat < 0xA0) ∧
      (first.toNat = 0xF0 → 0x90 ≤ second.toNat) ∧
      (first.toNat = 0xF4 → second.toNat < 0x90) := by
  unfold isSecond
  rw [Bool.and_eq_true, isContinuation_iff]
  refine and_congr_right fun _ => ?_
  split <;> simp_all

theorem continuations_nil {first : UInt8} {rest : List UInt8} (h : sequenceLength first = 1) :
    continuations first rest = [] := by
  simp [continuations, h]

theorem continuations_cons {first second : UInt8} (others : List UInt8) {rest : List UInt8}
    (hlength : sequenceLength first = others.length + 2) (hsecond : isSecond first second = true)
    (hothers : ∀ b ∈ others, isContinuation b = true) :
    continuations first (second :: others ++ rest) = second :: others := by
  have htake : (second :: others ++ rest).take (sequenceLength first - 1) = second :: others := by
    rw [hlength]
    simp
  have htail : others.takeWhile isContinuation = others :=
    List.takeWhile_eq_self_iff.2 hothers
  simp only [continuations, htake, hsecond, if_true, htail]

/-- The bytes of a sequence are read as one character. -/
theorem decodeUtf8_sequence {first : UInt8} {more rest : List UInt8} (position : ℕ)
    (hlength : sequenceLength first = more.length + 1)
    (hmore : continuations first (more ++ rest) = more) :
    decodeUtf8 position (first :: (more ++ rest))
      = (decodeUtf8 (position + 1 + more.length) rest).map
          (Char.ofNat (payload first more) :: ·) := by
  rw [decodeUtf8]
  simp only [hlength, hmore, Nat.add_sub_cancel, if_true, List.drop_left]
  cases decodeUtf8 (position + 1 + more.length) rest <;> rfl

/-! ## One character -/

theorem toNat_ofNat {n : ℕ} (h : n < 256) : (UInt8.ofNat n).toNat = n :=
  UInt8.toNat_ofNat_of_lt' h

theorem toNat_lt (c : Char) : c.toNat < 0xD800 ∨ 0xDFFF < c.toNat ∧ c.toNat < 0x110000 := c.valid

/-- The bytes of a character are read as that character. -/
theorem decodeUtf8_encodeChar (c : Char) (rest : List UInt8) (position : ℕ) :
    decodeUtf8 position (encodeChar c ++ rest)
      = (decodeUtf8 (position + (encodeChar c).length) rest).map (c :: ·) := by
  have hvalid := toNat_lt c
  suffices ∃ first more, encodeChar c = first :: more ∧ sequenceLength first = more.length + 1 ∧
      continuations first (more ++ rest) = more ∧ payload first more = c.toNat by
    obtain ⟨first, more, hc, hlength, hmore, hpayload⟩ := this
    have h := decodeUtf8_sequence position hlength hmore
    rw [hc, List.cons_append, h, hpayload, Char.ofNat_toNat, List.length_cons, Nat.add_assoc,
      Nat.add_comm 1]
  simp only [encodeChar]
  generalize c.toNat = n at hvalid
  split
  case isTrue hn =>
    have h0 := toNat_ofNat (n := n) (by omega)
    have hlength : sequenceLength (UInt8.ofNat n) = 1 := by simp only [sequenceLength, h0]; grind
    exact ⟨_, [], rfl, hlength, continuations_nil hlength, by simp [payload, h0]⟩
  split
  case isFalse.isTrue hn =>
    have h0 := toNat_ofNat (n := 0xC0 + n / 64) (by omega)
    have h1 := toNat_ofNat (n := 0x80 + n % 64) (by omega)
    have hlength : sequenceLength (UInt8.ofNat (0xC0 + n / 64)) = 2 := by
      simp only [sequenceLength, h0]; grind
    refine ⟨_, _, rfl, hlength, continuations_cons [] hlength ?_ (by simp), ?_⟩
    · rw [isSecond_iff, h0, h1]; omega
    · simp only [payload, List.length_singleton, List.foldl_cons, List.foldl_nil, h0, h1]; omega
  split
  case isFalse.isFalse.isTrue hn =>
    have h0 := toNat_ofNat (n := 0xE0 + n / 4096) (by omega)
    have h1 := toNat_ofNat (n := 0x80 + n / 64 % 64) (by omega)
    have h2 := toNat_ofNat (n := 0x80 + n % 64) (by omega)
    have hlength : sequenceLength (UInt8.ofNat (0xE0 + n / 4096)) = 3 := by
      simp only [sequenceLength, h0]; grind
    refine ⟨_, _, rfl, hlength, continuations_cons [_] hlength ?_ ?_, ?_⟩
    · rw [isSecond_iff, h0, h1]; omega
    · simp only [List.mem_singleton, forall_eq, isContinuation_iff, h2]; omega
    · simp only [payload, List.length_cons, List.length_nil, List.foldl_cons, List.foldl_nil, h0,
        h1, h2]
      omega
  case isFalse.isFalse.isFalse hn =>
    have h0 := toNat_ofNat (n := 0xF0 + n / 262144) (by omega)
    have h1 := toNat_ofNat (n := 0x80 + n / 4096 % 64) (by omega)
    have h2 := toNat_ofNat (n := 0x80 + n / 64 % 64) (by omega)
    have h3 := toNat_ofNat (n := 0x80 + n % 64) (by omega)
    have hlength : sequenceLength (UInt8.ofNat (0xF0 + n / 262144)) = 4 := by
      simp only [sequenceLength, h0]; grind
    refine ⟨_, _, rfl, hlength, continuations_cons [_, _] hlength ?_ ?_, ?_⟩
    · rw [isSecond_iff, h0, h1]; omega
    · simp only [List.mem_cons, List.not_mem_nil, or_false, forall_eq_or_imp, forall_eq,
        isContinuation_iff, h2, h3]
      omega
    · simp only [payload, List.length_cons, List.length_nil, List.foldl_cons, List.foldl_nil, h0,
        h1, h2, h3]
      omega

/-! ## Texts -/

theorem decodeUtf8_flatMap (cs : List Char) (position : ℕ) :
    decodeUtf8 position (cs.flatMap encodeChar) = .ok cs := by
  induction cs generalizing position with
  | nil => rw [List.flatMap_nil, decodeUtf8]
  | cons c cs ih =>
    rw [List.flatMap_cons, decodeUtf8_encodeChar, ih]
    rfl

/-- The bytes of a text are read as that text. -/
theorem decode_utf8_flatMap (s : String) :
    utf8.decode (s.toList.flatMap encodeChar) = .ok s := by
  simp only [decode, decodeUtf8_flatMap]
  exact congrArg Except.ok String.ofList_toList

/-- What is written in UTF-8 is read back. -/
theorem decode_utf8_encode {s : String} {buffer : Buffer} (h : utf8.encode s = some buffer) :
    utf8.decode buffer = .ok s := by
  obtain rfl := Option.some.inj h
  exact decode_utf8_flatMap s

end SchemaVersioning.Encoding
