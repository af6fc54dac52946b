import Mathlib.Logic.Function.Iterate
import SchemaVersioning.Codec.Step
import SchemaVersioning.Proofs.ShapeValues
import SchemaVersioning.Proofs.Utf8

/-!
# Round trips of codecs

A codec that is made of structural ones by wrappers, with conversions that undo each other on a
value, decodes what it encodes of that value (`decode_encode`).  The JSON reader sets the only bound:
a value whose lists and objects nest deeper than `Codec.maxDepth` is encoded, and what is encoded is
refused.
-/

namespace SchemaVersioning

namespace Codec

/-! ## Structural codecs -/

/-- The data of a written value is that value, unless it nests too deep to be read. -/
theorem data?_encodeJson {v : Value} (h : v.IsData) :
    data? (encodeJson v) = if v.nesting ≤ maxDepth then some v else none := by
  rw [data?, encodeJson, Encoding.decode_utf8_flatMap]
  exact Json.read?_compact h maxDepth

/-- A structural codec decodes what it encodes of a value of its shape, unless the value nests too
deep. -/
theorem decode_structural {shape : Shape} {v : Value} (h : shape.Holds v) (strict : Bool) :
    (structural shape strict).decode (encodeJson v)
      = if v.nesting ≤ maxDepth then .ok v
        else .error (.decode (structural shape strict).name (issuesText 1)) := by
  show decodeShape _ shape strict (encodeJson v) = _
  rw [decodeShape, data?_encodeJson (Shape.isData_of_holds h)]
  by_cases hdepth : v.nesting ≤ maxDepth
  · simp only [if_pos hdepth, Shape.check_of_holds h]
  · simp only [if_neg hdepth]
    rfl

/-! ## Wrapped codecs -/

/-- A codec is made of structural codecs by wrappers whose conversions undo each other on a value,
and writes the value with so many levels of lists and objects in each other. -/
inductive Takes : Codec → Value → ℕ → Prop
  | structural {shape : Shape} {v : Value} (strict : Bool) (holds : shape.Holds v) :
      Takes (structural shape strict) v v.nesting
  | ofBinable {wrapped : Codec} {toBinable ofBinable : Conversion} {v binable : Value} {levels : ℕ}
      (there : toBinable v = .ok binable) (back : ofBinable binable = .ok v)
      (inner : Takes wrapped binable levels) :
      Takes (Codec.ofBinable wrapped toBinable ofBinable) v levels
  | ofStringable {toText ofText : Conversion} {v : Value} {s : String}
      (there : toText v = .ok (.text s)) (back : ofText (.text s) = .ok v) :
      Takes (ofStringable Encoding.utf8.hosted toText ofText) v 0

/-- What a wrapper encodes is what the wrapped codec encodes of the converted value. -/
theorem encode_ofBinable {wrapped : Codec} {toBinable ofBinable : Conversion} {v binable : Value}
    (there : toBinable v = .ok binable) :
    (Codec.ofBinable wrapped toBinable ofBinable).encode v = wrapped.encode binable := by
  show (toBinable v >>= wrapped.encode) = _
  rw [there]
  rfl

/-- A wrapper decodes to the converted value of the wrapped codec. -/
theorem decode_ofBinable {wrapped : Codec} {toBinable ofBinable : Conversion} {v binable : Value}
    {buffer : Buffer} (hwrapped : wrapped.decode buffer = .ok binable)
    (back : ofBinable binable = .ok v) :
    (Codec.ofBinable wrapped toBinable ofBinable).decode buffer = .ok v := by
  show (wrapped.decode buffer >>= fun binable => (ofBinable binable).mapError _) = _
  rw [hwrapped]
  show (ofBinable binable).mapError _ = _
  rw [back]
  rfl

/-- A failure of the wrapped codec is one of the wrapper. -/
theorem decode_ofBinable_error {wrapped : Codec} {toBinable ofBinable : Conversion}
    {buffer : Buffer} {f : Failure} (hwrapped : wrapped.decode buffer = .error f) :
    (Codec.ofBinable wrapped toBinable ofBinable).decode buffer = .error f := by
  show (wrapped.decode buffer >>= fun binable => (ofBinable binable).mapError _) = _
  rw [hwrapped]
  rfl

/-- What is encoded of a text form are the bytes of the text. -/
theorem encode_ofStringable {encoding : HostEncoding} {toText ofText : Conversion} {v : Value}
    {s : String} (there : toText v = .ok (.text s)) :
    (ofStringable encoding toText ofText).encode v = encoding.encode s := by
  show (toText v >>= encodeText encoding) = _
  rw [there]
  rfl

/-- The host writes a text in UTF-8 and reads it back. -/
theorem hosted_utf8 (s : String) : ∃ buffer,
    Encoding.utf8.hosted.encode s = .ok buffer ∧ Encoding.utf8.hosted.decode buffer = .ok s := by
  obtain ⟨buffer, hencode⟩ : ∃ buffer, Encoding.utf8.encode s = some buffer := ⟨_, rfl⟩
  refine ⟨buffer, ?_, ?_⟩
  · simp only [Encoding.hosted, hencode]
  · show (Encoding.utf8.decode buffer).mapError _ = _
    rw [Encoding.decode_utf8_encode hencode]
    rfl

/-- The bytes of a text are decoded to what the text denotes. -/
theorem decode_ofStringable {encoding : HostEncoding} {toText ofText : Conversion} {v : Value}
    {s : String} {buffer : Buffer} (htext : encoding.decode buffer = .ok s)
    (back : ofText (.text s) = .ok v) :
    (ofStringable encoding toText ofText).decode buffer = .ok v := by
  unfold ofStringable
  dsimp only
  rw [htext]
  dsimp only
  rw [back]
  rfl

/-- What a codec encodes of a value that it takes, it decodes to that value if the value is not
written with too many levels, and refuses if it is. -/
theorem decode_encode {codec : Codec} {v : Value} {levels : ℕ} (h : codec.Takes v levels) :
    ∃ buffer, codec.encode v = .ok buffer ∧
      (levels ≤ maxDepth → codec.decode buffer = .ok v) ∧
      (maxDepth < levels → ∃ name, codec.decode buffer = .error (.decode name (issuesText 1))) := by
  induction h with
  | @structural shape v strict holds =>
    refine ⟨encodeJson v, rfl, fun hdepth => ?_, fun hdepth => ⟨(structural shape strict).name, ?_⟩⟩
    · rw [decode_structural holds, if_pos hdepth]
    · rw [decode_structural holds, if_neg (by omega)]
  | ofBinable there back _ ih =>
    obtain ⟨buffer, hencode, hshallow, hdeep⟩ := ih
    refine ⟨buffer, (encode_ofBinable there).trans hencode, fun hdepth => ?_, fun hdepth => ?_⟩
    · exact decode_ofBinable (hshallow hdepth) back
    · obtain ⟨name, hname⟩ := hdeep hdepth
      exact ⟨name, decode_ofBinable_error hname⟩
  | ofStringable there back =>
    obtain ⟨buffer, hwritten, hread⟩ := hosted_utf8 _
    exact ⟨buffer, (encode_ofStringable there).trans hwritten,
      fun _ => decode_ofStringable hread back, fun hdepth => absurd hdepth (Nat.not_lt_zero _)⟩

/-- A record with a text beyond ASCII goes through a pair and back. -/
theorem decode_encode_pair :
    (ofBinable (structural (.tuple [.int, .text]) true) (Step.pack ["id", "name"]).run
      (Step.unpack ["id", "name"]).run).Takes
        (.record [("id", .int (-7)), ("name", .text "Zoë")]) 1 ∧
    ∃ buffer,
      (ofBinable (structural (.tuple [.int, .text]) true) (Step.pack ["id", "name"]).run
        (Step.unpack ["id", "name"]).run).encode
          (.record [("id", .int (-7)), ("name", .text "Zoë")]) = .ok buffer ∧
      (ofBinable (structural (.tuple [.int, .text]) true) (Step.pack ["id", "name"]).run
        (Step.unpack ["id", "name"]).run).decode buffer
          = .ok (.record [("id", .int (-7)), ("name", .text "Zoë")]) := by
  have holds : (Shape.tuple [.int, .text]).Holds (.list [.int (-7), .text "Zoë"]) :=
    ⟨_, rfl, _, _, rfl, ⟨_, rfl, by unfold IsShort; decide⟩, _, _, rfl, ⟨_, rfl⟩, rfl⟩
  have htakes := @Takes.ofBinable (structural (.tuple [.int, .text]) true)
    (Step.pack ["id", "name"]).run (Step.unpack ["id", "name"]).run
    (.record [("id", .int (-7)), ("name", .text "Zoë")]) _ _ rfl rfl (.structural true holds)
  obtain ⟨buffer, hencode, hdecode, -⟩ := decode_encode htakes
  exact ⟨htakes, buffer, hencode, hdecode (by decide)⟩

/-! ## Values that nest too deep -/

/-- Records in each other.  The one field of each holds so many lists in each other, which end in the
next record, and those of the last in an integer. -/
def tower : List (String × ℕ) → Shape
  | [] => .int
  | (name, lists) :: rest => .record name true [⟨"f", Shape.list^[lists] (tower rest), none⟩]

/-- The value of a tower whose lists have one item each. -/
def towerValue : List (String × ℕ) → Value
  | [] => .int 0
  | (_, lists) :: rest => .record [("f", (fun v => .list [v])^[lists] (towerValue rest))]

theorem holds_iterate {shape : Shape} {v : Value} (h : shape.Holds v) (lists : ℕ) :
    (Shape.list^[lists] shape).Holds ((fun v => .list [v])^[lists] v) := by
  induction lists with
  | zero => exact h
  | succ lists ih =>
    rw [Function.iterate_succ_apply', Function.iterate_succ_apply']
    exact ⟨_, rfl, fun w hw => (List.mem_singleton.1 hw) ▸ ih⟩

theorem nesting_iterate (v : Value) (lists : ℕ) :
    ((fun v => .list [v])^[lists] v).nesting = lists + v.nesting := by
  induction lists with
  | zero => exact (Nat.zero_add _).symm
  | succ lists ih =>
    rw [Function.iterate_succ_apply', Value.nesting, Value.nestingItems, Value.nestingItems, ih]
    omega

theorem holds_towerValue : ∀ layers : List (String × ℕ), (tower layers).Holds (towerValue layers)
  | [] => ⟨0, rfl, by unfold IsShort; decide⟩
  | (_, lists) :: rest =>
    ⟨_, rfl, List.nodup_singleton _, _, _, rfl, holds_iterate (holds_towerValue rest) lists, rfl⟩

theorem nesting_towerValue : ∀ layers : List (String × ℕ),
    (towerValue layers).nesting = (layers.map (·.2 + 1)).sum
  | [] => rfl
  | (name, lists) :: rest => by
    rw [towerValue, Value.record, List.map_singleton, Value.nesting, Value.nestingEntries,
      Value.nestingEntries, nesting_iterate, nesting_towerValue rest, List.map_cons, List.sum_cons]
    omega

/-- Four records with 197 lists between them are encoded and not decoded. -/
theorem decode_encode_tower_ne :
    (tower [("D", 47), ("C", 50), ("B", 50), ("A", 50)]).Holds
      (towerValue [("D", 47), ("C", 50), ("B", 50), ("A", 50)]) ∧
    ∃ buffer,
      (structural (tower [("D", 47), ("C", 50), ("B", 50), ("A", 50)]) true).encode
        (towerValue [("D", 47), ("C", 50), ("B", 50), ("A", 50)]) = .ok buffer ∧
      (structural (tower [("D", 47), ("C", 50), ("B", 50), ("A", 50)]) true).decode buffer
        ≠ .ok (towerValue [("D", 47), ("C", 50), ("B", 50), ("A", 50)]) := by
  have hholds := holds_towerValue [("D", 47), ("C", 50), ("B", 50), ("A", 50)]
  refine ⟨hholds, _, rfl, ?_⟩
  rw [decode_structural hholds, nesting_towerValue, if_neg (by decide)]
  rintro ⟨⟩

end Codec

end SchemaVersioning
