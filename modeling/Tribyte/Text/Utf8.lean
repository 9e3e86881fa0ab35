/-! Bytes as UTF-8 text. -/
namespace Tribyte.Text.Utf8

/-- Whether `b` may follow the leading byte `lead` of a sequence of three or four bytes. The narrower ranges
keep out overlong forms, surrogates and numbers beyond U+10FFFF. -/
def follows (lead b : UInt8) : Bool :=
  if lead == 0xE0 then 0xA0 ≤ b && b ≤ 0xBF
  else if lead == 0xED then 0x80 ≤ b && b ≤ 0x9F
  else if lead == 0xF0 then 0x90 ≤ b && b ≤ 0xBF
  else if lead == 0xF4 then 0x80 ≤ b && b ≤ 0x8F
  else (0xE1 ≤ lead && lead ≤ 0xF3) && (0x80 ≤ b && b ≤ 0xBF)

/-- How many bytes after `lead` belong to the same broken sequence. -/
def brokenTail (lead : UInt8) : List UInt8 → Nat
  | [] => 0
  | [b] => if follows lead b then 1 else 0
  | b :: c :: _ =>
    if follows lead b then
      if 0xF0 ≤ lead && (0x80 ≤ c && c ≤ 0xBF) then 2 else 1
    else 0

/-- The text of the bytes; each broken sequence, as long as it could still have become a character, gives
one replacement character. -/
def decode : List UInt8 → List Char
  | [] => []
  | b :: rest =>
    match (b :: rest).toByteArray.utf8DecodeChar? 0 with
    | some c => c :: decode (rest.drop (c.utf8Size - 1))
    | none => '\ufffd' :: decode (rest.drop (brokenTail b rest))
termination_by bytes => bytes.length
decreasing_by all_goals simp only [List.length_drop, List.length_cons]; omega

/-- The bytes of a text. -/
def encode (cs : List Char) : List UInt8 := cs.flatMap String.utf8EncodeChar

end Tribyte.Text.Utf8
