namespace Inlay

abbrev Bytes := List UInt8

namespace Text

def encode (s : String) : Bytes := s.toUTF8.data.toList

def decode? (bytes : Bytes) : Option String := String.fromUTF8? ⟨bytes.toArray⟩

@[simp] theorem decode?_encode (s : String) : decode? (encode s) = some s := by
  have h : (⟨(encode s).toArray⟩ : ByteArray) = s.toByteArray := by simp [encode]
  rw [decode?, h, String.fromUTF8?, dif_pos s.isValidUTF8]
  rfl

def replacement : Char := '\uFFFD'

def isTail (b : UInt8) : Bool := 0x80 ≤ b && b ≤ 0xBF

def tailBits (b : UInt8) : Nat := b.toNat % 64

/-- Second bytes that a three or four byte lead admits: overlong forms, surrogates and code points
above U+10FFFF are ruled out here. -/
def isSecond (lead b : UInt8) : Bool :=
  if lead == 0xE0 then 0xA0 ≤ b && b ≤ 0xBF
  else if lead == 0xED then 0x80 ≤ b && b ≤ 0x9F
  else if lead == 0xF0 then 0x90 ≤ b && b ≤ 0xBF
  else if lead == 0xF4 then 0x80 ≤ b && b ≤ 0x8F
  else isTail b

/-- The first character of `lead :: rest` and how many bytes of `rest` belong to it. -/
def lossyHead (lead : UInt8) (rest : Bytes) : Char × Nat :=
  if lead < 0x80 then (Char.ofNat lead.toNat, 0)
  else if 0xC2 ≤ lead && lead ≤ 0xDF then
    match rest with
    | b :: _ => if isTail b then (Char.ofNat (lead.toNat % 32 * 64 + tailBits b), 1) else (replacement, 0)
    | [] => (replacement, 0)
  else if 0xE0 ≤ lead && lead ≤ 0xEF then
    match rest with
    | b :: c :: _ =>
      if !isSecond lead b then (replacement, 0)
      else if !isTail c then (replacement, 1)
      else (Char.ofNat ((lead.toNat % 16 * 64 + tailBits b) * 64 + tailBits c), 2)
    | [b] => (replacement, if isSecond lead b then 1 else 0)
    | [] => (replacement, 0)
  else if 0xF0 ≤ lead && lead ≤ 0xF4 then
    match rest with
    | b :: c :: d :: _ =>
      if !isSecond lead b then (replacement, 0)
      else if !isTail c then (replacement, 1)
      else if !isTail d then (replacement, 2)
      else (Char.ofNat (((lead.toNat % 8 * 64 + tailBits b) * 64 + tailBits c) * 64 + tailBits d), 3)
    | [b, c] => (replacement, if !isSecond lead b then 0 else if isTail c then 2 else 1)
    | [b] => (replacement, if isSecond lead b then 1 else 0)
    | [] => (replacement, 0)
  else (replacement, 0)

def decodeLossyFrom (skip : Nat) (bytes : Bytes) : List Char :=
  match skip, bytes with
  | _, [] => []
  | skip + 1, _ :: rest => decodeLossyFrom skip rest
  | 0, lead :: rest => (lossyHead lead rest).1 :: decodeLossyFrom (lossyHead lead rest).2 rest

def decodeLossy (bytes : Bytes) : List Char := decodeLossyFrom 0 bytes

end Text

end Inlay
