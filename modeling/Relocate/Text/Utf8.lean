import Relocate.Text.Basic
import Relocate.Text.Quoted

/-!
# UTF-8

A strict decoder. A fault is reported with the bytes that cannot be decoded: the lead byte and the
continuation bytes after it that fit, but not the byte that breaks the sequence. Overlong forms,
surrogates and code points above the last plane are refused at their second byte.
-/
namespace Relocate.Utf8

/-- Why a sequence of bytes is not decoded. -/
inductive Reason where
  /-- No sequence starts with this byte. -/
  | start
  /-- A byte does not continue the sequence before it. -/
  | continuation
  /-- The input ends inside a sequence. -/
  | truncated
deriving DecidableEq, Repr

/-- The first place where decoding fails: the offset of its first byte, that byte, the further
bytes that belong to the sequence, and the reason. -/
structure Fault where
  position : Nat
  lead : UInt8
  further : Nat
  reason : Reason
deriving DecidableEq, Repr

def Reason.message : Reason → String
  | .start => "invalid start byte"
  | .continuation => "invalid continuation byte"
  | .truncated => "unexpected end of data"

/-- The wording of a fault; several bytes are shown by their range only. -/
def Fault.message (fault : Fault) : String :=
  let place :=
    if fault.further = 0 then
      "byte 0x" ++ String.ofList (Text.hexDigits 2 fault.lead.toNat) ++ " in position "
        ++ toString fault.position
    else
      "bytes in position " ++ toString fault.position ++ "-"
        ++ toString (fault.position + fault.further)
  "'utf-8' codec can't decode " ++ place ++ ": " ++ fault.reason.message

/-- The byte lies in a closed interval. -/
def within (low high : Nat) (byte : UInt8) : Bool := low ≤ byte.toNat && byte.toNat ≤ high

/-- The byte may continue a sequence. -/
def isTail (byte : UInt8) : Bool := within 0x80 0xbf byte

/-- The byte may follow the lead byte of a sequence of three or four bytes. -/
def isSecond (lead byte : UInt8) : Bool :=
  if lead = 0xe0 then within 0xa0 0xbf byte
  else if lead = 0xed then within 0x80 0x9f byte
  else if lead = 0xf0 then within 0x90 0xbf byte
  else if lead = 0xf4 then within 0x80 0x8f byte
  else isTail byte

/-- The code point of a lead byte's payload followed by the payloads of the tails. -/
def assemble (payload : Nat) (tails : List UInt8) : Char :=
  Char.ofNat (tails.foldl (fun code byte => code * 64 + byte.toNat % 64) payload)

/-- Decodes bytes of which the first stands at offset `position`. -/
def decodeFrom (position : Nat) : List UInt8 → Except Fault Text
  | [] => .ok []
  | a :: rest =>
    if within 0x00 0x7f a then
      (decodeFrom (position + 1) rest).map (Char.ofNat a.toNat :: ·)
    else if within 0xc2 0xdf a then
      match rest with
      | [] => .error ⟨position, a, 0, .truncated⟩
      | b :: rest =>
        if isTail b then
          (decodeFrom (position + 2) rest).map (assemble (a.toNat % 32) [b] :: ·)
        else .error ⟨position, a, 0, .continuation⟩
    else if within 0xe0 0xef a then
      match rest with
      | [] => .error ⟨position, a, 0, .truncated⟩
      | b :: rest =>
        if isSecond a b then
          match rest with
          | [] => .error ⟨position, a, 1, .truncated⟩
          | c :: rest =>
            if isTail c then
              (decodeFrom (position + 3) rest).map (assemble (a.toNat % 16) [b, c] :: ·)
            else .error ⟨position, a, 1, .continuation⟩
        else .error ⟨position, a, 0, .continuation⟩
    else if within 0xf0 0xf4 a then
      match rest with
      | [] => .error ⟨position, a, 0, .truncated⟩
      | b :: rest =>
        if isSecond a b then
          match rest with
          | [] => .error ⟨position, a, 1, .truncated⟩
          | c :: rest =>
            if isTail c then
              match rest with
              | [] => .error ⟨position, a, 2, .truncated⟩
              | d :: rest =>
                if isTail d then
                  (decodeFrom (position + 4) rest).map (assemble (a.toNat % 8) [b, c, d] :: ·)
                else .error ⟨position, a, 2, .continuation⟩
            else .error ⟨position, a, 1, .continuation⟩
        else .error ⟨position, a, 0, .continuation⟩
    else .error ⟨position, a, 0, .start⟩

/-- The text that the bytes stand for. -/
def decode (bytes : List UInt8) : Except Fault Text := decodeFrom 0 bytes

/-- The number of bytes that stand for a text. -/
def size : Text → Nat
  | [] => 0
  | c :: rest => c.utf8Size + size rest

/-- The bytes that stand for a text. -/
def encode (t : Text) : List UInt8 := t.flatMap String.utf8EncodeChar

end Relocate.Utf8
