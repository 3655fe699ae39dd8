/-!
# Bytes as characters

A shell reads and writes bytes.  Each is written here as the character with its number, so that a text
of a shell is a text like any other, in which no character has a number above 255.
-/

namespace Workload.Shell

/-- The bytes of the encoding of a text. -/
def bytesOf (text : String) : String :=
  if text.toList.all fun c => c.toNat < 128 then text
  else String.ofList (text.toUTF8.toList.map fun b => Char.ofNat b.toNat)

/-- The numbers of the bytes. -/
def numbersOf (bytes : String) : List UInt8 := bytes.toList.map fun c => UInt8.ofNat c.toNat

/-- The text that the bytes are the encoding of. -/
def textOf? (bytes : String) : Option String :=
  if bytes.toList.all fun c => c.toNat < 128 then some bytes
  else String.fromUTF8? ⟨(numbersOf bytes).toArray⟩

/-- What stands for bytes that encode nothing. -/
def replacement : Char := '\uFFFD'

/-- How many bytes a character has that begins with a byte, and the least and the greatest second one of
them. -/
def lead? (b : Nat) : Option (Nat × Nat × Nat) :=
  if b < 0x80 then some (1, 0, 0)
  else if 0xC2 ≤ b && b ≤ 0xDF then some (2, 0x80, 0xBF)
  else if b = 0xE0 then some (3, 0xA0, 0xBF)
  else if b = 0xED then some (3, 0x80, 0x9F)
  else if 0xE1 ≤ b && b ≤ 0xEF then some (3, 0x80, 0xBF)
  else if b = 0xF0 then some (4, 0x90, 0xBF)
  else if 0xF1 ≤ b && b ≤ 0xF3 then some (4, 0x80, 0xBF)
  else if b = 0xF4 then some (4, 0x80, 0x8F)
  else none

/-- The bytes behind the first one that belong to its character. -/
def following : (count low high : Nat) → List Nat → List Nat
  | 0, _, _, _ => []
  | _, _, _, [] => []
  | n + 1, low, high, b :: bs =>
    if low ≤ b && b ≤ high then b :: following n 0x80 0xBF bs else []

/-- The characters of bytes; what could not begin or go on as a character is replaced as a whole. -/
def decoded : (fuel : Nat) → List Nat → List Char
  | 0, _ => []
  | _, [] => []
  | fuel + 1, b :: bs =>
    match lead? b with
    | none => replacement :: decoded fuel bs
    | some (count, low, high) =>
      let rest := following (count - 1) low high bs
      if rest.length + 1 < count then replacement :: decoded fuel (bs.drop rest.length)
      else
        let start := if count = 1 then b else b % Nat.pow 2 (7 - count)
        Char.ofNat (rest.foldl (fun n r => 64 * n + r % 64) start) :: decoded fuel (bs.drop rest.length)

/-- The text of bytes, whatever they are. -/
def textOf (bytes : String) : String :=
  if bytes.toList.all fun c => c.toNat < 128 then bytes
  else String.ofList (decoded (bytes.length + 1) (bytes.toList.map Char.toNat))

end Workload.Shell
