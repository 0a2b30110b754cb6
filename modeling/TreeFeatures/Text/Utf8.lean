import TreeFeatures.Text.Quoted

/-!
# UTF-8

`Utf8.decode` turns bytes into characters or says which bytes are in the way: the shortest run that
cannot be continued to a character, with the reason. `universalBreaks` reads every line ending as a
line feed.
-/

namespace TreeFeatures.Utf8

-- Powers are those of the core library, whatever else is imported next to this module.
attribute [local instance (high)] instPowNat

/-- What is wrong with a run of bytes. -/
inductive Problem where
  | badStart
  | badContinuation
  | truncated
  deriving DecidableEq

/-- A run of bytes that is no character. -/
structure Fault where
  /-- The position of the first byte. -/
  start : Nat
  bytes : List UInt8
  problem : Problem
  deriving DecidableEq

/-- The reason in words. -/
def Problem.words : Problem → String
  | badStart => "invalid start byte"
  | badContinuation => "invalid continuation byte"
  | truncated => "unexpected end of data"

/-- The message of a fault. -/
def Fault.message (f : Fault) : String :=
  let place := match f.bytes with
    | [b] => "byte 0x" ++ hexText 2 b.toNat ++ " in position " ++ toString f.start
    | bs => "bytes in position " ++ toString f.start ++ "-" ++ toString (f.start + bs.length - 1)
  "'utf-8' codec can't decode " ++ place ++ ": " ++ f.problem.words

/-- Whether a byte may continue a character. -/
def isTail (b : UInt8) : Bool := 0x80 ≤ b && b ≤ 0xbf

/-- The range of the second byte after a first one, and the number of bytes of the character. -/
def shape? (b : UInt8) : Option (UInt8 × UInt8 × Nat) :=
  if 0xc2 ≤ b && b ≤ 0xdf then some (0x80, 0xbf, 2)
  else if b = 0xe0 then some (0xa0, 0xbf, 3)
  else if b = 0xed then some (0x80, 0x9f, 3)
  else if 0xe1 ≤ b && b ≤ 0xef then some (0x80, 0xbf, 3)
  else if b = 0xf0 then some (0x90, 0xbf, 4)
  else if 0xf1 ≤ b && b ≤ 0xf3 then some (0x80, 0xbf, 4)
  else if b = 0xf4 then some (0x80, 0x8f, 4)
  else none

/-- The code point of a character of several bytes. -/
def codePoint (size : Nat) (bs : List UInt8) : Nat :=
  match bs with
  | [] => 0
  | b :: tail =>
    let head := b.toNat % 2 ^ (7 - size)
    tail.foldl (fun n t => n * 64 + t.toNat % 64) head

/-- The characters of the bytes from a position on. -/
def decodeFrom : Nat → Nat → List UInt8 → Except Fault (List Char)
  | 0, _, _ => .ok []
  | _ + 1, _, [] => .ok []
  | fuel + 1, pos, b :: bs =>
    if b < 0x80 then do
      let cs ← decodeFrom fuel (pos + 1) bs
      .ok (Char.ofNat b.toNat :: cs)
    else
      match shape? b with
      | none => .error ⟨pos, [b], .badStart⟩
      | some (low, high, size) =>
        match bs with
        | [] => .error ⟨pos, [b], .truncated⟩
        | second :: rest =>
          if second < low || high < second then .error ⟨pos, [b], .badContinuation⟩
          else
            let tail := rest.take (size - 2)
            let good := tail.takeWhile isTail
            if good.length < tail.length then
              .error ⟨pos, b :: second :: good, .badContinuation⟩
            else if tail.length < size - 2 then .error ⟨pos, b :: second :: tail, .truncated⟩
            else do
              let cs ← decodeFrom fuel (pos + size) (rest.drop (size - 2))
              .ok (Char.ofNat (codePoint size (b :: second :: tail)) :: cs)

/-- The characters that bytes spell. -/
def decode (bs : List UInt8) : Except Fault (List Char) := decodeFrom (bs.length + 1) 0 bs

/-- The characters with every line ending as one line feed. -/
def universalBreaks : List Char → List Char
  | '\r' :: '\n' :: cs => '\n' :: universalBreaks cs
  | '\r' :: cs => '\n' :: universalBreaks cs
  | c :: cs => c :: universalBreaks cs
  | [] => []

/-- The text of a file. -/
def text (bs : List UInt8) : Except Fault String := do
  let cs ← decode bs
  .ok (String.ofList (universalBreaks cs))

end TreeFeatures.Utf8
