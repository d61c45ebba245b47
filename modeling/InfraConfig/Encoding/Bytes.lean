/-!
# Bytes of texts

UTF-8, hexadecimal text, and the padding that block digests put after a message.
-/

namespace InfraConfig

def utf8Bytes (s : String) : List UInt8 :=
  s.toUTF8.toList

/-- How many bytes characters take in UTF-8. -/
def utf8Length : List Char → Nat
  | [] => 0
  | c :: cs => c.utf8Size + utf8Length cs

/-- The text with these bytes in UTF-8, if there is one. -/
def utf8Text? (bytes : List UInt8) : Option String :=
  String.fromUTF8? ⟨bytes.toArray⟩

/-- Two lower case hexadecimal digits for each byte. -/
def hexOfBytes (bytes : List UInt8) : String :=
  .ofList (bytes.flatMap fun b => [Nat.digitChar (b.toNat / 16), Nat.digitChar (b.toNat % 16)])

/-- The lowest `count` bytes of a number, lowest first. -/
def bytesLow : Nat → Nat → List UInt8
  | 0, _ => []
  | count + 1, n => UInt8.ofNat (n % 256) :: bytesLow count (n / 256)

/-- The lowest `count` bytes of a number, highest first. -/
def bytesHigh (count n : Nat) : List UInt8 :=
  (bytesLow count n).reverse

def natOfLow (bytes : List UInt8) : Nat :=
  bytes.foldr (fun b n => 256 * n + b.toNat) 0

def natOfHigh (bytes : List UInt8) : Nat :=
  bytes.foldl (fun n b => 256 * n + b.toNat) 0

/-- A list cut into pieces of `size` elements; the last may be shorter. -/
def chunks {α : Type} (size : Nat) : Nat → List α → List (List α)
  | 0, _ => []
  | fuel + 1, as => if as.isEmpty then [] else as.take size :: chunks size fuel (as.drop size)

def chunksOf {α : Type} (size : Nat) (as : List α) : List (List α) :=
  chunks size as.length as

/-- A message with a one bit, zero bits and its length in bits, filling whole blocks of `block` bytes.
The length takes `field` bytes, written by `length`. -/
def padMessage (block field : Nat) (length : Nat → List UInt8) (message : List UInt8) : List UInt8 :=
  let used := message.length + 1 + field
  let zeros := (block - used % block) % block
  message ++ 128 :: List.replicate zeros 0 ++ length (8 * message.length)

end InfraConfig
