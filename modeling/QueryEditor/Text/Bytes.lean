namespace QueryEditor.Text

structure OutOfRange where
  offset : Nat
  size : Nat
  deriving DecidableEq, Repr

def bytes (text : List Char) : List UInt8 :=
  text.flatMap String.utf8EncodeChar

def ofBytes? (bytes : List UInt8) : Option (List Char) :=
  (String.fromUTF8? bytes.toByteArray).map String.toList

def cut (bytes : List UInt8) (offset : Nat) : Except OutOfRange (List UInt8 × List UInt8) :=
  if offset ≤ bytes.length then .ok (bytes.take offset, bytes.drop offset)
  else .error ⟨offset, bytes.length⟩

def byteIn (p : Char → Bool) (byte : UInt8) : Bool :=
  p (.ofUInt8 byte)

/-- Whether there is a byte of a class at an offset. Behind the end there is none. -/
def byteAt (p : Char → Bool) (bytes : List UInt8) (offset : Nat) : Bool :=
  bytes[offset]?.any (byteIn p)

end QueryEditor.Text
