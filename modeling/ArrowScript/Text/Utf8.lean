namespace ArrowScript.Text

/-!
# UTF-8

`encode` writes a text as bytes.  `decode` reads bytes and names the first
sequence that encodes nothing.
-/

def encodeCharacter (char : Char) : List UInt8 :=
  let code := char.toNat
  if code < 0x80 then
    [code.toUInt8]
  else if code < 0x800 then
    [(0xc0 + code / 0x40).toUInt8, (0x80 + code % 0x40).toUInt8]
  else if code < 0x10000 then
    [(0xe0 + code / 0x1000).toUInt8, (0x80 + code / 0x40 % 0x40).toUInt8,
     (0x80 + code % 0x40).toUInt8]
  else
    [(0xf0 + code / 0x40000).toUInt8, (0x80 + code / 0x1000 % 0x40).toUInt8,
     (0x80 + code / 0x40 % 0x40).toUInt8, (0x80 + code % 0x40).toUInt8]

def encode (text : List Char) : List UInt8 :=
  text.flatMap encodeCharacter

/-- Why bytes encode no character. -/
inductive DecodeFault
  | startByte
  | continuation
  | truncated
deriving Repr, DecidableEq

def DecodeFault.reason : DecodeFault → String
  | .startByte => "invalid start byte"
  | .continuation => "invalid continuation byte"
  | .truncated => "unexpected end of data"

/-- The first bytes that encode no character, and the offset of the first of them. -/
structure DecodeError where
  offset : Nat
  bytes : List UInt8
  fault : DecodeFault
deriving Repr, DecidableEq

/-- What the bytes at the front of a sequence encode, and how many of them there are. -/
inductive Decoding
  | character (value : Char) (length : Nat)
  | fault (fault : DecodeFault) (length : Nat)
deriving Repr, DecidableEq

def isContinuation (byte : UInt8) : Bool :=
  0x80 ≤ byte && byte < 0xc0

def payload (byte : UInt8) : Nat :=
  byte.toNat % 0x40

/-- Whether the second byte of a three byte sequence may follow its first byte. -/
def fitsThree (first second : UInt8) : Bool :=
  isContinuation second && !(first == 0xe0 && second < 0xa0) && !(first == 0xed && 0xa0 ≤ second)

/-- Whether the second byte of a four byte sequence may follow its first byte. -/
def fitsFour (first second : UInt8) : Bool :=
  isContinuation second && !(first == 0xf0 && second < 0x90) && !(first == 0xf4 && 0x90 ≤ second)

def decodeTwo (first : UInt8) : List UInt8 → Decoding
  | [] => .fault .truncated 1
  | second :: _ =>
      if isContinuation second then
        .character (Char.ofNat ((first.toNat - 0xc0) * 0x40 + payload second)) 2
      else
        .fault .continuation 1

def decodeThree (first : UInt8) : List UInt8 → Decoding
  | [] => .fault .truncated 1
  | second :: rest =>
      if fitsThree first second then
        match rest with
        | [] => .fault .truncated 2
        | third :: _ =>
            if isContinuation third then
              .character (Char.ofNat
                ((first.toNat - 0xe0) * 0x1000 + payload second * 0x40 + payload third)) 3
            else
              .fault .continuation 2
      else
        .fault .continuation 1

def decodeFour (first : UInt8) : List UInt8 → Decoding
  | [] => .fault .truncated 1
  | second :: rest =>
      if fitsFour first second then
        match rest with
        | [] => .fault .truncated 2
        | third :: rest =>
            if isContinuation third then
              match rest with
              | [] => .fault .truncated 3
              | fourth :: _ =>
                  if isContinuation fourth then
                    .character (Char.ofNat
                      ((first.toNat - 0xf0) * 0x40000 + payload second * 0x1000 +
                        payload third * 0x40 + payload fourth)) 4
                  else
                    .fault .continuation 3
            else
              .fault .continuation 2
      else
        .fault .continuation 1

/-- Read the next character. -/
def decodeNext (first : UInt8) (rest : List UInt8) : Decoding :=
  if first < 0x80 then .character (Char.ofNat first.toNat) 1
  else if first < 0xc2 then .fault .startByte 1
  else if first < 0xe0 then decodeTwo first rest
  else if first < 0xf0 then decodeThree first rest
  else if first < 0xf5 then decodeFour first rest
  else .fault .startByte 1

/-- Read bytes as text; the first byte has the given offset. -/
def decodeFrom (offset : Nat) : List UInt8 → Except DecodeError (List Char)
  | [] => .ok []
  | first :: rest =>
      match decodeNext first rest with
      | .character value length =>
          (decodeFrom (offset + length) (rest.drop (length - 1))).map (value :: ·)
      | .fault fault length => .error ⟨offset, (first :: rest).take length, fault⟩
termination_by bytes => bytes.length
decreasing_by
  simp only [List.length_drop, List.length_cons]
  omega

def decode (bytes : List UInt8) : Except DecodeError (List Char) :=
  decodeFrom 0 bytes

end ArrowScript.Text
