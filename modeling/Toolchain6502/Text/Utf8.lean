namespace Toolchain6502.Text

inductive Utf8Reason where
  | invalidStart
  | invalidContinuation
  | unexpectedEnd
deriving DecidableEq, Repr

def Utf8Reason.text : Utf8Reason → String
  | invalidStart => "invalid start byte"
  | invalidContinuation => "invalid continuation byte"
  | unexpectedEnd => "unexpected end of data"

/-- The bytes from `start` on, `count` of them, that are no character; `first` is the first. -/
structure Utf8Fault where
  first : UInt8
  start : Nat
  count : Nat
  reason : Utf8Reason
deriving DecidableEq, Repr

def lowerHexByte (b : UInt8) : String :=
  let digits := Nat.toDigits 16 b.toNat
  String.ofList (List.replicate (2 - digits.length) '0' ++ digits)

def Utf8Fault.message (f : Utf8Fault) : String :=
  if f.count = 1 then
    s!"'utf-8' codec can't decode byte 0x{lowerHexByte f.first} in position {f.start}: " ++
      f.reason.text
  else
    s!"'utf-8' codec can't decode bytes in position {f.start}-{f.start + f.count - 1}: " ++
      f.reason.text

def isContinuation (b : UInt8) : Bool := 0x80 ≤ b && b ≤ 0xBF

/-- The second byte of a longer character is narrowed by the first: no overlong forms, no
surrogates, nothing above the last code point. -/
def isSecond (first second : UInt8) : Bool :=
  isContinuation second &&
    (first != 0xE0 || 0xA0 ≤ second) && (first != 0xED || second ≤ 0x9F) &&
    (first != 0xF0 || 0x90 ≤ second) && (first != 0xF4 || second ≤ 0x8F)

def utf8Length? (b : UInt8) : Option Nat :=
  if b < 0x80 then some 1
  else if b < 0xC2 then none
  else if b < 0xE0 then some 2
  else if b < 0xF0 then some 3
  else if b < 0xF5 then some 4
  else none

def codePoint (first : UInt8) (more : List UInt8) : Nat :=
  let lead := match more.length with
    | 0 => first.toNat
    | 1 => first.toNat % 0x20
    | 2 => first.toNat % 0x10
    | _ => first.toNat % 0x08
  more.foldl (fun n b => n * 0x40 + b.toNat % 0x40) lead

def continues (first : UInt8) (position : Nat) (b : UInt8) : Bool :=
  if position = 1 then isSecond first b else isContinuation b

/-- The continuation bytes of a character, in order: `position` is that of the next byte. -/
def readMore (first : UInt8) (position : Nat) : Nat → List UInt8 →
    Except (Nat × Utf8Reason) (List UInt8 × List UInt8)
  | 0, rest => .ok ([], rest)
  | _ + 1, [] => .error (position, .unexpectedEnd)
  | need + 1, b :: rest =>
    if continues first position b then do
      let (more, rest) ← readMore first (position + 1) need rest
      return (b :: more, rest)
    else .error (position, .invalidContinuation)

theorem readMore_length {first : UInt8} {position need : Nat} {bytes more rest : List UInt8}
    (h : readMore first position need bytes = .ok (more, rest)) : rest.length ≤ bytes.length := by
  induction need generalizing position bytes more rest with
  | zero => simp [readMore] at h; simp [h.2]
  | succ need ih =>
    cases bytes with
    | nil => simp [readMore] at h
    | cons b bytes =>
      simp only [readMore] at h
      split at h
      · cases hr : readMore first (position + 1) need bytes with
        | error e => simp [hr, bind, Except.bind] at h
        | ok r =>
          obtain ⟨m, t⟩ := r
          simp [hr, bind, Except.bind, pure, Except.pure] at h
          have := ih hr
          rw [← h.2]
          simp only [List.length_cons]
          omega
      · simp at h

def decodeFrom (position : Nat) : List UInt8 → Except Utf8Fault (List Char)
  | [] => .ok []
  | first :: bytes =>
    match utf8Length? first with
    | none => .error ⟨first, position, 1, .invalidStart⟩
    | some size =>
      match _h : readMore first 1 (size - 1) bytes with
      | .error (count, reason) => .error ⟨first, position, count, reason⟩
      | .ok (more, rest) => do
        let chars ← decodeFrom (position + size) rest
        return Char.ofNat (codePoint first more) :: chars
termination_by bytes => bytes.length
decreasing_by
  have := readMore_length _h
  simp only [List.length_cons]
  omega

def decodeUtf8 (bytes : List UInt8) : Except Utf8Fault (List Char) := decodeFrom 0 bytes

def encodeUtf8 (cs : List Char) : List UInt8 := cs.flatMap String.utf8EncodeChar

end Toolchain6502.Text
