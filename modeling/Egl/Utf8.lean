namespace Egl.Utf8

/-- The bytes of one character, in the shortest of the four forms that can hold it. -/
def encodeChar (c : Char) : List UInt8 :=
  let n := c.toNat
  if n < 0x80 then [.ofNat n]
  else if n < 0x800 then [.ofNat (0xC0 + n / 64), .ofNat (0x80 + n % 64)]
  else if n < 0x10000 then
    [.ofNat (0xE0 + n / 4096), .ofNat (0x80 + n / 64 % 64), .ofNat (0x80 + n % 64)]
  else
    [.ofNat (0xF0 + n / 262144), .ofNat (0x80 + n / 4096 % 64), .ofNat (0x80 + n / 64 % 64),
      .ofNat (0x80 + n % 64)]

def encode (cs : List Char) : List UInt8 := cs.flatMap encodeChar

def payload? (b : UInt8) : Option Nat :=
  if 0x80 ≤ b ∧ b < 0xC0 then some (b.toNat - 0x80) else none

/-- The character with a given number, unless a shorter form could hold that number or it is no
scalar value. -/
def scalar? (least n : Nat) : Option Char :=
  if h : least ≤ n ∧ n.isValidChar then some (Char.ofNatAux n h.2) else none

def pair? (a b : UInt8) : Option Char := do
  let y ← payload? b
  scalar? 0x80 ((a.toNat - 0xC0) * 64 + y)

/-- The character of a three-byte form. Surrogates have no scalar value. -/
def triple? (a b c : UInt8) : Option Char := do
  let y ← payload? b
  let z ← payload? c
  scalar? 0x800 ((a.toNat - 0xE0) * 4096 + y * 64 + z)

/-- The character of a four-byte form. A lead byte past `0xF4` stands for no scalar value. -/
def quad? (a b c d : UInt8) : Option Char := do
  let y ← payload? b
  let z ← payload? c
  let u ← payload? d
  scalar? 0x10000 ((a.toNat - 0xF0) * 262144 + y * 4096 + z * 64 + u)

/-- The characters of a text, unless some part of it is not the shortest form of a character. -/
def decode : List UInt8 → Option (List Char)
  | [] => some []
  | a :: rest =>
    if a < 0x80 then (decode rest).map (Char.ofNat a.toNat :: ·)
    else if a < 0xC0 then none
    else if a < 0xE0 then
      match rest with
      | b :: rest => (pair? a b).bind fun ch => (decode rest).map (ch :: ·)
      | [] => none
    else if a < 0xF0 then
      match rest with
      | b :: c :: rest => (triple? a b c).bind fun ch => (decode rest).map (ch :: ·)
      | _ => none
    else
      match rest with
      | b :: c :: d :: rest => (quad? a b c d).bind fun ch => (decode rest).map (ch :: ·)
      | _ => none

def valid (bytes : List UInt8) : Bool := (decode bytes).isSome

/-- What a lead byte asks for: how many bytes follow it, and between which bounds the first of them
lies. -/
structure Lead where
  trail : Nat
  lower : UInt8
  upper : UInt8

/-- The lead bytes of more than one byte. Their bounds keep out forms that are too long, surrogates
and whatever comes after the last scalar value. -/
def lead? (a : UInt8) : Option Lead :=
  if 0xC2 ≤ a ∧ a ≤ 0xDF then some ⟨1, 0x80, 0xBF⟩
  else if 0xE0 ≤ a ∧ a ≤ 0xEF then
    some ⟨2, if a = 0xE0 then 0xA0 else 0x80, if a = 0xED then 0x9F else 0xBF⟩
  else if 0xF0 ≤ a ∧ a ≤ 0xF4 then
    some ⟨3, if a = 0xF0 then 0x90 else 0x80, if a = 0xF4 then 0x8F else 0xBF⟩
  else none

/-- Whether some bytes from a place on are of the kind that only continues a character. A buffer has
no byte outside, so a scan that looks there has no answer. -/
def continues? (buffer : List UInt8) (place : Nat) : Nat → Option Bool
  | 0 => some true
  | n + 1 =>
    match buffer[place]? with
    | none => none
    | some b => if b < 0x80 ∨ 0xBF < b then some false else continues? buffer (place + 1) n

/-- Whether the bytes from a place on are those that a lead byte asks for. -/
def follows? (lead : Lead) (buffer : List UInt8) (place : Nat) : Option Bool :=
  match buffer[place]? with
  | none => none
  | some b =>
    if b < lead.lower ∨ lead.upper < b then some false
    else continues? buffer (place + 1) (lead.trail - 1)

/-- Scans a buffer from a place on, byte by byte and without making characters of them. -/
def scanFrom? (buffer : List UInt8) (place : Nat) : Option Bool :=
  if place = buffer.length then some true
  else
    match hb : buffer[place]? with
    | none => none
    | some a =>
      have : place < buffer.length := (List.getElem?_eq_some_iff.mp hb).1
      if a < 0x80 then scanFrom? buffer (place + 1)
      else
        match lead? a with
        | none => some false
        | some lead =>
          if buffer.length - (place + 1) < lead.trail then some false
          else
            match follows? lead buffer (place + 1) with
            | some true => scanFrom? buffer (place + 1 + lead.trail)
            | other => other
termination_by buffer.length - place

def scan? (buffer : List UInt8) : Option Bool := scanFrom? buffer 0

end Egl.Utf8
