namespace Egl.Numeral

def natural (n : Nat) : String := String.ofList (Nat.toDigits 10 n)

/-- A signed decimal. Only a negative number carries a sign. -/
def decimal : Int → String
  | .ofNat n => natural n
  | .negSucc n => "-" ++ natural (n + 1)

def hexDigits (n : Nat) : String := String.ofList (Nat.toDigits 16 n)

/-- A number as an address is written. The null address is `0x0`. -/
def address (n : Nat) : String := "0x" ++ hexDigits n

/-- Text moved to the right end of a field of at least `width` characters. -/
def alignRight (width : Nat) (s : String) : String := String.ofList (s.toList.leftpad width ' ')

end Egl.Numeral
