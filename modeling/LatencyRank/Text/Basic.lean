/-!
Characters and bytes of texts: what Unicode calls white space, bytes as signs, and bytes as pairs of
lower-case hexadecimal digits. A sign is a character, or `none` for a byte that belongs to no character;
bytes that are a text are exactly the signs of its characters.
-/

namespace LatencyRank.Text

/-- The code points with the property White_Space, as closed ranges. -/
def blankRanges : List (Nat × Nat) :=
  [(0x09, 0x0D), (0x20, 0x20), (0x85, 0x85), (0xA0, 0xA0), (0x1680, 0x1680), (0x2000, 0x200A),
   (0x2028, 0x2029), (0x202F, 0x202F), (0x205F, 0x205F), (0x3000, 0x3000)]

def isBlank (c : Char) : Bool := blankRanges.any fun (low, high) => low ≤ c.toNat && c.toNat ≤ high

def dropEnd (p : Char → Bool) (chars : List Char) : List Char := (chars.reverse.dropWhile p).reverse

def trim (text : String) : String := String.ofList (dropEnd isBlank (text.toList.dropWhile isBlank))

theorem isBlank_of_isWhitespace {c : Char} (h : c.isWhitespace = true) : isBlank c = true := by
  simp only [Char.isWhitespace, Bool.or_eq_true, decide_eq_true_eq] at h
  rcases h with ((rfl | rfl) | rfl) | rfl <;> decide

/-- The signs from a position on: the longest start that is one character, or one stray byte. -/
def signsFrom (bytes : ByteArray) (at' : Nat) : List (Option Char) :=
  if at' < bytes.size then
    match bytes.utf8DecodeChar? at' with
    | some c => some c :: signsFrom bytes (at' + c.utf8Size)
    | none => none :: signsFrom bytes (at' + 1)
  else []
termination_by bytes.size - at'
decreasing_by
  · have := c.utf8Size_pos
    omega
  · omega

def signs (bytes : ByteArray) : List (Option Char) :=
  match String.fromUTF8? bytes with
  | some text => text.toList.map some
  | none => signsFrom bytes 0

def hexDigit? (c : Char) : Option Nat :=
  if '0' ≤ c ∧ c ≤ '9' then some (c.toNat - '0'.toNat)
  else if 'a' ≤ c ∧ c ≤ 'f' then some (c.toNat - 'a'.toNat + 10)
  else if 'A' ≤ c ∧ c ≤ 'F' then some (c.toNat - 'A'.toNat + 10)
  else none

def hexChars (byte : UInt8) : List Char :=
  [Nat.digitChar (byte.toNat / 16), Nat.digitChar (byte.toNat % 16)]

def hex (bytes : List UInt8) : String := String.ofList (bytes.flatMap hexChars)

def bytesOfHex? : List Char → Option (List UInt8)
  | [] => some []
  | high :: low :: rest => do
    let high ← hexDigit? high
    let low ← hexDigit? low
    let rest ← bytesOfHex? rest
    return UInt8.ofNat (16 * high + low) :: rest
  | [_] => none

theorem hexDigit?_digitChar {n : Nat} (h : n < 16) : hexDigit? (Nat.digitChar n) = some n :=
  (by decide : ∀ d : Fin 16, hexDigit? (Nat.digitChar d.val) = some d.val) ⟨n, h⟩

theorem bytesOfHex?_hexChars (byte : UInt8) (rest : List Char) :
    bytesOfHex? (hexChars byte ++ rest) = (bytesOfHex? rest).map (byte :: ·) := by
  have bound := byte.toNat_lt
  have whole : UInt8.ofNat (16 * (byte.toNat / 16) + byte.toNat % 16) = byte := by
    rw [Nat.div_add_mod, UInt8.ofNat_toNat]
  simp only [hexChars, List.cons_append, List.nil_append, bytesOfHex?,
    hexDigit?_digitChar (show byte.toNat / 16 < 16 by omega),
    hexDigit?_digitChar (show byte.toNat % 16 < 16 by omega), Option.bind_eq_bind,
    Option.bind_some, whole]
  cases bytesOfHex? rest <;> rfl

theorem bytesOfHex?_hex (bytes : List UInt8) : bytesOfHex? (bytes.flatMap hexChars) = some bytes := by
  induction bytes with
  | nil => rfl
  | cons byte rest ih => simp [bytesOfHex?_hexChars, ih]

end LatencyRank.Text
