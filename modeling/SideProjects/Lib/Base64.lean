import Mathlib.Data.List.Basic
import Mathlib.Tactic.TypeStar

/-!
# Base64

The standard alphabet with padding: three bytes are four characters of six bits each, and one or two
bytes at the end are padded to four. Line breaks between the characters are passed over, and the bits
that padding leaves unused are not looked at.
-/

namespace Base64

def alphabet : List Char :=
  "ABCDEFGHIJKLMNOPQRSTUVWXYZabcdefghijklmnopqrstuvwxyz0123456789+/".toList

/-- The character of six bits. -/
def char (n : ℕ) : Char := alphabet.getD n 'A'

def value (c : Char) : Option ℕ := alphabet.idxOf? c

def encode : List UInt8 → List Char
  | [] => []
  | [a] => [char (a.toNat / 4), char (a.toNat % 4 * 16), '=', '=']
  | [a, b] =>
    [char (a.toNat / 4), char (a.toNat % 4 * 16 + b.toNat / 16), char (b.toNat % 16 * 4), '=']
  | a :: b :: c :: bytes =>
    char (a.toNat / 4) :: char (a.toNat % 4 * 16 + b.toNat / 16) ::
      char (b.toNat % 16 * 4 + c.toNat / 64) :: char (c.toNat % 64) :: encode bytes

/-- The first, second and third byte of four characters. -/
def byte₁ (x y : ℕ) : UInt8 := .ofNat (x * 4 + y / 16)

def byte₂ (y z : ℕ) : UInt8 := .ofNat (y % 16 * 16 + z / 4)

def byte₃ (z w : ℕ) : UInt8 := .ofNat (z % 4 * 64 + w)

/-- Four characters after another, of which the last may be padded. -/
def decodeGroups : List Char → Option (List UInt8)
  | [] => some []
  | [c₁, c₂, '=', '='] => do
    let x ← value c₁
    let y ← value c₂
    some [byte₁ x y]
  | [c₁, c₂, c₃, '='] => do
    let x ← value c₁
    let y ← value c₂
    let z ← value c₃
    some [byte₁ x y, byte₂ y z]
  | c₁ :: c₂ :: c₃ :: c₄ :: chars => do
    let x ← value c₁
    let y ← value c₂
    let z ← value c₃
    let w ← value c₄
    let bytes ← decodeGroups chars
    some (byte₁ x y :: byte₂ y z :: byte₃ z w :: bytes)
  | _ => none

def isBreak (c : Char) : Bool := c == '\n' || c == '\r'

def decode (chars : List Char) : Option (List UInt8) := decodeGroups (chars.filter fun c => !isBreak c)

/-! ## The round trip -/

theorem value_char {n : ℕ} (h : n < 64) : value (char n) = some n := by
  have hall : ∀ n : Fin 64, value (char n) = some n.val := by decide +kernel
  exact hall ⟨n, h⟩

theorem char_ne_pad {n : ℕ} (h : n < 64) : char n ≠ '=' := by
  have hall : ∀ n : Fin 64, char n ≠ '=' := by decide +kernel
  exact hall ⟨n, h⟩

theorem mem_alphabet {n : ℕ} (h : n < 64) : char n ∈ alphabet := by
  have hall : ∀ n : Fin 64, char n ∈ alphabet := by decide +kernel
  exact hall ⟨n, h⟩

theorem byte₁_eq {a : UInt8} {y : ℕ} (hy : y / 16 = a.toNat % 4) : byte₁ (a.toNat / 4) y = a := by
  have ha := a.toNat_lt
  rw [byte₁, hy, show a.toNat / 4 * 4 + a.toNat % 4 = a.toNat by omega]
  exact UInt8.ofNat_toNat

theorem byte₂_eq (b : UInt8) {y z : ℕ} (hy : y % 16 = b.toNat / 16) (hz : z / 4 = b.toNat % 16) :
    byte₂ y z = b := by
  rw [byte₂, hy, hz, show b.toNat / 16 * 16 + b.toNat % 16 = b.toNat by omega]
  exact UInt8.ofNat_toNat

theorem byte₃_eq {c : UInt8} {z : ℕ} (hz : z % 4 = c.toNat / 64) : byte₃ z (c.toNat % 64) = c := by
  rw [byte₃, hz, show c.toNat / 64 * 64 + c.toNat % 64 = c.toNat by omega]
  exact UInt8.ofNat_toNat

theorem decodeGroups_cons {x y z w : ℕ} (hx : x < 64) (hy : y < 64) (hz : z < 64) (hw : w < 64)
    (chars : List Char) :
    decodeGroups (char x :: char y :: char z :: char w :: chars) =
      (decodeGroups chars).map fun bytes => byte₁ x y :: byte₂ y z :: byte₃ z w :: bytes := by
  have hpad := char_ne_pad hw
  rw [decodeGroups]
  · rw [value_char hx, value_char hy, value_char hz, value_char hw]
    cases decodeGroups chars <;> rfl
  · rintro - h -
    exact hpad h
  · rintro h -
    exact hpad h

theorem decodeGroups_encode : ∀ bytes : List UInt8, decodeGroups (encode bytes) = some bytes
  | [] => rfl
  | [a] => by
    have ha := a.toNat_lt
    rw [encode, decodeGroups, value_char (by omega), value_char (by omega)]
    simp only [Option.bind_eq_bind, Option.bind_some]
    rw [byte₁_eq (by omega)]
  | [a, b] => by
    have ha := a.toNat_lt
    have hb := b.toNat_lt
    have hpad : char (b.toNat % 16 * 4) ≠ '=' := char_ne_pad (by omega)
    rw [encode, decodeGroups, value_char (by omega), value_char (by omega), value_char (by omega)]
    · simp only [Option.bind_eq_bind, Option.bind_some]
      rw [byte₁_eq (by omega), byte₂_eq b (by omega) (by omega)]
    · exact hpad
  | a :: b :: c :: bytes => by
    have ha := a.toNat_lt
    have hb := b.toNat_lt
    have hc := c.toNat_lt
    rw [encode, decodeGroups_cons (by omega) (by omega) (by omega) (by omega),
      decodeGroups_encode bytes, Option.map_some, byte₁_eq (by omega),
      byte₂_eq b (by omega) (by omega), byte₃_eq (by omega)]

/-- The characters of an encoding. -/
theorem mem_encode : ∀ {bytes : List UInt8} {c : Char}, c ∈ encode bytes → c ∈ alphabet ∨ c = '='
  | [], c, h => by cases h
  | [a], c, h => by
    have ha := a.toNat_lt
    simp only [encode, List.mem_cons, List.not_mem_nil, or_false] at h
    rcases h with rfl | rfl | rfl | rfl
    · exact .inl (mem_alphabet (by omega))
    · exact .inl (mem_alphabet (by omega))
    · exact .inr rfl
    · exact .inr rfl
  | [a, b], c, h => by
    have ha := a.toNat_lt
    have hb := b.toNat_lt
    simp only [encode, List.mem_cons, List.not_mem_nil, or_false] at h
    rcases h with rfl | rfl | rfl | rfl
    · exact .inl (mem_alphabet (by omega))
    · exact .inl (mem_alphabet (by omega))
    · exact .inl (mem_alphabet (by omega))
    · exact .inr rfl
  | a :: b :: c' :: bytes, c, h => by
    have ha := a.toNat_lt
    have hb := b.toNat_lt
    have hc := c'.toNat_lt
    simp only [encode, List.mem_cons] at h
    rcases h with rfl | rfl | rfl | rfl | h
    · exact .inl (mem_alphabet (by omega))
    · exact .inl (mem_alphabet (by omega))
    · exact .inl (mem_alphabet (by omega))
    · exact .inl (mem_alphabet (by omega))
    · exact mem_encode h

theorem decode_encode (bytes : List UInt8) : decode (encode bytes) = some bytes := by
  have hbreak : alphabet.all fun c => !isBreak c := by decide
  rw [decode, List.filter_eq_self.mpr, decodeGroups_encode]
  intro c hc
  rcases mem_encode hc with hc | rfl
  · exact List.all_eq_true.mp hbreak c hc
  · rfl

end Base64
