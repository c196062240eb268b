import Mathlib.Data.List.TakeDrop
import Mathlib.Tactic.IntervalCases

/-!
# JSON texts

`value depth s` reads one value from the front of a text, nested no deeper than `depth`, and hands back
what follows it. A number stays the text it was written as. The other way round, `Reads depth t v` says
that `t` is read as `v` wherever it stands, and an object that is written from texts which are read is
read as the object of what they are read as (`reads_object`).
-/

namespace Json

abbrev Text := List Char

inductive Value
  | null
  | bool (b : Bool)
  | number (literal : Text)
  | string (s : Text)
  | array (items : List Value)
  | object (members : List (Text × Value))

def isSpace (c : Char) : Bool := c == ' ' || c == '\t' || c == '\r' || c == '\n'

def skipSpace (s : Text) : Text := s.dropWhile isSpace

/-! ## Strings -/

/-- A character that stands for itself or is escaped by its name, or a UTF-16 unit escaped by its
number. -/
inductive Piece
  | char (c : Char)
  | unit (u : ℕ)

def escaped : Char → Option Char
  | '"' => some '"'
  | '\\' => some '\\'
  | '/' => some '/'
  | 'b' => some (.ofNat 8)
  | 'f' => some (.ofNat 12)
  | 'n' => some '\n'
  | 'r' => some '\r'
  | 't' => some '\t'
  | _ => none

def hexDigit (c : Char) : Option ℕ :=
  if '0' ≤ c ∧ c ≤ '9' then some (c.toNat - '0'.toNat)
  else if 'a' ≤ c ∧ c ≤ 'f' then some (c.toNat - 'a'.toNat + 10)
  else if 'A' ≤ c ∧ c ≤ 'F' then some (c.toNat - 'A'.toNat + 10)
  else none

/-- The pieces up to the closing quote, and what follows it. -/
def pieces : Text → Option (List Piece × Text)
  | [] => none
  | '"' :: s => some ([], s)
  | '\\' :: 'u' :: a :: b :: c :: d :: s => do
    let a ← hexDigit a
    let b ← hexDigit b
    let c ← hexDigit c
    let d ← hexDigit d
    let (ps, s) ← pieces s
    some (.unit (a * 4096 + b * 256 + c * 16 + d) :: ps, s)
  | '\\' :: c :: s => do
    let c ← escaped c
    let (ps, s) ← pieces s
    some (.char c :: ps, s)
  | c :: s =>
    if c < ' ' then none
    else do
      let (ps, s) ← pieces s
      some (.char c :: ps, s)

def isHigh (u : ℕ) : Bool := 0xD800 ≤ u && u < 0xDC00

def isLow (u : ℕ) : Bool := 0xDC00 ≤ u && u < 0xE000

/-- What stands for half of a surrogate pair. -/
def replacement : Char := .ofNat 0xFFFD

def join : List Piece → Text
  | [] => []
  | .char c :: ps => c :: join ps
  | .unit u :: .unit v :: ps =>
    if isHigh u && isLow v then
      .ofNat (0x10000 + (u - 0xD800) * 0x400 + (v - 0xDC00)) :: join ps
    else if isHigh u || isLow u then replacement :: join (.unit v :: ps)
    else .ofNat u :: join (.unit v :: ps)
  | .unit u :: ps =>
    if isHigh u || isLow u then replacement :: join ps else .ofNat u :: join ps

/-- A string, after the opening quote. -/
def string (s : Text) : Option (Text × Text) := do
  let (ps, s) ← pieces s
  some (join ps, s)

/-! ## Numbers -/

def digits (s : Text) : Text × Text := s.span Char.isDigit

def sign : Text → Text × Text
  | '-' :: s => (['-'], s)
  | s => ([], s)

/-- No digit follows a leading zero. -/
def integer : Text → Option (Text × Text)
  | '0' :: s => some (['0'], s)
  | c :: s => if c.isDigit then some (c :: (digits s).1, (digits s).2) else none
  | [] => none

def fraction : Text → Option (Text × Text)
  | '.' :: s => if (digits s).1 = [] then none else some ('.' :: (digits s).1, (digits s).2)
  | s => some ([], s)

def exponentSign : Text → Text × Text
  | '+' :: s => (['+'], s)
  | '-' :: s => (['-'], s)
  | s => ([], s)

def exponent : Text → Option (Text × Text)
  | c :: s =>
    if c = 'e' ∨ c = 'E' then
      let (plus, s) := exponentSign s
      if (digits s).1 = [] then none else some (c :: plus ++ (digits s).1, (digits s).2)
    else some ([], c :: s)
  | [] => some ([], [])

def number (s : Text) : Option (Text × Text) := do
  let (minus, s) := sign s
  let (whole, s) ← integer s
  let (part, s) ← fraction s
  let (power, s) ← exponent s
  some (minus ++ whole ++ part ++ power, s)

/-! ## Values -/

def scalar : Text → Option (Value × Text)
  | '"' :: s => (string s).map fun r => (.string r.1, r.2)
  | 't' :: 'r' :: 'u' :: 'e' :: s => some (.bool true, s)
  | 'f' :: 'a' :: 'l' :: 's' :: 'e' :: s => some (.bool false, s)
  | 'n' :: 'u' :: 'l' :: 'l' :: s => some (.null, s)
  | s => (number s).map fun r => (.number r.1, r.2)

section Nested

-- How the values inside are read.
variable (value : Text → Option (Value × Text))

/-- The items up to the closing bracket, of which there is at least one. An item is at least one
character long, so as much `fuel` as there are characters is enough. -/
def elements : ℕ → Text → Option (List Value × Text)
  | 0, _ => none
  | fuel + 1, s => do
    let (v, s) ← value s
    match skipSpace s with
    | ',' :: s => do
      let (vs, s) ← elements fuel s
      some (v :: vs, s)
    | ']' :: s => some ([v], s)
    | _ => none

def member (s : Text) : Option ((Text × Value) × Text) :=
  match skipSpace s with
  | '"' :: s => do
    let (key, s) ← string s
    match skipSpace s with
    | ':' :: s => do
      let (v, s) ← value s
      some ((key, v), s)
    | _ => none
  | _ => none

def members : ℕ → Text → Option (List (Text × Value) × Text)
  | 0, _ => none
  | fuel + 1, s => do
    let (m, s) ← member value s
    match skipSpace s with
    | ',' :: s => do
      let (ms, s) ← members fuel s
      some (m :: ms, s)
    | '}' :: s => some ([m], s)
    | _ => none

/-- A value whose arrays and objects, if it may have any, have values that are read by `value`. -/
def valueWith (nested : Option (Text → Option (Value × Text))) (s : Text) : Option (Value × Text) :=
  match skipSpace s with
  | '[' :: s => do
    let value ← nested
    match skipSpace s with
    | ']' :: s => some (.array [], s)
    | _ => do
      let (vs, s) ← elements value s.length s
      some (.array vs, s)
  | '{' :: s => do
    let value ← nested
    match skipSpace s with
    | '}' :: s => some (.object [], s)
    | _ => do
      let (ms, s) ← members value s.length s
      some (.object ms, s)
  | s => scalar s

end Nested

def value : ℕ → Text → Option (Value × Text)
  | 0 => valueWith none
  | depth + 1 => valueWith (some (value depth))

/-! ## Writing -/

def field (f : Text × Text) : Text := '"' :: (f.1 ++ '"' :: ':' :: f.2)

def commas : List Text → Text
  | [] => []
  | [t] => t
  | t :: ts => t ++ ',' :: commas ts

/-- An object, of keys and the texts of their values. -/
def object (fields : List (Text × Text)) : Text := '{' :: (commas (fields.map field) ++ ['}'])

def stringText (s : Text) : Text := '"' :: (s ++ ['"'])

def numberText (n : ℕ) : Text := Nat.toDigits 10 n

def nullText : Text := ['n', 'u', 'l', 'l']

/-! ## What is written is read -/

/-- The characters that need no escape. -/
def Plain (s : Text) : Prop := ∀ c ∈ s, c ≠ '"' ∧ c ≠ '\\' ∧ ¬ c < ' '

instance Plain.decidable (s : Text) : Decidable (Plain s) :=
  List.decidableBAll (fun c => c ≠ '"' ∧ c ≠ '\\' ∧ ¬ c < ' ') s

theorem pieces_plain {rest : Text} : ∀ {s : Text}, Plain s →
    pieces (s ++ '"' :: rest) = some (s.map .char, rest)
  | [], _ => by rw [List.nil_append, pieces, List.map_nil]
  | c :: s, h => by
    obtain ⟨hquote, hslash, hspace⟩ := h c List.mem_cons_self
    have ih : pieces (s ++ '"' :: rest) = _ :=
      pieces_plain fun c' hc' => h c' (List.mem_cons_of_mem c hc')
    rw [List.cons_append, pieces, if_neg hspace, ih]
    · rfl
    · exact fun he => absurd he hquote
    · exact fun _ _ _ _ _ he _ => absurd he hslash
    · exact fun _ _ he _ => absurd he hslash

theorem join_map_char : ∀ s : Text, join (s.map .char) = s
  | [] => rfl
  | c :: s => by rw [List.map_cons, join, join_map_char s]

theorem string_plain {s : Text} (h : Plain s) (rest : Text) :
    string (s ++ '"' :: rest) = some (s, rest) := by
  rw [string, pieces_plain h]
  simp [join_map_char]

/-- A number may end before this. -/
def Stops : Text → Prop
  | [] => True
  | c :: _ => c.isDigit = false ∧ c ≠ '.' ∧ c ≠ 'e' ∧ c ≠ 'E'

theorem digits_append {ds rest : Text} (hds : ∀ c ∈ ds, c.isDigit) (hrest : Stops rest) :
    digits (ds ++ rest) = (ds, rest) := by
  have hstop : rest.takeWhile Char.isDigit = [] ∧ rest.dropWhile Char.isDigit = rest := by
    cases rest with
    | nil => exact ⟨rfl, rfl⟩
    | cons c rest => simp [hrest.1]
  rw [digits, List.span_eq_takeWhile_dropWhile, List.takeWhile_append_of_pos hds,
    List.dropWhile_append_of_pos hds, hstop.1, hstop.2, List.append_nil]

/-- The first digit of a number is not zero, unless the number is. -/
theorem toDigits_head {n : ℕ} (hn : 0 < n) : ∃ c ds, Nat.toDigits 10 n = c :: ds ∧ c ≠ '0' := by
  induction n using Nat.strong_induction_on with
  | h n ih =>
    rcases Nat.lt_or_ge n 10 with hlt | hge
    · refine ⟨n.digitChar, [], Nat.toDigits_of_lt_base hlt, ?_⟩
      interval_cases n <;> decide
    · obtain ⟨c, ds, hds, hc⟩ := ih (n / 10) (by omega) (by omega)
      rw [Nat.toDigits_of_base_le (by decide) hge, hds]
      exact ⟨c, ds ++ [(n % 10).digitChar], rfl, hc⟩

theorem integer_toDigits (n : ℕ) {rest : Text} (h : Stops rest) :
    integer (numberText n ++ rest) = some (numberText n, rest) := by
  unfold numberText
  rcases Nat.eq_zero_or_pos n with rfl | hn
  · rfl
  · obtain ⟨c, ds, hds, hc⟩ := toDigits_head hn
    have hdigit : ∀ x ∈ c :: ds, x.isDigit := fun x hx =>
      Nat.isDigit_of_mem_toDigits (by decide) (by decide) (hds ▸ hx)
    rw [hds, List.cons_append, integer, if_pos (hdigit c List.mem_cons_self),
      digits_append (fun x hx => hdigit x (List.mem_cons_of_mem c hx)) h]
    exact hc

theorem fraction_stops {rest : Text} (h : Stops rest) : fraction rest = some ([], rest) := by
  unfold fraction
  split
  · exact absurd rfl h.2.1
  · rfl

theorem exponent_stops {rest : Text} (h : Stops rest) : exponent rest = some ([], rest) := by
  unfold exponent
  split
  · rw [if_neg]
    rintro (rfl | rfl)
    · exact h.2.2.1 rfl
    · exact h.2.2.2 rfl
  · rfl

theorem exists_digit (n : ℕ) : ∃ c ds, numberText n = c :: ds ∧ c.isDigit := by
  have hdigit : ∀ c ∈ numberText n, c.isDigit := fun c hc =>
    Nat.isDigit_of_mem_toDigits (by decide) (by decide) hc
  cases ht : numberText n with
  | nil => exact absurd ht Nat.toDigits_ne_nil
  | cons c ds => exact ⟨c, ds, rfl, hdigit c (ht ▸ List.mem_cons_self)⟩

theorem number_toDigits (n : ℕ) {rest : Text} (h : Stops rest) :
    number (numberText n ++ rest) = some (numberText n, rest) := by
  have hsign : sign (numberText n ++ rest) = ([], numberText n ++ rest) := by
    obtain ⟨c, ds, ht, hc⟩ := exists_digit n
    rw [ht, List.cons_append, sign]
    rintro s he
    obtain ⟨rfl, -⟩ := List.cons.inj he
    exact absurd hc (by decide)
  rw [number, hsign]
  simp only [integer_toDigits n h, fraction_stops h, exponent_stops h, Option.bind_eq_bind,
    Option.bind_some, List.nil_append, List.append_nil]

/-- Wherever it stands, the text is read as the value. -/
def Reads (depth : ℕ) (t : Text) (v : Value) : Prop :=
  ∀ rest, Stops rest → value depth (t ++ rest) = some (v, rest)

theorem skipSpace_cons {c : Char} (h : isSpace c = false) (s : Text) : skipSpace (c :: s) = c :: s := by
  rw [skipSpace, List.dropWhile_cons_of_neg (by simp [h])]

/-- A text that begins with none of these is not nested. -/
theorem value_scalar (depth : ℕ) {c : Char} (s : Text)
    (h : isSpace c = false ∧ c ≠ '[' ∧ c ≠ '{') : value depth (c :: s) = scalar (c :: s) := by
  have hwith : ∀ nested, valueWith nested (c :: s) = scalar (c :: s) := by
    intro nested
    unfold valueWith
    rw [skipSpace_cons h.1]
    split
    · rename_i he
      exact absurd (List.cons.inj he).1 h.2.1
    · rename_i he
      exact absurd (List.cons.inj he).1 h.2.2
    · rfl
  cases depth with
  | zero => exact hwith none
  | succ depth => exact hwith _

theorem reads_string (depth : ℕ) {s : Text} (h : Plain s) : Reads depth (stringText s) (.string s) := by
  intro rest _
  rw [stringText, List.cons_append, value_scalar depth _ (by decide), scalar, List.append_assoc,
    List.singleton_append, string_plain h]
  rfl

theorem reads_null (depth : ℕ) : Reads depth nullText .null := by
  intro rest _
  rw [nullText, List.cons_append, value_scalar depth _ (by decide)]
  rfl

theorem reads_number (depth n : ℕ) : Reads depth (numberText n) (.number (numberText n)) := by
  intro rest hrest
  have hnumber := number_toDigits n hrest
  obtain ⟨c, ds, ht, hc⟩ := exists_digit n
  rw [ht, List.cons_append] at hnumber ⊢
  have hne : ∀ c', c'.isDigit = false → c ≠ c' := by
    rintro c' hc' rfl
    rw [hc] at hc'
    cases hc'
  rw [value_scalar depth _ ⟨?_, hne '[' rfl, hne '{' rfl⟩, scalar, hnumber]
  · rfl
  · exact fun _ he => absurd (List.cons.inj he).1 (hne '"' rfl)
  · exact fun _ he => absurd (List.cons.inj he).1 (hne 't' rfl)
  · exact fun _ he => absurd (List.cons.inj he).1 (hne 'f' rfl)
  · exact fun _ he => absurd (List.cons.inj he).1 (hne 'n' rfl)
  · simp [isSpace, hne ' ' rfl, hne '\t' rfl, hne '\r' rfl, hne '\n' rfl]

/-! ## Objects -/

theorem member_field {depth : ℕ} {f : Text × Text} {m : Text × Value} (hkey : f.1 = m.1)
    (hplain : Plain f.1) (h : Reads depth f.2 m.2) {rest : Text} (hrest : Stops rest) :
    member (value depth) (field f ++ rest) = some (m, rest) := by
  obtain ⟨k, t⟩ := f
  obtain ⟨k', v⟩ := m
  obtain rfl : k = k' := hkey
  have hfield : field (k, t) ++ rest = '"' :: (k ++ '"' :: ':' :: (t ++ rest)) := by
    simp [field]
  rw [hfield, member, skipSpace_cons rfl]
  simp only [string_plain hplain, Option.bind_eq_bind, Option.bind_some]
  rw [skipSpace_cons rfl]
  simp only [h rest hrest, Option.bind_some]

theorem stops_comma (s : Text) : Stops (',' :: s) :=
  ⟨rfl, by decide, by decide, by decide⟩

theorem stops_brace (s : Text) : Stops ('}' :: s) :=
  ⟨rfl, by decide, by decide, by decide⟩

/-- Every field takes a round, and at least one character. -/
theorem members_fields {depth : ℕ} (rest : Text) : ∀ {fields : List (Text × Text)}
    {ms : List (Text × Value)} {fuel : ℕ}, fields ≠ [] →
    List.Forall₂ (fun f m => f.1 = m.1 ∧ Plain f.1 ∧ Reads depth f.2 m.2) fields ms →
    fields.length ≤ fuel →
    members (value depth) fuel (commas (fields.map field) ++ '}' :: rest) = some (ms, rest)
  | [f], [m], fuel + 1, _, .cons ⟨hkey, hplain, hreads⟩ .nil, _ => by
    rw [members, List.map_cons, List.map_nil, commas,
      member_field hkey hplain hreads (stops_brace rest)]
    simp only [Option.bind_eq_bind, Option.bind_some]
    rw [skipSpace_cons rfl]
    rfl
  | f :: f' :: fields, m :: ms, fuel + 1, _, .cons ⟨hkey, hplain, hreads⟩ hfields, hfuel => by
    have ih : members (value depth) fuel (commas ((f' :: fields).map field) ++ '}' :: rest) = _ :=
      members_fields rest (List.cons_ne_nil f' fields) hfields (Nat.le_of_succ_le_succ hfuel)
    rw [members, List.map_cons, List.map_cons, commas, ← List.map_cons, List.append_assoc,
      List.cons_append, member_field hkey hplain hreads (stops_comma _)]
    simp only [Option.bind_eq_bind, Option.bind_some]
    rw [skipSpace_cons rfl]
    · simp only [ih, Option.bind_some]
    · exact List.cons_ne_nil _ _

theorem length_commas : ∀ ts : List Text, ts.length ≤ (commas ts).length + 1
  | [] => Nat.zero_le _
  | [_] => Nat.le_add_left _ _
  | t :: t' :: ts => by
    have ih := length_commas (t' :: ts)
    simp only [commas, List.length_cons, List.length_append] at ih ⊢
    omega

theorem reads_object {depth : ℕ} {fields : List (Text × Text)} {ms : List (Text × Value)}
    (h : List.Forall₂ (fun f m => f.1 = m.1 ∧ Plain f.1 ∧ Reads depth f.2 m.2) fields ms) :
    Reads (depth + 1) (object fields) (.object ms) := by
  intro rest _
  have hopen : ∀ s, skipSpace ('{' :: s) = '{' :: s := skipSpace_cons rfl
  rw [object, List.cons_append, List.append_assoc, List.singleton_append, value, valueWith, hopen]
  cases h with
  | nil => rfl
  | @cons f m fields ms hf hfields =>
    have hlength : (f :: fields).length ≤
        (commas ((f :: fields).map field) ++ '}' :: rest).length := by
      have := length_commas ((f :: fields).map field)
      simp only [List.length_map, List.length_append, List.length_cons] at this ⊢
      omega
    have hmembers := members_fields rest (List.cons_ne_nil f fields) (.cons hf hfields) hlength
    obtain ⟨s, hs⟩ : ∃ s, commas ((f :: fields).map field) ++ '}' :: rest = '"' :: s := by
      cases fields with
      | nil => exact ⟨_, rfl⟩
      | cons f' fields => exact ⟨_, rfl⟩
    rw [hs] at hmembers ⊢
    simp only [Option.bind_eq_bind, Option.bind_some]
    rw [skipSpace_cons rfl]
    simp only [hmembers, Option.bind_some]
    rfl

end Json
