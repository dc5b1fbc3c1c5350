import ZigKernel.LibUtf8

/-! JSON texts by the grammar of RFC 8259 and a parser for it. A text is a list of bytes in UTF-8. A string
means the bytes it stands for, a number keeps its spelling, and the members of an object stay in order. An
escaped surrogate names a code point with its other half only. -/

namespace Json

inductive Value where
  | null
  | bool (b : Bool)
  | number (text : List UInt8)
  | string (text : List UInt8)
  | array (items : List Value)
  | object (members : List (List UInt8 × Value))

def ascii (s : String) : List UInt8 := s.toList.map fun c => UInt8.ofNat c.toNat

/-- A literal is the list of its characters: this spares the kernel their encoding. -/
theorem ascii_ofList (l : List Char) : ascii (String.ofList l) = l.map fun c => UInt8.ofNat c.toNat := by
  rw [ascii, String.toList_ofList]

def quote : UInt8 := 0x22
def backslash : UInt8 := 0x5c
def comma : UInt8 := 0x2c
def colon : UInt8 := 0x3a
def openBracket : UInt8 := 0x5b
def closeBracket : UInt8 := 0x5d
def openBrace : UInt8 := 0x7b
def closeBrace : UInt8 := 0x7d
def minus : UInt8 := 0x2d
def plus : UInt8 := 0x2b
def dot : UInt8 := 0x2e
def zero : UInt8 := 0x30

def isWs (b : UInt8) : Bool := b == 0x20 || b == 0x09 || b == 0x0a || b == 0x0d

def isDigit (b : UInt8) : Bool := 0x30 ≤ b && b ≤ 0x39

/-- The letters of an exponent. -/
def isExp (b : UInt8) : Bool := b == 0x65 || b == 0x45

/-- A byte that stands for itself in a string. -/
def isPlain (b : UInt8) : Bool := 0x20 ≤ b && b != quote && b != backslash

def hexDigit (b : UInt8) : Option Nat :=
  if 0x30 ≤ b ∧ b ≤ 0x39 then some (b.toNat - 0x30)
  else if 0x61 ≤ b ∧ b ≤ 0x66 then some (b.toNat - 0x57)
  else if 0x41 ≤ b ∧ b ≤ 0x46 then some (b.toNat - 0x37)
  else none

/-- The number behind `\u`. -/
def codeUnit (a b c d : UInt8) : Option Nat := do
  some ((((← hexDigit a) * 16 + (← hexDigit b)) * 16 + (← hexDigit c)) * 16 + (← hexDigit d))

def IsHigh (u : Nat) : Prop := 0xd800 ≤ u ∧ u < 0xdc00

def IsLow (u : Nat) : Prop := 0xdc00 ≤ u ∧ u < 0xe000

instance (u : Nat) : Decidable (IsHigh u) := inferInstanceAs (Decidable (_ ∧ _))

instance (u : Nat) : Decidable (IsLow u) := inferInstanceAs (Decidable (_ ∧ _))

/-- The code point of two surrogates. -/
def joined (high low : Nat) : Nat := 0x10000 + (high - 0xd800) * 0x400 + (low - 0xdc00)

/-- The escapes of one letter. -/
def shortEscape (b : UInt8) : Option UInt8 :=
  if b = quote ∨ b = backslash ∨ b = 0x2f then some b
  else if b = 0x62 then some 0x08
  else if b = 0x66 then some 0x0c
  else if b = 0x6e then some 0x0a
  else if b = 0x72 then some 0x0d
  else if b = 0x74 then some 0x09
  else none

/-! ### The grammar -/

def Ws (w : List UInt8) : Prop := ∀ b ∈ w, isWs b = true

def Digits (t : List UInt8) : Prop := t ≠ [] ∧ ∀ b ∈ t, isDigit b = true

def IsInt (t : List UInt8) : Prop := t = [zero] ∨ (Digits t ∧ t.head? ≠ some zero)

def IsFrac (t : List UInt8) : Prop := t = [] ∨ ∃ ds, t = dot :: ds ∧ Digits ds

def IsExponent (t : List UInt8) : Prop :=
  t = [] ∨ ∃ e s ds, t = e :: (s ++ ds) ∧ isExp e = true ∧ (s = [] ∨ ∃ b ∈ [plus, minus], s = [b]) ∧ Digits ds

def IsNumber (t : List UInt8) : Prop :=
  ∃ s int frac exp, t = s ++ (int ++ (frac ++ exp)) ∧ (s = [] ∨ ∃ b ∈ [minus], s = [b]) ∧ IsInt int ∧ IsFrac frac ∧
    IsExponent exp

/-- What stands between the quotes, and the bytes it means. -/
inductive Chars : List UInt8 → List UInt8 → Prop
  | nil : Chars [] []
  | plain {b t s} (hb : isPlain b = true) (h : Chars t s) : Chars (b :: t) (b :: s)
  | short {e b t s} (he : shortEscape e = some b) (h : Chars t s) : Chars (backslash :: e :: t) (b :: s)
  | unit {a b c d u t s} (hu : codeUnit a b c d = some u) (hhigh : ¬IsHigh u) (hlow : ¬IsLow u) (h : Chars t s) :
      Chars (backslash :: 0x75 :: a :: b :: c :: d :: t) (Utf8.encode u ++ s)
  | pair {a b c d a' b' c' d' u u' t s} (hu : codeUnit a b c d = some u) (hhigh : IsHigh u)
      (hu' : codeUnit a' b' c' d' = some u') (hlow : IsLow u') (h : Chars t s) :
      Chars (backslash :: 0x75 :: a :: b :: c :: d :: backslash :: 0x75 :: a' :: b' :: c' :: d' :: t)
        (Utf8.encode (joined u u') ++ s)

/-- A value, the items of an array and the members of an object, each without its brackets. -/
inductive Phrase where
  | value (v : Value)
  | items (vs : List Value)
  | members (ms : List (List UInt8 × Value))

inductive Derives : List UInt8 → Phrase → Prop
  | null : Derives (ascii "null") (.value .null)
  | true : Derives (ascii "true") (.value (.bool true))
  | false : Derives (ascii "false") (.value (.bool false))
  | number {t} (h : IsNumber t) : Derives t (.value (.number t))
  | string {t s} (h : Chars t s) : Derives (quote :: (t ++ [quote])) (.value (.string s))
  | emptyArray {w} (hw : Ws w) : Derives (openBracket :: (w ++ [closeBracket])) (.value (.array []))
  | array {t vs} (h : Derives t (.items vs)) : Derives (openBracket :: (t ++ [closeBracket])) (.value (.array vs))
  | emptyObject {w} (hw : Ws w) : Derives (openBrace :: (w ++ [closeBrace])) (.value (.object []))
  | object {t ms} (h : Derives t (.members ms)) : Derives (openBrace :: (t ++ [closeBrace])) (.value (.object ms))
  | lastItem {w w' t v} (hw : Ws w) (hw' : Ws w') (h : Derives t (.value v)) : Derives (w ++ (t ++ w')) (.items [v])
  | item {w w' t v t' vs} (hw : Ws w) (hw' : Ws w') (h : Derives t (.value v)) (h' : Derives t' (.items vs)) :
      Derives (w ++ (t ++ (w' ++ comma :: t'))) (.items (v :: vs))
  | lastMember {w₁ w₂ w₃ w₄ n s t v} (hw₁ : Ws w₁) (hw₂ : Ws w₂) (hw₃ : Ws w₃) (hw₄ : Ws w₄) (hn : Chars n s)
      (h : Derives t (.value v)) :
      Derives (w₁ ++ quote :: (n ++ quote :: (w₂ ++ colon :: (w₃ ++ (t ++ w₄))))) (.members [(s, v)])
  | member {w₁ w₂ w₃ w₄ n s t v t' ms} (hw₁ : Ws w₁) (hw₂ : Ws w₂) (hw₃ : Ws w₃) (hw₄ : Ws w₄) (hn : Chars n s)
      (h : Derives t (.value v)) (h' : Derives t' (.members ms)) :
      Derives (w₁ ++ quote :: (n ++ quote :: (w₂ ++ colon :: (w₃ ++ (t ++ (w₄ ++ comma :: t'))))))
        (.members ((s, v) :: ms))

/-- The text is a JSON document that means the value. -/
def Document (text : List UInt8) (v : Value) : Prop :=
  Utf8.Valid text ∧ ∃ w t w', text = w ++ (t ++ w') ∧ Ws w ∧ Ws w' ∧ Derives t (.value v)

/-! ### The parser

Each function returns what it read and the bytes behind it; the fuel is a bound on the bytes. -/

def skipWs (bs : List UInt8) : List UInt8 := bs.dropWhile isWs

/-- One of these bytes, behind white space. -/
def expect (b : UInt8) (bs : List UInt8) : Option (List UInt8) :=
  match skipWs bs with
  | c :: rest => if c = b then some rest else none
  | [] => none

def literal (t bs : List UInt8) : Option (List UInt8) := if t <+: bs then some (bs.drop t.length) else none

def digits (bs : List UInt8) : Option (List UInt8 × List UInt8) :=
  if bs.takeWhile isDigit = [] then none else some (bs.takeWhile isDigit, bs.dropWhile isDigit)

def sign (allowed : List UInt8) (bs : List UInt8) : List UInt8 × List UInt8 :=
  match bs with
  | b :: rest => if b ∈ allowed then ([b], rest) else ([], bs)
  | [] => ([], [])

def intPart (bs : List UInt8) : Option (List UInt8 × List UInt8) :=
  match bs with
  | b :: rest => if b = zero then some ([zero], rest) else digits bs
  | [] => none

def fracPart (bs : List UInt8) : Option (List UInt8 × List UInt8) :=
  match bs with
  | b :: rest => if b = dot then (digits rest).map fun (ds, rest) => (dot :: ds, rest) else some ([], bs)
  | [] => some ([], [])

def expPart (bs : List UInt8) : Option (List UInt8 × List UInt8) :=
  match bs with
  | b :: rest =>
      if isExp b then
        (digits (sign [plus, minus] rest).2).map fun (ds, rest') => (b :: ((sign [plus, minus] rest).1 ++ ds), rest')
      else some ([], bs)
  | [] => some ([], [])

def number (bs : List UInt8) : Option (List UInt8 × List UInt8) := do
  let (int, rest) ← intPart (sign [minus] bs).2
  let (frac, rest) ← fracPart rest
  let (exp, rest) ← expPart rest
  some ((sign [minus] bs).1 ++ (int ++ (frac ++ exp)), rest)

/-- The second half of a code point behind a high surrogate. -/
def lowHalf (high : Nat) : List UInt8 → Option (List UInt8 × List UInt8)
  | s :: e :: a :: b :: c :: d :: rest =>
      match codeUnit a b c d with
      | some u => if s = backslash ∧ e = 0x75 ∧ IsLow u then some (Utf8.encode (joined high u), rest) else none
      | none => none
  | _ => none

/-- What stands behind `\u`. -/
def unicode : List UInt8 → Option (List UInt8 × List UInt8)
  | a :: b :: c :: d :: rest =>
      match codeUnit a b c d with
      | some u => if IsHigh u then lowHalf u rest else if IsLow u then none else some (Utf8.encode u, rest)
      | none => none
  | _ => none

/-- What a backslash means. -/
def escape : List UInt8 → Option (List UInt8 × List UInt8)
  | e :: rest => if e = 0x75 then unicode rest else (shortEscape e).map fun b => ([b], rest)
  | [] => none

/-- A string up to its closing quote. -/
def chars : Nat → List UInt8 → Option (List UInt8 × List UInt8)
  | 0, _ => none
  | _ + 1, [] => none
  | n + 1, b :: rest =>
      if b = quote then some ([], rest)
      else if b = backslash then do
        let (s, rest) ← escape rest
        let (s', rest) ← chars n rest
        some (s ++ s', rest)
      else if isPlain b then (chars n rest).map fun (s, rest) => (b :: s, rest)
      else none

mutual

def value : Nat → List UInt8 → Option (Value × List UInt8)
  | 0, _ => none
  | n + 1, bs =>
      match skipWs bs with
      | [] => none
      | b :: rest =>
          if b = quote then (chars n rest).map fun (s, rest) => (.string s, rest)
          else if b = openBracket then
            match expect closeBracket rest with
            | some rest => some (.array [], rest)
            | none => (items n rest).map fun (vs, rest) => (.array vs, rest)
          else if b = openBrace then
            match expect closeBrace rest with
            | some rest => some (.object [], rest)
            | none => (members n rest).map fun (ms, rest) => (.object ms, rest)
          else if b = 0x6e then (literal (ascii "null") (b :: rest)).map fun rest => (.null, rest)
          else if b = 0x74 then (literal (ascii "true") (b :: rest)).map fun rest => (.bool true, rest)
          else if b = 0x66 then (literal (ascii "false") (b :: rest)).map fun rest => (.bool false, rest)
          else (number (b :: rest)).map fun (t, rest) => (.number t, rest)

/-- The items up to the closing bracket. -/
def items : Nat → List UInt8 → Option (List Value × List UInt8)
  | 0, _ => none
  | n + 1, bs => do
      let (v, rest) ← value n bs
      match expect comma rest with
      | some rest => (items n rest).map fun (vs, rest) => (v :: vs, rest)
      | none => (expect closeBracket rest).map fun rest => ([v], rest)

/-- The members up to the closing brace. -/
def members : Nat → List UInt8 → Option (List (List UInt8 × Value) × List UInt8)
  | 0, _ => none
  | n + 1, bs => do
      let rest ← expect quote bs
      let (s, rest) ← chars n rest
      let rest ← expect colon rest
      let (v, rest) ← value n rest
      match expect comma rest with
      | some rest => (members n rest).map fun (ms, rest) => ((s, v) :: ms, rest)
      | none => (expect closeBrace rest).map fun rest => ([(s, v)], rest)

end

def parse (text : List UInt8) : Option Value :=
  if Utf8.Valid text then
    match value (2 * text.length + 1) text with
    | some (v, rest) => if rest.all isWs then some v else none
    | none => none
  else none

end Json
